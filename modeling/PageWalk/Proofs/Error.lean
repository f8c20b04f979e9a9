/-
PageWalk/Proofs/Error.lean

Results that may be errors: what it takes for one to be no error, and that
an error which ended some attempt is told in some words.
-/
import PageWalk.Error

namespace PageWalk

variable {ε α β : Type}

/-- One computation after another succeeds if both do. -/
theorem bind_eq_ok_iff {x : Except ε α} {f : α → Except ε β} {b : β} :
    (x >>= f) = .ok b ↔ ∃ a, x = .ok a ∧ f a = .ok b := by
  cases x with
  | error e =>
    constructor
    · intro h
      cases h
    · rintro ⟨a, h, -⟩
      cases h
  | ok a =>
    constructor
    · intro h
      exact ⟨a, rfl, h⟩
    · rintro ⟨a', h, hf⟩
      cases h
      exact hf

theorem map_eq_ok_iff {x : Except ε α} {f : α → β} {b : β} :
    x.map f = .ok b ↔ ∃ a, x = .ok a ∧ f a = b := by
  cases x with
  | error e =>
    constructor
    · intro h
      cases h
    · rintro ⟨a, h, -⟩
      cases h
  | ok a =>
    constructor
    · intro h
      exact ⟨a, rfl, Except.ok.inj h⟩
    · rintro ⟨a', h, hf⟩
      cases h
      exact congrArg _ hf

theorem map_eq_error_iff {x : Except ε α} {f : α → β} {e : ε} :
    x.map f = .error e ↔ x = .error e := by
  cases x with
  | error e' =>
    constructor
    · intro h
      exact congrArg _ (Except.error.inj h)
    · intro h
      exact congrArg _ (Except.error.inj h)
  | ok a => exact iff_of_false nofun nofun

theorem mapM_eq_ok {f : α → Except ε β} (as : List α) (h : ∀ a ∈ as, ∃ b, f a = .ok b) :
    ∃ bs, as.mapM f = .ok bs := by
  induction as with
  | nil => exact ⟨[], rfl⟩
  | cons a as ih =>
    obtain ⟨b, hb⟩ := h a List.mem_cons_self
    obtain ⟨bs, hbs⟩ := ih fun a' ha' => h a' (List.mem_cons_of_mem _ ha')
    rw [List.mapM_cons, hb, hbs]
    exact ⟨b :: bs, rfl⟩

theorem mapM_cons_eq_ok_iff {f : α → Except ε β} {a : α} {as : List α} {bs : List β} :
    (a :: as).mapM f = .ok bs ↔ ∃ b bs', f a = .ok b ∧ as.mapM f = .ok bs' ∧ bs = b :: bs' := by
  rw [List.mapM_cons, bind_eq_ok_iff]
  constructor
  · rintro ⟨b, hb, h⟩
    obtain ⟨bs', hbs, h⟩ := bind_eq_ok_iff.1 h
    exact ⟨b, bs', hb, hbs, (Except.ok.inj h).symm⟩
  · rintro ⟨b, bs', hb, hbs, rfl⟩
    exact ⟨b, hb, bind_eq_ok_iff.2 ⟨bs', hbs, rfl⟩⟩

theorem length_of_mapM_eq_ok {f : α → Except ε β} {as : List α} {bs : List β}
    (h : as.mapM f = .ok bs) : bs.length = as.length := by
  induction as generalizing bs with
  | nil =>
    obtain rfl := Except.ok.inj h
    rfl
  | cons a as ih =>
    obtain ⟨b, bs', -, hbs, rfl⟩ := mapM_cons_eq_ok_iff.1 h
    rw [List.length_cons, List.length_cons, ih hbs]

/-- What succeeds for each element does so in any order. -/
theorem mapM_perm {f : α → Except ε β} {as as' : List α} (h : as.Perm as') {bs : List β}
    (hok : as.mapM f = .ok bs) : ∃ bs', as'.mapM f = .ok bs' ∧ bs.Perm bs' := by
  induction h generalizing bs with
  | nil => exact ⟨bs, hok, .refl _⟩
  | cons a h ih =>
    obtain ⟨b, bs, hb, hbs, rfl⟩ := mapM_cons_eq_ok_iff.1 hok
    obtain ⟨bs', hbs', hperm⟩ := ih hbs
    exact ⟨b :: bs', mapM_cons_eq_ok_iff.2 ⟨b, bs', hb, hbs', rfl⟩, hperm.cons b⟩
  | swap a a' as =>
    obtain ⟨b', rest, hb', hrest, rfl⟩ := mapM_cons_eq_ok_iff.1 hok
    obtain ⟨b, bs, hb, hbs, rfl⟩ := mapM_cons_eq_ok_iff.1 hrest
    exact ⟨b :: b' :: bs, mapM_cons_eq_ok_iff.2
      ⟨b, b' :: bs, hb, mapM_cons_eq_ok_iff.2 ⟨b', bs, hb', hbs, rfl⟩, rfl⟩, .swap b b' bs⟩
  | trans _ _ ih ih' =>
    obtain ⟨bs', hbs', hperm⟩ := ih hok
    obtain ⟨bs'', hbs'', hperm'⟩ := ih' hbs'
    exact ⟨bs'', hbs'', hperm.trans hperm'⟩

/-! ### Messages -/

theorem append_ne_empty {s : String} (h : s ≠ "") (t : String) : s ++ t ≠ "" := by
  intro heq
  exact h (String.append_eq_empty_iff.1 heq).1

/-- Every wording of an attempt starts with some words. -/
theorem Attempt.message_ne_empty (a : Attempt) : a.message ≠ "" := by
  unfold Attempt.message
  split <;> (repeat apply append_ne_empty) <;> decide

/-- An error that ended an attempt is told in some words, unless its cause
was unforeseen. -/
theorem Error.message_ne_empty {e : Error} (h : e.attempts ≠ [])
    (hforeseen : e.cause.isUnforeseen = false) : e.message ≠ "" := by
  obtain ⟨a, as, has⟩ := List.exists_cons_of_ne_nil (mt List.reverse_eq_nil_iff.1 h)
  unfold Error.message Error.texts
  rw [hforeseen, has]
  show String.intercalate ": " (a.message :: (as.map Attempt.message ++ _)) ≠ ""
  generalize as.map Attempt.message ++ e.cause.message?.toList = texts
  cases texts with
  | nil =>
    rw [String.intercalate_singleton]
    exact a.message_ne_empty
  | cons text texts =>
    rw [String.intercalate_cons_cons]
    apply append_ne_empty
    apply append_ne_empty
    exact a.message_ne_empty

end PageWalk
