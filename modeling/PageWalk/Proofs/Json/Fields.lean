/-
PageWalk/Proofs/Json/Fields.lean

Values in json are found again.

What writes a value as json and what reads it from there are inverse to each
other part by part: for counters and texts, for the fields of a structure in
their order (`fields?_ofMembers`), for values that may be missing, for lists
and for maps (`mapM_entries`).
-/
import PageWalk.Json.Fields
import PageWalk.Proofs.Json.Text
import PageWalk.Proofs.Text.Numeral

namespace PageWalk.Json

/-! ### Parts that have a text -/

theorem Printable.ofMembers {members : List (String × Json)}
    (h : ∀ m ∈ members, Printable m.2) : Printable (ofMembers members) := by
  refine .object ?_ ?_
  · intro m hm
    obtain ⟨⟨name, j⟩, -, rfl⟩ := List.mem_map.1 hm
    exact ⟨name, rfl⟩
  · intro m hm
    obtain ⟨m', hm', rfl⟩ := List.mem_map.1 hm
    exact h m' hm'

theorem Printable.ofCounter {bits : Nat} (c : Counter bits) : Printable (ofCounter c) :=
  .number (.numeral c.val)

/-- Doubles have a text, also those that are no finite number. -/
theorem Printable.ofFloat (x : Float) : Printable (ofFloat x) := by
  unfold Json.ofFloat
  split
  · rename_i h
    exact .number (.render h)
  · exact .null

theorem Printable.ofOption {α : Type} {write : α → Json} (h : ∀ a, Printable (write a))
    (o : Option α) : Printable (ofOption write o) := by
  cases o with
  | none => exact .null
  | some a => exact h a

/-! ### Single values -/

@[simp] theorem counter?_ofCounter {bits : Nat} (c : Counter bits) :
    counter? (ofCounter c) = some c := by
  show (Text.numeral? (Nat.toDigits 10 c.val)).bind _ = _
  rw [Text.numeral?_toDigits]
  exact Counter.ofNat?_eq_some_iff.2 rfl

/-- A double is read back only if it is finite, as no other is written as a
number. -/
theorem isFinite_of_float? {x y : Float} (h : float? (ofFloat x) = some y) :
    x.isFinite = true := by
  unfold ofFloat at h
  split at h
  · assumption
  · cases h

@[simp] theorem tagged?_ofMembers (name : String) (j : Json) :
    tagged? (ofMembers [(name, j)]) = some (name, j) := by
  show (spelledText? (spell name)).map _ = _
  rw [spelledText?_spell]
  rfl

/-- A value that may be missing is read back if no value is written like a
missing one. -/
theorem optional?_ofOption {α : Type} {write : α → Json} {read : Json → Option α}
    (h : ∀ a, read (write a) = some a) (hnull : ∀ a, write a ≠ null) (o : Option α) :
    optional? read (some (ofOption write o)) = some o := by
  cases o with
  | none => rfl
  | some a =>
    have hread : optional? read (some (write a)) = (read (write a)).map some := by
      unfold optional?
      split
      · rename_i heq
        cases heq
      · rename_i heq
        exact absurd (Option.some.inj heq) (hnull a)
      · rename_i heq
        cases heq
        rfl
    exact hread.trans (congrArg (Option.map some) (h a))

/-! ### Lists and maps -/

theorem mapM_map_eq_some {α β : Type} {write : α → β} {read : β → Option α} {as : List α}
    (h : ∀ a ∈ as, read (write a) = some a) : (as.map write).mapM read = some as := by
  induction as with
  | nil => rfl
  | cons a as ih =>
    rw [List.forall_mem_cons] at h
    rw [List.map_cons, List.mapM_cons, h.1, ih h.2]
    rfl

/-- The entries of a map, each by its key and its value. -/
theorem mapM_entries {κ α : Type} (name : κ → String) (write : α → Json)
    {read : Bytes × Json → Option (κ × α)} (h : ∀ k a, read (spell (name k), write a) = some (k, a))
    (entries : List (κ × α)) :
    ((entries.map fun (k, a) => (name k, write a)).map fun (name, j) => (spell name, j)).mapM read
      = some entries := by
  rw [List.map_map]
  exact mapM_map_eq_some fun e _ => h e.1 e.2

/-! ### Structures -/

theorem namedMembers?_ofMembers (members : List (String × Json)) :
    namedMembers? (members.map fun (name, j) => (spell name, j)) = some members := by
  refine mapM_map_eq_some ?_
  rintro ⟨name, j⟩ -
  show (spelledText? (spell name)).map _ = _
  rw [spelledText?_spell]
  rfl

/-- Where no name is doubled, a member is the only one of its name. -/
theorem filter_name {members : List (String × Json)} (hnodup : (members.map (·.1)).Nodup)
    {m : String × Json} (hm : m ∈ members) : members.filter (·.1 == m.1) = [m] := by
  induction members with
  | nil => cases hm
  | cons m' ms ih =>
    rw [List.map_cons, List.nodup_cons] at hnodup
    rcases List.mem_cons.1 hm with rfl | hm
    · rw [List.filter_cons, if_pos (beq_self_eq_true _), List.filter_eq_nil_iff.2]
      intro e he heq
      exact hnodup.1 (List.mem_map.2 ⟨e, he, beq_iff_eq.1 heq⟩)
    · have hne : ¬ (m'.1 == m.1) = true := by
        intro heq
        exact hnodup.1 (List.mem_map.2 ⟨m, hm, (beq_iff_eq.1 heq).symm⟩)
      rw [List.filter_cons, if_neg hne]
      exact ih hnodup.2 hm

theorem member?_of_mem {members : List (String × Json)} (hnodup : (members.map (·.1)).Nodup)
    {m : String × Json} (hm : m ∈ members) {field : FieldSpec} (hname : field.name = m.1) :
    member? members field = some (some m.2) := by
  unfold member?
  rw [hname, filter_name hnodup hm]

/-- **The fields of a structure** are found in the order they were written. -/
theorem fields?_ofMembers (closed : Bool) {fields : List FieldSpec}
    {members : List (String × Json)} (hnames : members.map (·.1) = fields.map (·.name))
    (hnodup : (fields.map (·.name)).Nodup) :
    (ofMembers members).fields? closed fields = some (members.map fun m => some m.2) := by
  -- every member names a field
  have hknown : members.any (fun m => fields.all (·.name != m.1)) = false := by
    rw [List.any_eq_false]
    intro m hm hall
    have hmem : m.1 ∈ fields.map (·.name) := hnames ▸ List.mem_map_of_mem hm
    obtain ⟨field, hfield, hname⟩ := List.mem_map.1 hmem
    have hne := List.all_eq_true.1 hall field hfield
    simp [hname] at hne
  rw [← hnames] at hnodup
  -- and every field its member
  have hfound : ∀ (fs : List FieldSpec) (ms : List (String × Json)), (∀ m ∈ ms, m ∈ members) →
      ms.map (·.1) = fs.map (·.name) →
      fs.mapM (member? members) = some (ms.map fun m => some m.2) := by
    intro fs
    induction fs with
    | nil =>
      intro ms _ heq
      rw [List.map_eq_nil_iff.1 heq]
      rfl
    | cons field fs ih =>
      intro ms hmem heq
      cases ms with
      | nil => cases heq
      | cons m ms =>
        rw [List.forall_mem_cons] at hmem
        injection heq with hname heq
        rw [List.mapM_cons, member?_of_mem hnodup hmem.1 hname.symm, ih ms hmem.2 heq]
        rfl
  unfold ofMembers fields?
  simp only [namedMembers?_ofMembers, Option.bind_eq_bind, Option.bind_some, hknown,
    Bool.and_false, Bool.false_eq_true, if_false]
  exact hfound fields members (fun _ hm => hm) hnames

end PageWalk.Json
