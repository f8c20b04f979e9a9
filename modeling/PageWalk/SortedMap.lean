/-
PageWalk/SortedMap.lean

Maps kept as lists of entries with strictly ascending keys.  The order is
part of every answer (tables list benchmarks, histograms list latencies),
so it is part of the type.

Main statements: looking up after an insertion (`get?_insert`), membership
in the entries is look-up (`mem_entries_iff`), and two maps that look up
alike are equal (`ext_get?`).
-/
namespace PageWalk

/-- Entries with strictly ascending keys. -/
structure SortedMap (κ : Type) (α : Type) [Ord κ] where
  entries : List (κ × α)
  ascending : entries.Pairwise fun a b => compare a.1 b.1 = .lt

namespace SortedMap

variable {κ α β : Type} [Ord κ]

/-! ### Operations on entries -/

/-- The value at a key. -/
def lookup (k : κ) : List (κ × α) → Option α
  | [] => none
  | (k', a) :: es => if compare k k' = .eq then some a else lookup k es

/-- Entries with `a` at `k`, in place of what stood there. -/
def put (k : κ) (a : α) : List (κ × α) → List (κ × α)
  | [] => [(k, a)]
  | (k', a') :: es =>
    match compare k k' with
    | .lt => (k, a) :: (k', a') :: es
    | .eq => (k, a) :: es
    | .gt => (k', a') :: put k a es

theorem mem_put {k : κ} {a : α} {e : κ × α} {es : List (κ × α)} (h : e ∈ put k a es) :
    e = (k, a) ∨ e ∈ es := by
  induction es with
  | nil => simpa [put] using h
  | cons hd tl ih =>
    obtain ⟨k', a'⟩ := hd
    simp only [put] at h
    split at h <;> simp at h ⊢ <;> grind

section Ordered

variable [Std.TransOrd κ]

theorem ascending_put (k : κ) (a : α) {es : List (κ × α)}
    (h : es.Pairwise fun a b => compare a.1 b.1 = .lt) :
    (put k a es).Pairwise fun a b => compare a.1 b.1 = .lt := by
  induction es with
  | nil => simp [put]
  | cons hd tl ih =>
    obtain ⟨k', a'⟩ := hd
    rw [List.pairwise_cons] at h
    simp only [put]
    split
    · -- before the first entry
      rename_i hlt
      refine List.pairwise_cons.2 ⟨fun e he => ?_, List.pairwise_cons.2 h⟩
      rcases List.mem_cons.1 he with rfl | he
      · exact hlt
      · exact Std.TransCmp.lt_trans hlt (h.1 e he)
    · -- at the first entry
      rename_i heq
      refine List.pairwise_cons.2 ⟨fun e he => ?_, h.2⟩
      exact Std.TransCmp.lt_of_eq_of_lt heq (h.1 e he)
    · -- after the first entry
      rename_i hgt
      refine List.pairwise_cons.2 ⟨fun e he => ?_, ih h.2⟩
      rcases mem_put he with rfl | he
      · exact Std.OrientedCmp.lt_of_gt hgt
      · exact h.1 e he

omit [Std.TransOrd κ] in
theorem lookup_put [Std.LawfulEqOrd κ] [DecidableEq κ] (k k' : κ) (a : α)
    (es : List (κ × α)) :
    lookup k' (put k a es) = if k' = k then some a else lookup k' es := by
  induction es with
  | nil => simp [put, lookup]
  | cons hd tl ih =>
    obtain ⟨k'', a''⟩ := hd
    simp only [put]
    split
    · simp [lookup]
    · rename_i heq
      obtain rfl := Std.LawfulEqOrd.eq_of_compare heq
      by_cases hk : k' = k <;> simp [lookup, hk]
    · rename_i hgt
      have hne : k'' ≠ k := fun he => by simp [he] at hgt
      by_cases hk : k' = k''
      · simp [lookup, hk, hne]
      · simp [lookup, hk, ih]

end Ordered

/-! ### Maps -/

/-- The map without entries. -/
def empty : SortedMap κ α := ⟨[], List.Pairwise.nil⟩

instance : Inhabited (SortedMap κ α) := ⟨empty⟩

/-- The value at a key. -/
def get? (m : SortedMap κ α) (k : κ) : Option α := lookup k m.entries

/-- Whether a key has a value. -/
def contains (m : SortedMap κ α) (k : κ) : Bool := (m.get? k).isSome

/-- The keys, ascending. -/
def keys (m : SortedMap κ α) : List κ := m.entries.map (·.1)

/-- The values, by ascending keys. -/
def values (m : SortedMap κ α) : List α := m.entries.map (·.2)

/-- Whether there are no entries. -/
def isEmpty (m : SortedMap κ α) : Bool := m.entries.isEmpty

/-- The number of entries. -/
def size (m : SortedMap κ α) : Nat := m.entries.length

/-- The map with each value changed by `f`. -/
def map (f : κ → α → β) (m : SortedMap κ α) : SortedMap κ β where
  entries := m.entries.map fun (k, a) => (k, f k a)
  ascending := List.pairwise_map.2 m.ascending

/-- The map with each value changed by `f`, without those it drops. -/
def filterMap (f : κ → α → Option β) (m : SortedMap κ α) : SortedMap κ β where
  entries := m.entries.filterMap fun (k, a) => (f k a).map fun b => (k, b)
  ascending := by
    refine List.Pairwise.filterMap _ ?_ m.ascending
    rintro ⟨k, a⟩ ⟨k', a'⟩ h e he e' he'
    simp only [Option.map_eq_some_iff] at he he'
    obtain ⟨_, _, rfl⟩ := he
    obtain ⟨_, _, rfl⟩ := he'
    exact h

variable [Std.TransOrd κ]

/-- The map with `a` at `k`, in place of what stood there. -/
def insert (m : SortedMap κ α) (k : κ) (a : α) : SortedMap κ α :=
  ⟨put k a m.entries, ascending_put k a m.ascending⟩

/-- The map of a list of entries, the last of a key winning. -/
def ofList (es : List (κ × α)) : SortedMap κ α :=
  es.foldl (fun m (k, a) => m.insert k a) empty

/-! ### Look-up -/

omit [Std.TransOrd κ] in
@[simp] theorem get?_empty (k : κ) : (empty : SortedMap κ α).get? k = none := rfl

theorem get?_insert [Std.LawfulEqOrd κ] [DecidableEq κ] (m : SortedMap κ α) (k k' : κ) (a : α) :
    (m.insert k a).get? k' = if k' = k then some a else m.get? k' :=
  lookup_put k k' a m.entries

omit [Std.TransOrd κ] in
/-- An entry is what is found at its key. -/
theorem mem_entries_iff [Std.LawfulEqOrd κ] {m : SortedMap κ α} {k : κ} {a : α} :
    (k, a) ∈ m.entries ↔ m.get? k = some a := by
  obtain ⟨es, h⟩ := m
  simp only [get?]
  induction es with
  | nil => simp [lookup]
  | cons hd tl ih =>
    obtain ⟨k', a'⟩ := hd
    rw [List.pairwise_cons] at h
    by_cases hk : compare k k' = .eq
    · obtain rfl := Std.LawfulEqOrd.eq_of_compare hk
      have : (k, a) ∉ tl := fun hm => by simpa using h.1 _ hm
      simp [lookup, this, eq_comm]
    · have hne : k ≠ k' := fun he => hk (he ▸ Std.ReflCmp.compare_self)
      simp [lookup, hk, hne, ih h.2]

/-- **Maps are their look-ups.** -/
theorem ext_get? [Std.LawfulEqOrd κ] {m n : SortedMap κ α} (h : ∀ k, m.get? k = n.get? k) :
    m = n := by
  have hmem : ∀ e : κ × α, e ∈ m.entries ↔ e ∈ n.entries := fun (k, a) => by
    rw [mem_entries_iff, mem_entries_iff, h]
  have nodup : ∀ p : SortedMap κ α, p.entries.Nodup := fun p =>
    p.ascending.imp fun {a b} hab he => by subst he; simp at hab
  have hperm : m.entries.Perm n.entries :=
    (List.perm_ext_iff_of_nodup (nodup m) (nodup n)).2 hmem
  have : m.entries = n.entries :=
    hperm.eq_of_pairwise (fun a b _ _ hab hba => by
      rw [Std.OrientedCmp.gt_of_lt hab] at hba; cases hba) m.ascending n.ascending
  cases m; cases n; simpa using this

end SortedMap

end PageWalk
