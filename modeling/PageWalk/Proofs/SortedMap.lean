/-
PageWalk/Proofs/SortedMap.lean

Maps are built up from their entries: inserting entries with different keys
one after the other gives the map that looks each of them up, and so the
entries of a map give that map again (`foldl_insert_entries`), in whatever
order they are inserted (`perm_ofList`, `ofList_eq_of_perm`).  Changing or
dropping values changes what is found at each key by itself (`get?_map`,
`get?_filterMap`).

Sums over the entries of a map (`total`) follow its insertions: the new entry
is added and the one that stood at its key is taken away (`total_insert`).
-/
import PageWalk.SortedMap
import Mathlib.Algebra.GroupWithZero.Nat
import Mathlib.Algebra.Order.BigOperators.Group.List
import Mathlib.Algebra.Order.Group.Nat

namespace PageWalk.SortedMap

variable {κ α : Type} [Ord κ] [Std.TransOrd κ] [Std.LawfulEqOrd κ] [DecidableEq κ]

omit [Std.TransOrd κ] in
theorem lookup_cons (k : κ) (e : κ × α) (es : List (κ × α)) :
    lookup k (e :: es) = if k = e.1 then some e.2 else lookup k es := by
  show (if compare k e.1 = .eq then _ else _) = _
  by_cases hk : k = e.1
  · rw [if_pos hk, if_pos (by rw [hk]; exact Std.ReflCmp.compare_self)]
  · rw [if_neg hk, if_neg fun h => hk (Std.LawfulEqOrd.eq_of_compare h)]

omit [Std.TransOrd κ] in
theorem lookup_eq_none {k : κ} {es : List (κ × α)} (h : ∀ e ∈ es, k ≠ e.1) :
    lookup k es = none := by
  induction es with
  | nil => rfl
  | cons e es ih =>
    rw [lookup_cons, if_neg (h e List.mem_cons_self)]
    apply ih
    intro e' he'
    exact h e' (List.mem_cons_of_mem _ he')

omit [Std.TransOrd κ] in
/-- Where no two keys are equal, any entry is found at its key. -/
theorem lookup_eq_some_iff {k : κ} {a : α} {es : List (κ × α)}
    (h : es.Pairwise fun a b => a.1 ≠ b.1) : lookup k es = some a ↔ (k, a) ∈ es := by
  induction es with
  | nil => simp [lookup]
  | cons e es ih =>
    rw [List.pairwise_cons] at h
    rw [lookup_cons, List.mem_cons]
    by_cases hk : k = e.1
    · subst hk
      have hnot : (e.1, a) ∉ es := fun hmem => h.1 _ hmem rfl
      simp [hnot, Prod.ext_iff, eq_comm]
    · rw [if_neg hk, ih h.2]
      simp [Prod.ext_iff, hk]

/-- What is found after some insertions: what was inserted at the key, and
else what was there. -/
theorem get?_foldl_insert {es : List (κ × α)} (h : es.Pairwise fun a b => a.1 ≠ b.1)
    (m : SortedMap κ α) (k : κ) :
    (es.foldl (fun m e => m.insert e.1 e.2) m).get? k = (lookup k es).or (m.get? k) := by
  induction es generalizing m with
  | nil => rfl
  | cons e es ih =>
    rw [List.pairwise_cons] at h
    rw [List.foldl_cons, ih h.2, get?_insert, lookup_cons]
    by_cases hk : k = e.1
    · subst hk
      rw [if_pos rfl, if_pos rfl, lookup_eq_none h.1]
      rfl
    · rw [if_neg hk, if_neg hk]

omit [Std.TransOrd κ] [DecidableEq κ] in
theorem keys_ne (m : SortedMap κ α) : m.entries.Pairwise fun a b => a.1 ≠ b.1 := by
  refine m.ascending.imp ?_
  intro a b hlt heq
  have hself : compare b.1 b.1 = .eq := Std.ReflCmp.compare_self
  rw [heq, hself] at hlt
  cases hlt

/-- **The entries of a map** give that map. -/
theorem foldl_insert_entries (m : SortedMap κ α) :
    m.entries.foldl (fun m e => m.insert e.1 e.2) empty = m := by
  apply ext_get?
  intro k
  rw [get?_foldl_insert m.keys_ne, get?_empty, Option.or_none]
  rfl

/-! ### Entries in any order -/

omit [Std.TransOrd κ] in
/-- Where no two keys are equal, what is found tells the entries. -/
theorem perm_entries_iff {m : SortedMap κ α} {es : List (κ × α)}
    (h : es.Pairwise fun a b => a.1 ≠ b.1) :
    m.entries.Perm es ↔ ∀ k, m.get? k = lookup k es := by
  have hnodup : ∀ {es : List (κ × α)}, (es.Pairwise fun a b => a.1 ≠ b.1) → es.Nodup :=
    fun h => h.imp fun hne heq => hne (congrArg Prod.fst heq)
  rw [List.perm_ext_iff_of_nodup (hnodup m.keys_ne) (hnodup h)]
  constructor
  · intro hmem k
    ext a
    rw [← mem_entries_iff, hmem, lookup_eq_some_iff h]
  · rintro hget ⟨k, a⟩
    rw [mem_entries_iff, hget, lookup_eq_some_iff h]

/-- **The map of entries with different keys** has these entries. -/
theorem perm_ofList {es : List (κ × α)} (h : es.Pairwise fun a b => a.1 ≠ b.1) :
    (ofList es).entries.Perm es := by
  rw [perm_entries_iff h]
  intro k
  exact (get?_foldl_insert h empty k).trans (Option.or_none ..)

/-- The entries of a map, in any order, give that map. -/
theorem ofList_eq_of_perm {m : SortedMap κ α} {es : List (κ × α)} (h : m.entries.Perm es) :
    ofList es = m := by
  have hne := (h.pairwise_iff fun hab => Ne.symm hab).1 m.keys_ne
  apply ext_get?
  intro k
  rw [(perm_entries_iff hne).1 (perm_ofList hne), (perm_entries_iff hne).1 h]

/-! ### Keys, and changing values -/

section Keys

omit [Std.TransOrd κ] [DecidableEq κ]

theorem mem_keys_iff {m : SortedMap κ α} {k : κ} : k ∈ m.keys ↔ ∃ a, m.get? k = some a := by
  unfold keys
  rw [List.mem_map]
  constructor
  · rintro ⟨⟨k, a⟩, hmem, rfl⟩
    exact ⟨a, mem_entries_iff.1 hmem⟩
  · rintro ⟨a, ha⟩
    exact ⟨(k, a), mem_entries_iff.2 ha, rfl⟩

theorem contains_iff {m : SortedMap κ α} {k : κ} : m.contains k = true ↔ k ∈ m.keys := by
  rw [mem_keys_iff]
  exact Option.isSome_iff_exists

omit [Std.LawfulEqOrd κ] in
theorem ascending_keys (m : SortedMap κ α) :
    m.keys.Pairwise fun k k' => compare k k' = .lt :=
  List.pairwise_map.2 m.ascending

omit [Std.LawfulEqOrd κ] in
@[simp] theorem keys_map {β : Type} (f : κ → α → β) (m : SortedMap κ α) :
    (m.map f).keys = m.keys :=
  List.map_map

omit [Std.LawfulEqOrd κ] in
theorem isEmpty_iff {m : SortedMap κ α} : m.isEmpty = true ↔ ∀ k, k ∉ m.keys := by
  unfold isEmpty keys
  rw [List.isEmpty_iff, ← List.eq_nil_iff_forall_not_mem, List.map_eq_nil_iff]

theorem get?_map {β : Type} (f : κ → α → β) (m : SortedMap κ α) (k : κ) :
    (m.map f).get? k = (m.get? k).map (f k) := by
  ext b
  rw [← mem_entries_iff, Option.map_eq_some_iff]
  unfold map
  rw [List.mem_map]
  constructor
  · rintro ⟨⟨k', a⟩, hmem, heq⟩
    cases heq
    exact ⟨a, mem_entries_iff.1 hmem, rfl⟩
  · rintro ⟨a, ha, rfl⟩
    exact ⟨(k, a), mem_entries_iff.2 ha, rfl⟩

theorem get?_filterMap {β : Type} (f : κ → α → Option β) (m : SortedMap κ α) (k : κ) :
    (m.filterMap f).get? k = (m.get? k).bind (f k) := by
  ext b
  rw [← mem_entries_iff, Option.bind_eq_some_iff]
  unfold filterMap
  rw [List.mem_filterMap]
  constructor
  · rintro ⟨⟨k', a⟩, hmem, heq⟩
    obtain ⟨b', hb, heq⟩ := Option.map_eq_some_iff.1 heq
    cases heq
    exact ⟨a, mem_entries_iff.1 hmem, hb⟩
  · rintro ⟨a, ha, hb⟩
    exact ⟨(k, a), mem_entries_iff.2 ha, Option.map_eq_some_iff.2 ⟨b, hb, rfl⟩⟩

end Keys

/-! ### Sums over entries -/

/-- The sum of what `f` gives for each entry. -/
def total (f : κ → α → Nat) (m : SortedMap κ α) : Nat := (m.entries.map fun e => f e.1 e.2).sum

omit [Std.TransOrd κ] [Std.LawfulEqOrd κ] [DecidableEq κ] in
@[simp] theorem total_empty (f : κ → α → Nat) : (empty : SortedMap κ α).total f = 0 := rfl

/-- Putting an entry takes away what stood at its key, and adds the entry. -/
theorem sum_put (f : κ → α → Nat) (k : κ) (a : α) {es : List (κ × α)}
    (h : es.Pairwise fun a b => compare a.1 b.1 = .lt) :
    ((put k a es).map fun e => f e.1 e.2).sum + (lookup k es).elim 0 (f k)
      = (es.map fun e => f e.1 e.2).sum + f k a := by
  induction es with
  | nil => simp [put, lookup]
  | cons e es ih =>
    obtain ⟨k', a'⟩ := e
    rw [List.pairwise_cons] at h
    rw [lookup_cons]
    unfold put
    split
    · -- before the first entry, so at none of them
      rename_i hlt
      have hne : ∀ e ∈ (k', a') :: es, k ≠ e.1 := by
        intro e he heq
        have hself : compare k e.1 = .eq := heq ▸ Std.ReflCmp.compare_self
        rcases List.mem_cons.1 he with rfl | he
        · rw [hlt] at hself; cases hself
        · rw [Std.TransCmp.lt_trans hlt (h.1 e he)] at hself; cases hself
      rw [← lookup_cons, lookup_eq_none hne]
      simp [Nat.add_comm]
    · -- at the first entry
      rename_i heq
      obtain rfl := Std.LawfulEqOrd.eq_of_compare heq
      simp only [if_pos, List.map_cons, List.sum_cons, Option.elim_some]
      omega
    · -- after the first entry
      rename_i hgt
      have hne : k ≠ k' := fun heq => by simp [heq] at hgt
      have hsum := ih h.2
      simp only [if_neg hne, List.map_cons, List.sum_cons]
      omega

theorem total_insert (f : κ → α → Nat) (m : SortedMap κ α) (k : κ) (a : α) :
    (m.insert k a).total f + (m.get? k).elim 0 (f k) = m.total f + f k a :=
  sum_put f k a m.ascending

omit [Std.TransOrd κ] [Std.LawfulEqOrd κ] [DecidableEq κ] in
theorem total_mono {f g : κ → α → Nat} (h : ∀ k a, f k a ≤ g k a) (m : SortedMap κ α) :
    m.total f ≤ m.total g :=
  List.sum_le_sum fun e _ => h e.1 e.2

omit [Std.TransOrd κ] in
theorem sum_single (f : α → Nat) (k : κ) {es : List (κ × α)}
    (h : es.Pairwise fun a b => a.1 ≠ b.1) :
    (es.map fun e => if e.1 = k then f e.2 else 0).sum = (lookup k es).elim 0 f := by
  induction es with
  | nil => rfl
  | cons e es ih =>
    rw [List.pairwise_cons] at h
    rw [List.map_cons, List.sum_cons, ih h.2, lookup_cons]
    by_cases hk : k = e.1
    · subst hk
      simp [lookup_eq_none h.1]
    · simp [hk, Ne.symm hk]

omit [Std.TransOrd κ] in
/-- A sum over the entries at one key. -/
theorem total_single (f : α → Nat) (m : SortedMap κ α) (k : κ) :
    (m.total fun k' a => if k' = k then f a else 0) = (m.get? k).elim 0 f :=
  sum_single f k m.keys_ne

omit [Std.TransOrd κ] [DecidableEq κ] in
/-- What `f` gives for one entry is at most the sum. -/
theorem le_total (f : κ → α → Nat) {m : SortedMap κ α} {k : κ} {a : α} (h : m.get? k = some a) :
    f k a ≤ m.total f :=
  List.le_sum_of_mem (List.mem_map.2 ⟨(k, a), mem_entries_iff.2 h, rfl⟩)

end PageWalk.SortedMap
