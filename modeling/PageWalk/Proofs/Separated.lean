/-
PageWalk/Proofs/Separated.lean

What a separator divides a list into.  `Separated` says it without an
algorithm, and there is exactly one way: the parts that splitting gives
(`separated_iff`), one more than there are separators (`Separated.length_eq`).
-/
namespace PageWalk

variable {α : Type}

/-- To divide a list at one of its elements is to do so with the list without
its last element, or at this. -/
theorem append_singleton_eq_append_cons_iff {as before after : List α} {a b : α} :
    as ++ [a] = before ++ b :: after ↔
      (as = before ∧ a = b ∧ after = []) ∨
        ∃ rest, after = rest ++ [a] ∧ as = before ++ b :: rest := by
  constructor
  · intro heq
    rcases List.eq_nil_or_concat after with rfl | ⟨rest, last, rfl⟩
    · obtain ⟨rfl, hlast⟩ := List.append_inj' heq rfl
      exact Or.inl ⟨rfl, List.singleton_inj.1 hlast, rfl⟩
    · rw [List.concat_eq_append, ← List.cons_append, ← List.append_assoc] at heq
      obtain ⟨rfl, hlast⟩ := List.append_inj' heq rfl
      obtain rfl := List.singleton_inj.1 hlast
      exact Or.inr ⟨rest, List.concat_eq_append, rfl⟩
  · rintro (⟨rfl, rfl, rfl⟩ | ⟨rest, rfl, rfl⟩)
    · rfl
    · exact List.append_assoc ..

/-- What a separator divides a list into: parts that do not hold it, and
that are the list with it between them. -/
structure Separated (sep : α) (as : List α) (parts : List (List α)) : Prop where
  nonempty : parts ≠ []
  free : ∀ part ∈ parts, sep ∉ part
  joined : [sep].intercalate parts = as

/-- A list holds no separator, or it starts with a part and a separator. -/
theorem separated_induction (sep : α) {motive : List α → Prop}
    (single : ∀ as, sep ∉ as → motive as)
    (first : ∀ part rest, sep ∉ part → motive rest → motive (part ++ sep :: rest)) :
    ∀ as, motive as := by
  intro as
  induction hn : as.length using Nat.strongRecOn generalizing as with
  | ind n ih =>
    by_cases h : sep ∈ as
    · obtain ⟨part, rest, rfl, hpart⟩ := List.eq_append_cons_of_mem h
      refine first part rest hpart (ih rest.length ?_ rest rfl)
      rw [← hn, List.length_append, List.length_cons]
      omega
    · exact single as h

variable [BEq α] [LawfulBEq α] {sep : α} {as : List α} {parts : List (List α)}

/-- No part holds the separator. -/
theorem not_mem_of_mem_splitOn {part : List α} (h : part ∈ as.splitOn sep) : sep ∉ part := by
  revert h
  induction as using separated_induction sep with
  | single as hsep =>
    rw [List.splitOn_eq_singleton hsep, List.mem_singleton]
    rintro rfl
    exact hsep
  | first front rest hfront ih =>
    rw [List.splitOn_append_cons_self_of_not_mem hfront, List.mem_cons]
    rintro (rfl | hrest)
    · exact hfront
    · exact ih hrest

/-- There is one part more than there are separators. -/
theorem length_splitOn (sep : α) (as : List α) :
    (as.splitOn sep).length = as.count sep + 1 := by
  induction as using separated_induction sep with
  | single as hsep => rw [List.splitOn_eq_singleton hsep, List.count_eq_zero.2 hsep]; rfl
  | first part rest hpart ih =>
    rw [List.splitOn_append_cons_self_of_not_mem hpart, List.length_cons, ih, List.count_append,
      List.count_eq_zero.2 hpart, List.count_cons_self, Nat.zero_add]

theorem separated_splitOn (sep : α) (as : List α) : Separated sep as (as.splitOn sep) where
  nonempty := List.splitOn_ne_nil sep as
  free _ := not_mem_of_mem_splitOn
  joined := List.intercalate_splitOn sep

/-- **A separator divides a list in one way.** -/
theorem separated_iff : Separated sep as parts ↔ as.splitOn sep = parts := by
  constructor
  · intro h
    rw [← h.joined]
    exact List.splitOn_intercalate sep h.free h.nonempty
  · rintro rfl
    exact separated_splitOn sep as

theorem Separated.length_eq (h : Separated sep as parts) : parts.length = as.count sep + 1 := by
  rw [← separated_iff.1 h, length_splitOn]

end PageWalk
