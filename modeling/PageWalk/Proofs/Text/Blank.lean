/-
PageWalk/Proofs/Text/Blank.lean

What trimming leaves of a text: nothing of a blank one (`trim_eq_nil_iff`),
the same of a trimmed one (`trim_trim`), and no trace of a blank at the end
(`trim_append_blank`).  A text whose end alone is trimmed still starts as it
did (`isPrefix_trimEnd_iff`) and is trimmed to the same (`trim_trimEnd`).
-/
import PageWalk.Text.Blank
import Mathlib.Data.List.DropRight

namespace PageWalk.Text

theorem trim_eq (cs : List Char) : trim cs = (cs.dropWhile isBlank).rdropWhile isBlank := rfl

theorem trim_eq_nil_iff {cs : List Char} : trim cs = [] ↔ isBlankText cs = true := by
  rw [trim_eq, List.rdropWhile_eq_nil_iff, isBlankText, List.all_eq_true]
  constructor
  · intro h
    -- the first character that is left is no blank
    by_contra hnot
    have hne : cs.dropWhile isBlank ≠ [] := by
      rw [Ne, List.dropWhile_eq_nil_iff]
      exact hnot
    exact absurd (h _ (List.head_mem hne)) (by
      rw [List.head_dropWhile_not isBlank hne]
      exact Bool.false_ne_true)
  · intro h c hc
    exact h c ((List.dropWhile_suffix isBlank).subset hc)

theorem length_trim_le (cs : List Char) : (trim cs).length ≤ cs.length :=
  (List.rdropWhile_prefix _ _).length_le.trans (List.dropWhile_suffix _).length_le

theorem trim_append_blank {c : Char} (hc : isBlank c = true) (cs : List Char) :
    trim (cs ++ [c]) = trim cs := by
  rw [trim_eq, trim_eq, List.dropWhile_append]
  split
  · rename_i hnil
    rw [List.isEmpty_iff.1 hnil, List.dropWhile_cons_of_pos hc]
    rfl
  · rw [List.rdropWhile_concat_pos _ _ _ hc]

theorem trim_trim (cs : List Char) : trim (trim cs) = trim cs := by
  have hfront : (trim cs).dropWhile isBlank = trim cs := by
    rcases htrim : trim cs with - | ⟨c, rest⟩
    · rfl
    · -- what is left starts as it did before its end was trimmed
      obtain ⟨dropped, heq⟩ : trim cs <+: cs.dropWhile isBlank := List.rdropWhile_prefix isBlank _
      rw [htrim, List.cons_append] at heq
      have hhead := List.head?_dropWhile_not isBlank cs
      rw [← heq] at hhead
      exact List.dropWhile_cons_of_neg (by simpa using hhead)
  rw [trim_eq, hfront]
  exact List.rdropWhile_idempotent isBlank _

/-! ### Trimming the end alone -/

/-- A text without the blanks at its end. -/
def trimEnd (cs : List Char) : List Char := cs.rdropWhile isBlank

theorem trimEnd_append_blank {c : Char} (hc : isBlank c = true) (cs : List Char) :
    trimEnd (cs ++ [c]) = trimEnd cs :=
  List.rdropWhile_concat_pos _ _ _ hc

theorem trimEnd_append_of_not_blank {c : Char} (hc : isBlank c = false) (cs : List Char) :
    trimEnd (cs ++ [c]) = cs ++ [c] :=
  List.rdropWhile_concat_neg _ _ _ (by simp [hc])

theorem isEmpty_trimEnd (cs : List Char) : (trimEnd cs).isEmpty = isBlankText cs := by
  rw [Bool.eq_iff_iff, List.isEmpty_iff, trimEnd, List.rdropWhile_eq_nil_iff, isBlankText,
    List.all_eq_true]

theorem trim_trimEnd (cs : List Char) : trim (trimEnd cs) = trim cs := by
  induction cs using List.reverseRecOn with
  | nil => rfl
  | append_singleton cs c ih =>
    cases hc : isBlank c with
    | true => rw [trimEnd_append_blank hc, ih, trim_append_blank hc]
    | false => rw [trimEnd_append_of_not_blank hc]

/-- What ends with no blank is a front of a text exactly if it is one of what
is left of it. -/
theorem isPrefix_trimEnd_iff {init cs : List Char} {c : Char} (hc : isBlank c = false) :
    init ++ [c] <+: trimEnd cs ↔ init ++ [c] <+: cs := by
  constructor
  · intro h
    exact h.trans (List.rdropWhile_prefix _ _)
  · intro h
    induction cs using List.reverseRecOn with
    | nil => exact h
    | append_singleton cs d ih =>
      cases hd : isBlank d with
      | true =>
        rw [trimEnd_append_blank hd]
        rcases List.prefix_concat_iff.1 h with heq | h
        · obtain ⟨-, hlast⟩ := List.append_inj' heq rfl
          obtain rfl := List.singleton_inj.1 hlast
          rw [hc] at hd
          cases hd
        · exact ih h
      | false => rwa [trimEnd_append_of_not_blank hd]

end PageWalk.Text
