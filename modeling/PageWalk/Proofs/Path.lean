/-
PageWalk/Proofs/Path.lean

The steps of paths.  A step has no slash, and the path of a name in a
directory has the steps of the directory and the name (`steps_join`).
-/
import PageWalk.Path
import PageWalk.Proofs.Separated

namespace PageWalk

namespace Path

variable {p : Path} {name : Bytes}

theorem slash_not_mem_of_mem_steps (h : name ∈ p.steps) : slash ∉ name :=
  not_mem_of_mem_splitOn (List.mem_filter.1 h).1

/-- What a file name can be: a step, but not one of dots only. -/
theorem fileName?_eq_some (h : p.fileName? = some name) :
    name ≠ [] ∧ slash ∉ name ∧ name ≠ [dot] ∧ name ≠ [dot, dot] := by
  unfold fileName? at h
  rw [Option.filter_eq_some_iff] at h
  obtain ⟨hlast, hdots⟩ := h
  obtain ⟨hstep, hdot⟩ := List.mem_filter.1 (List.mem_of_getLast? hlast)
  have hne := (List.mem_filter.1 hstep).2
  refine ⟨?_, slash_not_mem_of_mem_steps hstep, ?_, ?_⟩
  · simpa using hne
  · simpa using hdot
  · simpa using hdots

/-! ### Names in directories -/

theorem head?_ne_slash (h : slash ∉ name) : (name.head? == some slash) = false := by
  rw [beq_eq_false_iff_ne]
  intro heq
  exact h (List.mem_of_head? heq)

theorem steps_of_name (hne : name ≠ []) (h : slash ∉ name) : (⟨name⟩ : Path).steps = [name] := by
  unfold steps
  rw [List.splitOn_eq_singleton h]
  simp [hne]

theorem steps_append_slash (bs cs : Bytes) :
    (⟨bs ++ slash :: cs⟩ : Path).steps = (⟨bs⟩ : Path).steps ++ (⟨cs⟩ : Path).steps := by
  unfold steps
  rw [List.splitOn_append_cons_self, List.filter_append]

theorem steps_join (hne : name ≠ []) (h : slash ∉ name) : (p.join name).steps = p.steps ++ [name] := by
  obtain ⟨bytes⟩ := p
  unfold join
  rw [head?_ne_slash h, if_neg Bool.false_ne_true, ← steps_of_name hne h]
  dsimp only
  split
  · rename_i hend
    rcases List.eq_nil_or_concat bytes with rfl | ⟨front, last, rfl⟩
    · rfl
    · -- the slash is there already
      obtain rfl : last = slash := by simpa using hend
      rw [List.concat_eq_append, List.append_assoc, List.singleton_append, steps_append_slash,
        steps_append_slash]
      simp [steps]
  · exact steps_append_slash bytes name

theorem isAbsolute_join (h : slash ∉ name) : (p.join name).isAbsolute = p.isAbsolute := by
  obtain ⟨bytes⟩ := p
  have hhead := head?_ne_slash h
  unfold join isAbsolute
  rw [hhead, if_neg Bool.false_ne_true]
  cases bytes with
  | nil => exact hhead
  | cons b bs => split <;> rfl

end Path

end PageWalk
