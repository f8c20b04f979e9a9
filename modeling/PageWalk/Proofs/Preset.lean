/-
PageWalk/Proofs/Preset.lean

Which preset a name stands for.

Putting a preset among others changes what is found under its own name and
nothing else (`find?_put`).  So what is found after a merge is the last preset
that was declared under the name, or else the one that is built in
(`InForce`, `find?_merge_builtin_eq_some_iff`).

A merge never has two presets of one name: a name keeps its place, and new
names come after the others in the order in which they are declared first
(`map_name_merge`).  Hence the presets of a config file (`allPresets_by_name`).
-/
import PageWalk.Config.File

namespace PageWalk.Preset

variable {name : String} {p : Preset} {base declared : List Preset}

/-! ### Merging -/

theorem find?_put (name : String) (p : Preset) (presets : List Preset) :
    find? name (put p presets) = if p.name = name then some p else find? name presets := by
  unfold find?
  induction presets with
  | nil => by_cases hp : p.name = name <;> simp [put, hp]
  | cons q presets ih =>
    unfold put
    split
    · rename_i hq
      by_cases hp : p.name = name <;> simp [hq, hp]
    · rename_i hq
      rw [List.find?_cons, List.find?_cons, ih]
      split
      · rename_i hn
        have hp : p.name ≠ name := fun hp => hq ((eq_of_beq hn).trans hp.symm)
        rw [if_neg hp]
      · rfl

/-- **What a merge has under a name**: the last that was declared under it, or
what was there before. -/
theorem find?_merge (name : String) (base declared : List Preset) :
    find? name (merge base declared)
      = (declared.reverse.find? (·.name == name)).or (find? name base) := by
  unfold merge
  induction declared generalizing base with
  | nil => rfl
  | cons p declared ih =>
    rw [List.foldl_cons, ih, find?_put, List.reverse_cons, List.find?_append]
    by_cases hp : p.name = name <;> simp [hp]

/-! ### Presets in force -/

/-- The preset that a name stands for: the last that is declared under it, or
the one that is built in if none is declared. -/
inductive InForce (declared : List Preset) (name : String) : Preset → Prop
  | declared {p : Preset} {before after : List Preset} (split : declared = before ++ p :: after)
      (named : p.name = name) (last : ∀ q ∈ after, q.name ≠ name) : InForce declared name p
  | builtin {p : Preset} (none : ∀ q ∈ declared, q.name ≠ name) (mem : p ∈ builtin)
      (named : p.name = name) : InForce declared name p

theorem InForce.name_eq (h : InForce declared name p) : p.name = name := by
  cases h <;> assumption

/-- Where no two presets have one name, each is found under its own. -/
theorem find?_eq_some_iff (h : (base.map (·.name)).Nodup) :
    find? name base = some p ↔ p ∈ base ∧ p.name = name := by
  unfold find?
  induction base with
  | nil => simp
  | cons q base ih =>
    rw [List.map_cons, List.nodup_cons] at h
    rw [List.find?_cons, List.mem_cons]
    by_cases hq : q.name = name
    · subst hq
      have hother : p.name = q.name → p ∉ base := fun heq hp =>
        h.1 (heq ▸ List.mem_map_of_mem hp)
      simp only [beq_self_eq_true, Option.some_inj]
      constructor
      · rintro rfl
        exact ⟨Or.inl rfl, rfl⟩
      · rintro ⟨rfl | hp, hname⟩
        · rfl
        · exact absurd hp (hother hname)
    · rw [beq_eq_false_iff_ne.2 hq]
      dsimp only
      rw [ih h.2]
      constructor
      · rintro ⟨hp, hname⟩
        exact ⟨Or.inr hp, hname⟩
      · rintro ⟨rfl | hp, hname⟩
        · exact absurd hname hq
        · exact ⟨hp, hname⟩

theorem find?_builtin_eq_some_iff : find? name builtin = some p ↔ p ∈ builtin ∧ p.name = name :=
  find?_eq_some_iff (by decide)

/-- What the last declaration under a name gives. -/
theorem find?_reverse_eq_some_iff :
    declared.reverse.find? (·.name == name) = some p ↔
      p.name = name ∧ ∃ before after, declared = before ++ p :: after ∧
        ∀ q ∈ after, q.name ≠ name := by
  rw [List.find?_eq_some_iff_append, beq_iff_eq]
  refine and_congr_right fun _ => ?_
  constructor
  · rintro ⟨after, before, hsplit, hlast⟩
    refine ⟨before.reverse, after.reverse, ?_, fun q hq => ?_⟩
    · rw [← List.reverse_reverse declared, hsplit]
      simp
    · simpa using hlast q (List.mem_reverse.1 hq)
  · rintro ⟨before, after, rfl, hlast⟩
    refine ⟨after.reverse, before.reverse, by simp, fun q hq => ?_⟩
    simpa using hlast q (List.mem_reverse.1 hq)

/-- **The preset in force** is what is found after a merge. -/
theorem find?_merge_builtin_eq_some_iff :
    find? name (merge builtin declared) = some p ↔ InForce declared name p := by
  have hnone : declared.reverse.find? (·.name == name) = none ↔ ∀ q ∈ declared, q.name ≠ name := by
    simp
  rw [find?_merge, Option.or_eq_some_iff, find?_builtin_eq_some_iff, find?_reverse_eq_some_iff,
    hnone]
  constructor
  · rintro (⟨hname, before, after, hsplit, hlast⟩ | ⟨hnone, hp, hname⟩)
    · exact .declared hsplit hname hlast
    · exact .builtin hnone hp hname
  · rintro (⟨hsplit, hname, hlast⟩ | ⟨hnone, hp, hname⟩)
    · exact Or.inl ⟨hname, _, _, hsplit, hlast⟩
    · exact Or.inr ⟨hnone, hp, hname⟩

/-- A name stands for a preset if one that is built in or declared has it. -/
theorem exists_inForce_iff :
    (∃ p, InForce declared name p) ↔ ∃ p ∈ builtin ++ declared, p.name = name := by
  constructor
  · rintro ⟨p, ⟨rfl, hname, -⟩ | ⟨-, hp, hname⟩⟩
    · exact ⟨p, by simp, hname⟩
    · exact ⟨p, List.mem_append_left _ hp, hname⟩
  · rintro ⟨p, hp, hname⟩
    have hfound : (find? name (merge builtin declared)).isSome := by
      rw [find?_merge, Option.isSome_or, Bool.or_eq_true, List.find?_isSome]
      rcases List.mem_append.1 hp with hp | hp
      · exact Or.inr (by rw [find?_builtin_eq_some_iff.2 ⟨hp, hname⟩]; rfl)
      · exact Or.inl ⟨p, List.mem_reverse.2 hp, by simpa using hname⟩
    obtain ⟨q, hq⟩ := Option.isSome_iff_exists.1 hfound
    exact ⟨q, find?_merge_builtin_eq_some_iff.1 hq⟩

/-! ### The names of a merge -/

/-- The names that are declared and that `base` does not have, each where it is
declared first. -/
def newNames (base declared : List Preset) : List String :=
  ((declared.map (·.name)).filter fun name => name ∉ base.map (·.name)).eraseDups

/-- A preset is put in the place of its name, if there is one. -/
theorem map_name_put (p : Preset) (presets : List Preset) :
    (put p presets).map (·.name)
      = if p.name ∈ presets.map (·.name) then presets.map (·.name)
        else presets.map (·.name) ++ [p.name] := by
  induction presets with
  | nil => rfl
  | cons q presets ih =>
    unfold put
    by_cases hq : q.name = p.name
    · simp [hq]
    · rw [if_neg hq, List.map_cons, ih]
      by_cases hp : p.name ∈ presets.map (·.name) <;> simp [hp, Ne.symm hq]

theorem nodup_put (p : Preset) (h : (base.map (·.name)).Nodup) :
    ((put p base).map (·.name)).Nodup := by
  rw [map_name_put]
  split
  · exact h
  · rename_i hp
    rw [List.nodup_append]
    refine ⟨h, List.pairwise_singleton _ _, ?_⟩
    intro name hname name' hname' heq
    obtain rfl := List.mem_singleton.1 hname'
    exact hp (heq ▸ hname)

theorem nodup_merge (declared : List Preset) (h : (base.map (·.name)).Nodup) :
    ((merge base declared).map (·.name)).Nodup := by
  induction declared generalizing base with
  | nil => exact h
  | cons p declared ih => exact ih (nodup_put p h)

/-- **The names of a merge** are those there were, and then the new ones in the
order of their first declarations. -/
theorem map_name_merge (base declared : List Preset) :
    (merge base declared).map (·.name) = base.map (·.name) ++ newNames base declared := by
  induction declared generalizing base with
  | nil => exact (List.append_nil _).symm
  | cons p declared ih =>
    have hmerge : merge base (p :: declared) = merge (put p base) declared := rfl
    rw [hmerge, ih]
    unfold newNames
    rw [map_name_put, List.map_cons, List.filter_cons]
    by_cases hp : p.name ∈ base.map (·.name)
    · simp [hp]
    · -- a new name: it is not new any more further on
      simp only [hp, not_false_eq_true, decide_true, if_true, if_false, List.append_assoc,
        List.singleton_append, List.eraseDups_cons, List.filter_filter]
      congr 3
      apply List.filter_congr
      intro name _
      by_cases hname : name = p.name <;> simp [hname]

/-! ### Merging again -/

theorem put_append (h : p.name ∉ base.map (·.name)) (presets : List Preset) :
    put p (base ++ presets) = base ++ put p presets := by
  induction base with
  | nil => rfl
  | cons q base ih =>
    rw [List.map_cons, List.mem_cons, not_or] at h
    rw [List.cons_append, put, if_neg (Ne.symm h.1), ih h.2, List.cons_append]

/-- Presets whose names begin with those of `base` all take their places: the
presets before are left as they are. -/
theorem merge_append (presets : List Preset)
    (hnames : base.map (·.name) <+: declared.map (·.name))
    (hnodup : ((presets ++ declared).map (·.name)).Nodup) :
    merge (presets ++ base) declared = presets ++ declared := by
  induction declared generalizing presets base with
  | nil =>
    obtain rfl : base = [] := List.map_eq_nil_iff.1 (List.prefix_nil.1 hnames)
    rfl
  | cons p declared ih =>
    have hnew : p.name ∉ presets.map (·.name) := by
      rw [List.map_append, List.map_cons, List.nodup_append] at hnodup
      intro hp
      exact hnodup.2.2 _ hp _ List.mem_cons_self rfl
    rw [List.append_cons] at hnodup
    have hmerge : ∀ qs, merge qs (p :: declared) = merge (put p qs) declared := fun _ => rfl
    rw [hmerge, put_append hnew, List.append_cons]
    cases base with
    | nil =>
      -- nothing is left to be replaced
      have hput : presets ++ put p [] = (presets ++ [p]) ++ [] := (List.append_nil _).symm
      rw [hput]
      exact ih _ List.nil_prefix hnodup
    | cons q base =>
      rw [List.map_cons, List.map_cons, List.cons_prefix_cons] at hnames
      rw [put, if_pos hnames.1, List.append_cons]
      exact ih _ hnames.2 hnodup

/-- What comes of a merge can be merged again. -/
theorem merge_merge (declared : List Preset) (h : (base.map (·.name)).Nodup) :
    merge base (merge base declared) = merge base declared :=
  merge_append [] ⟨_, (map_name_merge base declared).symm⟩ (nodup_merge declared h)

end PageWalk.Preset

namespace PageWalk.ConfigFile

open Preset (builtin newNames)

/-- The first preset is the one that is built in first, or what was declared
in its place. -/
theorem firstPreset_name (c : ConfigFile) : c.firstPreset.name = "default" := by
  have hnames : c.allPresets.map (·.name) = builtin.map (·.name) ++ newNames builtin c.presets :=
    Preset.map_name_merge builtin c.presets
  have hne : c.allPresets.map (·.name) ≠ [] := mt List.map_eq_nil_iff.1 c.allPresets_ne_nil
  have hhead : (c.allPresets.map (·.name)).head hne = "default" := by
    simp only [hnames]
    rfl
  rw [← hhead, List.head_map]
  rfl

/-- **A config file gives one preset for each name**: first those of the names
that are built in, then those of the new names in the order in which they are
declared first.  It is the last that is declared under the name, or else the
one that is built in.  There is always a first one, for the name in force by
default, and to declare all of them gives nothing else. -/
theorem allPresets_by_name (c : ConfigFile) :
    (c.allPresets.map (·.name)).Nodup ∧
      c.allPresets.map (·.name) = builtin.map (·.name) ++ newNames builtin c.presets ∧
      (∀ name p, p ∈ c.allPresets ∧ p.name = name ↔ p.InForce c.presets name) ∧
      (∃ p ps, c.allPresets = p :: ps ∧ p.name = "default") ∧
      { c with presets := c.allPresets }.allPresets = c.allPresets ∧
      Preset.merge c.allPresets c.allPresets = c.allPresets := by
  have hbuiltin : (builtin.map (·.name)).Nodup := by decide
  have hnodup : (c.allPresets.map (·.name)).Nodup := Preset.nodup_merge c.presets hbuiltin
  have hnames : c.allPresets.map (·.name) = builtin.map (·.name) ++ newNames builtin c.presets :=
    Preset.map_name_merge builtin c.presets
  refine ⟨hnodup, hnames, ?_, ?_, ?_, ?_⟩
  · intro name p
    rw [← Preset.find?_eq_some_iff hnodup]
    exact Preset.find?_merge_builtin_eq_some_iff
  · -- the first name stays the first
    obtain ⟨p, ps, hp, hname, -⟩ := List.map_eq_cons_iff.1 hnames
    exact ⟨p, ps, hp, hname⟩
  · exact Preset.merge_merge c.presets hbuiltin
  · exact Preset.merge_append [] List.prefix_rfl hnodup

end PageWalk.ConfigFile
