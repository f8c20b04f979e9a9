/-
PageWalk/Proofs/Config/Resolution.lean

How a run is configured.

A config file and overrides ask for a preset, a suffix and a period.  What
they ask for is either accepted as a whole (`Accepted`) or refused for the
first condition that it violates (`Refused`).  A run is configured in the
one case and an error told in the other (`resolve_of_accepted`,
`resolve_of_refused`), and no other setting has a say in it
(`resolve_checks_request`).
-/
import PageWalk.Config.Run
import PageWalk.Proofs.Config.Period
import PageWalk.Proofs.Error
import PageWalk.Proofs.Preset

namespace PageWalk.RunConfig

variable {file : ConfigFile} {overrides : Overrides} {p : Preset} {s : String}

/-! ### What is asked for -/

/-- The name of the preset that is asked for. -/
def askedPreset (file : ConfigFile) (overrides : Overrides) : String :=
  (overrides.preset <|> file.preset).getD "default"

/-- The suffix that is asked for, or else the first of the preset. -/
def askedSuffix? (file : ConfigFile) (overrides : Overrides) (p : Preset) : Option String :=
  (overrides.suffix <|> file.suffix) <|> p.suffixes.head?

/-- The seconds between two tellings that are asked for. -/
def askedPeriod (file : ConfigFile) : Float := file.debugOutputPeriod.getD 1.0

/-- The preset `p` and the suffix `s` are asked for, and all conditions on
them and on the period hold. -/
structure Accepted (file : ConfigFile) (overrides : Overrides) (p : Preset) (s : String) :
    Prop where
  inForce : p.InForce file.presets (askedPreset file overrides)
  asked : askedSuffix? file overrides p = some s
  nonempty : s ≠ ""
  compatible : s ∈ p.suffixes
  period : Period.IsPeriod (askedPeriod file)

/-- What is asked for violates a condition, and none before it. -/
inductive Refused (file : ConfigFile) (overrides : Overrides) : Cause → Prop
  | unknownPreset (unknown : ∀ p ∈ Preset.builtin ++ file.presets,
        p.name ≠ askedPreset file overrides) :
      Refused file overrides
        (.unknownPreset (askedPreset file overrides) (file.allPresets.map (·.name)))
  | noSuffixes {p : Preset} (inForce : p.InForce file.presets (askedPreset file overrides))
      (none : askedSuffix? file overrides p = none) :
      Refused file overrides (.noSuffixes (askedPreset file overrides))
  | emptySuffix {p : Preset} (inForce : p.InForce file.presets (askedPreset file overrides))
      (empty : askedSuffix? file overrides p = some "") : Refused file overrides .emptySuffix
  | incompatibleSuffix {p : Preset} {s : String}
      (inForce : p.InForce file.presets (askedPreset file overrides))
      (asked : askedSuffix? file overrides p = some s) (nonempty : s ≠ "")
      (incompatible : s ∉ p.suffixes) :
      Refused file overrides (.incompatibleSuffix s (askedPreset file overrides) p.suffixes)
  | invalidPeriod {p : Preset} {s : String}
      (inForce : p.InForce file.presets (askedPreset file overrides))
      (asked : askedSuffix? file overrides p = some s) (nonempty : s ≠ "")
      (compatible : s ∈ p.suffixes) (invalid : ¬ Period.IsPeriod (askedPeriod file)) :
      Refused file overrides (.invalidPeriod (askedPeriod file))

theorem accepted_or_refused (file : ConfigFile) (overrides : Overrides) :
    (∃ p s, Accepted file overrides p s) ∨ ∃ e, Refused file overrides e := by
  -- the cases are split in the order of the checks
  by_cases hknown : ∃ p ∈ Preset.builtin ++ file.presets, p.name = askedPreset file overrides
  · obtain ⟨p, hp⟩ := Preset.exists_inForce_iff.2 hknown
    cases hs : askedSuffix? file overrides p with
    | none => exact Or.inr ⟨_, .noSuffixes hp hs⟩
    | some s =>
      by_cases hempty : s = ""
      · exact Or.inr ⟨_, .emptySuffix hp (hempty ▸ hs)⟩
      by_cases hmem : s ∈ p.suffixes
      · by_cases hperiod : Period.IsPeriod (askedPeriod file)
        · exact Or.inl ⟨p, s, hp, hs, hempty, hmem, hperiod⟩
        · exact Or.inr ⟨_, .invalidPeriod hp hs hempty hmem hperiod⟩
      · exact Or.inr ⟨_, .incompatibleSuffix hp hs hempty hmem⟩
  · exact Or.inr ⟨_, .unknownPreset fun p hp hname => hknown ⟨p, hp, hname⟩⟩

/-! ### What a run is configured with -/

/-- The settings of a run with the preset `p` and the suffix `s`. -/
structure Settles (file : ConfigFile) (overrides : Overrides) (p : Preset) (s : String)
    (c : RunConfig) : Prop where
  design : c.design = (overrides.design <|> file.design).getD .radix
  preset : c.preset = askedPreset file overrides
  /-- Only the cost of main memory can be another than the preset's. -/
  costs : c.costs = { p.costs with
    memory := (overrides.memoryCost <|> file.memoryCost).getD p.costs.memory }
  overheads : c.overheads = p.overheads
  suffix : c.suffix = s
  strict : c.strict = true ↔ overrides.strict = true ∨ file.strict = some true
  excludeExtensions : c.excludeExtensions = file.excludeExtensions.getD defaultExtensions
  period : Period.Rounded (askedPeriod file) c.debugOutputPeriod

/-! ### The checks -/

theorem chooseSuffix_asked (file : ConfigFile) (overrides : Overrides) (p : Preset) :
    chooseSuffix p (overrides.suffix <|> file.suffix)
      = match askedSuffix? file overrides p with
        | some s => .ok s
        | none => .error (.noSuffixes p.name) := by
  unfold chooseSuffix askedSuffix?
  cases overrides.suffix <|> file.suffix with
  | some s => rfl
  | none => cases p.suffixes <;> rfl

theorem checkSuffix_of_mem (hne : s ≠ "") (h : s ∈ p.suffixes) : checkSuffix p s = .ok () := by
  unfold checkSuffix
  simp [hne, h]

theorem checkSuffix_of_notMem (hne : s ≠ "") (h : s ∉ p.suffixes) :
    checkSuffix p s = .error (.incompatibleSuffix s p.name p.suffixes) := by
  unfold checkSuffix
  simp [hne, h]

theorem chooseCosts_eq (p : Preset) (memory : Option Count) :
    chooseCosts p memory = { p.costs with memory := memory.getD p.costs.memory } := by
  cases memory <;> rfl

theorem askedPreset_eq (file : ConfigFile) (overrides : Overrides) :
    (overrides.preset <|> file.preset).getD file.firstPreset.name = askedPreset file overrides := by
  rw [file.firstPreset_name]
  rfl

theorem find?_eq_some (h : p.InForce file.presets (askedPreset file overrides)) :
    Preset.find? (askedPreset file overrides) file.allPresets = some p :=
  Preset.find?_merge_builtin_eq_some_iff.2 h

theorem find?_eq_none
    (h : ∀ p ∈ Preset.builtin ++ file.presets, p.name ≠ askedPreset file overrides) :
    Preset.find? (askedPreset file overrides) file.allPresets = none := by
  rw [Option.eq_none_iff_forall_ne_some]
  intro p hp
  obtain ⟨q, hq, hname⟩ :=
    Preset.exists_inForce_iff.1 ⟨p, Preset.find?_merge_builtin_eq_some_iff.1 hp⟩
  exact h q hq hname

/-- **What is asked for and accepted configures the run.** -/
theorem resolve_of_accepted (h : Accepted file overrides p s) :
    ∃ c, resolve file overrides = .ok c ∧ Settles file overrides p s c := by
  obtain ⟨d, hd⟩ := Option.ne_none_iff_exists'.1 fun hnone =>
    Period.ofSeconds?_eq_none_iff.1 hnone h.period
  have hasked : Period.ofSeconds? (file.debugOutputPeriod.getD defaultPeriod) = some d := hd
  have hstrict : (overrides.strict || file.strict.getD false) = true ↔
      overrides.strict = true ∨ file.strict = some true := by
    rw [Bool.or_eq_true, Option.getD_eq_iff]
    simp
  simp only [resolve, askedPreset_eq, find?_eq_some h.inForce, chooseSuffix_asked, h.asked, bind,
    Except.bind, checkSuffix_of_mem h.nonempty h.compatible, hasked, pure, Except.pure]
  exact ⟨_, rfl, rfl, h.inForce.name_eq, chooseCosts_eq p _, rfl, rfl, hstrict, rfl,
    (Period.ofSeconds?_eq_some_iff.1 hd).2⟩

/-- **The first condition that is violated is told.** -/
theorem resolve_of_refused {e : Cause} (h : Refused file overrides e) :
    resolve file overrides = .error e := by
  cases h with
  | unknownPreset hunknown =>
    simp only [resolve, askedPreset_eq, find?_eq_none hunknown]
    rfl
  | noSuffixes hp hs =>
    simp only [resolve, askedPreset_eq, find?_eq_some hp, chooseSuffix_asked, hs, bind, Except.bind,
      hp.name_eq]
  | emptySuffix hp hs =>
    simp only [resolve, askedPreset_eq, find?_eq_some hp, chooseSuffix_asked, hs, bind, Except.bind]
    rfl
  | incompatibleSuffix hp hs hne hmem =>
    simp only [resolve, askedPreset_eq, find?_eq_some hp, chooseSuffix_asked, hs, bind, Except.bind,
      checkSuffix_of_notMem hne hmem, hp.name_eq]
  | invalidPeriod hp hs hne hmem hperiod =>
    have hasked : Period.ofSeconds? (file.debugOutputPeriod.getD defaultPeriod) = none :=
      Period.ofSeconds?_eq_none_iff.2 hperiod
    simp only [resolve, askedPreset_eq, find?_eq_some hp, chooseSuffix_asked, hs, bind, Except.bind,
      checkSuffix_of_mem hne hmem, hasked]
    rfl

/-- The settings leave nothing open. -/
theorem Settles.unique {c c' : RunConfig} (h : Settles file overrides p s c)
    (h' : Settles file overrides p s c') : c = c' := by
  have hstrict : c.strict = c'.strict := Bool.eq_iff_iff.2 (h.strict.trans h'.strict.symm)
  cases c
  cases c'
  rw [RunConfig.mk.injEq]
  exact ⟨h.design.trans h'.design.symm, h.preset.trans h'.preset.symm, h.costs.trans h'.costs.symm,
    h.overheads.trans h'.overheads.symm, h.suffix.trans h'.suffix.symm, hstrict,
    h.excludeExtensions.trans h'.excludeExtensions.symm, h.period.unique h'.period⟩

theorem resolve_eq_error_iff {e : Cause} :
    resolve file overrides = .error e ↔ Refused file overrides e := by
  constructor
  · intro he
    rcases accepted_or_refused file overrides with ⟨p, s, h⟩ | ⟨e', h⟩
    · obtain ⟨c, hc, -⟩ := resolve_of_accepted h
      cases hc.symm.trans he
    · cases (resolve_of_refused h).symm.trans he
      exact h
  · exact resolve_of_refused

theorem resolve_eq_ok_iff {c : RunConfig} :
    resolve file overrides = .ok c ↔
      ∃ p s, Accepted file overrides p s ∧ Settles file overrides p s c := by
  constructor
  · intro hc
    rcases accepted_or_refused file overrides with ⟨p, s, h⟩ | ⟨e, h⟩
    · obtain ⟨c', hc', hsettles⟩ := resolve_of_accepted h
      cases hc'.symm.trans hc
      exact ⟨p, s, h, hsettles⟩
    · cases (resolve_of_refused h).symm.trans hc
  · rintro ⟨p, s, h, hsettles⟩
    obtain ⟨c', hc', hsettles'⟩ := resolve_of_accepted h
    rw [hc', hsettles.unique hsettles']

/-! ### What has no say -/

section Unchecked

variable (design design' : Option Design) (strict : Option Bool) (strict' : Bool)
  (memoryCost memoryCost' : Option Count) (excludeExtensions : Option (List String))

theorem Accepted.with_unchecked (h : Accepted file overrides p s) :
    Accepted { file with design, strict, memoryCost, excludeExtensions }
      { overrides with design := design', strict := strict', memoryCost := memoryCost' } p s :=
  ⟨h.inForce, h.asked, h.nonempty, h.compatible, h.period⟩

theorem Refused.with_unchecked {e : Cause} (h : Refused file overrides e) :
    Refused { file with design, strict, memoryCost, excludeExtensions }
      { overrides with design := design', strict := strict', memoryCost := memoryCost' } e := by
  cases h with
  | unknownPreset hunknown => exact .unknownPreset hunknown
  | noSuffixes hp hs => exact .noSuffixes hp hs
  | emptySuffix hp hs => exact .emptySuffix hp hs
  | incompatibleSuffix hp hs hne hmem => exact .incompatibleSuffix hp hs hne hmem
  | invalidPeriod hp hs hne hmem hperiod => exact .invalidPeriod hp hs hne hmem hperiod

end Unchecked

/-- **A run is configured exactly if its settings are in order**, and
otherwise the first that is not is told.  The design, the strictness, the
cost of main memory and the extensions have no say in it. -/
theorem resolve_checks_request (file : ConfigFile) (overrides : Overrides) :
    ((∃ c, resolve file overrides = .ok c) ↔ ∃ p s, Accepted file overrides p s) ∧
      (∀ e, resolve file overrides = .error e ↔ Refused file overrides e) ∧
      (∀ c, resolve file overrides = .ok c ↔
        ∃ p s, Accepted file overrides p s ∧ Settles file overrides p s c) ∧
      ∀ (design design' : Option Design) (strict : Option Bool) (strict' : Bool)
        (memoryCost memoryCost' : Option Count) (excludeExtensions : Option (List String)),
        (resolve { file with design, strict, memoryCost, excludeExtensions }
            { overrides with design := design', strict := strict', memoryCost := memoryCost' }).map
            (fun _ => ())
          = (resolve file overrides).map fun _ => () := by
  refine ⟨⟨?_, ?_⟩, fun e => resolve_eq_error_iff, fun c => resolve_eq_ok_iff, ?_⟩
  · rintro ⟨c, hc⟩
    obtain ⟨p, s, h, -⟩ := resolve_eq_ok_iff.1 hc
    exact ⟨p, s, h⟩
  · rintro ⟨p, s, h⟩
    obtain ⟨c, hc, -⟩ := resolve_of_accepted h
    exact ⟨c, hc⟩
  · intro design design' strict strict' memoryCost memoryCost' excludeExtensions
    rcases accepted_or_refused file overrides with ⟨p, s, h⟩ | ⟨e, h⟩
    · obtain ⟨c, hc, -⟩ := resolve_of_accepted h
      obtain ⟨c', hc', -⟩ := resolve_of_accepted (h.with_unchecked design design' strict strict'
        memoryCost memoryCost' excludeExtensions)
      rw [hc, hc']
      rfl
    · rw [resolve_of_refused h, resolve_of_refused (h.with_unchecked design design' strict strict'
        memoryCost memoryCost' excludeExtensions)]

/-- A preset that is declared without suffixes is in force, and the one of
its name that is built in is not. -/
example : resolve { presets := [{ Preset.standard with suffixes := [] }] } {}
    = .error (.noSuffixes "default") := by
  decide

end PageWalk.RunConfig
