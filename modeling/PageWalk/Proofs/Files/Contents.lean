/-
PageWalk/Proofs/Files/Contents.lean

What files hold after writing and copying.

A path that leads to a file (`Holds`) goes through directories and ends at
its location.  Writing refuses directories, so it changes what a path leads
to only if the path has the location that is written (`Holds.write`).  A copy
empties its target before it reads its source: if both have one location, the
file is lost (`holds_copy_self`).  `WritesOnly` says of an action where it
writes at most.
-/
import PageWalk.Proofs.Files.Tree
import Mathlib.Data.List.Basic

namespace PageWalk.FileTree

variable {t t' : FileTree} {p q : Path} {l l' : Location} {bytes contents : Bytes}

/-! ### Entries -/

theorem get_put_self (h : t.entry? l ≠ some .directory) (e : Entry) :
    entry? (t.put l e) l = some e := by
  unfold entry? at h ⊢
  split at h
  · exact absurd rfl h
  · rename_i hplace
    rw [if_neg hplace]
    unfold put
    rw [SortedMap.get?_insert, if_pos rfl]

/-- A walk goes through directories, so what is put anywhere else is not in
its way. -/
theorem follow_put {steps : List Bytes} {other : Location} (hother : t.entry? other ≠ some .directory)
    (e : Entry) (h : t.follow l steps = .ok l') : (t.put other e).follow l steps = .ok l' := by
  induction steps generalizing l with
  | nil => exact h
  | cons step steps ih =>
    unfold follow at h ⊢
    split at h
    · cases h
    · cases h
    · rename_i hdir
      have hne : l ≠ other := by
        rintro rfl
        exact hother hdir
      rw [get_put_ne hne, hdir]
      dsimp only
      split at h
      · cases h
      · rename_i hlength
        rw [if_neg hlength]
        exact ih h

theorem locate_put {other : Location} (hother : t.entry? other ≠ some .directory) (e : Entry)
    (h : t.locate p = .ok l) : (t.put other e).locate p = .ok l := by
  have hfollow := follow_put hother e (follow_of_locate h)
  unfold locate walk at h ⊢
  split at h
  · cases h
  split at h
  · cases h
  split at h
  · cases h
  rename_i hzero hempty hlength
  rw [if_neg hzero, if_neg hempty, if_neg hlength]
  exact hfollow

/-! ### Contents -/

/-- A path leads to a file with some contents. -/
def Holds (t : FileTree) (p : Path) (bytes : Bytes) : Prop := t.openFile p = .ok (.contents bytes)

instance (t : FileTree) (p : Path) (bytes : Bytes) : Decidable (t.Holds p bytes) :=
  inferInstanceAs (Decidable (_ = _))

theorem Holds.unique {bytes' : Bytes} (h : t.Holds p bytes) (h' : t.Holds p bytes') :
    bytes = bytes' := by
  unfold Holds at h h'
  rw [h] at h'
  cases h'
  rfl

theorem holds_iff : t.Holds p bytes ↔
    p.namesDirectory = false ∧ t.locate p = .ok p.location ∧
      t.entry? p.location = some (.file bytes) := by
  unfold Holds openFile find
  constructor
  · intro h
    obtain ⟨e, hfind, h⟩ := bind_eq_ok_iff.1 h
    obtain ⟨l, hlocate, hfind⟩ := bind_eq_ok_iff.1 hfind
    obtain rfl := locate_ok hlocate
    split at hfind
    · cases hfind
    · rename_i contents hentry
      split at hfind
      · cases hfind
      · rename_i hname
        cases hfind
        cases h
        exact ⟨Bool.eq_false_iff.2 hname, hlocate, hentry⟩
    · cases hfind
      cases h
  · rintro ⟨hname, hlocate, hentry⟩
    rw [hlocate]
    simp only [bind, Except.bind, hentry, hname]
    rfl

/-- A path leads to its file whatever is put elsewhere. -/
theorem Holds.put (h : t.Holds p bytes) (hl : t.entry? l ≠ some .directory) (hne : p.location ≠ l)
    (e : Entry) : (t.put l e).Holds p bytes := by
  obtain ⟨hname, hlocate, hentry⟩ := holds_iff.1 h
  exact holds_iff.2 ⟨hname, locate_put hl e hlocate, (get_put_ne hne e).trans hentry⟩

/-! ### Writing -/

/-- What writing does, if it is not refused. -/
theorem write_ok (hok : t.write p contents = .ok t') :
    p.namesDirectory = false ∧ t.locate p = .ok p.location ∧
      t.entry? p.location ≠ some .directory ∧ t' = t.put p.location (.file contents) := by
  obtain ⟨l, hplace, hok⟩ := bind_eq_ok_iff.1 hok
  cases hok
  obtain rfl := place_ok hplace
  unfold place at hplace
  split at hplace
  · obtain ⟨_, -, hplace⟩ := bind_eq_ok_iff.1 hplace
    cases hplace
  · rename_i hname
    obtain ⟨l, hlocate, hplace⟩ := bind_eq_ok_iff.1 hplace
    obtain rfl := locate_ok hlocate
    refine ⟨Bool.eq_false_iff.2 hname, hlocate, ?_, rfl⟩
    intro hdir
    rw [hdir] at hplace
    cases hplace

theorem Holds.write (h : t.Holds p bytes) (hok : t.write q contents = .ok t')
    (hne : p.location ≠ q.location) : t'.Holds p bytes := by
  obtain ⟨-, -, hfile, rfl⟩ := write_ok hok
  exact h.put hfile hne _

theorem holds_write (hok : t.write p contents = .ok t') : t'.Holds p contents := by
  obtain ⟨hname, hlocate, hfile, rfl⟩ := write_ok hok
  exact holds_iff.2 ⟨hname, locate_put hfile _ hlocate, get_put_self hfile _⟩

/-- A file is written where it can be placed. -/
theorem exists_write (hplace : t.place p = .ok l) (contents : Bytes) :
    ∃ t', Files.write (m := StateM FileTree) p contents t = (.ok (), t') ∧
      t'.Holds p contents := by
  have hok : t.write p contents = .ok (t.put l (.file contents)) := by
    unfold FileTree.write
    rw [hplace]
    rfl
  refine ⟨_, ?_, holds_write hok⟩
  simp only [Files.write, update, hok]

/-- What is written at the location of a file replaces its contents, by
whatever path. -/
theorem Holds.overwrite (h : t.Holds p bytes) (hok : t.write q contents = .ok t')
    (heq : p.location = q.location) : t'.Holds p contents := by
  obtain ⟨hname, hlocate, hentry⟩ := holds_iff.1 h
  obtain ⟨-, -, hfile, rfl⟩ := write_ok hok
  rw [← heq] at hfile ⊢
  exact holds_iff.2 ⟨hname, locate_put hfile _ hlocate, get_put_self hfile _⟩

/-! ### Copying -/

/-- What copying does, if it is not refused. -/
theorem copy_ok (hok : t.copy p q = .ok t') :
    ∃ bytes emptied bytes', t.Holds p bytes ∧ t.write q [] = .ok emptied ∧
      emptied.Holds p bytes' ∧ emptied.write q bytes' = .ok t' := by
  have hholds : ∀ {t : FileTree} {opened : Opened} {bytes : Bytes}, t.openFile p = .ok opened →
      opened.read = .ok bytes → t.Holds p bytes := by
    intro t opened bytes hopen hread
    cases opened with
    | contents bytes' =>
      cases hread
      exact hopen
    | directory => cases hread
  obtain ⟨opened, hopen, hok⟩ := bind_eq_ok_iff.1 hok
  obtain ⟨bytes, hread, hok⟩ := bind_eq_ok_iff.1 hok
  obtain ⟨emptied, hempty, hok⟩ := bind_eq_ok_iff.1 hok
  obtain ⟨opened', hopen', hok⟩ := bind_eq_ok_iff.1 hok
  obtain ⟨bytes', hread', hok⟩ := bind_eq_ok_iff.1 hok
  exact ⟨bytes, emptied, bytes', hholds hopen hread, hempty, hholds hopen' hread', hok⟩

/-- **A copy** holds what its source held. -/
theorem holds_copy (hok : t.copy p q = .ok t') (hne : p.location ≠ q.location) :
    ∃ bytes, t.Holds p bytes ∧ t'.Holds q bytes := by
  obtain ⟨bytes, emptied, bytes', hbytes, hempty, hbytes', hwrite⟩ := copy_ok hok
  obtain rfl := (hbytes.write hempty hne).unique hbytes'
  exact ⟨bytes, hbytes, holds_write hwrite⟩

/-- **A file that is copied onto itself** is lost. -/
theorem holds_copy_self (hok : t.copy p q = .ok t') (heq : p.location = q.location) :
    t'.Holds p [] := by
  obtain ⟨bytes, emptied, bytes', hbytes, hempty, hbytes', hwrite⟩ := copy_ok hok
  obtain rfl := (hbytes.overwrite hempty heq).unique hbytes'
  exact hbytes'.overwrite hwrite heq

theorem Holds.copy {source : Path} (h : t.Holds p bytes) (hok : t.copy source q = .ok t')
    (hne : p.location ≠ q.location) : t'.Holds p bytes := by
  obtain ⟨_, emptied, _, -, hempty, -, hwrite⟩ := copy_ok hok
  exact (h.write hempty hne).write hwrite hne

/-! ### Actions that write at some locations -/

/-- An action that changes the tree, if it succeeds. -/
theorem update_ok {change : FileTree → Except FileError FileTree}
    (h : FileTree.update change t = (.ok (), t')) : change t = .ok t' := by
  unfold FileTree.update at h
  split at h
  · rename_i hok
    cases h
    exact hok
  · cases h

/-- The action keeps the contents of all files but those at some locations. -/
def WritesOnly {α : Type} (ls : List Location) (action : StateM FileTree α) : Prop :=
  ∀ t p bytes, Holds t p bytes → p.location ∉ ls → (action t).2.Holds p bytes

theorem WritesOnly.pure {α : Type} (ls : List Location) (a : α) :
    WritesOnly ls (Pure.pure a : StateM FileTree α) := fun _ _ _ h _ => h

theorem WritesOnly.bind {α β : Type} {ls : List Location} {action : StateM FileTree α}
    {next : α → StateM FileTree β} (h : WritesOnly ls action)
    (hnext : ∀ a, WritesOnly ls (next a)) : WritesOnly ls (action >>= next) :=
  fun t p bytes hp hl => hnext (action t).1 (action t).2 p bytes (h t p bytes hp hl) hl

theorem WritesOnly.update {ls : List Location} {change : FileTree → Except FileError FileTree}
    (h : ∀ t t' p bytes, change t = .ok t' → Holds t p bytes → p.location ∉ ls →
      t'.Holds p bytes) : WritesOnly ls (update change) := by
  intro t p bytes hp hl
  unfold FileTree.update
  split
  · rename_i hok
    exact h t _ p bytes hok hp hl
  · exact hp

theorem writesOnly_write {ls : List Location} (h : q.location ∈ ls) (contents : Bytes) :
    WritesOnly ls (Files.write (m := StateM FileTree) q contents) :=
  .update fun _ _ _ _ hok hp hl => hp.write hok fun heq => hl (heq ▸ h)

theorem writesOnly_copy {ls : List Location} (h : q.location ∈ ls) (source : Path) :
    WritesOnly ls (Files.copy (m := StateM FileTree) source q) :=
  .update fun _ _ _ _ hok hp hl => hp.copy hok fun heq => hl (heq ▸ h)

end PageWalk.FileTree
