/-
PageWalk/Proofs/Discovery.lean

Where the logs of a run come from.

A log is given by its path, or it is found in a directory (`Obtained`).  The
names of directory entries are names of files (`Path.IsName`), so a log that
is found has the name of its entry, and none of the excluded extensions
(`Found.exists_name`).  A log that is given may have any name.
-/
import PageWalk.Proofs.Files.Tree
import PageWalk.Proofs.LogFile

namespace PageWalk

/-! ### Names -/

namespace Path

/-- A file can have this name. -/
def IsName (name : Bytes) : Prop := (⟨name⟩ : Path).fileName? = some name

instance (name : Bytes) : Decidable (IsName name) := inferInstanceAs (Decidable (_ = _))

theorem isName_iff {name : Bytes} :
    IsName name ↔ name ≠ [] ∧ slash ∉ name ∧ name ≠ [dot] ∧ name ≠ [dot, dot] := by
  refine ⟨fileName?_eq_some, ?_⟩
  rintro ⟨hne, hslash, hdot, hup⟩
  unfold IsName fileName? parts
  rw [steps_of_name hne hslash, List.filter_cons_of_pos (by simpa using hdot)]
  simpa [Option.filter] using hup

/-- A name in a directory is the file name of its path. -/
theorem fileName?_join (d : Path) {name : Bytes} (h : IsName name) :
    (d.join name).fileName? = some name := by
  obtain ⟨hne, hslash, hdot, hup⟩ := isName_iff.1 h
  unfold fileName? parts
  rw [steps_join hne hslash, List.filter_append, List.filter_cons_of_pos (by simpa using hdot),
    List.filter_nil, List.getLast?_concat]
  simpa [Option.filter] using hup

/-- The extension is what follows the last dot, in any name but two dots. -/
theorem splitExtension_append_of_ne {stem extension : Bytes} (hstem : stem ≠ [])
    (hdots : stem ++ dot :: extension ≠ [dot, dot]) (hdot : dot ∉ extension) :
    splitExtension (stem ++ dot :: extension) = (stem, some extension) := by
  have hreverse : (stem ++ dot :: extension).reverse
      = extension.reverse ++ dot :: stem.reverse := by simp
  have hpass : ∀ b ∈ extension.reverse, (b != dot) = true := by
    intro b hb
    rw [bne_iff_ne]
    rintro rfl
    exact hdot (List.mem_reverse.1 hb)
  unfold splitExtension
  rw [hreverse, List.takeWhile_append_of_pos hpass, List.dropWhile_append_of_pos hpass]
  simp [hdots, hstem]

theorem splitExtension_append {stem extension : Bytes} (hstem : stem ≠ []) (hne : extension ≠ [])
    (hdot : dot ∉ extension) :
    splitExtension (stem ++ dot :: extension) = (stem, some extension) := by
  refine splitExtension_append_of_ne hstem ?_ hdot
  intro heq
  have hlength := congrArg List.length heq
  have hstem := List.length_pos_iff.2 hstem
  have hne := List.length_pos_iff.2 hne
  simp only [List.length_append, List.length_cons, List.length_nil] at hlength
  omega

/-- A name with an extension is a stem, a dot and the extension. -/
theorem splitExtension_eq_some {name extension : Bytes}
    (h : (splitExtension name).2 = some extension) :
    ∃ stem, stem ≠ [] ∧ name = stem ++ dot :: extension ∧ dot ∉ extension := by
  unfold splitExtension at h
  dsimp only at h
  split at h
  · cases h
  · rename_i hkept
    cases h
    simp only [Bool.or_eq_true, not_or, List.isEmpty_iff] at hkept
    refine ⟨_, hkept.2, ?_, ?_⟩
    · have hname := List.takeWhile_append_dropWhile (p := (· != dot)) (l := name.reverse)
      cases hrest : name.reverse.dropWhile (· != dot) with
      | nil =>
        rw [hrest] at hkept
        exact absurd rfl hkept.2
      | cons b rest =>
        -- what is not passed over is the last dot
        have hlast := List.head?_dropWhile_not (· != dot) name.reverse
        rw [hrest] at hlast hname
        obtain rfl : b = dot := by simpa using hlast
        apply List.reverse_injective
        simpa using hname.symm
    · intro hmem
      have hpass := List.mem_takeWhile_imp (List.mem_reverse.1 hmem)
      simp at hpass

theorem splitExtension_ne_nil {name : Bytes} (h : name ≠ []) : (splitExtension name).1 ≠ [] := by
  unfold splitExtension
  dsimp only
  split
  · exact h
  · rename_i hkept
    simp only [Bool.or_eq_true, not_or, List.isEmpty_iff] at hkept
    exact hkept.2

end Path

/-- What a search of a directory meets: its names, and what is a file. -/
theorem FileTree.entries_eq {t : FileTree} {p : Path} {entries : List DirectoryEntry}
    (h : t.entries p = .ok entries) :
    entries = (t.names p.location).map fun name => ⟨name, t.isFile (p.join name)⟩ := by
  obtain ⟨e, -, h⟩ := bind_eq_ok_iff.1 h
  cases e with
  | file contents => cases h
  | directory =>
    obtain ⟨l, hlocate, h⟩ := bind_eq_ok_iff.1 h
    obtain rfl := FileTree.locate_ok hlocate
    exact (Except.ok.inj h).symm

theorem FileTree.entries_ok {t : FileTree} {p : Path} {entries : List DirectoryEntry}
    (h : t.entries p = .ok entries) : ∀ entry ∈ entries, entry.name ∈ t.names p.location := by
  obtain rfl := FileTree.entries_eq h
  intro entry hentry
  obtain ⟨name, hname, rfl⟩ := List.mem_map.1 hentry
  exact hname

namespace LogFile

variable {suffix : String} {excluded : List String} {f : LogFile}

/-! ### Searching a listing -/

/-- Where no entry is refused, the logs are selected from all of them. -/
theorem selectAll_map_ok (directory : Path) (suffix : String) (excluded : List String)
    (entries : List DirectoryEntry) :
    selectAll directory suffix excluded (entries.map .ok)
      = .ok (select directory suffix excluded entries) := by
  have hread : List.mapM id (entries.map .ok) = (.ok entries : Except FileError _) := by
    rw [List.mapM_map]
    exact List.mapM_pure.trans (congrArg _ (List.map_id entries))
  unfold selectAll
  rw [hread]

/-- A tree refuses no entry of a directory that it lists. -/
theorem discover_tree {t : FileTree} {directory : Path} {entries : List DirectoryEntry}
    (h : t.entries directory = .ok entries) :
    (discover (m := StateM FileTree) directory suffix excluded t).1.1
      = .ok (select directory suffix excluded entries) := by
  unfold discover
  simp only [bind, StateT.bind, Files.entries]
  rw [h]
  exact selectAll_map_ok directory suffix excluded entries

/-! ### Logs that are found -/

/-- A log that is found in a directory whose entries have names of files. -/
def Found (suffix : String) (excluded : List String) (f : LogFile) : Prop :=
  ∃ (t : FileTree) (directory : Path) (files : List LogFile),
    (∀ name ∈ t.names directory.location, Path.IsName name) ∧
    (discover (m := StateM FileTree) directory suffix excluded t).1.1 = .ok files ∧ f ∈ files

theorem Found.exists_candidate (h : f.Found suffix excluded) :
    ∃ directory entry, Path.IsName entry.name ∧
      candidate? directory suffix excluded entry = some f := by
  obtain ⟨t, directory, files, hnames, hfiles, hf⟩ := h
  rcases hentries : t.entries directory with e | entries
  · unfold discover at hfiles
    simp only [bind, StateT.bind, Files.entries] at hfiles
    rw [hentries] at hfiles
    cases hfiles
  · rw [discover_tree hentries] at hfiles
    cases hfiles
    obtain ⟨entry, hentry, hcandidate⟩ := List.mem_filterMap.1 (List.mem_mergeSort.1 hf)
    exact ⟨directory, entry, hnames _ (FileTree.entries_ok hentries entry hentry), hcandidate⟩

theorem benchmarkName?_ne {name benchmark : String} (h : benchmarkName? suffix name = some benchmark) :
    benchmark ≠ "" := by
  unfold benchmarkName? at h
  split at h
  · rename_i c cs _
    cases h
    intro hempty
    have htext := congrArg String.toList hempty
    rw [String.toList_ofList] at htext
    cases htext
  · cases h

/-- **A log that is found** has a name without any of the excluded
extensions. -/
theorem Found.exists_name (h : f.Found suffix excluded) :
    ∃ name, f.path.fileName? = some name ∧ isExcluded excluded ⟨name⟩ = false := by
  obtain ⟨directory, entry, hname, hcandidate⟩ := h.exists_candidate
  obtain ⟨hexcluded, hpath, -⟩ := candidate?_eq_some hcandidate
  exact ⟨entry.name, hpath ▸ Path.fileName?_join directory hname, hexcluded⟩

/-! ### All logs -/

/-- A log that is given by its path, or found. -/
inductive Obtained (suffix : String) (excluded : List String) : LogFile → Prop
  | given (path : Path) : Obtained suffix excluded (ofPath suffix path)
  | found {f : LogFile} : f.Found suffix excluded → Obtained suffix excluded f

theorem Obtained.plain (h : f.Obtained suffix excluded) : f.Plain := by
  cases h with
  | given path => exact plain_ofPath suffix path
  | found h =>
    obtain ⟨directory, entry, hname, hcandidate⟩ := h.exists_candidate
    exact plain_candidate (Path.isName_iff.1 hname).2.1 hcandidate

theorem partText_ne {part : Bytes} (h : part ≠ []) : partText part ≠ "" := by
  intro hempty
  have htext := congrArg String.toList hempty
  unfold partText at htext
  rw [String.toList_ofList] at htext
  cases part with
  | nil => exact h rfl
  | cons b bs =>
    unfold Utf8.decodeLossy at htext
    rw [Utf8.pieces] at htext
    cases htext

/-- A log with a name has a benchmark with one. -/
theorem Obtained.benchmark_ne (h : f.Obtained suffix excluded) (hsome : f.path.fileName?.isSome) :
    f.benchmark ≠ "" := by
  cases h with
  | given path =>
    obtain ⟨name, hname⟩ := Option.isSome_iff_exists.1 hsome
    change path.fileName? = some name at hname
    unfold ofPath
    dsimp only
    split
    · rename_i hbenchmark
      exact benchmarkName?_ne hbenchmark
    · unfold Path.stem?
      rw [hname]
      exact partText_ne (Path.splitExtension_ne_nil (Path.fileName?_eq_some hname).1)
  | found h =>
    obtain ⟨directory, entry, -, hcandidate⟩ := h.exists_candidate
    obtain ⟨-, -, text, -, hbenchmark⟩ := candidate?_eq_some hcandidate
    exact benchmarkName?_ne hbenchmark

end LogFile

end PageWalk
