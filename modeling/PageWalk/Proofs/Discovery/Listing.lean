/-
PageWalk/Proofs/Discovery/Listing.lean

Which logs a search finds among the entries of a directory.

A name tells a benchmark exactly if it is the benchmark, then the suffix,
then anything, and the suffix stands nowhere before (`NamedFor`).  A search
finds the files with such names that are text and have none of the excluded
extensions (`mem_select_iff`), each once and in order (`pairwise_select`),
unless one of the entries is refused (`selectAll_of_refused`).  The order is
strict on what is found, so the order in which a directory lists its entries
does not matter (`select_perm`).
-/
import PageWalk.Proofs.Discovery
import PageWalk.Proofs.SortedMap

namespace PageWalk

/-! ### First occurrences -/

/-- **What stands before the first occurrence** is the shortest text that the
needle follows. -/
theorem before?_eq_some_iff {needle text front : List Char} :
    Text.before? needle text = some front ↔
      front ++ needle <+: text ∧
        ∀ front', front' ++ needle <+: text → front.length ≤ front'.length := by
  induction text generalizing front with
  | nil =>
    unfold Text.before?
    cases needle with
    | nil =>
      have hfront : some [] = some front ↔ front = [] := by simp [eq_comm]
      simp only [List.isEmpty_nil, if_true, hfront, List.append_nil, List.prefix_nil]
      constructor
      · rintro rfl
        exact ⟨rfl, fun _ _ => Nat.zero_le _⟩
      · exact fun h => h.1
    | cons n needle => simp
  | cons c cs ih =>
    unfold Text.before?
    by_cases hstart : needle <+: c :: cs
    · -- the needle stands at the start
      rw [if_pos (List.isPrefixOf_iff_prefix.2 hstart)]
      constructor
      · intro h
        obtain rfl := Option.some.inj h
        exact ⟨hstart, fun _ _ => Nat.zero_le _⟩
      · rintro ⟨-, hfirst⟩
        rw [List.eq_nil_of_length_eq_zero (Nat.le_zero.1 (hfirst [] hstart))]
    · -- any text that the needle follows takes the first character
      have htake : ∀ front, front ++ needle <+: c :: cs ↔
          ∃ rest, front = c :: rest ∧ rest ++ needle <+: cs := by
        intro front
        cases front with
        | nil =>
          refine iff_of_false hstart ?_
          rintro ⟨rest, h, -⟩
          cases h
        | cons d front => simp [List.cons_prefix_cons]
      rw [if_neg fun h => hstart (List.isPrefixOf_iff_prefix.1 h), Option.map_eq_some_iff]
      constructor
      · rintro ⟨rest, hrest, rfl⟩
        obtain ⟨hoccurs, hfirst⟩ := ih.1 hrest
        refine ⟨(htake _).2 ⟨rest, rfl, hoccurs⟩, ?_⟩
        intro front' hfront'
        obtain ⟨rest', rfl, hrest'⟩ := (htake _).1 hfront'
        exact Nat.succ_le_succ (hfirst rest' hrest')
      · rintro ⟨hoccurs, hfirst⟩
        obtain ⟨rest, rfl, hrest⟩ := (htake _).1 hoccurs
        refine ⟨rest, ih.2 ⟨hrest, ?_⟩, rfl⟩
        intro rest' hrest'
        exact Nat.le_of_succ_le_succ (hfirst (c :: rest') ((htake _).2 ⟨rest', rfl, hrest'⟩))

namespace LogFile

/-! ### Names -/

/-- The name is a benchmark, then the suffix, then anything, and the suffix
stands nowhere before. -/
structure NamedFor (suffix benchmark name : String) : Prop where
  ne : benchmark ≠ ""
  form : ∃ rest, name = benchmark ++ suffix ++ rest
  first : ∀ front rest, name = front ++ suffix ++ rest → benchmark.length ≤ front.length

theorem occurs_iff {front suffix name : String} :
    (∃ rest, name = front ++ suffix ++ rest) ↔ front.toList ++ suffix.toList <+: name.toList := by
  constructor
  · rintro ⟨rest, rfl⟩
    rw [String.toList_append, String.toList_append]
    exact List.prefix_append _ _
  · rintro ⟨rest, hrest⟩
    refine ⟨String.ofList rest, String.toList_inj.1 ?_⟩
    rw [String.toList_append, String.toList_append, String.toList_ofList, hrest]

theorem benchmarkName?_eq_some_iff {suffix name benchmark : String} :
    benchmarkName? suffix name = some benchmark ↔ NamedFor suffix benchmark name := by
  have hname : benchmarkName? suffix name = some benchmark ↔
      benchmark ≠ "" ∧ Text.before? suffix.toList name.toList = some benchmark.toList := by
    constructor
    · intro h
      refine ⟨benchmarkName?_ne h, ?_⟩
      unfold benchmarkName? at h
      split at h
      · rename_i hbefore
        obtain rfl := Option.some.inj h
        rw [String.toList_ofList, hbefore]
      · cases h
    · rintro ⟨hne, hbefore⟩
      unfold benchmarkName?
      rw [hbefore]
      cases htext : benchmark.toList with
      | nil => exact absurd (String.toList_eq_nil_iff.1 htext) hne
      | cons c cs =>
        show some (String.ofList (c :: cs)) = some benchmark
        rw [← htext, String.ofList_toList]
  rw [hname, before?_eq_some_iff]
  constructor
  · rintro ⟨hne, hoccurs, hfirst⟩
    refine ⟨hne, occurs_iff.2 hoccurs, ?_⟩
    intro front rest h
    exact hfirst front.toList (occurs_iff.1 ⟨rest, h⟩)
  · rintro ⟨hne, hform, hfirst⟩
    refine ⟨hne, occurs_iff.1 hform, ?_⟩
    intro front hfront
    rw [← String.toList_ofList (l := front)] at hfront
    obtain ⟨rest, hrest⟩ := occurs_iff.2 hfront
    have hle := hfirst _ rest hrest
    rwa [String.length_ofList] at hle

/-! ### Extensions -/

/-- The name ends in a dot and the extension, after something. -/
def HasExtension (extension name : String) : Prop :=
  ∃ stem, stem ≠ "" ∧ name = stem ++ "." ++ extension ∧ '.' ∉ extension.toList

theorem dot_mem_encode_iff {cs : List Char} : Path.dot ∈ Utf8.encode cs ↔ '.' ∈ cs := by
  refine ⟨Utf8.mem_of_ascii_mem_encode (by decide), ?_⟩
  intro h
  exact List.mem_flatMap.2 ⟨'.', h, by decide⟩

theorem extension?_of_isName {name : Bytes} (hname : Path.IsName name) :
    (⟨name⟩ : Path).extension? = (Path.splitExtension name).2 := by
  unfold Path.extension?
  rw [hname]
  rfl

/-- The extension of a name that is text is text, and so is what stands
before it. -/
theorem extension?_eq_some_iff {name : String} (hname : Path.IsName (Utf8.encode name.toList))
    {extension : List Char} :
    (⟨Utf8.encode name.toList⟩ : Path).extension?.bind Utf8.decode? = some extension ↔
      HasExtension (String.ofList extension) name := by
  rw [extension?_of_isName hname, Option.bind_eq_some_iff]
  constructor
  · rintro ⟨bytes, hbytes, hextension⟩
    obtain ⟨stem, hstem, heq, hnot⟩ := Path.splitExtension_eq_some hbytes
    have hdecode := Utf8.decode?_encode name.toList
    rw [heq, Utf8.decode?_append_ascii_cons (by decide), Option.bind_eq_some_iff] at hdecode
    obtain ⟨front, hfront, hdecode⟩ := hdecode
    rw [hextension] at hdecode
    have htext := Option.some.inj hdecode
    refine ⟨String.ofList front, ?_, ?_, ?_⟩
    · intro hempty
      apply hstem
      rw [← Utf8.encode_of_decode? hfront, String.ofList_eq_empty_iff.1 hempty]
      rfl
    · rw [← String.toList_inj, ← htext, String.toList_append, String.toList_append,
        String.toList_ofList, String.toList_ofList, String.toList_ofList, List.append_assoc]
      rfl
    · rw [String.toList_ofList, ← dot_mem_encode_iff, Utf8.encode_of_decode? hextension]
      exact hnot
  · rintro ⟨stem, hstem, heq, hnot⟩
    have htext : Utf8.encode name.toList
        = Utf8.encode stem.toList ++ Path.dot :: Utf8.encode extension := by
      rw [heq, String.toList_append, String.toList_append, String.toList_ofList, List.append_assoc,
        Utf8.encode_append, Utf8.encode_append, String.toList_ofList]
      rfl
    rw [String.toList_ofList] at hnot
    refine ⟨Utf8.encode extension, ?_, Utf8.decode?_encode extension⟩
    rw [htext] at hname ⊢
    rw [Path.splitExtension_append_of_ne _ (Path.isName_iff.1 hname).2.2.2
      (dot_mem_encode_iff.not.2 hnot)]
    intro hempty
    have hnil := Utf8.encode_injective (hempty.trans Utf8.encode_nil.symm)
    exact hstem (String.toList_eq_nil_iff.1 hnil)

/-- The name has one of some extensions, in upper or lower case. -/
def Excluded (extensions : List String) (name : String) : Prop :=
  ∃ extension, HasExtension extension name ∧
    ∃ e ∈ extensions, Text.lowerAscii e = Text.lowerAscii extension

theorem isExcluded_iff {extensions : List String} {name : String}
    (hname : Path.IsName (Utf8.encode name.toList)) :
    isExcluded extensions ⟨Utf8.encode name.toList⟩ = true ↔ Excluded extensions name := by
  unfold isExcluded
  cases hextension : (⟨Utf8.encode name.toList⟩ : Path).extension?.bind Utf8.decode? with
  | none =>
    refine iff_of_false Bool.false_ne_true ?_
    rintro ⟨extension, hhas, -⟩
    rw [← String.ofList_toList (s := extension), ← extension?_eq_some_iff hname, hextension] at hhas
    cases hhas
  | some extension =>
    have hhas := (extension?_eq_some_iff hname).1 hextension
    simp only [List.any_eq_true, beq_iff_eq]
    constructor
    · rintro ⟨e, he, hcase⟩
      exact ⟨_, hhas, e, he, hcase⟩
    · rintro ⟨extension', hhas', e, he, hcase⟩
      -- a name has one extension only
      rw [← String.ofList_toList (s := extension'), ← extension?_eq_some_iff hname, hextension]
        at hhas'
      obtain rfl := Option.some.inj hhas'
      rw [String.ofList_toList]
      exact ⟨e, he, hcase⟩

/-! ### Entries of directories -/

/-- What a directory can list: names of files, each once. -/
structure IsListing (entries : List DirectoryEntry) : Prop where
  isName : ∀ entry ∈ entries, Path.IsName entry.name
  nodup : (entries.map (·.name)).Nodup

/-- An entry is a log of a benchmark: a file with a name that is text, tells
the benchmark and has none of the excluded extensions. -/
def IsLogOf (suffix : String) (excluded : List String) (entry : DirectoryEntry)
    (benchmark : String) : Prop :=
  entry.isFile = true ∧ ∃ name : String, entry.name = Utf8.encode name.toList ∧
    ¬ Excluded excluded name ∧ NamedFor suffix benchmark name

variable {directory : Path} {suffix : String} {excluded : List String} {entry : DirectoryEntry}
  {entries entries' : List DirectoryEntry} {f g : LogFile}

theorem candidate?_eq_some_iff (hname : Path.IsName entry.name) :
    candidate? directory suffix excluded entry = some f ↔
      IsLogOf suffix excluded entry f.benchmark ∧ f.path = directory.join entry.name := by
  constructor
  · intro h
    obtain ⟨hexcluded, hpath, text, htext, hbenchmark⟩ := candidate?_eq_some h
    have hencode : entry.name = Utf8.encode (String.ofList text).toList := by
      rw [String.toList_ofList, Utf8.encode_of_decode? htext]
    refine ⟨⟨?_, _, hencode, ?_, benchmarkName?_eq_some_iff.1 hbenchmark⟩, hpath⟩
    · unfold candidate? at h
      split at h
      · rename_i hlog
        exact (Bool.and_eq_true_iff.1 hlog).1
      · cases h
    · rw [← isExcluded_iff (hencode ▸ hname), ← hencode, hexcluded]
      exact Bool.false_ne_true
  · rintro ⟨⟨hfile, name, hencode, hexcluded, hnamed⟩, hpath⟩
    obtain ⟨benchmark, path⟩ := f
    obtain rfl : path = directory.join entry.name := hpath
    have hkept : isExcluded excluded ⟨entry.name⟩ = false := by
      rw [← Bool.not_eq_true, hencode, isExcluded_iff (hencode ▸ hname)]
      exact hexcluded
    have hdecode : Utf8.decode? entry.name = some name.toList := by
      rw [hencode, Utf8.decode?_encode]
    unfold candidate?
    rw [hfile, hkept, hdecode]
    show (benchmarkName? suffix (String.ofList name.toList) >>= _) = _
    rw [String.ofList_toList, benchmarkName?_eq_some_iff.2 hnamed]
    rfl

/-- A log that is given by the path at which it is found is the same log. -/
theorem ofPath_of_candidate? (hname : Path.IsName entry.name)
    (h : candidate? directory suffix excluded entry = some f) : ofPath suffix f.path = f := by
  obtain ⟨-, hpath, text, htext, hbenchmark⟩ := candidate?_eq_some h
  obtain ⟨benchmark, path⟩ := f
  obtain rfl : path = directory.join entry.name := hpath
  have hpart : partText entry.name = String.ofList text := by
    unfold partText
    rw [Utf8.decodeLossy_of_decode? htext]
  unfold ofPath
  rw [Path.fileName?_join directory hname, Option.getD_some, hpart, hbenchmark]

/-! ### The order of logs -/

/-- One log comes before another: by its benchmark, or by its path where the
benchmarks are the same. -/
def Precedes (f g : LogFile) : Prop :=
  f.benchmark < g.benchmark ∨
    f.benchmark = g.benchmark ∧ compare f.path.bytes g.path.bytes = .lt

/-- The comparison that logs are ordered by. -/
def order : LogFile → LogFile → Ordering :=
  compareLex (compareOn LogFile.benchmark) (compareOn fun f => f.path.bytes)

instance : Std.TransCmp order :=
  inferInstanceAs (Std.TransCmp (compareLex _ _))

theorem le_eq (f g : LogFile) : le f g = (order f g).isLE := rfl

theorem eq_of_compare_benchmark (h : compareOn LogFile.benchmark f g = .eq) :
    f.benchmark = g.benchmark := by
  have hcompare : compare f.benchmark g.benchmark = .eq := h
  exact Std.LawfulEqCmp.eq_of_compare hcompare

theorem eq_of_order (h : order f g = .eq) : f = g := by
  obtain ⟨hbenchmark, hpath⟩ := compareLex_eq_eq.1 h
  have hbytes : compare f.path.bytes g.path.bytes = .eq := hpath
  obtain ⟨benchmark, ⟨bytes⟩⟩ := f
  obtain rfl := eq_of_compare_benchmark hbenchmark
  obtain rfl := Std.LawfulEqCmp.eq_of_compare hbytes
  rfl

theorem le_trans (f g h : LogFile) (hfg : le f g = true) (hgh : le g h = true) : le f h = true := by
  rw [le_eq] at hfg hgh ⊢
  exact Std.TransCmp.isLE_trans hfg hgh

theorem le_total (f g : LogFile) : (le f g || le g f) = true := by
  have hswap : order g f = (order f g).swap := Std.OrientedCmp.eq_swap
  rw [le_eq, le_eq, hswap]
  cases order f g <;> rfl

theorem le_antisymm (hfg : le f g = true) (hgf : le g f = true) : f = g := by
  rw [le_eq] at hfg hgf
  exact eq_of_order (Std.OrientedCmp.isLE_antisymm hfg hgf)

theorem precedes_of_le (h : le f g = true) (hne : f ≠ g) : Precedes f g := by
  have hlt : order f g = .lt := by
    rw [le_eq] at h
    cases horder : order f g with
    | lt => rfl
    | eq => exact absurd (eq_of_order horder) hne
    | gt => rw [horder] at h; cases h
  rcases Ordering.then_eq_lt.1 hlt with hbenchmark | ⟨hbenchmark, hpath⟩
  · exact Or.inl (compareOfLessAndEq_eq_lt.1 hbenchmark)
  · exact Or.inr ⟨eq_of_compare_benchmark hbenchmark, hpath⟩

/-! ### What is found -/

theorem mem_select_iff (h : IsListing entries) : f ∈ select directory suffix excluded entries ↔
    ∃ entry ∈ entries, IsLogOf suffix excluded entry f.benchmark ∧
      f.path = directory.join entry.name := by
  unfold select
  rw [List.mem_mergeSort, List.mem_filterMap]
  refine exists_congr fun entry => and_congr_right fun hentry => ?_
  exact candidate?_eq_some_iff (h.isName entry hentry)

/-- Entries of different names are different logs. -/
theorem pairwise_ne_candidates (h : IsListing entries) :
    (entries.filterMap (candidate? directory suffix excluded)).Pairwise (· ≠ ·) := by
  rw [List.pairwise_filterMap]
  refine (List.pairwise_map.1 h.nodup).imp_of_mem ?_
  intro entry entry' hentry hentry' hne f hf g hg heq
  have hpath : f.path.fileName? = g.path.fileName? := by rw [heq]
  rw [(candidate?_eq_some hf).2.1, (candidate?_eq_some hg).2.1,
    Path.fileName?_join _ (h.isName entry hentry), Path.fileName?_join _ (h.isName entry' hentry')]
    at hpath
  exact hne (Option.some.inj hpath)

theorem pairwise_select (h : IsListing entries) :
    (select directory suffix excluded entries).Pairwise Precedes := by
  have hsorted := List.pairwise_mergeSort le_trans le_total
    (entries.filterMap (candidate? directory suffix excluded))
  have hne : (select directory suffix excluded entries).Pairwise (· ≠ ·) :=
    (List.mergeSort_perm _ le).pairwise_iff Ne.symm |>.2 (pairwise_ne_candidates h)
  exact (hsorted.and hne).imp fun h => precedes_of_le h.1 h.2

theorem select_perm (h : entries.Perm entries') :
    select directory suffix excluded entries = select directory suffix excluded entries' := by
  have hperm := h.filterMap (candidate? directory suffix excluded)
  refine List.Perm.eq_of_pairwise (fun f g _ _ => le_antisymm)
    (List.pairwise_mergeSort le_trans le_total _) (List.pairwise_mergeSort le_trans le_total _) ?_
  exact (List.mergeSort_perm _ _).trans (hperm.trans (List.mergeSort_perm _ _).symm)

/-- The first entry that is refused ends the search. -/
theorem selectAll_of_refused (directory : Path) (suffix : String) (excluded : List String)
    (before : List DirectoryEntry) (e : FileError) (after : List (Except FileError DirectoryEntry)) :
    selectAll directory suffix excluded (before.map .ok ++ .error e :: after)
      = .error { cause := .file e, attempts := [.readEntry directory] } := by
  have hread : List.mapM id (before.map .ok ++ .error e :: after) = .error e := by
    induction before with
    | nil => rfl
    | cons entry before ih =>
      rw [List.map_cons, List.cons_append, List.mapM_cons, ih]
      rfl
  unfold selectAll
  rw [hread]

/-! ### Directories of a tree -/

/-- A tree lists each name once. -/
theorem nodup_names (t : FileTree) (l : Location) : (t.names l).Nodup := by
  have hkeys : t.places.keys.Pairwise (· ≠ ·) := List.pairwise_map.2 t.places.keys_ne
  unfold FileTree.names List.Nodup
  rw [List.pairwise_filterMap]
  refine hkeys.imp ?_
  intro key key' hne name hname name' hname' heq
  subst heq
  -- both are the location with the name after it
  have hlocation : ∀ key : Location,
      (if key.dropLast == l then key.getLast? else none) = some name → key = l ++ [name] := by
    intro key hkey
    split at hkey
    · rename_i hfront
      obtain ⟨front, rfl⟩ := List.getLast?_eq_some_iff.1 hkey
      rw [List.dropLast_concat, beq_iff_eq] at hfront
      rw [hfront]
    · cases hkey
  exact hne ((hlocation key hname).trans (hlocation key' hname').symm)

theorem isListing_entries {t : FileTree}
    (hnames : ∀ name ∈ t.names directory.location, Path.IsName name)
    (h : t.entries directory = .ok entries) : IsListing entries := by
  refine ⟨fun entry hentry => hnames _ (FileTree.entries_ok h entry hentry), ?_⟩
  rw [FileTree.entries_eq h, List.map_map]
  exact (List.map_id _).symm ▸ nodup_names t _

theorem mem_entries_iff {t : FileTree} (h : t.entries directory = .ok entries) :
    entry ∈ entries ↔ entry.name ∈ t.names directory.location ∧
      entry.isFile = t.isFile (directory.join entry.name) := by
  rw [FileTree.entries_eq h, List.mem_map]
  constructor
  · rintro ⟨name, hname, rfl⟩
    exact ⟨hname, rfl⟩
  · rintro ⟨hname, hfile⟩
    exact ⟨entry.name, hname, by rw [← hfile]⟩

/-- **A search finds exactly the logs of a directory.**  On any file system it
is refused as the listing of the directory is, or else as the first entry that
is refused, or else selects from what is listed.  From a listing it selects, strictly in order, the files with a name
that is text, tells a benchmark and has none of the excluded extensions; each
is the log that its path gives.  The order of the listing does not matter.
In a tree a directory lists its names, each once, and what is a file. -/
theorem discover_finds_logs (directory : Path) (suffix : String) (excluded : List String) :
    (∀ (m : Type → Type) [Monad m] [LawfulMonad m] [Files m],
      Prod.fst <$> discover (m := m) directory suffix excluded =
        (fun listed => (listed.mapError fun e =>
          { cause := .file e, attempts := [.readDirectory directory] }).bind
            (selectAll directory suffix excluded)) <$> Files.entries (m := m) directory) ∧
    (∀ entries : List DirectoryEntry, selectAll directory suffix excluded (entries.map .ok)
      = .ok (select directory suffix excluded entries)) ∧
    (∀ (before : List DirectoryEntry) (e : FileError) (after : List (Except FileError DirectoryEntry)),
      selectAll directory suffix excluded (before.map .ok ++ .error e :: after)
        = .error { cause := .file e, attempts := [.readEntry directory] }) ∧
    (∀ entries, IsListing entries →
      (select directory suffix excluded entries).Pairwise Precedes ∧
      (∀ f, f ∈ select directory suffix excluded entries ↔ ∃ entry ∈ entries,
        IsLogOf suffix excluded entry f.benchmark ∧ f.path = directory.join entry.name) ∧
      ∀ f ∈ select directory suffix excluded entries, ofPath suffix f.path = f) ∧
    (∀ entries entries' : List DirectoryEntry, entries.Perm entries' →
      select directory suffix excluded entries = select directory suffix excluded entries') ∧
    ∀ (t : FileTree) (entries : List DirectoryEntry),
      (∀ name ∈ t.names directory.location, Path.IsName name) →
      t.entries directory = .ok entries →
      (discover (m := StateM FileTree) directory suffix excluded t).1.1
        = .ok (select directory suffix excluded entries) ∧
      IsListing entries ∧
      ∀ entry, entry ∈ entries ↔ entry.name ∈ t.names directory.location ∧
        entry.isFile = t.isFile (directory.join entry.name) := by
  refine ⟨?_, selectAll_map_ok directory suffix excluded,
    selectAll_of_refused directory suffix excluded, ?_, fun _ _ => select_perm, ?_⟩
  · intro m _ _ _
    unfold discover
    rw [map_bind, map_eq_pure_bind]
    refine bind_congr fun listed => ?_
    cases listed <;> exact map_pure _ _
  · intro entries h
    refine ⟨pairwise_select h, fun f => mem_select_iff h, ?_⟩
    intro f hf
    obtain ⟨entry, hentry, hcandidate⟩ := List.mem_filterMap.1 (List.mem_mergeSort.1 hf)
    exact ofPath_of_candidate? (h.isName entry hentry) hcandidate
  · intro t entries hnames h
    exact ⟨discover_tree h, isListing_entries hnames h, fun entry => mem_entries_iff h⟩

/-- A directory with a log, a picture of it, a directory and a name that tells
no benchmark; and the same entries in another order. -/
theorem discover_finds_logs_of_directory :
    let d := Path.ofString "logs"
    let log : DirectoryEntry := ⟨Utf8.encode "mcf_dyna.log_dyna.log".toList, true⟩
    let picture : DirectoryEntry := ⟨Utf8.encode "mcf_dyna.log.PNG".toList, true⟩
    let old : DirectoryEntry := ⟨Utf8.encode "old_dyna.log".toList, false⟩
    let nameless : DirectoryEntry := ⟨Utf8.encode "_dyna.log".toList, true⟩
    let t := ((((FileTree.empty.put [d.bytes] .directory).put [d.bytes, log.name] (.file [])).put
      [d.bytes, picture.name] (.file [])).put [d.bytes, old.name] .directory).put
      [d.bytes, nameless.name] (.file [])
    let f : LogFile := ⟨"mcf", .ofString "logs/mcf_dyna.log_dyna.log"⟩
    t.entries d = .ok [nameless, picture, log, old] ∧
    (discover (m := StateM FileTree) d "_dyna.log" ["csv", "png"] t).1.1 = .ok [f] ∧
    (∃ entry ∈ [nameless, picture, log, old],
      IsLogOf "_dyna.log" ["csv", "png"] entry f.benchmark ∧ f.path = d.join entry.name) ∧
    ofPath "_dyna.log" f.path = f ∧
    select d "_dyna.log" ["csv", "png"] [log, old, picture, nameless] = [f] := by
  intro d log picture old nameless t f
  obtain ⟨-, -, -, hselect, hperm, htree⟩ := discover_finds_logs d "_dyna.log" ["csv", "png"]
  have hentries : t.entries d = .ok [nameless, picture, log, old] := by decide +kernel
  have hselected : select d "_dyna.log" ["csv", "png"] [nameless, picture, log, old] = [f] := by
    decide +kernel
  obtain ⟨hdiscover, hlisting, -⟩ := htree t _ (by decide +kernel) hentries
  obtain ⟨-, hmem, hpath⟩ := hselect _ hlisting
  rw [hselected] at hdiscover hmem hpath
  refine ⟨hentries, hdiscover, (hmem f).1 List.mem_cons_self, hpath f List.mem_cons_self, ?_⟩
  rw [← hselected]
  exact hperm _ _ (by decide)

end LogFile

end PageWalk
