/-
PageWalk/Proofs/LogFile.lean

The names of benchmarks.  A benchmark that was told from the name of a log
has no slash, so its report can stand in any directory (`LogFile.Plain`).
All logs of a run are such: those that are given by their paths
(`plain_ofPath`) and those that are found in directories (`plain_candidate`).
-/
import PageWalk.LogFile
import PageWalk.Proofs.Path
import PageWalk.Proofs.Text.Utf8

namespace PageWalk

theorem front_of_before? {needle text front : List Char}
    (h : Text.before? needle text = some front) : front <+: text := by
  induction text generalizing front with
  | nil =>
    unfold Text.before? at h
    split at h
    · cases h
      exact List.nil_prefix
    · cases h
  | cons c cs ih =>
    unfold Text.before? at h
    split at h
    · cases h
      exact List.nil_prefix
    · obtain ⟨front', hfront, rfl⟩ := Option.map_eq_some_iff.1 h
      exact (List.prefix_cons_inj c).2 (ih hfront)

/-- A stem is made of the bytes of its name. -/
theorem splitExtension_subset (name : Bytes) : (Path.splitExtension name).1 ⊆ name := by
  unfold Path.splitExtension
  dsimp only
  split
  · exact List.Subset.refl _
  · intro b hb
    have hb := List.mem_reverse.1 (List.dropLast_subset _ hb)
    exact List.mem_reverse.1 ((List.dropWhile_suffix _).subset hb)

namespace LogFile

/-- Where the log has a name, its benchmark has no slash. -/
def Plain (f : LogFile) : Prop := f.path.fileName?.isSome → '/' ∉ f.benchmark.toList

instance (f : LogFile) : Decidable f.Plain :=
  inferInstanceAs (Decidable (_ → '/' ∉ f.benchmark.toList))

theorem partText_plain {part : Bytes} (h : Path.slash ∉ part) : '/' ∉ (partText part).toList := by
  unfold partText
  rw [String.toList_ofList]
  intro hmem
  exact h (Utf8.mem_of_mem_decodeLossy (by decide) hmem _ (by decide))

theorem benchmarkName?_plain {suffix name benchmark : String}
    (h : benchmarkName? suffix name = some benchmark) (hname : '/' ∉ name.toList) :
    '/' ∉ benchmark.toList := by
  unfold benchmarkName? at h
  split at h
  · rename_i c cs hbefore
    cases h
    rw [String.toList_ofList]
    exact fun hmem => hname ((front_of_before? hbefore).subset hmem)
  · cases h

theorem plain_ofPath (suffix : String) (path : Path) : (ofPath suffix path).Plain := by
  intro hsome
  obtain ⟨name, hname⟩ := Option.isSome_iff_exists.1 hsome
  change path.fileName? = some name at hname
  obtain ⟨-, hslash, -⟩ := Path.fileName?_eq_some hname
  unfold ofPath
  dsimp only
  split
  · rename_i hbenchmark
    rw [hname] at hbenchmark
    exact benchmarkName?_plain hbenchmark (partText_plain hslash)
  · unfold Path.stem?
    rw [hname]
    exact partText_plain fun hmem => hslash (splitExtension_subset name hmem)

/-- What a log that a search finds has of its entry. -/
theorem candidate?_eq_some {directory : Path} {suffix : String} {excluded : List String}
    {entry : DirectoryEntry} {f : LogFile} (h : candidate? directory suffix excluded entry = some f) :
    isExcluded excluded ⟨entry.name⟩ = false ∧ f.path = directory.join entry.name ∧
      ∃ text, Utf8.decode? entry.name = some text ∧
        benchmarkName? suffix (String.ofList text) = some f.benchmark := by
  unfold candidate? at h
  split at h
  · rename_i hlog
    rw [Bool.and_eq_true, Bool.not_eq_true'] at hlog
    obtain ⟨text, htext, h⟩ := Option.bind_eq_some_iff.1 h
    obtain ⟨benchmark, hbenchmark, h⟩ := Option.bind_eq_some_iff.1 h
    cases h
    exact ⟨hlog.2, rfl, text, htext, hbenchmark⟩
  · cases h

theorem plain_candidate {directory : Path} {suffix : String} {excluded : List String}
    {entry : DirectoryEntry} {f : LogFile} (hslash : Path.slash ∉ entry.name)
    (h : candidate? directory suffix excluded entry = some f) : f.Plain := by
  obtain ⟨-, -, text, htext, hbenchmark⟩ := candidate?_eq_some h
  intro _
  refine benchmarkName?_plain hbenchmark ?_
  rw [String.toList_ofList]
  intro hmem
  rw [← Utf8.encode_of_decode? htext] at hslash
  exact hslash (List.mem_flatMap.2 ⟨'/', hmem, by decide⟩)

end LogFile

end PageWalk
