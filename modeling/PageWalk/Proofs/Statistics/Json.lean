/-
PageWalk/Proofs/Statistics/Json.lean

Statistics are read back from json.

Counters are read back whatever they are, in all of their bits, and so are
latencies and levels where they are keys.  Of a double only what is written
can be read back, so a summary is read back exactly if each of its doubles is
(`Summary.ofJson?_toJson_iff`), which no double is that is not finite; all else
is read back without condition.
-/
import PageWalk.Proofs.Json.Fields
import PageWalk.Proofs.SortedMap
import PageWalk.Statistics.Basic
import PageWalk.Statistics.IssueTally

namespace PageWalk

open Json (Printable)

/-! ### Issues -/

namespace IssueTally

theorem printable_toJson (t : IssueTally) : Printable t.toJson := by
  refine .ofMembers ?_
  simp only [List.forall_mem_cons]
  exact ⟨.ofCounter _, .ofCounter _, nofun⟩

theorem ofJson?_toJson (t : IssueTally) : ofJson? t.toJson = some t := by
  unfold ofJson? toJson
  rw [Json.fields?_ofMembers false rfl (by decide)]
  simp [Json.field?]

end IssueTally

/-! ### Histograms -/

namespace Histogram

/-- A digit needs no escape. -/
theorem escape_of_isDigit {b : UInt8} (h : Json.isDigit b = true) : Json.escape b = [b] := by
  have hall : ∀ n : Fin 256, Json.isDigit (.ofNat n) = true →
      Json.escape (.ofNat n) = [UInt8.ofNat n] := by
    decide +kernel
  have hb : UInt8.ofNat b.toNat = b := UInt8.ofNat_toNat
  have hdigit := hall ⟨b.toNat, b.toNat_lt⟩
  rw [hb] at hdigit
  exact hdigit h

theorem spell_digits {s : String} (h : Json.Digits s.toList) :
    Json.spell s = Utf8.encode s.toList := by
  have hbytes := Json.isDigit_of_mem_encode h.digits
  unfold Json.spell
  generalize Utf8.encode s.toList = bs at *
  induction bs with
  | nil => rfl
  | cons b bs ih =>
    rw [List.forall_mem_cons] at hbytes
    rw [List.flatMap_cons, escape_of_isDigit hbytes.1, ih hbytes.2]
    rfl

/-- No zero stands in front of a whole part. -/
theorem encode_ne_zero_cons {ds : List Char} (h : Json.Whole ds) (b : UInt8) (bs : Bytes) :
    Utf8.encode ds ≠ 0x30 :: b :: bs := by
  cases h with
  | zero =>
    intro heq
    injection heq with _ heq
    cases heq
  | digits hdigits hzero =>
    obtain ⟨hne, hall⟩ := hdigits
    obtain ⟨c, cs, rfl⟩ := List.exists_cons_of_ne_nil hne
    have hascii := Json.toNat_lt_of_isDigit (hall c List.mem_cons_self)
    obtain ⟨b', hb', hchar⟩ := Json.encodeChar_of_lt hascii
    rw [Utf8.encode_cons, hb']
    intro heq
    obtain rfl := (List.cons.inj heq).1
    exact hzero (congrArg some hchar.symm)

theorem latencyKey?_spell (latency : Count) :
    latencyKey? (Json.spell (toString latency)) = some latency := by
  have htext : (toString latency).toList = Nat.toDigits 10 latency.val :=
    Text.toList_toString latency.val
  have hdigits := Json.digits_toDigits latency.val
  have hspell : Json.spell (toString latency) = Utf8.encode (Nat.toDigits 10 latency.val) := by
    rw [spell_digits (htext ▸ hdigits), htext]
  rw [hspell]
  unfold latencyKey?
  split
  · rename_i heq
    exact absurd heq (encode_ne_zero_cons (.toDigits latency.val) _ _)
  · rw [show (Utf8.encode _).map (fun b => Char.ofNat b.toNat) = _ from
      Json.map_charOf_encode hdigits.ascii]
    exact Json.counter?_ofCounter latency

theorem printable_toJson (h : Histogram) : Printable h.toJson := by
  refine .ofMembers ?_
  intro m hm
  obtain ⟨⟨latency, n⟩, -, rfl⟩ := List.mem_map.1 hm
  exact .ofCounter n

theorem ofJson?_toJson (h : Histogram) : ofJson? h.toJson = some h := by
  unfold ofJson? toJson Json.ofMembers
  dsimp only
  rw [Json.mapM_entries toString Json.ofCounter]
  · show some (Histogram.mk (.ofList h.counts.entries)) = _
    rw [show SortedMap.ofList h.counts.entries = h.counts from
      SortedMap.foldl_insert_entries h.counts]
  · intro latency n
    rw [latencyKey?_spell, Json.counter?_ofCounter]
    rfl

end Histogram

/-! ### Breakdowns -/

namespace Breakdown

/-- The json value of one position. -/
def levelsToJson (levels : SortedMap Level Count) : Json :=
  .ofMembers (levels.entries.map fun (level, n) => (level.label, .ofCounter n))

theorem positionOfJson?_levelsToJson (levels : SortedMap Level Count) :
    positionOfJson? (levelsToJson levels) = some levels := by
  unfold positionOfJson? levelsToJson Json.ofMembers
  dsimp only
  rw [Json.mapM_entries Level.label Json.ofCounter]
  · exact congrArg some (SortedMap.foldl_insert_entries levels)
  · intro level n
    have hlabel : Level.ofLabel? level.label = some level := Level.ofLabel?_eq_some_iff.2 rfl
    simp [Json.spelledText?_spell, hlabel]

theorem printable_toJson (b : Breakdown) : Printable b.toJson := by
  refine .array ?_
  intro j hj
  obtain ⟨levels, -, rfl⟩ := List.mem_map.1 hj
  refine .ofMembers ?_
  intro m hm
  obtain ⟨⟨level, n⟩, -, rfl⟩ := List.mem_map.1 hm
  exact .ofCounter n

theorem ofJson?_toJson (b : Breakdown) : ofJson? b.toJson = some b := by
  show ((b.positions.map levelsToJson).mapM positionOfJson?).map Breakdown.mk = _
  rw [Json.mapM_map_eq_some fun levels _ => positionOfJson?_levelsToJson levels]
  rfl

end Breakdown

/-! ### Summaries -/

namespace Summary

/-- The doubles of a summary. -/
def floats : Summary → List Float
  | radix s => [s.meanLatency]
  | ecpt s => [s.meanMaxLatency, s.meanCorrectLatency, s.meanParallelLatency, s.averageReduction]

theorem printable_toJson (s : Summary) : Printable s.toJson := by
  cases s with
  | radix s =>
    refine .ofMembers (List.forall_mem_singleton.2 (.ofMembers ?_))
    simp only [List.forall_mem_cons]
    exact ⟨.ofFloat _, .ofCounter _, nofun⟩
  | ecpt s =>
    refine .ofMembers (List.forall_mem_singleton.2 (.ofMembers ?_))
    simp only [List.forall_mem_cons]
    exact ⟨.ofFloat _, .ofFloat _, .ofFloat _, .ofCounter _, .ofFloat _, .ofCounter _, nofun⟩

/-- What is read back of a radix summary is decided by its double. -/
theorem ofJson?_toJson_radix (s : RadixSummary) :
    ofJson? (radix s).toJson
      = (Json.float? (.ofFloat s.meanLatency)).map fun x => radix { s with meanLatency := x } := by
  have hread : ofJson? (radix s).toJson = (radixOfJson? (.ofMembers
      [("mean_latency", .ofFloat s.meanLatency),
        ("total_requests", .ofCounter s.totalRequests)])).map radix := by
    unfold ofJson? toJson
    rw [Json.tagged?_ofMembers]
    rfl
  rw [hread]
  unfold radixOfJson?
  rw [Json.fields?_ofMembers false rfl (by decide)]
  simp only [List.map_cons, List.map_nil, Json.field?, Json.counter?_ofCounter,
    Option.bind_eq_bind, Option.bind_some]
  cases Json.float? (.ofFloat s.meanLatency) <;> rfl

/-- What is read back of a cuckoo summary is decided by its doubles. -/
theorem ofJson?_toJson_ecpt (s : EcptSummary) :
    ofJson? (ecpt s).toJson
      = (Json.float? (.ofFloat s.meanMaxLatency)).bind fun x =>
        (Json.float? (.ofFloat s.meanCorrectLatency)).bind fun y =>
        (Json.float? (.ofFloat s.meanParallelLatency)).bind fun z =>
        (Json.float? (.ofFloat s.averageReduction)).bind fun w =>
        some (ecpt { s with meanMaxLatency := x, meanCorrectLatency := y, meanParallelLatency := z,
                            averageReduction := w }) := by
  have hread : ofJson? (ecpt s).toJson = (ecptOfJson? (.ofMembers
      [("mean_max_latency", .ofFloat s.meanMaxLatency),
        ("mean_correct_latency", .ofFloat s.meanCorrectLatency),
        ("mean_parallel_latency", .ofFloat s.meanParallelLatency),
        ("total_saved_latency", .ofCounter s.totalSavedLatency),
        ("avg_reduction", .ofFloat s.averageReduction),
        ("total_requests", .ofCounter s.totalRequests)])).map ecpt := by
    unfold ofJson? toJson
    rw [Json.tagged?_ofMembers]
    rfl
  rw [hread]
  unfold ecptOfJson?
  rw [Json.fields?_ofMembers false rfl (by decide)]
  simp only [List.map_cons, List.map_nil, Json.field?, Json.counter?_ofCounter,
    Option.bind_eq_bind, Option.bind_some, Option.map_bind, Function.comp_def]
  rfl

/-- **A summary is read back** exactly if each of its doubles is. -/
theorem ofJson?_toJson_iff (s : Summary) :
    ofJson? s.toJson = some s ↔ ∀ x ∈ s.floats, Json.float? (.ofFloat x) = some x := by
  cases s with
  | radix s =>
    obtain ⟨mean, requests⟩ := s
    rw [ofJson?_toJson_radix, Option.map_eq_some_iff]
    unfold floats
    rw [List.forall_mem_singleton]
    constructor
    · rintro ⟨x, hx, heq⟩
      cases heq
      exact hx
    · intro h
      exact ⟨_, h, rfl⟩
  | ecpt s =>
    obtain ⟨meanMax, meanCorrect, meanParallel, saved, reduction, requests⟩ := s
    rw [ofJson?_toJson_ecpt]
    unfold floats
    simp only [Option.bind_eq_some_iff, List.forall_mem_cons]
    constructor
    · rintro ⟨x, hx, y, hy, z, hz, w, hw, heq⟩
      cases heq
      exact ⟨hx, hy, hz, hw, nofun⟩
    · rintro ⟨hx, hy, hz, hw, -⟩
      exact ⟨_, hx, _, hy, _, hz, _, hw, rfl⟩

/-- Nothing is read back of a summary with a double that is not finite. -/
theorem isFinite_of_ofJson? {s s' : Summary} (h : ofJson? s.toJson = some s') :
    ∀ x ∈ s.floats, x.isFinite = true := by
  cases s with
  | radix s =>
    rw [ofJson?_toJson_radix, Option.map_eq_some_iff] at h
    obtain ⟨x, hx, -⟩ := h
    exact List.forall_mem_singleton.2 (Json.isFinite_of_float? hx)
  | ecpt s =>
    rw [ofJson?_toJson_ecpt] at h
    simp only [Option.bind_eq_some_iff] at h
    obtain ⟨x, hx, y, hy, z, hz, w, hw, -⟩ := h
    unfold floats
    simp only [List.forall_mem_cons]
    exact ⟨Json.isFinite_of_float? hx, Json.isFinite_of_float? hy, Json.isFinite_of_float? hz,
      Json.isFinite_of_float? hw, nofun⟩

end Summary

/-! ### Statistics -/

namespace Statistics

theorem histogramsOfJson?_toJson (m : SortedMap String Histogram) :
    histogramsOfJson? (.ofMembers (m.entries.map fun (name, h) => (name, h.toJson))) = some m := by
  unfold histogramsOfJson? Json.ofMembers
  dsimp only
  rw [Json.mapM_entries (fun name => name) Histogram.toJson]
  · exact congrArg some (SortedMap.foldl_insert_entries m)
  · intro name h
    simp [Json.spelledText?_spell, Histogram.ofJson?_toJson]

theorem printable_toJson (s : Statistics) : Printable s.toJson := by
  refine .ofMembers ?_
  simp only [List.forall_mem_cons]
  refine ⟨s.summary.printable_toJson, .ofMembers ?_, .ofOption Breakdown.printable_toJson _, nofun⟩
  intro m hm
  obtain ⟨⟨name, h⟩, -, rfl⟩ := List.mem_map.1 hm
  exact h.printable_toJson

/-- What is read back of statistics is decided by their summary. -/
theorem ofJson?_toJson (s : Statistics) :
    ofJson? s.toJson = (Summary.ofJson? s.summary.toJson).map fun summary =>
      { s with summary } := by
  unfold ofJson? toJson
  rw [Json.fields?_ofMembers false rfl (by decide)]
  have hbreakdown := Json.optional?_ofOption Breakdown.ofJson?_toJson (fun _ => nofun) s.breakdown
  simp only [List.map_cons, List.map_nil, Json.field?, histogramsOfJson?_toJson, hbreakdown,
    Option.bind_eq_bind, Option.bind_some]
  cases Summary.ofJson? s.summary.toJson <;> rfl

end Statistics

end PageWalk
