/-
PageWalk/Proofs/Reduction/Order.lean

The order of the records does not matter.

Whether a reducer takes a record depends on the record, and on how many
requests there are already; the records that it took determine its state.
`Unordered` says so of a reducer, and from it follows that any order of some
records leads to the same state, or that none can be taken whole
(`Unordered.takeAll_perm`).  A reduction succeeds exactly if its lines can be
read, their issues passed over and their records taken
(`reduceBytes_eq_ok_iff`).  None of this depends on the order of the lines,
which gives the same of whole logs (`reduction_ignores_order`).

Failures are not the same in all orders: where a run stops, and with which
error, depends on the line that it comes to first.
-/
import PageWalk.Design
import PageWalk.Proofs.Log.Order
import PageWalk.Proofs.Reduction.Handling
import PageWalk.Proofs.Reduction.Success
import PageWalk.Proofs.Statistics.Order

namespace PageWalk

open Reduction (take takeAll take_ok take_eq_ok takeAll_induction)

/-! ### Reducers that ignore the order of records -/

section

variable {σ : Type} [Reducer σ]

/-- A state that holds some records takes another exactly if this fits by
itself and there is room for its requests, and it is determined by what it
holds. -/
structure Unordered (Holds : List Record → σ → Prop) (Fits : Record → Prop) : Prop where
  room {past : List Record} {s : σ} : Holds past s → Record.requests past < 2 ^ 64
  taken_iff {past : List Record} {s : σ} (record : Record) : Holds past s →
    ((Reducer.handle record s).1 = .ok () ↔
      Fits record ∧ Record.requests past + record.frequency.val < 2 ^ 64)
  taken {past : List Record} {s s' : σ} {record : Record} : Holds past s →
    Reducer.handle record s = (.ok (), s') → Holds (past ++ [record]) s'
  unique {records records' : List Record} {s s' : σ} : records.Perm records' →
    Holds records s → Holds records' s' → s = s'

namespace Unordered

variable {Holds : List Record → σ → Prop} {Fits : Record → Prop}

/-- **When records are taken**: each must fit by itself, and all their
requests together. -/
theorem takeAll_iff (h : Unordered Holds Fits) {past : List Record} {s : σ} (hs : Holds past s)
    (records : List Record) :
    (∃ s', takeAll s records = .ok s') ↔
      (∀ r ∈ records, Fits r) ∧ Record.requests past + Record.requests records < 2 ^ 64 := by
  induction records generalizing past s with
  | nil => exact iff_of_true ⟨s, rfl⟩ ⟨nofun, h.room hs⟩
  | cons record records ih =>
    have hrequests : Record.requests (record :: records)
        = record.frequency.val + Record.requests records := rfl
    rw [List.forall_mem_cons, hrequests, ← Nat.add_assoc]
    constructor
    · rintro ⟨s'', hok⟩
      obtain ⟨s', htake, hok⟩ := bind_eq_ok_iff.1 hok
      have hhandle := take_ok htake
      obtain ⟨hfits, -⟩ := (h.taken_iff record hs).1 (congrArg Prod.fst hhandle)
      obtain ⟨hall, hroom⟩ := (ih (h.taken hs hhandle)).1 ⟨s'', hok⟩
      rw [Record.requests_append] at hroom
      exact ⟨⟨hfits, hall⟩, hroom⟩
    · rintro ⟨⟨hfits, hall⟩, hroom⟩
      have hhandle : Reducer.handle record s = (.ok (), (Reducer.handle record s).2) :=
        Prod.ext ((h.taken_iff record hs).2 ⟨hfits, by omega⟩) rfl
      rw [← Record.requests_append] at hroom
      obtain ⟨s'', hok⟩ := (ih (h.taken hs hhandle)).2 ⟨hall, hroom⟩
      exact ⟨s'', bind_eq_ok_iff.2 ⟨_, take_eq_ok hhandle, hok⟩⟩

theorem holds_takeAll (h : Unordered Holds Fits) {start s : σ} (hstart : Holds [] start)
    {records : List Record} (hok : takeAll start records = .ok s) : Holds records s :=
  takeAll_induction hstart (fun _ _ _ _ hs htake => h.taken hs (take_ok htake)) hok

/-- **Records may be taken in any order.** -/
theorem takeAll_perm (h : Unordered Holds Fits) {start s : σ} (hstart : Holds [] start)
    {records records' : List Record} (hp : records.Perm records')
    (hok : takeAll start records = .ok s) : takeAll start records' = .ok s := by
  obtain ⟨hfits, hroom⟩ := (h.takeAll_iff hstart records).1 ⟨s, hok⟩
  rw [Record.requests_perm hp] at hroom
  obtain ⟨s', hok'⟩ := (h.takeAll_iff hstart records').2
    ⟨fun r hr => hfits r (hp.mem_iff.2 hr), hroom⟩
  rw [hok', h.unique hp (h.holds_takeAll hstart hok) (h.holds_takeAll hstart hok')]

end Unordered

end

/-! ### Radix walks -/

namespace RadixReducer

variable {costs : Costs} {records records' : List Record} {r r' : RadixReducer}

theorem Bounded.taken_iff (h : r.Bounded) (record : Record) :
    (handle record r).1 = .ok () ↔
      (record.probes.length ≤ maxProbes ∧ record.walkLatency r.costs < 2 ^ 64) ∧
        r.latency.requests.val + record.frequency.val < 2 ^ 64 := by
  have hhandled := h.handled record
  generalize handle record r = answer at hhandled
  cases hhandled with
  | tooDeep hdeep => exact iff_of_false nofun fun hok => Nat.not_lt.2 hok.1.1 hdeep
  | tooLong _ hlong => exact iff_of_false nofun fun hok => Nat.not_lt.2 hlong hok.1.2
  | tooMany _ _ hmany => exact iff_of_false nofun fun hok => Nat.not_lt.2 hmany hok.2
  | taken hdeep hfits hroom => exact iff_of_true rfl ⟨⟨hdeep, hfits⟩, hroom⟩

theorem Counts.unique (hp : records.Perm records') (h : r.Counts costs records)
    (h' : r'.Counts costs records') : r = r' := by
  have hcosts := h.costs_eq.trans h'.costs_eq.symm
  have hlatency := LatencyStats.Counts.unique hp h.latency h'.latency
  have hbreakdown := Breakdown.Counts.unique hp h.breakdown h'.breakdown
  cases r
  cases r'
  simp only at hcosts hlatency hbreakdown
  rw [hcosts, hlatency, hbreakdown]

theorem unordered (costs : Costs) :
    Unordered (fun past r => RadixReducer.Bounded r ∧ r.Counts costs past)
      fun record => record.probes.length ≤ maxProbes ∧ record.walkLatency costs < 2 ^ 64 where
  room h := h.2.latency.requests ▸ Counter.val_lt _
  taken_iff record h := by
    rw [← h.2.latency.requests, ← h.2.costs_eq]
    exact h.1.taken_iff record
  taken h hhandle := ⟨h.1.taken hhandle, h.2.take (take_eq_ok hhandle)⟩
  unique hp h h' := h.2.unique hp h'.2

end RadixReducer

/-! ### Cuckoo walks -/

namespace EcptReducer

variable {costs : Costs} {o : Overheads} {records records' : List Record} {r r' : EcptReducer}

theorem Bounded.taken_iff (h : r.Bounded) (record : Record) :
    (handle record r).1 = .ok () ↔
      ((∃ way, record.way = some way ∧ way < record.probes.length) ∧
          record.maxLatency r.costs r.overheads < 2 ^ 64) ∧
        r.totalRequests.val + record.frequency.val < 2 ^ 64 := by
  have hhandled := h.handled record
  generalize handle record r = answer at hhandled
  cases hhandled with
  | noWay hway =>
    refine iff_of_false nofun ?_
    rintro ⟨⟨⟨way, hsome, -⟩, -⟩, -⟩
    rw [hway] at hsome
    cases hsome
  | badWay hway hge =>
    refine iff_of_false nofun ?_
    rintro ⟨⟨⟨way, hsome, hlt⟩, -⟩, -⟩
    obtain rfl := Option.some.inj (hway.symm.trans hsome)
    exact Nat.not_lt.2 hge hlt
  | tooLong _ _ hlong => exact iff_of_false nofun fun hok => Nat.not_lt.2 hlong hok.1.2
  | tooMany _ _ _ hmany => exact iff_of_false nofun fun hok => Nat.not_lt.2 hmany hok.2
  | taken hway hlt hfits hroom => exact iff_of_true rfl ⟨⟨⟨_, hway, hlt⟩, hfits⟩, hroom⟩

theorem Counts.unique (hp : records.Perm records') (h : r.Counts costs o records)
    (h' : r'.Counts costs o records') : r = r' := by
  have hcosts := h.costs_eq.trans h'.costs_eq.symm
  have hoverheads := h.overheads_eq.trans h'.overheads_eq.symm
  have hmax := LatencyStats.Counts.unique hp h.max h'.max
  have hcorrect := LatencyStats.Counts.unique hp h.correct h'.correct
  have hparallel := LatencyStats.Counts.unique hp h.parallel h'.parallel
  have hsaved : r.savedLatency = r'.savedLatency :=
    Counter.ext (h.saved.trans ((Record.weighted_perm hp _).trans h'.saved.symm))
  cases r
  cases r'
  simp only at hcosts hoverheads hmax hcorrect hparallel hsaved
  rw [hcosts, hoverheads, hmax, hcorrect, hparallel, hsaved]

theorem unordered (costs : Costs) (o : Overheads) :
    Unordered (fun past r => EcptReducer.Bounded r ∧ r.Counts costs o past)
      fun record => (∃ way, record.way = some way ∧ way < record.probes.length) ∧
        record.maxLatency costs o < 2 ^ 64 where
  room h := h.2.correct.requests ▸ Counter.val_lt _
  taken_iff record h := by
    rw [← h.2.correct.requests, ← h.2.costs_eq, ← h.2.overheads_eq]
    exact h.1.taken_iff record
  taken h hhandle := ⟨h.1.taken hhandle, h.2.take (take_eq_ok hhandle)⟩
  unique hp h h' := h.2.unique hp h'.2

end EcptReducer

/-! ### Whole logs -/

/-- A line is read as what trimming leaves of it. -/
theorem Record.parse_trim (format : RecordFormat) (line : List Char) :
    parse format (Text.trim line) = parse format line := by
  unfold parse fields
  rw [Text.trim_trim]

namespace Reduction

open Log (newline EndsWithMarker Plain shown)

variable {mode : Mode} {format : RecordFormat} {preamble body body' : Bytes}

/-- The records of a section are those of its body, in so far as it is
read. -/
theorem parse_sectionLines {front cs : List Char}
    (hmarker : EndsWithMarker format (Utf8.encode front)) (hplain : Plain format (Utf8.encode cs)) :
    (Log.sectionLines format (front ++ '\n' :: cs)).mapM (fun line => Record.parse format line.text)
      = (shown cs).mapM (Record.parse format) := by
  rw [← Log.trim_sectionLines hmarker.text hplain.text, List.mapM_map]
  congr 1
  funext line
  exact (Record.parse_trim format line.text).symm

section

variable {σ : Type} [Reducer σ] {Holds : List Record → σ → Prop} {Fits : Record → Prop}
  {start : σ}

theorem Reduced.perm (h : Unordered Holds Fits) (hstart : Holds [] start)
    {parsed parsed' : List ParsedRecord} {out : Output} (hp : parsed.Perm parsed')
    (hreduced : Reduced mode start parsed out) : Reduced mode start parsed' out := by
  obtain ⟨hstrict, hrecords, ⟨hlabels, hfields⟩, final, htakes, hstatistics⟩ := hreduced
  have hissues := hp.flatMap_right (·.issues)
  refine ⟨?_, hrecords.trans hp.length_eq, ⟨?_, ?_⟩, final, ?_, hstatistics⟩
  · exact fun h p hmem => hstrict h p (hp.mem_iff.2 hmem)
  · rw [hlabels, hissues.countP_eq]
  · rw [hfields, hissues.countP_eq]
  · exact h.takeAll_perm hstart (hp.map _) htakes

/-- **A log is reduced to the same** if its body is reordered. -/
theorem reduceBytes_perm (h : Unordered Holds Fits) (hstart : Holds [] start)
    (hmarker : EndsWithMarker format preamble) (hplain : Plain format body)
    (hp : (body.splitOn newline).Perm (body'.splitOn newline)) {out : Output}
    (hok : reduceBytes mode format start (preamble ++ newline :: body) = .ok out) :
    reduceBytes mode format start (preamble ++ newline :: body') = .ok out := by
  rcases htext : Utf8.decode? (preamble ++ newline :: body) with - | text
  · rw [reduceBytes_eq_error htext] at hok
    cases hok
  · obtain ⟨front, cs, cs', rfl, rfl, rfl, rfl, htext', hparts⟩ := Log.exists_reordered hp htext
    obtain ⟨parsed, hparsed, hreduced⟩ := (reduceBytes_eq_ok_iff htext).1 hok
    rw [parse_sectionLines hmarker hplain] at hparsed
    obtain ⟨parsed', hparsed', hperm⟩ := mapM_perm (Log.shown_perm hparts) hparsed
    rw [← parse_sectionLines hmarker (hplain.perm hp)] at hparsed'
    exact (reduceBytes_eq_ok_iff htext').2 ⟨parsed', hparsed', hreduced.perm h hstart hperm⟩

end

/-- What a log is reduced to by the reducer of a design. -/
def reduceAs (design : Design) (mode : Mode) (costs : Costs) (o : Overheads) (log : Bytes) :
    Except Error Output :=
  match design with
  | .radix => reduceBytes mode .simple (RadixReducer.new costs) log
  | .ecpt => reduceBytes mode .withWay (EcptReducer.new costs o) log

theorem reduceAs_perm {design : Design} {costs : Costs} {o : Overheads}
    (hmarker : EndsWithMarker design.format preamble) (hplain : Plain design.format body)
    (hp : (body.splitOn newline).Perm (body'.splitOn newline)) {out : Output}
    (hok : reduceAs design mode costs o (preamble ++ newline :: body) = .ok out) :
    reduceAs design mode costs o (preamble ++ newline :: body') = .ok out := by
  cases design with
  | radix =>
    exact reduceBytes_perm (RadixReducer.unordered costs) ⟨.new costs, .new costs⟩ hmarker hplain
      hp hok
  | ecpt =>
    exact reduceBytes_perm (EcptReducer.unordered costs o) ⟨.new costs o, .new costs o⟩ hmarker
      hplain hp hok

/-- **The order of records does not matter.**  Let a log consist of a preamble
that ends with a marker line and of a body, none of whose lines ends the
section or starts another.  If the lines of the body are put in another
order, the log is reduced to the same number of records, the same tally of
issues and the same statistics; and if it cannot be reduced, it cannot be in
any order. -/
theorem reduction_ignores_order (design : Design) (mode : Mode) (costs : Costs) (o : Overheads)
    {preamble body body' : Bytes} (hmarker : EndsWithMarker design.format preamble)
    (hplain : Plain design.format body)
    (hp : (body.splitOn newline).Perm (body'.splitOn newline)) :
    (∀ out, reduceAs design mode costs o (preamble ++ newline :: body) = .ok out ↔
      reduceAs design mode costs o (preamble ++ newline :: body') = .ok out) ∧
    ((∃ e, reduceAs design mode costs o (preamble ++ newline :: body) = .error e) ↔
      ∃ e, reduceAs design mode costs o (preamble ++ newline :: body') = .error e) := by
  have hok : ∀ out, reduceAs design mode costs o (preamble ++ newline :: body) = .ok out ↔
      reduceAs design mode costs o (preamble ++ newline :: body') = .ok out := fun out =>
    ⟨reduceAs_perm hmarker hplain hp, reduceAs_perm hmarker (hplain.perm hp) hp.symm⟩
  refine ⟨hok, ?_⟩
  -- what gives no output in one order gives none in the other
  rcases hout : reduceAs design mode costs o (preamble ++ newline :: body) with e | out
  · rcases hout' : reduceAs design mode costs o (preamble ++ newline :: body') with e' | out
    · exact iff_of_true ⟨e, rfl⟩ ⟨e', rfl⟩
    · rw [(hok out).2 hout'] at hout
      cases hout
  · rw [(hok out).1 hout]

/-- Three records, of which one has an issue, with all kinds of ends. -/
theorem reduction_ignores_order_of_three_records :
    let costs : Costs := ⟨.ofNat 0, .ofNat 4, .ofNat 14, .ofNat 54, .ofNat 1, .ofNat 200⟩
    let o : Overheads := ⟨.ofNat 2, .ofNat 1, .ofNat 3⟩
    let preamble := Utf8.encode "run\r\n~~~~~~~~~~~~~~~ pass 1".toList
    let body := Utf8.encode "L1,2\r\n x,5\nMEMORY,L1,3\n".toList
    let body' := Utf8.encode "\n x,5\nMEMORY,L1,3\nL1,2\r".toList
    (∃ out, reduceAs .radix {} costs o (preamble ++ newline :: body) = .ok out ∧
      reduceAs .radix {} costs o (preamble ++ newline :: body') = .ok out ∧
      out.records = 3 ∧ out.statistics.summary.totalRequests.val = 10) ∧
    ∃ e, reduceAs .radix { strict := true } costs o (preamble ++ newline :: body') = .error e := by
  intro costs o preamble body body'
  have hmarker : EndsWithMarker .simple preamble :=
    ⟨Utf8.encode "~~~~~~~~~~~~~~~ pass 1".toList, by decide +kernel, by decide +kernel⟩
  have hplain : Plain .simple body := by decide +kernel
  have hp : (body.splitOn newline).Perm (body'.splitOn newline) := by decide +kernel
  obtain ⟨hok, -⟩ := reduction_ignores_order .radix {} costs o hmarker hplain hp
  obtain ⟨-, herror⟩ := reduction_ignores_order .radix { strict := true } costs o hmarker hplain hp
  refine ⟨?_, herror.1 ?_⟩
  · have hrun : ((reduceAs .radix {} costs o (preamble ++ newline :: body)).map fun out =>
        (out.records, out.statistics.summary.totalRequests.val)) = .ok (3, 10) := by
      decide +kernel
    obtain ⟨out, hout, hvalues⟩ := map_eq_ok_iff.1 hrun
    rw [Prod.mk.injEq] at hvalues
    exact ⟨out, hout, (hok out).1 hout, hvalues⟩
  · have hfails : (reduceAs .radix { strict := true } costs o (preamble ++ newline :: body)).isOk
        = false := by
      decide +kernel
    rcases hout : reduceAs .radix { strict := true } costs o (preamble ++ newline :: body) with
      e | out
    · exact ⟨e, rfl⟩
    · rw [hout] at hfails
      cases hfails

end Reduction

end PageWalk
