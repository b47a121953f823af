/-
The fragments a reader asks for.

A gap and the last fragment end the assembly of a sample.  A `DATA` and a heartbeat satisfy
the proxy and leave the assembly, and the reader goes on asking for the fragments it lacks.
-/

import Astrs.Rtps.Reader
import Astrs.Rtps.Watermark
import Astrs.Rtps.Reassembly
import Astrs.Rtps.Gaps

namespace Astrs.Rtps

open Astrs.Base

namespace WriterProxy

/-- A reliable proxy that waits for every number in flight. -/
structure Waits (proxy : WriterProxy) (inFlight : Int → Prop) : Prop where
  reliable : proxy.reliable = true
  ranged : 0 ≤ proxy.ackedThrough ∧ proxy.ackedThrough ≤ i64Max
  wanted : ∀ number, inFlight number → proxy.isSatisfied number = false

variable {proxy after : WriterProxy} {inFlight : Int → Prop}

section

variable (waits : proxy.Waits inFlight)
include waits

theorem Waits.moved (moved : Moved proxy after) (reliable : after.reliable = proxy.reliable)
    (ranged : after.ackedThrough ≤ i64Max)
    (passed : ∀ seq, inFlight seq → proxy.ackedThrough < seq → seq ≤ after.ackedThrough →
      seq ∈ proxy.received.elems ∨ seq ∈ proxy.irrelevant.elems) : after.Waits inFlight := by
  refine ⟨reliable.trans waits.reliable,⟨Int.le_trans waits.ranged.1 moved.acked,ranged⟩,?_⟩
  intro seq part
  obtain ⟨above,unreceived,relevant⟩ := isSatisfied_eq_false_iff.mp (waits.wanted seq part)
  refine isSatisfied_eq_false_iff.mpr ⟨Int.not_le.mp ?_,mt (moved.received.only seq) unreceived,
    mt (moved.irrelevant.only seq) relevant⟩
  intro below
  exact (passed seq part above below).elim unreceived relevant

theorem Waits.advance : proxy.advance.Waits inFlight := by
  have walked := advance_advanced waits.ranged.2
  refine waits.moved walked.toMoved ?_ walked.ranged fun seq _ => walked.passed seq
  rw [walked.frame]

theorem Waits.acceptData {seq : Int} (whole : ¬ inFlight seq) :
    (proxy.acceptData seq).2.Waits inFlight := by
  rcases acceptData_reliable waits.reliable seq with refused | ⟨_,_,taken⟩
  · rw [refused]
    exact { waits with }
  · rw [taken]
    refine Waits.advance ⟨waits.reliable,waits.ranged,?_⟩
    intro other part
    obtain ⟨above,unreceived,relevant⟩ := isSatisfied_eq_false_iff.mp (waits.wanted other part)
    refine isSatisfied_eq_false_iff.mpr ⟨above,?_,relevant⟩
    intro held
    rcases OrderedSet.mem_insert.mp held with same | before
    · exact whole (same ▸ part)
    · exact unreceived before

theorem Waits.acceptHeartbeat {heartbeat : Heartbeat} (small : heartbeat.firstSn ≤ i64Max)
    (inside : ∀ seq, inFlight seq → heartbeat.firstSn ≤ seq) :
    (proxy.acceptHeartbeat heartbeat).2.Waits inFlight := by
  rcases proxy.acceptHeartbeat_cases heartbeat with stale | ⟨skipped,_,dropped,applied⟩
  · rw [stale]
    exact waits
  · have heard : Waits { proxy with lastHeartbeatCount := heartbeat.count, active := true } inFlight :=
      { waits with }
    have first : skipped.Waits inFlight := by
      refine heard.moved dropped.toMoved ?_ (dropped.ranged heard.ranged.2 small) ?_
      · rw [dropped.frame]
      · intro seq part above below
        have gone := dropped.passed seq (Int.lt_of_le_of_lt heard.ranged.1 above) above below
        exact absurd (inside seq part) (Int.not_le.mpr gone)
    have noted : (skipped.noteAvailable heartbeat.lastSn).Waits inFlight := { first with }
    rw [applied]
    exact { noted.advance with }

theorem Waits.acceptGap {gap : Gap} (unnamed : ∀ seq, inFlight seq → seq ∉ gap.irrelevant) :
    (proxy.acceptGap gap).Waits inFlight := by
  obtain ⟨marked,noted,applied⟩ := proxy.acceptGap_eq gap
  have frame := noted.frame
  rw [applied]
  refine Waits.advance ⟨?_,?_,?_⟩
  · rw [frame]
    exact waits.reliable
  · rw [frame]
    exact waits.ranged
  · intro seq part
    obtain ⟨above,unreceived,relevant⟩ := isSatisfied_eq_false_iff.mp (waits.wanted seq part)
    rw [isSatisfied_eq_false_iff,frame]
    exact ⟨above,unreceived,fun given =>
      (noted.added seq given).elim relevant fun new => unnamed seq part new.1⟩

end

end WriterProxy

namespace RtpsReader

theorem assembly_foldl_discard (writer : Guid) (numbers : List Int) (held : Reassembler)
    (other : Guid) (seq : Int) :
    (numbers.foldl (fun held seq => held.discard writer seq) held).assembly other seq =
      if writer = other ∧ seq ∈ numbers then none else held.assembly other seq := by
  induction numbers generalizing held with
  | nil => simp
  | cons first rest ih =>
    rw [List.foldl_cons,ih,Reassembler.assembly_discard]
    by_cases later : writer = other ∧ seq ∈ rest
    · rw [if_pos later,if_pos ⟨later.1,.tail _ later.2⟩]
    · rw [if_neg later]
      by_cases here : writer = other ∧ first = seq
      · rw [if_pos here,if_pos ⟨here.1,List.mem_cons.mpr (.inl here.2.symm)⟩]
      · rw [if_neg here,if_neg]
        rintro ⟨same,mem⟩
        rcases List.mem_cons.mp mem with equal | inRest
        · exact here ⟨same,equal.symm⟩
        · exact later ⟨same,inRest⟩

/-- Every assembly is of a sample that its proxy waits for. -/
structure Needs (reader : RtpsReader) : Prop where
  stateful : reader.config.isStateless = false
  valid : reader.reassembler.Valid
  proxies : ∀ writer proxy, reader.matched.get writer = some proxy →
    proxy.Waits fun number => reader.reassembler.assembly writer number ≠ none

/-- A `DATA` finds no fragment of its sample, and a heartbeat none of a sample below its
window, whose start is a 64-bit integer. -/
def Orderly (reader : RtpsReader) (delivery : Delivery) : Prop :=
  match delivery.submessage with
  | .data data =>
    reader.reassembler.assembly ⟨delivery.source,data.writerId⟩ data.writerSn = none
  | .heartbeat heartbeat => heartbeat.firstSn ≤ i64Max ∧ ∀ number,
      reader.reassembler.assembly ⟨delivery.source,heartbeat.writerId⟩ number ≠ none →
        heartbeat.firstSn ≤ number
  | _ => True

/-- What submessages, and asking for fragments in between, make of a reader. -/
inductive Comes (start : RtpsReader) : RtpsReader → Prop
  | start : Comes start start
  | receive {reader : RtpsReader} {delivery : Delivery} (now : Nat) : Comes start reader →
      reader.Orderly delivery → Comes start (reader.dispatch now delivery)
  | ask {reader : RtpsReader} : Comes start reader → Comes start reader.produceNackFrags.2

/-- The datagram asks a writer for fragments of a sample that its proxy waits for. -/
def AsksInNeed (reader : RtpsReader) (out : Outbound) : Prop :=
  ∃ writer proxy nack, reader.matched.get writer = some proxy ∧
    out.message.submessages =
      [.infoDestination { guidPrefix := writer.guidPrefix },.nackFrag nack] ∧
    nack.writerId = writer.entityId ∧ proxy.isSatisfied nack.writerSn = false

variable {reader start : RtpsReader}

section

variable (needs : reader.Needs)
include needs

theorem Needs.insert {writer : Guid} {held : WriterProxy}
    (waits : held.Waits fun seq => reader.reassembler.assembly writer seq ≠ none) :
    Needs { reader with matched := reader.matched.insert writer held } where
  stateful := needs.stateful
  valid := needs.valid
  proxies := by
    intro other proxy found
    rcases OrderedMap.insert_some _ found with ⟨rfl,rfl⟩ | ⟨_,before⟩
    · exact waits
    · exact needs.proxies other proxy before

theorem Needs.replace {table : Reassembler} (valid : table.Valid)
    (wanted : ∀ writer proxy seq, reader.matched.get writer = some proxy →
      table.assembly writer seq ≠ none → proxy.isSatisfied seq = false) :
    Needs { reader with reassembler := table } where
  stateful := needs.stateful
  valid := valid
  proxies := by
    intro writer proxy found
    exact { needs.proxies writer proxy found with
      wanted := fun seq => wanted writer proxy seq found }

theorem Needs.dispatch {delivery : Delivery} (orderly : reader.Orderly delivery) (now : Nat) :
    (reader.dispatch now delivery).Needs := by
  obtain ⟨source,timestamp,submessage⟩ := delivery
  have known : ∀ writer, reader.acquaint writer = reader := fun _ => if_pos (.inl needs.stateful)
  unfold RtpsReader.dispatch
  cases submessage with
  | data data =>
    dsimp only [onData]
    rw [known]
    split
    · exact needs
    · split
      · exact needs
      · split
        · exact needs
        · rename_i found
          have held := needs.insert ((needs.proxies _ _ found).acceptData (not_not.mpr orderly))
          split
          · exact held
          · exact ⟨held.stateful,held.valid,held.proxies⟩
  | dataFrag fragment =>
    dsimp only [onDataFrag]
    rw [known]
    split
    · exact needs
    · split
      · exact needs
      · split
        · exact needs
        · rename_i found
          split
          · exact needs
          · rename_i unsatisfied
            have stored := needs.replace
              (needs.valid.accept ⟨source,fragment.writerId⟩ fragment) (by
                intro writer proxy seq matched part
                by_cases own : ⟨source,fragment.writerId⟩ = writer ∧ fragment.writerSn = seq
                · obtain ⟨rfl,rfl⟩ := own
                  cases found.symm.trans matched
                  exact eq_false_of_ne_true unsatisfied
                · have same := (Reassembler.accept_other needs.valid own).resolve_right part
                  rw [same] at part
                  exact (needs.proxies writer proxy matched).wanted seq part)
            split
            · exact stored
            · exact stored
            · rename_i handed
              have held := stored.insert ((stored.proxies _ _ found).acceptData
                (not_not.mpr (needs.valid.accept_whole handed)))
              split
              · exact held
              · exact ⟨held.stateful,held.valid,held.proxies⟩
  | heartbeat heartbeat =>
    dsimp only [onHeartbeat]
    split
    · exact needs
    · split
      · exact needs
      · rename_i found
        have waits := needs.proxies _ _ found
        rw [if_pos waits.reliable]
        exact needs.insert (waits.acceptHeartbeat orderly.1 orderly.2)
  | gap gap =>
    dsimp only [onGap]
    split
    · exact needs
    · split
      · exact needs
      · rename_i found
        generalize discarded : gap.irrelevant.foldl _ reader.reassembler = table
        have left : ∀ {other seq}, table.assembly other seq ≠ none →
            table.assembly other seq = reader.reassembler.assembly other seq ∧
              ¬ (⟨source,gap.writerId⟩ = other ∧ seq ∈ gap.irrelevant) := by
          intro other seq part
          rw [← discarded,assembly_foldl_discard] at part ⊢
          split at part
          · exact absurd rfl part
          · exact ⟨if_neg ‹_›,‹_›⟩
        have kept : Needs { reader with reassembler := table } := by
          refine needs.replace ?_ ?_
          · intro other seq assembly held
            refine needs.valid other seq assembly ?_
            rw [← (left (by simp [held])).1,held]
          · intro writer proxy seq matched part
            refine (needs.proxies writer proxy matched).wanted seq ?_
            rw [← (left part).1]
            exact part
        refine kept.insert ((kept.proxies _ _ found).acceptGap ?_)
        intro _ part named
        exact (left part).2 ⟨rfl,named⟩
  | ackNack | nackFrag | infoTimestamp | infoSource | infoDestination | other => exact needs

end

theorem Comes.needs (comes : Comes start reader) (needs : start.Needs) : reader.Needs := by
  induction comes with
  | start => exact needs
  | receive now _ orderly ih => exact ih.dispatch orderly now
  | ask _ ih =>
    unfold produceNackFrags
    dsimp only
    split
    · exact ih
    · exact ⟨ih.stateful,ih.valid,ih.proxies⟩

theorem Needs.asksInNeed (needs : reader.Needs) :
    ∀ out ∈ RtpsWriter.sentBy reader.produceNackFrags.1, reader.AsksInNeed out := by
  intro out mem
  unfold produceNackFrags at mem
  dsimp only at mem
  split at mem
  · exact absurd mem List.not_mem_nil
  · rename_i sending
    obtain ⟨_,listed,sent⟩ := mem_of_mapM_ok sending mem
    obtain ⟨⟨writer,proxy⟩,known,asked⟩ := List.mem_flatMap.mp listed
    obtain ⟨_,asking,rfl⟩ := List.mem_map.mp asked
    obtain ⟨seq,_,made⟩ := List.mem_filterMap.mp asking
    have found := OrderedMap.get_eq_some_iff.mpr (List.mem_filter.mp known).1
    rw [RtpsWriter.send_ok sent]
    dsimp only at made
    split at made
    · cases made
    · split at made
      · cases made
      · rename_i missing
        split at made
        · cases made
        · cases made
          refine ⟨writer,proxy,_,found,rfl,rfl,(needs.proxies writer proxy found).wanted seq ?_⟩
          intro none
          unfold Reassembler.missing at missing
          rw [none] at missing
          cases missing

/-- In every run in which no `DATA` and no heartbeat meets an assembly that it leaves behind,
a reader asks only for fragments of samples that it needs. -/
theorem fragments_asked_in_need (start reader : RtpsReader)
    (stateful : start.config.isStateless = false) (fresh : start.reassembler = Reassembler.new)
    (reliable : ∀ writer proxy, start.matched.get writer = some proxy →
      proxy.reliable = true ∧ 0 ≤ proxy.ackedThrough ∧ proxy.ackedThrough ≤ i64Max)
    (comes : Comes start reader) :
    ∀ out ∈ RtpsWriter.sentBy reader.produceNackFrags.1, reader.AsksInNeed out := by
  refine Needs.asksInNeed (comes.needs ⟨stateful,?_,?_⟩)
  · rw [fresh]
    exact Reassembler.new_allValid
  · intro writer proxy found
    obtain ⟨kept,ranged⟩ := reliable writer proxy found
    refine ⟨kept,ranged,fun seq part => absurd ?_ part⟩
    rw [fresh]
    rfl

/-- A reader matched with one writer. -/
def heardOne : RtpsReader :=
  (RtpsReader.new { guid := ⟨2,7⟩, history := ⟨.keepAll,0⟩, isStateless := false }).matchWriter
    (WriterProxy.new ⟨1,3⟩ [⟨1,1,0⟩] true)

/-- It has heard the first of two fragments and has looked for progress once. -/
def heardHalf : RtpsReader :=
  (heardOne.dispatch 0 ⟨1,none,.dataFrag
    { readerId := 7, writerId := 3, writerSn := 1, fragmentStartingNum := 1
      fragmentsInSubmessage := 1, fragmentSize := 1, sampleSize := 2, payload := [7] }⟩)
    |>.produceNackFrags.2

theorem second_fragment_asked_in_need :
    (RtpsWriter.sentBy heardHalf.produceNackFrags.1).length = 1 ∧
      ∀ out ∈ RtpsWriter.sentBy heardHalf.produceNackFrags.1, heardHalf.AsksInNeed out := by
  refine ⟨by decide +kernel,
    fragments_asked_in_need heardOne heardHalf rfl rfl ?_ (.ask (.receive 0 .start trivial))⟩
  intro guid proxy found
  change (OrderedMap.empty.insert (⟨1,3⟩ : Guid) (WriterProxy.new ⟨1,3⟩ [⟨1,1,0⟩] true)).get guid =
    some proxy at found
  rw [OrderedMap.get_insert] at found
  split at found
  · cases found
    decide
  · cases found

/-- The whole sample, sent again as one `DATA`, satisfies the proxy and leaves the assembly. -/
theorem fragment_of_received_sample_asked :
    let reader := heardHalf.dispatch 0
      ⟨1,none,.data { readerId := 7, writerId := 3, writerSn := 1, payload := .data [7,8] }⟩
    (reader.matched.get ⟨1,3⟩).map (fun proxy => proxy.isSatisfied 1) = some true ∧
      ∃ missing, (RtpsWriter.sentBy reader.produceNackFrags.1).map
        (fun out => out.message.submessages) = [[.infoDestination { guidPrefix := 1 },.nackFrag
          { readerId := 7, writerId := 3, writerSn := 1, fragmentNumberState := missing
            count := 1 }]] :=
  ⟨by decide +kernel,_,rfl⟩

end RtpsReader

end Astrs.Rtps
