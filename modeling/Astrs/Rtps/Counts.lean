/-
The counts of heartbeats and acknowledgements.

A sender numbers its messages up to the largest 32-bit number and repeats that one from then
on; the other side takes a message only when its count is above every count it has seen.
-/

import Astrs.Rtps.Gaps
import Astrs.Rtps.Watermark

namespace Astrs.Rtps

open Astrs.Base List WriterProxy

/-- A state that remembers the largest key it has seen. -/
theorem foldl_lt_iff {σ ι : Type} {largest : σ → Int} {key : ι → Int} {step : σ → ι → σ}
    (raises : ∀ state item, largest (step state item) = max (largest state) (key item))
    (items : List ι) (start : σ) (bound : Int) :
    largest (items.foldl step start) < bound ↔
      largest start < bound ∧ ∀ item ∈ items, key item < bound := by
  induction items generalizing start with
  | nil => simp
  | cons item rest ih => rw [foldl_cons,ih,raises,max_lt_iff,forall_mem_cons,and_assoc]

theorem lt_nextCount_iff {earlier count : Int} (given : earlier ≤ count) :
    earlier < nextCount count ↔ earlier < i32Max := by
  unfold nextCount
  omega

theorem le_nextCount {count : Int} (small : count ≤ i32Max) :
    count ≤ nextCount count ∧ nextCount count ≤ i32Max := by
  unfold nextCount
  omega

namespace ReaderProxy

theorem requestMissing_count (numbers : List Int) (proxy : ReaderProxy) :
    (requestMissing numbers proxy).lastAcknackCount = proxy.lastAcknackCount := by
  induction numbers generalizing proxy with
  | nil => rfl
  | cons seq rest ih =>
    unfold requestMissing
    split
    · rfl
    · split
      · exact ih _
      · exact ih _

theorem assumeAckedThrough_count (proxy : ReaderProxy) (seq : Int) :
    (proxy.assumeAckedThrough seq).lastAcknackCount = proxy.lastAcknackCount := by
  unfold assumeAckedThrough
  split <;> rfl

theorem acceptAcknack_count (proxy : ReaderProxy) (acknack : AckNack) :
    (proxy.acceptAcknack acknack).2.lastAcknackCount =
      max proxy.lastAcknackCount acknack.count := by
  unfold acceptAcknack
  split
  · rename_i stale
    exact (max_eq_left stale).symm
  · rename_i fresh
    dsimp only
    rw [requestMissing_count,assumeAckedThrough_count,max_eq_right (Int.le_of_not_le fresh)]

theorem acceptAcknack_iff (proxy : ReaderProxy) (acknack : AckNack) :
    (proxy.acceptAcknack acknack).1 = true ↔ proxy.lastAcknackCount < acknack.count := by
  unfold acceptAcknack
  split
  · exact iff_of_false nofun (by omega)
  · exact iff_of_true rfl (by omega)

end ReaderProxy

namespace WriterProxy

theorem advance_counts (proxy : WriterProxy) :
    proxy.advance.lastHeartbeatCount = proxy.lastHeartbeatCount ∧
      proxy.advance.acknackCount = proxy.acknackCount := by
  refine @advanceFor_keeps proxy (fun after => after.lastHeartbeatCount = proxy.lastHeartbeatCount ∧
    after.acknackCount = proxy.acknackCount) ?_ _ ⟨rfl,rfl⟩
  intro before after moved kept
  rcases advanceOnce_cases moved with ⟨_,rfl⟩ | ⟨_,_,rfl⟩ <;> exact kept

theorem acceptHeartbeat_count (proxy : WriterProxy) (heartbeat : Heartbeat) :
    (proxy.acceptHeartbeat heartbeat).2.lastHeartbeatCount =
      max proxy.lastHeartbeatCount heartbeat.count := by
  by_cases stale : heartbeat.count ≤ proxy.lastHeartbeatCount
  · unfold acceptHeartbeat
    rw [if_pos stale,max_eq_left stale]
  · rw [max_eq_right (by omega)]
    rcases proxy.acceptHeartbeat_cases heartbeat with refused | ⟨skipped,_,dropped,applied⟩
    · unfold acceptHeartbeat at refused
      rw [if_neg stale] at refused
      cases refused
    · rw [applied]
      refine (advance_counts _).1.trans ?_
      change skipped.lastHeartbeatCount = _
      rw [dropped.frame]

theorem acceptHeartbeat_iff (proxy : WriterProxy) (heartbeat : Heartbeat) :
    (proxy.acceptHeartbeat heartbeat).1 = true ↔ proxy.lastHeartbeatCount < heartbeat.count := by
  unfold acceptHeartbeat
  split
  · exact iff_of_false nofun (by omega)
  · exact iff_of_true rfl (by omega)

end WriterProxy

/-! ### Heartbeats -/

namespace RtpsWriter

def heartbeatsOf (writer : RtpsWriter) : Call → List Outbound
  | .produce now =>
    match produceAll (writer.matched.entries.map Prod.fst) writer with
    | (.ok _,after) =>
      if after.shouldHeartbeat now then sentBy (after.produceHeartbeat now false).1 else []
    | (.error _,_) => []
  | .forceHeartbeat now => sentBy (writer.forceHeartbeat now).1
  | .assertLiveliness now => sentBy (writer.assertLiveliness now).1
  | _ => []

def heartbeats : RtpsWriter → List Call → List Outbound
  | _,[] => []
  | writer,call :: rest =>
    writer.heartbeatsOf call ++ heartbeats (writer.perform call).2 rest

/-- A call keeps the count and sends no heartbeat, or takes the next count and sends
its heartbeats with it. -/
def Counts (writer after : RtpsWriter) (sent : List Outbound) : Prop :=
  (after.heartbeatCount = writer.heartbeatCount ∧ sent = []) ∨
    after.heartbeatCount = nextCount writer.heartbeatCount ∧
      ∀ out ∈ sent, ∀ body, .heartbeat body ∈ out.message.submessages →
        body.count = nextCount writer.heartbeatCount

theorem produceHeartbeat_counts (writer : RtpsWriter) (now : Nat) (liveliness : Bool) :
    writer.Counts (writer.produceHeartbeat now liveliness).2
      (sentBy (writer.produceHeartbeat now liveliness).1) := by
  unfold produceHeartbeat
  split
  · exact .inl ⟨rfl,rfl⟩
  · refine .inr ⟨rfl,?_⟩
    dsimp only
    generalize sent : List.mapM (m := Except BehaviorError) _ _ = result
    cases result with
    | error => exact forall_mem_nil _
    | ok outbound =>
      intro out mem _ present
      obtain ⟨_,-,sending⟩ := mem_of_mapM_ok sent mem
      rw [send_ok sending] at present
      rcases mem_cons.mp present with destination | heartbeat
      · cases destination
      · cases mem_singleton.mp heartbeat
        rfl

theorem produceAll_count (readers : List Guid) (writer : RtpsWriter) :
    (produceAll readers writer).2.heartbeatCount = writer.heartbeatCount := by
  induction readers generalizing writer with
  | nil => rfl
  | cons reader rest ih =>
    have first : (writer.produceFor reader).2.heartbeatCount = writer.heartbeatCount := by
      unfold produceFor
      repeat' split
      all_goals rfl
    unfold produceAll
    generalize writer.produceFor reader = made at first
    obtain ⟨result,after⟩ := made
    cases result with
    | error => exact first
    | ok =>
      have others := ih after
      dsimp only
      generalize produceAll rest after = remaining at others
      obtain ⟨result,_⟩ := remaining
      cases result <;> exact others.trans first

theorem perform_counts (writer : RtpsWriter) (call : Call) :
    writer.Counts (writer.perform call).2 (writer.heartbeatsOf call) := by
  cases call with
  | produce now =>
    have samples := produceAll_count (writer.matched.entries.map Prod.fst) writer
    dsimp only [perform,produce,heartbeatsOf]
    generalize produceAll (writer.matched.entries.map Prod.fst) writer = made at samples
    obtain ⟨result,after⟩ := made
    cases result with
    | error => exact .inl ⟨samples,rfl⟩
    | ok =>
      dsimp only at samples ⊢
      split
      · have beats := produceHeartbeat_counts after now false
        unfold Counts at beats ⊢
        rw [samples] at beats
        generalize after.produceHeartbeat now false = beaten at beats
        obtain ⟨result,_⟩ := beaten
        cases result <;> exact beats
      · exact .inl ⟨samples,rfl⟩
  | forceHeartbeat now => exact produceHeartbeat_counts writer now false
  | assertLiveliness now => exact produceHeartbeat_counts writer now true
  | _ =>
    refine .inl ⟨?_,rfl⟩
    dsimp only [perform,write,writeChange,forget,expire,reclaim,matchReader,setProxy,
      unmatchReader,onAcknack,onNackFrag]
    repeat' split
    all_goals rfl

/-- Along a run the count never falls, and bounds the counts of what was sent. -/
theorem heartbeats_count (calls : List Call) {writer : RtpsWriter}
    (small : writer.heartbeatCount ≤ i32Max) :
    let last := (writer.performAll calls).heartbeatCount
    writer.heartbeatCount ≤ last ∧ ∀ out ∈ writer.heartbeats calls,
      ∀ body, .heartbeat body ∈ out.message.submessages → body.count ≤ last := by
  induction calls generalizing writer with
  | nil => exact ⟨Int.le_refl _,forall_mem_nil _⟩
  | cons call rest ih =>
    unfold heartbeats
    obtain ⟨up,within⟩ := le_nextCount small
    rcases writer.perform_counts call with ⟨same,silent⟩ | ⟨next,numbered⟩
    · obtain ⟨later,bounded⟩ := ih (same ▸ small)
      rw [silent]
      exact ⟨same ▸ later,bounded⟩
    · obtain ⟨later,bounded⟩ := ih (next ▸ within)
      rw [next] at later
      refine ⟨up.trans later,forall_mem_append.mpr ⟨fun out mem body present => ?_,bounded⟩⟩
      rw [numbered out mem body present]
      exact later

end RtpsWriter

/-! ### Acknowledgements -/

namespace WriterProxy

/-- What happens to a proxy while a match lasts. -/
inductive Event where
  | hears (input : ProxyInput)
  | relocates (unicast : List Locator)
  | answers (readerId : EntityId)

def happen (proxy : WriterProxy) : Event → WriterProxy
  | .hears (.data number) => (proxy.acceptData number).2
  | .hears (.heartbeat body) => (proxy.acceptHeartbeat body).2
  | .hears (.gap body) => proxy.acceptGap body
  | .relocates unicast => proxy.setLocators unicast []
  | .answers readerId => (proxy.takeAcknack readerId).2

def answer (proxy : WriterProxy) : Event → List AckNack
  | .answers readerId => [(proxy.takeAcknack readerId).1]
  | _ => []

def acknacks : WriterProxy → List Event → List AckNack
  | _,[] => []
  | proxy,event :: rest => proxy.answer event ++ acknacks (proxy.happen event) rest

theorem hears_count (proxy : WriterProxy) (input : ProxyInput) :
    (proxy.happen (.hears input)).acknackCount = proxy.acknackCount := by
  cases input with
  | data =>
    dsimp only [happen,acceptData]
    repeat' split
    any_goals rfl
    exact (advance_counts _).2
  | heartbeat body =>
    dsimp only [happen]
    rcases proxy.acceptHeartbeat_cases body with stale | ⟨skipped,pending,dropped,applied⟩
    · rw [stale]
    · rw [applied]
      refine (advance_counts _).2.trans ?_
      change skipped.acknackCount = _
      rw [dropped.frame]
  | gap body =>
    obtain ⟨marked,noted,applied⟩ := proxy.acceptGap_eq body
    dsimp only [happen]
    rw [applied,(advance_counts _).2,noted.frame]

theorem acknacks_count (events : List Event) {proxy : WriterProxy}
    (small : proxy.acknackCount ≤ i32Max) :
    let last := (events.foldl happen proxy).acknackCount
    proxy.acknackCount ≤ last ∧ ∀ acknack ∈ proxy.acknacks events, acknack.count ≤ last := by
  induction events generalizing proxy with
  | nil => exact ⟨Int.le_refl _,forall_mem_nil _⟩
  | cons event rest ih =>
    cases event with
    | hears input =>
      have same := proxy.hears_count input
      have later := ih (same ▸ small)
      rw [same] at later
      exact later
    | relocates unicast => exact @ih (proxy.setLocators unicast []) small
    | answers readerId =>
      obtain ⟨up,within⟩ := le_nextCount small
      obtain ⟨later,bounded⟩ := @ih (proxy.takeAcknack readerId).2 within
      exact ⟨up.trans later,forall_mem_cons.mpr ⟨later,bounded⟩⟩

theorem count_answered (count : Nat) (guid : Guid) (readerId : EntityId) :
    ((replicate count (.answers readerId)).foldl happen (new guid [] true)).acknackCount =
      min (count : Int) i32Max := by
  induction count with
  | zero => rfl
  | succ count ih =>
    rw [replicate_succ',foldl_append]
    change nextCount (foldl happen _ _).acknackCount = _
    rw [ih]
    unfold nextCount
    omega

end WriterProxy

/-- A peer that has taken earlier heartbeats of a writer, or earlier acknowledgements of a
reader, takes the next one exactly when none of those carried the largest count. -/
theorem counts_fresh_iff (guid : Guid) (locators : List Locator) :
    (∀ (config : WriterConfig) (before : List RtpsWriter.Call) (call : RtpsWriter.Call)
      (earlier : List Heartbeat) (body : Heartbeat),
      (∀ other ∈ earlier, ∃ out ∈ (RtpsWriter.new config).heartbeats before,
        .heartbeat other ∈ out.message.submessages) →
      (∃ out ∈ ((RtpsWriter.new config).performAll before).heartbeatsOf call,
        .heartbeat body ∈ out.message.submessages) →
      (((earlier.foldl (fun peer other => (peer.acceptHeartbeat other).2)
          (WriterProxy.new guid locators true)).acceptHeartbeat body).1 = true ↔
        ∀ other ∈ earlier, other.count < i32Max)) ∧
    ∀ (events : List WriterProxy.Event) (readerId : EntityId) (earlier : List AckNack),
      (∀ other ∈ earlier, other ∈ (WriterProxy.new guid locators true).acknacks events) →
      (((earlier.foldl (fun peer other => (peer.acceptAcknack other).2)
          (ReaderProxy.new guid locators true)).acceptAcknack
            ((events.foldl WriterProxy.happen (WriterProxy.new guid locators true)).takeAcknack
              readerId).1).1 = true ↔
        ∀ other ∈ earlier, other.count < i32Max) := by
  have zero : (0 : Int) ≤ i32Max := by decide
  have fresh : ∀ {count : Int}, 0 ≤ count → i32Min < nextCount count := by
    intro _ _
    unfold nextCount i32Min i32Max
    omega
  constructor
  · rintro config before call earlier body heard ⟨out,member,present⟩
    obtain ⟨up,bounded⟩ := @RtpsWriter.heartbeats_count before (RtpsWriter.new config) zero
    rw [acceptHeartbeat_iff,foldl_lt_iff acceptHeartbeat_count]
    rcases RtpsWriter.perform_counts _ call with ⟨_,silent⟩ | ⟨_,numbered⟩
    · rw [silent] at member
      cases member
    · rw [numbered out member body present]
      refine (and_iff_right (fresh up)).trans (forall₂_congr fun other listed => ?_)
      obtain ⟨_,sent,held⟩ := heard other listed
      exact lt_nextCount_iff (bounded _ sent other held)
  · intro events readerId earlier heard
    obtain ⟨up,bounded⟩ := @acknacks_count events (.new guid locators true) zero
    rw [ReaderProxy.acceptAcknack_iff,foldl_lt_iff ReaderProxy.acceptAcknack_count]
    refine (and_iff_right (fresh up)).trans (forall₂_congr fun other listed => ?_)
    exact lt_nextCount_iff (bounded other (heard other listed))

theorem second_heartbeat_fresh :
    let first : Heartbeat :=
      { readerId := 7, writerId := 3, firstSn := 1, lastSn := 0, count := 1, isFinal := true }
    let peer := new ⟨1,3⟩ [] true
    let answered := (peer.takeAcknack 7).1
    ((peer.acceptHeartbeat first).2.acceptHeartbeat { first with count := 2 }).1 = true ∧
      (((ReaderProxy.new ⟨1,3⟩ [] true).acceptAcknack answered).2.acceptAcknack
        ((peer.happen (.answers 7)).takeAcknack 7).1).1 = true :=
  ⟨((counts_fresh_iff ⟨1,3⟩ []).1 shallowHistory
    [.matchReader (ReaderProxy.new ⟨2,7⟩ [⟨1,7411,1⟩] true),.forceHeartbeat 0] (.forceHeartbeat 1)
    [{ readerId := 7, writerId := 3, firstSn := 1, lastSn := 0, count := 1, isFinal := true }] _
    (forall_mem_singleton.mpr ⟨_,mem_of_getElem? (i := 0) rfl,mem_of_getElem? (i := 1) rfl⟩)
    ⟨_,mem_of_getElem? (i := 0) rfl,mem_of_getElem? (i := 1) rfl⟩).mpr (by decide),
    ((counts_fresh_iff ⟨1,3⟩ []).2 [.answers 7] 7 [((new ⟨1,3⟩ [] true).takeAcknack 7).1]
      (forall_mem_singleton.mpr (mem_of_getElem? (i := 0) rfl))).mpr (by decide)⟩

/-- Two acknowledgements in a row, the first of which takes the largest count: the second is
not taken. -/
theorem last_count_repeated :
    let answered := fun count : Nat => (((replicate count (.answers 0)).foldl happen
      (new ⟨0,0⟩ [] true)).takeAcknack 0).1
    let peer := (ReaderProxy.new ⟨0,0⟩ [] true).acceptAcknack (answered 2147483646)
    peer.1 = true ∧ (peer.2.acceptAcknack (answered 2147483647)).1 = false := by
  have counted : ∀ count : Nat, (((replicate count (.answers 0)).foldl happen
      (new ⟨0,0⟩ [] true)).takeAcknack 0).1.count = nextCount (min count i32Max) :=
    fun count => congrArg nextCount (count_answered count ⟨0,0⟩ 0)
  dsimp only
  rw [← Bool.not_eq_true,ReaderProxy.acceptAcknack_iff,ReaderProxy.acceptAcknack_iff,
    ReaderProxy.acceptAcknack_count,counted,counted]
  decide

end Astrs.Rtps
