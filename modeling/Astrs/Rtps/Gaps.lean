/-
Gaps are exact and final.

A writer never gives out a number twice and its history only ever gains the number
it has just given out, so a number that was given out and is not held is gone for
good.  Those are the numbers a `GAP` names.
-/

import Astrs.Rtps.Packing

namespace Astrs.Rtps

open Astrs.Base Astrs.Cdr List HistoryCache

theorem SequenceNumberSet.insert_ok {set marked : SequenceNumberSet} {seq : Int}
    (added : set.insert seq = .ok marked) :
    marked.base = set.base ∧
      ∀ other, marked.contains other = true ↔ set.contains other = true ∨ other = seq := by
  by_cases within : set.base ≤ seq ∧ seq - set.base < 256
  · obtain ⟨_,same,facts⟩ := insert_eq within.1 within.2
    rw [same] at added
    cases added
    exact facts
  · unfold insert at added
    rw [dif_neg within] at added
    cases added

namespace RtpsWriter

variable {numbers : List Int} {reader : Addressee} {out : Outbound} {seq : Int}
  {made : Except BehaviorError (List Outbound) × RtpsWriter}

theorem gapBits_ok {base : Int} {set marked : SequenceNumberSet}
    (filled : gapBits base numbers set = .ok marked) :
    marked.base = set.base ∧
      ∀ seq, marked.contains seq = true → set.contains seq = true ∨ seq ∈ numbers := by
  induction numbers generalizing set with
  | nil =>
    cases filled
    exact ⟨rfl,fun _ => .inl⟩
  | cons first rest ih =>
    unfold gapBits at filled
    split at filled
    · cases filled
      exact ⟨rfl,fun _ => .inl⟩
    · obtain ⟨_,added,others⟩ := bind_ok filled
      obtain ⟨sameBase,holds⟩ := SequenceNumberSet.insert_ok added
      obtain ⟨base,covers⟩ := ih others
      constructor
      · rw [base,sameBase]
      · intro seq contained
        rcases covers seq contained with earlier | later
        · exact ((holds seq).mp earlier).imp_right fun same => mem_cons.mpr (.inl same)
        · exact .inr (mem_cons_of_mem first later)

theorem gapFor_ok {writer : RtpsWriter}
    (some : numbers ≠ []) (built : writer.gapFor numbers reader = .ok out) :
    ∃ gap : Gap, out.message = writer.message
        [.infoDestination { guidPrefix := reader.readerPrefix },.gap gap] ∧
      ∀ seq, gap.covers seq = true → seq ∈ numbers := by
  unfold gapFor at built
  dsimp only at built
  split at built
  · cases built
  · rename_i gapList filled
    split at built
    · cases built
    · have same := send_ok built
      obtain ⟨base,listed⟩ := gapBits_ok filled
      refine ⟨_,congrArg Outbound.message same,?_⟩
      intro seq covered
      obtain ⟨start,_,split⟩ := exists_cons_of_ne_nil some
      rw [split] at base listed covered ⊢
      unfold Gap.covers at covered
      rw [Bool.or_eq_true,Bool.and_eq_true,decide_eq_true_eq,decide_eq_true_eq] at covered
      rcases covered with ⟨above,below⟩ | contained
      · -- the run ends at the base of the bitmap, one past its start
        rw [base] at below
        change start ≤ seq at above
        change seq < start + 1 at below
        have equal : seq = start := by omega
        exact mem_cons.mpr (.inl equal)
      · rcases listed seq contained with empty | mem
        · rw [SequenceNumberSet.contains_new] at empty
          cases empty
        · exact mem_cons_of_mem start mem

/-- A number that was given out and is not held. -/
def Retired (writer : RtpsWriter) (number : Int) : Prop :=
  number ≤ writer.lastChange ∧ writer.cache.contains number = false

/-- A sample that is sent is held, and a number that a gap covers is retired. -/
structure Backs (writer : RtpsWriter) (submessage : Submessage) : Prop where
  sample : ∀ number, submessage.sampleNumber = some number → writer.cache.contains number = true
  gap : ∀ gap, submessage = .gap gap → ∀ number, gap.covers number = true → writer.Retired number

def BacksAll (writer : RtpsWriter) (outbound : List Outbound) : Prop :=
  ∀ out ∈ outbound, ∀ submessage ∈ out.message.submessages, writer.Backs submessage

def Keyed (writer : RtpsWriter) : Prop :=
  ∀ number change, writer.cache.get number = some change → change.sequenceNumber = number

variable {writer after : RtpsWriter} {outbound : List Outbound}

theorem backs_plain {submessage : Submessage} (plain : submessage.sampleNumber = none)
    (other : ∀ gap, submessage ≠ .gap gap) : writer.Backs submessage where
  sample := by
    intro _ numbered
    rw [plain] at numbered
    cases numbered
  gap := by
    intro gap same
    exact absurd same (other gap)

theorem backs_nil (writer : RtpsWriter) : writer.BacksAll [] := forall_mem_nil _

theorem BacksAll.append {first second : List Outbound} (one : writer.BacksAll first)
    (two : writer.BacksAll second) : writer.BacksAll (first ++ second) :=
  forall_mem_append.mpr ⟨one,two⟩

/-- Backing is a matter of the history alone. -/
theorem BacksAll.congr (cache : after.cache = writer.cache)
    (lastChange : after.lastChange = writer.lastChange) (backs : after.BacksAll outbound) :
    writer.BacksAll outbound := by
  intro out mem submessage there
  obtain ⟨sample,gap⟩ := backs out mem submessage there
  rw [cache] at sample
  unfold Retired at gap
  rw [cache,lastChange] at gap
  exact ⟨sample,gap⟩

theorem datagramsFor_backs (keyed : writer.Keyed)
    (built : writer.datagramsFor numbers reader = .ok outbound) : writer.BacksAll outbound := by
  have kept : ∀ change, (∃ seq ∈ numbers, writer.cache.get seq = some change) →
      writer.cache.contains change.sequenceNumber = true := by
    rintro change ⟨key,_,held⟩
    rw [keyed key change held]
    exact contains_iff.mpr ⟨change,held⟩
  intro out mem submessage there
  cases datagramsFor_carry built out mem submessage there with
  | destination | timestamp => exact backs_plain rfl nofun
  | data among =>
    refine ⟨?_,nofun⟩
    rintro _ ⟨⟩
    exact kept _ among
  | fragment among numbered =>
    refine ⟨?_,nofun⟩
    rintro _ ⟨⟩
    rw [numbered]
    exact kept _ among

theorem gapFor_backs {proxy : ReaderProxy} (some : writer.missing proxy ≠ [])
    (built : writer.gapFor (writer.missing proxy) proxy.addressee = .ok out) :
    writer.BacksAll [out] := by
  obtain ⟨_,message,covers⟩ := gapFor_ok some built
  intro _ mem _ there
  rw [mem_singleton.mp mem,message] at there
  rcases mem_cons.mp there with destination | isGap
  · rw [destination]
    exact backs_plain rfl nofun
  · rw [mem_singleton.mp isGap]
    constructor
    · exact nofun
    · intro _ same seq covered
      cases same
      have listed := (mem_filter.mp (covers seq covered)).2
      rw [Bool.and_eq_true,Bool.not_eq_true',decide_eq_true_eq] at listed
      exact ⟨listed.2,listed.1⟩

/-! ### Producing -/

/-- The datagrams a call returns, none when it fails. -/
def sentBy : Except BehaviorError (List Outbound) → List Outbound
  | .ok outbound => outbound
  | .error _ => []

/-- A call that emits only what is backed, and leaves the history alone. -/
structure Sends (writer : RtpsWriter)
    (produced : Except BehaviorError (List Outbound) × RtpsWriter) : Prop where
  backs : writer.BacksAll (sentBy produced.1)
  cache : produced.2.cache = writer.cache
  lastChange : produced.2.lastChange = writer.lastChange

theorem Sends.append {more : List Outbound} {last : RtpsWriter}
    (first : writer.Sends (.ok outbound,after)) (others : after.Sends (.ok more,last)) :
    writer.Sends (.ok (outbound ++ more),last) := by
  have later := others.backs.congr first.cache first.lastChange
  exact ⟨first.backs.append later,others.cache.trans first.cache,
    others.lastChange.trans first.lastChange⟩

theorem Sends.error {last : RtpsWriter} {fault : BehaviorError}
    (first : writer.Sends (.ok outbound,after)) (others : after.Sends (.error fault,last)) :
    writer.Sends (.error fault,last) :=
  ⟨backs_nil writer,others.cache.trans first.cache,others.lastChange.trans first.lastChange⟩

theorem produceFor_sends (keyed : writer.Keyed) (reader : Guid) :
    writer.Sends (writer.produceFor reader) := by
  unfold produceFor
  split
  · exact ⟨backs_nil writer,rfl,rfl⟩
  · rename_i proxy _
    split
    · exact ⟨backs_nil writer,rfl,rfl⟩
    · split
      · exact ⟨backs_nil writer,rfl,rfl⟩
      · rename_i datagrams built
        have samples := datagramsFor_backs keyed built
        split
        · rename_i owed
          split
          · exact ⟨backs_nil writer,rfl,rfl⟩
          · rename_i gap gapped
            exact ⟨samples.append (gapFor_backs owed.2 gapped),rfl,rfl⟩
        · exact ⟨samples,rfl,rfl⟩

theorem Keyed.congr (keyed : writer.Keyed) (cache : after.cache = writer.cache) : after.Keyed := by
  unfold Keyed
  rw [cache]
  exact keyed

theorem produceAll_sends (readers : List Guid) (keyed : writer.Keyed) :
    writer.Sends (produceAll readers writer) := by
  induction readers generalizing writer with
  | nil => exact ⟨backs_nil writer,rfl,rfl⟩
  | cons reader rest ih =>
    have first := produceFor_sends keyed reader
    unfold produceAll
    generalize writer.produceFor reader = made at first
    obtain ⟨result,after⟩ := made
    have others := ih (keyed.congr first.cache)
    cases result with
    | error => exact ⟨backs_nil writer,first.cache,first.lastChange⟩
    | ok datagrams =>
      dsimp only at others ⊢
      generalize produceAll rest after = remaining at others
      obtain ⟨result,_⟩ := remaining
      cases result with
      | error => exact first.error others
      | ok => exact first.append others

theorem produceHeartbeat_sends (writer : RtpsWriter) (now : Nat) (liveliness : Bool) :
    writer.Sends (writer.produceHeartbeat now liveliness) := by
  unfold produceHeartbeat
  split
  · exact ⟨backs_nil writer,rfl,rfl⟩
  · refine ⟨?_,rfl,rfl⟩
    dsimp only
    cases sent : @List.mapM (Except BehaviorError) _ _ _ _ _ with
    | error => exact backs_nil writer
    | ok =>
      intro _ mem _ there
      obtain ⟨_,-,sending⟩ := mem_of_mapM_ok sent mem
      rw [send_ok sending] at there
      rcases mem_cons.mp there with destination | heartbeat
      · rw [destination]
        exact backs_plain rfl nofun
      · rw [mem_singleton.mp heartbeat]
        exact backs_plain rfl nofun

theorem produce_sends (keyed : writer.Keyed) (now : Nat) : writer.Sends (writer.produce now) := by
  have samples := produceAll_sends (writer.matched.entries.map Prod.fst) keyed
  unfold produce
  generalize produceAll (writer.matched.entries.map Prod.fst) writer = made at samples
  obtain ⟨result,after⟩ := made
  cases result with
  | error => exact ⟨backs_nil writer,samples.cache,samples.lastChange⟩
  | ok datagrams =>
    dsimp only
    split
    · have beats := produceHeartbeat_sends after now false
      generalize after.produceHeartbeat now false = beaten at beats
      obtain ⟨result,_⟩ := beaten
      cases result with
      | error => exact samples.error beats
      | ok => exact samples.append beats
    · exact samples

theorem announce_backs (keyed : writer.Keyed) {readerId : EntityId} {targets : List Locator}
    (announced : writer.announce seq readerId targets = .ok (some out)) :
    writer.BacksAll [out] := by
  unfold announce at announced
  split at announced
  · cases announced
  · rename_i change held
    split at announced
    · cases announced
    · obtain ⟨_,sending,same⟩ := bind_ok announced
      cases same
      intro _ mem _ there
      rw [mem_singleton.mp mem,send_ok sending] at there
      rcases mem_append.mp there with time | sample
      · obtain ⟨_,-,same⟩ := Option.map_eq_some_iff.mp (Option.mem_toList.mp time)
        rw [← same]
        exact backs_plain rfl nofun
      · rw [mem_singleton.mp sample]
        constructor
        · intro _ numbered
          cases numbered
          change writer.cache.contains change.sequenceNumber = true
          rw [keyed seq change held]
          exact contains_iff.mpr ⟨change,held⟩
        · exact nofun

inductive Call where
  | write (payload : Bytes) (sourceTimestamp : Option Time) (now : Nat)
  | writeChange (payload : Bytes) (sourceTimestamp : Option Time) (kind : ChangeKind)
      (handle : InstanceHandle) (now : Nat)
  | forget (number : Int)
  | expire (now : Nat)
  | reclaim
  | matchReader (proxy : ReaderProxy)
  | unmatchReader (guid : Guid)
  | onAcknack (reader : Guid) (acknack : AckNack)
  | onNackFrag (reader : Guid) (nack : NackFrag)
  | produce (now : Nat)
  | forceHeartbeat (now : Nat)
  | assertLiveliness (now : Nat)
  | announce (number : Int) (readerId : EntityId) (targets : List Locator)

def perform (writer : RtpsWriter) : Call → List Outbound × RtpsWriter
  | .write payload sourceTimestamp now => ([],(writer.write payload sourceTimestamp now).2)
  | .writeChange payload sourceTimestamp kind handle now =>
    ([],(writer.writeChange payload sourceTimestamp kind handle now).2)
  | .forget number => ([],writer.forget number)
  | .expire now => ([],writer.expire now)
  | .reclaim => ([],writer.reclaim)
  | .matchReader proxy => ([],writer.matchReader proxy)
  | .unmatchReader guid => ([],writer.unmatchReader guid)
  | .onAcknack reader acknack => ([],(writer.onAcknack reader acknack).2)
  | .onNackFrag reader nack => ([],(writer.onNackFrag reader nack).2)
  | .produce now => (sentBy (writer.produce now).1,(writer.produce now).2)
  | .forceHeartbeat now => (sentBy (writer.forceHeartbeat now).1,(writer.forceHeartbeat now).2)
  | .assertLiveliness now =>
    (sentBy (writer.assertLiveliness now).1,(writer.assertLiveliness now).2)
  | .announce number readerId targets =>
    (sentBy ((writer.announce number readerId targets).map Option.toList),writer)

def performAll (writer : RtpsWriter) (calls : List Call) : RtpsWriter :=
  calls.foldl (fun writer call => (writer.perform call).2) writer

def emissions : RtpsWriter → List Call → List Outbound
  | _,[] => []
  | writer,call :: rest => (writer.perform call).1 ++ emissions (writer.perform call).2 rest

/-! ### The history along a run -/

/-- The history of `after` is what is left of that of `writer` and what was written since. -/
structure Continues (writer after : RtpsWriter) : Prop where
  lastChange : writer.lastChange ≤ after.lastChange
  next : after.lastChange ≤ writer.lastChange + 1
  held : ∀ number change, after.cache.get number = some change →
    writer.cache.get number = some change ∨
      (writer.lastChange < number ∧ change.sequenceNumber = number)

theorem continues_of_within (lastChange : after.lastChange = writer.lastChange)
    (within : after.cache.Within writer.cache) : writer.Continues after where
  lastChange := lastChange.ge
  next := by omega
  held := fun seq change found => .inl (within seq change found)

theorem continues_of_same (lastChange : after.lastChange = writer.lastChange)
    (cache : after.cache = writer.cache) : writer.Continues after :=
  continues_of_within lastChange (cache ▸ HistoryCache.Within.refl _)

section

variable (writer : RtpsWriter)

theorem writeChange_continues (payload : Bytes)
    (sourceTimestamp : Option Time) (kind : ChangeKind) (handle : InstanceHandle) (now : Nat) :
    writer.Continues (writer.writeChange payload sourceTimestamp kind handle now).2 := by
  unfold writeChange
  split
  · exact continues_of_same rfl rfl
  · dsimp only
    split
    · exact continues_of_same rfl rfl
    · rename_i cache added
      constructor
      · exact Int.le_add_one (Int.le_refl _)
      · exact Int.le_refl _
      · intro _ _ found
        have kept := insert_within added _ _ found
        rw [get_put] at kept
        split at kept
        · rename_i same
          cases kept
          dsimp only at same ⊢
          right
          omega
        · exact .inl kept

theorem reclaim_continues : writer.Continues writer.reclaim := by
  unfold reclaim
  split
  · exact continues_of_same rfl rfl
  · split
    · exact continues_of_same rfl rfl
    · exact continues_of_within rfl (dropThrough_within _ _)

end

theorem Continues.keyed (continues : writer.Continues after) (keyed : writer.Keyed) :
    after.Keyed := by
  intro seq change found
  rcases continues.held seq change found with before | ⟨-,own⟩
  · exact keyed seq change before
  · exact own

theorem Continues.retired (continues : writer.Continues after)
    (retired : writer.Retired seq) : after.Retired seq := by
  constructor
  · exact retired.1.trans continues.lastChange
  · cases held : after.cache.contains seq with
    | false => rfl
    | true =>
      obtain ⟨change,found⟩ := contains_iff.mp held
      rcases continues.held seq change found with before | ⟨above,-⟩
      · have contained := contains_iff.mpr ⟨change,before⟩
        rw [retired.2] at contained
        cases contained
      · have given := retired.1
        omega

theorem Sends.performed (sends : writer.Sends made) :
    writer.Continues made.2 ∧ writer.BacksAll (sentBy made.1) :=
  ⟨continues_of_same sends.lastChange sends.cache,sends.backs⟩

theorem perform_spec (keyed : writer.Keyed) (call : Call) :
    writer.Continues (writer.perform call).2 ∧ writer.BacksAll (writer.perform call).1 := by
  cases call with
  | write | writeChange => exact ⟨writeChange_continues _ _ _ _ _ _,backs_nil writer⟩
  | forget => exact ⟨continues_of_within rfl (remove_within _ _),backs_nil writer⟩
  | expire => exact ⟨continues_of_within rfl (expire_within _ _),backs_nil writer⟩
  | reclaim => exact ⟨reclaim_continues writer,backs_nil writer⟩
  | matchReader | onAcknack | onNackFrag =>
    refine ⟨?_,backs_nil writer⟩
    dsimp only [perform,matchReader,onAcknack,onNackFrag]
    repeat' split
    all_goals exact continues_of_same rfl rfl
  | unmatchReader => exact ⟨continues_of_same rfl rfl,backs_nil writer⟩
  | produce now => exact (produce_sends keyed now).performed
  | forceHeartbeat now => exact (produceHeartbeat_sends writer now false).performed
  | assertLiveliness now => exact (produceHeartbeat_sends writer now true).performed
  | announce seq readerId targets =>
    refine ⟨continues_of_same rfl rfl,?_⟩
    change writer.BacksAll (sentBy ((writer.announce seq readerId targets).map Option.toList))
    cases announced : writer.announce seq readerId targets with
    | error => exact backs_nil writer
    | ok sent =>
      cases sent with
      | none => exact backs_nil writer
      | some => exact announce_backs keyed announced

theorem new_keyed (config : WriterConfig) : (new config).Keyed := by
  exact nofun

theorem performAll_keyed (calls : List Call) (keyed : writer.Keyed) :
    (writer.performAll calls).Keyed := by
  induction calls generalizing writer with
  | nil => exact keyed
  | cons call _ ih => exact ih ((perform_spec keyed call).1.keyed keyed)

/-- The numbers are those of the source, whose step stops at the top, in every run of fewer
than 2^63 - 1 calls. -/
theorem performAll_lastChange_le (calls : List Call) (keyed : writer.Keyed) :
    (writer.performAll calls).lastChange ≤ writer.lastChange + calls.length := by
  induction calls generalizing writer with
  | nil => exact Int.le_add_of_nonneg_right (Int.natCast_nonneg _)
  | cons call rest ih =>
    have continues := (perform_spec keyed call).1
    have bound := ih (continues.keyed keyed)
    have next := continues.next
    rw [length_cons]
    change ((writer.perform call).2.performAll rest).lastChange ≤ _
    omega

theorem Retired.unsent (calls : List Call)
    (keyed : writer.Keyed) (retired : writer.Retired seq) :
    ∀ out ∈ writer.emissions calls, ∀ submessage ∈ out.message.submessages,
      submessage.sampleNumber ≠ some seq := by
  induction calls generalizing writer with
  | nil =>
    exact forall_mem_nil _
  | cons call rest ih =>
    intro out mem
    obtain ⟨continues,backs⟩ := perform_spec keyed call
    rcases mem_append.mp mem with here | later
    · intro submessage there numbered
      have held := (backs out here submessage there).sample seq numbered
      rw [retired.2] at held
      cases held
    · exact ih (continues.keyed keyed) (continues.retired retired) out later

end RtpsWriter

def shallowHistory : WriterConfig :=
  { guid := ⟨1,3⟩
    qos :=
      { reliable := true
        replaysHistory := true
        history := ⟨.keepLast,1⟩
        resourceLimits := { maxSamples := -1 }
        lifespan := none }
    heartbeatPeriod := 100
    fragmentSize := 1344
    datagramBudget := 1400
    fragmentationThreshold := 1344
    security := EndpointSecurity.none }

def twoWrites : List RtpsWriter.Call := [.write [0,1,0,0,7] none 0,.write [0,1,0,0,8] none 0,
    .matchReader (ReaderProxy.new ⟨2,7⟩ [⟨1,7411,1⟩] true)]

/-- In every run of a writer a gap covers only numbers that were given out and are no
longer held, and from the call that emits it on no sample of such a number is emitted. -/
theorem gaps_exact_and_final (config : WriterConfig) (before : List RtpsWriter.Call)
    (call : RtpsWriter.Call) (later : List RtpsWriter.Call) :
    ∀ out ∈ (((RtpsWriter.new config).performAll before).perform call).1,
      ∀ gap, .gap gap ∈ out.message.submessages → ∀ number, gap.covers number = true →
        number ≤ ((RtpsWriter.new config).performAll before).lastChange ∧
        ((RtpsWriter.new config).performAll before).cache.contains number = false ∧
        ∀ sent ∈ ((RtpsWriter.new config).performAll before).emissions (call :: later),
          ∀ submessage ∈ sent.message.submessages, submessage.sampleNumber ≠ some number := by
  have keyed := RtpsWriter.performAll_keyed before (RtpsWriter.new_keyed config)
  intro out emitted gap present number covered
  have retired := ((RtpsWriter.perform_spec keyed call).2 out emitted _ present).gap gap rfl number
    covered
  exact ⟨retired.1,retired.2,retired.unsent (call :: later) keyed⟩

/-- Two writes into a history of depth one: a reader that joins late is told that the
first is gone, and no sample of it is ever sent. -/
theorem evicted_sample_gap :
    ((RtpsWriter.new shallowHistory).performAll twoWrites).cache.contains 1 = false ∧
      ∀ sent ∈ ((RtpsWriter.new shallowHistory).performAll twoWrites).emissions
          [.produce 0,.produce 1],
        ∀ submessage ∈ sent.message.submessages, submessage.sampleNumber ≠ some 1 :=
  (gaps_exact_and_final shallowHistory twoWrites (.produce 0) [.produce 1] _
    (mem_of_getElem? (i := 1) rfl) { readerId := 7, writerId := 3, gapStart := 1, gapList := .new 2 }
    (mem_of_getElem? (i := 1) rfl) 1 rfl).2

end Astrs.Rtps
