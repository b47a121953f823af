/-
What waits above a reader's watermark.

A number is taken as received or as irrelevant without a look at the other set, and both
sets stop growing at a fixed size, whatever the number that comes next.
-/

import Mathlib.Data.Int.Interval
import Astrs.Rtps.Watermark

namespace Astrs.Rtps

open Astrs.Base WriterProxy Hearing OrderedSet
open List hiding contains_iff
open OrderedSet (contains_iff mem_insert mem_remove)

namespace WriterProxy

variable {proxy next : WriterProxy} {numbers : List Int}

/-! ### The walk of the watermark -/

/-- The watermark of a proxy cannot move. -/
def isSettled (proxy : WriterProxy) : Bool :=
  !proxy.received.contains (SequenceNumber.next proxy.ackedThrough) &&
    !proxy.irrelevant.contains (SequenceNumber.next proxy.ackedThrough)

theorem advanceOnce_none_iff : proxy.advanceOnce = none ↔ proxy.isSettled = true := by
  unfold advanceOnce isSettled
  dsimp only
  cases proxy.received.contains (SequenceNumber.next proxy.ackedThrough) <;>
    cases proxy.irrelevant.contains (SequenceNumber.next proxy.ackedThrough) <;> simp

/-- A step of the watermark takes a number out of one of the sets. -/
theorem total_advanceOnce {next : WriterProxy} (moved : proxy.advanceOnce = some next) :
    next.received.len + next.irrelevant.len + 1 = proxy.received.len + proxy.irrelevant.len := by
  rcases advanceOnce_cases moved with ⟨arrived,rfl⟩ | ⟨_,declared,rfl⟩
  · have smaller := len_remove _ arrived
    dsimp only
    omega
  · have smaller := len_remove _ declared
    dsimp only
    omega

/-- The walk has fuel for every number it may take, so it ends at a hole. -/
theorem isSettled_advance (proxy : WriterProxy) : proxy.advance.isSettled = true := by
  unfold advance
  generalize total : proxy.received.len + proxy.irrelevant.len = fuel
  induction fuel generalizing proxy with
  | zero =>
    rw [advanceFor,← advanceOnce_none_iff]
    cases moved : proxy.advanceOnce with
    | none => rfl
    | some =>
      have smaller := total_advanceOnce moved
      omega
  | succ fuel ih =>
    unfold advanceFor
    cases moved : proxy.advanceOnce with
    | none => exact advanceOnce_none_iff.mp moved
    | some next =>
      have smaller := total_advanceOnce moved
      exact ih next (by omega)

theorem advance_settled (settled : proxy.isSettled = true) : proxy.advance = proxy := by
  unfold advance
  cases proxy.received.len + proxy.irrelevant.len with
  | zero => rfl
  | succ =>
    unfold advanceFor
    rw [advanceOnce_none_iff.mpr settled]

theorem noteIrrelevant_full (full : maxTracked ≤ proxy.irrelevant.len)
    (numbers : List Int) : noteIrrelevant numbers proxy = proxy := by
  induction numbers with
  | nil => rfl
  | cons first rest ih =>
    unfold noteIrrelevant
    split
    · exact ih
    · rfl

theorem noteIrrelevant_news
    (room : proxy.irrelevant.len < maxTracked) {seq : Int} (mem : seq ∈ numbers)
    (above : proxy.ackedThrough < seq) (unknown : seq ∉ proxy.irrelevant.elems) :
    ∃ noted, proxy.ackedThrough < noted ∧ noted ∉ proxy.irrelevant.elems ∧
      noted ∈ (noteIrrelevant numbers proxy).irrelevant.elems ∧
      (numbers.Pairwise (· ≤ ·) → noted ≤ seq) := by
  induction numbers with
  | nil => cases mem
  | cons first rest ih =>
    unfold noteIrrelevant
    split
    · rename_i known
      rcases mem_cons.mp mem with here | later
      · subst here
        rcases known with below | held
        · omega
        · exact absurd ((OrderedSet.contains_iff _ _).mp held) unknown
      · obtain ⟨noted,higher,news,held,least⟩ := ih later
        exact ⟨noted,higher,news,held,fun ascending => least (pairwise_cons.mp ascending).2⟩
    · rename_i news
      rw [if_neg (by omega)]
      refine ⟨first,?_,?_,?_,fun ascending => ?_⟩
      · exact Int.not_le.mp fun below => news (.inl below)
      · exact fun held => news (.inr ((OrderedSet.contains_iff _ _).mpr held))
      · exact (noteIrrelevant_noted rest _).kept first (mem_insert.mpr (.inl rfl))
      · rcases mem_cons.mp mem with here | later
        · exact Int.le_of_eq here.symm
        · exact (pairwise_cons.mp ascending).1 seq later

/-! ### Disjoint sets above the watermark -/

def Apart (proxy : WriterProxy) : Prop :=
  (∀ number ∈ proxy.received.elems, number ∉ proxy.irrelevant.elems) ∧
    (∀ number ∈ proxy.received.elems, proxy.ackedThrough < number) ∧
    ∀ number ∈ proxy.irrelevant.elems, proxy.ackedThrough < number

section

variable (apart : proxy.Apart)
include apart

theorem Apart.advanceOnce (moved : proxy.advanceOnce = some next) : next.Apart := by
  obtain ⟨shared,received,irrelevant⟩ := apart
  have passed : ∀ seq, proxy.ackedThrough < seq →
      seq ≠ SequenceNumber.next proxy.ackedThrough →
      SequenceNumber.next proxy.ackedThrough < seq := by
    intro seq above unlike
    unfold SequenceNumber.next at unlike ⊢
    omega
  rcases advanceOnce_cases moved with ⟨arrived,rfl⟩ | ⟨absent,_,rfl⟩
  · refine ⟨fun seq held => shared seq (mem_remove.mp held).1,?_,?_⟩
    · intro seq held
      obtain ⟨before,unlike⟩ := mem_remove.mp held
      exact passed seq (received seq before) unlike
    · intro seq held
      refine passed seq (irrelevant seq held) fun same => ?_
      exact shared seq (same ▸ arrived) held
  · refine ⟨fun seq held given => shared seq held (mem_remove.mp given).1,?_,?_⟩
    · intro seq held
      exact passed seq (received seq held) fun same => absent (same ▸ held)
    · intro seq held
      obtain ⟨before,unlike⟩ := mem_remove.mp held
      exact passed seq (irrelevant seq before) unlike

theorem Apart.advance : proxy.advance.Apart :=
  advanceFor_keeps (fun moved before => before.advanceOnce moved) _ apart

theorem Apart.skipBelow (firstSn : Int) : (proxy.skipBelow firstSn).Apart := by
  unfold WriterProxy.skipBelow
  dsimp only
  split
  · split
    · refine ⟨?_,?_,?_⟩
      · intro seq held given
        exact apart.1 seq (mem_retain.mp held).1 (mem_retain.mp given).1
      · exact fun _ held => of_decide_eq_true (mem_retain.mp held).2
      · exact fun _ held => of_decide_eq_true (mem_retain.mp held).2
    · exact apart
  · exact apart

theorem Apart.noteIrrelevant (fresh : ∀ seq ∈ numbers, seq ∉ proxy.received.elems) :
    (noteIrrelevant numbers proxy).Apart := by
  have noted := noteIrrelevant_noted numbers proxy
  generalize WriterProxy.noteIrrelevant numbers proxy = after at noted
  have frame := noted.frame
  refine ⟨?_,?_,?_⟩
  · intro seq held given
    rw [frame] at held
    rcases noted.added seq given with old | new
    · exact apart.1 seq held old
    · exact fresh seq new.1 held
  · rw [frame]
    exact apart.2.1
  · intro seq given
    rw [frame]
    exact (noted.added seq given).elim (apart.2.2 seq) And.right

/-- A number that was not declared irrelevant. -/
theorem Apart.acceptData {seq : Int}
    (relevant : seq ∉ proxy.irrelevant.elems) : (proxy.acceptData seq).2.Apart := by
  unfold WriterProxy.acceptData
  split
  · split
    · exact apart
    · exact ⟨nofun,nofun,nofun⟩
  · split
    · exact apart
    · rename_i unknown
      split
      · exact apart
      · refine Apart.advance ⟨?_,?_,apart.2.2⟩
        · intro other held
          rcases mem_insert.mp held with same | before
          · rw [same]
            exact relevant
          · exact apart.1 other before
        · intro other held
          rcases mem_insert.mp held with same | before
          · rw [same]
            exact Int.not_le.mp fun below => unknown (.inl below)
          · exact apart.2.1 other before

theorem Apart.acceptHeartbeat (heartbeat : Heartbeat) : (proxy.acceptHeartbeat heartbeat).2.Apart := by
  unfold WriterProxy.acceptHeartbeat
  split
  · exact apart
  · have heard : ({ proxy with
        lastHeartbeatCount := heartbeat.count, active := true } : WriterProxy).Apart := apart
    have noted : (({ proxy with lastHeartbeatCount := heartbeat.count, active := true }.skipBelow
        heartbeat.firstSn).noteAvailable heartbeat.lastSn).Apart := heard.skipBelow _
    dsimp only
    split
    · exact noted.advance
    · exact noted.advance

end

/-! ### The number that comes next -/

theorem isSettled_iff :
    proxy.isSettled = true ↔ SequenceNumber.next proxy.ackedThrough ∉ proxy.received.elems ∧
      SequenceNumber.next proxy.ackedThrough ∉ proxy.irrelevant.elems := by
  rw [isSettled,Bool.and_eq_true,Bool.not_eq_true',Bool.not_eq_true',← Bool.not_eq_true,
    ← Bool.not_eq_true,contains_iff,contains_iff]

theorem next_of_short (short : proxy.ackedThrough < i64Max) :
    SequenceNumber.next proxy.ackedThrough = proxy.ackedThrough + 1 := by
  unfold SequenceNumber.next
  omega

/-- With the next number in one of the sets the walk moves. -/
theorem acked_advance (short : proxy.ackedThrough < i64Max) (loose : ¬ proxy.isSettled = true) :
    proxy.ackedThrough + 1 ≤ proxy.advance.ackedThrough := by
  cases moved : proxy.advanceOnce with
  | none => exact absurd (advanceOnce_none_iff.mp moved) loose
  | some next =>
    have once : next.ackedThrough = proxy.ackedThrough + 1 := by
      rw [← next_of_short short]
      rcases advanceOnce_cases moved with ⟨_,rfl⟩ | ⟨_,_,rfl⟩ <;> rfl
    unfold advance
    rw [← total_advanceOnce moved,advanceFor,moved,← once]
    exact (advanceFor_advanced _ (by omega)).acked

variable (settled : proxy.isSettled = true)
include settled

theorem isSettled_acceptData (seq : Int) : (proxy.acceptData seq).2.isSettled = true := by
  unfold acceptData
  split
  · split
    · exact settled
    · rfl
  · split
    · exact settled
    · split
      · exact settled
      · exact isSettled_advance _

theorem isSettled_acceptHeartbeat (heartbeat : Heartbeat) :
    (proxy.acceptHeartbeat heartbeat).2.isSettled = true := by
  rcases proxy.acceptHeartbeat_cases heartbeat with stale | ⟨skipped,pending,_,applied⟩
  · rw [stale]
    exact settled
  · rw [applied]
    exact isSettled_advance (skipped.noteAvailable heartbeat.lastSn)

theorem acceptGap_full (full : maxTracked ≤ proxy.irrelevant.len) (gap : Gap) :
    (proxy.acceptGap gap).ackedThrough = proxy.ackedThrough := by
  unfold acceptGap
  rw [@noteIrrelevant_full { proxy with active := true } full,
    @advance_settled { proxy with active := true } settled]

theorem acceptGap_closes (short : proxy.ackedThrough < i64Max) {gap : Gap}
    (ascending : gap.irrelevant.Pairwise (· ≤ ·))
    (named : proxy.ackedThrough + 1 ∈ gap.irrelevant) :
    proxy.ackedThrough + 1 ≤ (proxy.acceptGap gap).ackedThrough ↔
      proxy.irrelevant.len < maxTracked := by
  have hole := (isSettled_iff.mp settled).2
  rw [next_of_short short] at hole
  by_cases full : maxTracked ≤ proxy.irrelevant.len
  · rw [acceptGap_full settled full]
    omega
  · have room : proxy.irrelevant.len < maxTracked := by omega
    -- of an ascending list that names the next number, that number is noted first
    obtain ⟨noted,above,_,held,least⟩ := @noteIrrelevant_news { proxy with active := true } _ room
      _ named (Int.lt_succ _) hole
    have here : noted = proxy.ackedThrough + 1 := Int.le_antisymm (least ascending) above
    have frame := (noteIrrelevant_noted gap.irrelevant { proxy with active := true }).frame
    unfold acceptGap
    generalize noteIrrelevant _ _ = after at held frame ⊢
    have acked : after.ackedThrough = proxy.ackedThrough := by
      rw [frame]
    have moved := acked_advance (acked ▸ short) fun still => (isSettled_iff.mp still).2 (by
      rw [next_of_short (acked ▸ short),acked,← here]
      exact held)
    rw [acked] at moved
    exact iff_of_true moved room

/-- A settled proxy takes the next number exactly when it has room for it. -/
theorem acceptData_closes (reliable : proxy.reliable = true)
    (short : proxy.ackedThrough < i64Max) :
    (proxy.acceptData (proxy.ackedThrough + 1)).1 = true ↔ proxy.received.len < maxTracked := by
  have hole := (isSettled_iff.mp settled).1
  rw [next_of_short short,← contains_iff] at hole
  unfold acceptData
  rw [reliable,if_neg (by simp),if_neg (by simp [hole])]
  split
  · rename_i full
    exact iff_of_false (by simp) (by omega)
  · exact iff_of_true rfl (by omega)

end WriterProxy

/-- The numbers of a gap come in ascending order. -/
theorem Gap.irrelevant_ascending (gap : Gap) (ranged : gap.gapList.base ≤ i64Max) :
    gap.irrelevant.Pairwise (· ≤ ·) := by
  unfold Gap.irrelevant
  rw [pairwise_append]
  refine ⟨?_,?_,?_⟩
  · unfold numbersFrom
    rw [pairwise_map]
    refine pairwise_lt_range.imp ?_
    intro first second before
    omega
  · unfold SequenceNumberSet.iter
    rw [pairwise_map]
    refine (pairwise_lt_range.filter _).imp ?_
    intro first second before
    omega
  · intro first within second listed
    obtain ⟨_,below⟩ := mem_numbersFrom.mp within
    obtain ⟨bit,_,same⟩ := mem_map.mp listed
    omega

/-! ### Runs -/

/-- The submessage names no number that waits in the other set. -/
def ProxyInput.separate (proxy : WriterProxy) : ProxyInput → Bool
  | .data number => !proxy.irrelevant.contains number
  | .heartbeat _ => true
  | .gap body => body.irrelevant.all fun number => !proxy.received.contains number

namespace Hearing

variable {hearing : Hearing} {input : ProxyInput} {inputs : List ProxyInput}

/-- Every submessage of a run is separate where it arrives. -/
def separates : List ProxyInput → Hearing → Bool
  | [],_ => true
  | input :: rest,hearing => input.separate hearing.proxy && separates rest (hearing.hear input)

/-- What a submessage leaves of the proxy. -/
theorem proxy_hear (hearing : Hearing) (input : ProxyInput) :
    (hearing.hear input).proxy = match input with
      | .data seq => (hearing.proxy.acceptData seq).2
      | .heartbeat body => (hearing.proxy.acceptHeartbeat body).2
      | .gap body => hearing.proxy.acceptGap body := by
  cases input with
  | data | heartbeat =>
    unfold hear
    dsimp only
    split <;> simp [*]
  | gap => rfl

theorem apart_hear (apart : hearing.proxy.Apart) (separate : input.separate hearing.proxy = true) :
    (hearing.hear input).proxy.Apart := by
  rw [proxy_hear]
  cases input with
  | data seq =>
    refine apart.acceptData fun held => ?_
    rw [ProxyInput.separate,(contains_iff _ _).mpr held] at separate
    cases separate
  | heartbeat body => exact apart.acceptHeartbeat body
  | gap body =>
    have marked : WriterProxy.Apart { hearing.proxy with active := true } := apart
    refine (marked.noteIrrelevant ?_).advance
    intro seq named held
    have unheld := all_eq_true.mp separate seq named
    rw [(contains_iff _ _).mpr held] at unheld
    cases unheld

theorem settled_run (settled : hearing.proxy.isSettled = true) :
    (hearing.run inputs).proxy.isSettled = true := by
  induction inputs generalizing hearing with
  | nil => exact settled
  | cons input _ ih =>
    apply ih
    rw [proxy_hear]
    cases input with
    | data seq => exact isSettled_acceptData settled seq
    | heartbeat body => exact isSettled_acceptHeartbeat settled body
    | gap => exact isSettled_advance _

end Hearing

/-- While no number is named both as data and as irrelevant, the sets stay apart. -/
theorem pending_sets_apart (guid : Guid) (locators : List Locator) (inputs : List ProxyInput)
    (separates : (Hearing.fresh guid locators).separates inputs = true) :
    ((Hearing.fresh guid locators).run inputs).proxy.Apart := by
  have start : (fresh guid locators).proxy.Apart := ⟨nofun,nofun,nofun⟩
  generalize fresh guid locators = hearing at separates start ⊢
  induction inputs generalizing hearing with
  | nil => exact start
  | cons input rest ih =>
    rw [Hearing.separates,Bool.and_eq_true] at separates
    exact ih _ separates.2 (apart_hear start separates.1)

/-- The gap that names the numbers from the first to just before the last. -/
def gapTo (first last : Int) : Gap :=
  { readerId := 0, writerId := 0, gapStart := first, gapList := .new last }

theorem pending_sets_gap_then_data :
    ((Hearing.fresh ⟨0,0⟩ []).run [.gap (gapTo 2 3),.data 3]).proxy.Apart :=
  pending_sets_apart ⟨0,0⟩ [] [.gap (gapTo 2 3),.data 3] (by decide)

/-- A gap and then the data of one number: it waits in both sets, and when the hole
below is closed it stays behind the watermark. -/
theorem declared_then_received :
    ¬ ((Hearing.fresh ⟨0,0⟩ []).run [.gap (gapTo 2 3),.data 2]).proxy.Apart ∧
      let proxy := ((fresh ⟨0,0⟩ []).run [.gap (gapTo 2 3),.data 2,.data 1]).proxy
      proxy.ackedThrough = 2 ∧ proxy.irrelevant.elems = [2] := by
  refine ⟨fun apart => ?_,by decide⟩
  exact apart.1 2 (by decide) (by decide)

/-- In every run the next number is taken while the set it goes to has room, and only
then. -/
theorem hole_closed_iff (guid : Guid) (locators : List Locator) (inputs : List ProxyInput)
    (ranged : ∀ input ∈ inputs, input.InRange)
    (short : ((Hearing.fresh guid locators).run inputs).proxy.ackedThrough < i64Max) :
    let proxy := ((fresh guid locators).run inputs).proxy
    ((proxy.acceptData (proxy.ackedThrough + 1)).1 = true ↔ proxy.received.len < maxTracked) ∧
      ∀ gap : Gap, (ProxyInput.gap gap).InRange → proxy.ackedThrough + 1 ∈ gap.irrelevant →
        (proxy.ackedThrough + 1 ≤ (proxy.acceptGap gap).ackedThrough ↔
          proxy.irrelevant.len < maxTracked) := by
  intro proxy
  have fresh : (fresh guid locators).IsSound False := Hearing.Sound.fresh guid locators
  have settled : proxy.isSettled = true := settled_run rfl
  refine ⟨acceptData_closes settled (fresh.run ranged False.elim).1.reliable short,?_⟩
  intro gap within named
  exact acceptGap_closes settled short (gap.irrelevant_ascending within.2.2) named

theorem hole_closed_first : ((Hearing.fresh ⟨0,0⟩ []).run [.data 2]).proxy.ackedThrough = 0 ∧
      (((Hearing.fresh ⟨0,0⟩ []).run [.data 2]).proxy.acceptData 1).1 = true :=
  ⟨by decide,(hole_closed_iff ⟨0,0⟩ [] [.data 2] (by decide) (by decide)).1.mpr (by decide)⟩

theorem irrelevant_gapTo (first last : Int) :
    (gapTo first last).irrelevant = numbersFrom first (last - first).toNat :=
  append_nil _

/-- A gap that leaves out the next number and fits the set goes there whole. -/
theorem acceptGap_ahead {proxy : WriterProxy} (settled : proxy.isSettled = true)
    (acked : proxy.ackedThrough = 0) {count : Nat}
    (room : proxy.irrelevant.len + count ≤ maxTracked) :
    let after := proxy.acceptGap (gapTo 2 (2 + count))
    after.ackedThrough = 0 ∧ after.isSettled = true ∧ count ≤ after.irrelevant.len := by
  have noted := noteIrrelevant_noted (gapTo 2 (2 + count)).irrelevant
    { proxy with active := true }
  unfold acceptGap
  generalize noteIrrelevant _ _ = after at noted ⊢
  rw [irrelevant_gapTo,show (2 + (count : Int) - 2).toNat = count by omega] at noted
  have same : after.ackedThrough = 0 := by
    rw [noted.frame]
    exact acked
  have stays : after.isSettled = true := by
    rw [isSettled_iff,acked] at settled
    rw [isSettled_iff,same]
    refine ⟨?_,fun held => ?_⟩
    · rw [noted.frame]
      exact settled.1
    · rcases noted.added _ held with before | named
      · exact settled.2 before
      · exact absurd (mem_numbersFrom.mp named.1).1 (by decide)
  rw [advance_settled stays]
  refine ⟨same,stays,?_⟩
  have held : Finset.Ico 2 (2 + (count : Int)) ⊆ after.irrelevant.toFinset := by
    intro seq mem
    rw [OrderedSet.mem_toFinset]
    refine (noted.complete ?_ seq (mem_numbersFrom.mpr (Finset.mem_Ico.mp mem))).resolve_left ?_
    · rw [numbersFrom,length_map,length_range]
      exact room
    · have above := (Finset.mem_Ico.mp mem).1
      change ¬ seq ≤ proxy.ackedThrough
      omega
  have filled := Finset.card_le_card held
  rw [Int.card_Ico,OrderedSet.card_toFinset] at filled
  omega

/-- After a gap of 65 536 numbers that leaves out the first, no gap moves the watermark. -/
theorem full_set_refuses_next :
    let proxy := ((fresh ⟨0,0⟩ []).run [.gap (gapTo 2 (2 + maxTracked))]).proxy
    proxy.ackedThrough = 0 ∧ ∀ gap, (proxy.acceptGap gap).ackedThrough = 0 := by
  obtain ⟨acked,settled,full⟩ := @acceptGap_ahead (fresh ⟨0,0⟩ []).proxy rfl rfl maxTracked
    (Nat.le_of_eq (Nat.zero_add _))
  have heard : ∀ gap, ((fresh ⟨0,0⟩ []).run [.gap gap]).proxy =
      (fresh ⟨0,0⟩ []).proxy.acceptGap gap := fun _ => rfl
  rw [heard]
  exact ⟨acked,fun gap => (acceptGap_full settled full gap).trans acked⟩

end Astrs.Rtps
