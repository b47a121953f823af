/-
Catching up a daemon that registers.

The pages of the mutation log are queued before anything drains the queue.  Mutations are
numbered without gaps, so a range of numbers is a slice of the log; what they hold, and their
translation to state entries, is a parameter.
-/

import Mathlib.Data.List.Basic

namespace Astrs.Coordinator

def u64Max : Nat := 18446744073709551615

def maxCatchUpPage : Nat := 4096

def outboundQueueDepth : Nat := 512

/-- The mutations that compaction has left. -/
structure MutationLog (Op : Type) where
  compactedBefore : Nat
  ops : List Op

structure CatchUpBatch (Op : Type) where
  entries : List (Op × Nat)
  nextSeq : Nat
  caughtUp : Bool

structure StateCatchUp (Kind : Type) where
  seq : Nat
  entries : List (Kind × Nat)
  finalBatch : Bool

structure HistoryCompacted where
  requested : Nat
  earliestAvailable : Nat

variable {Op Kind : Type}

namespace MutationLog

variable (log : MutationLog Op)

def records : List (Op × Nat) := log.ops.zipIdx (log.compactedBefore + 1)

def mutationsSince (after maxEntries : Nat) : Except HistoryCompacted (CatchUpBatch Op) :=
  if after < log.compactedBefore then .error ⟨after,log.compactedBefore⟩
  else
    let page := min maxEntries maxCatchUpPage
    let lo := min (after + 1) u64Max
    let hi := min (min (after + page) u64Max + 2) u64Max
    let window := (log.records.drop (lo - (log.compactedBefore + 1))).take (hi - lo)
    let entries := if window.length ≤ page then window else window.take page
    .ok { entries := entries
          nextSeq := (entries.getLast?.map Prod.snd).getD after
          caughtUp := decide (window.length ≤ page) }

/-- The number of mutations that can be read after a cursor. -/
def remaining (after : Nat) : Nat := min (log.compactedBefore + log.ops.length) (u64Max - 1) - after

/-- The events queued, and the error that ends them; nothing if the loop needs more fuel. -/
def pushCatchUp (translate : Op → Option Kind) (maxEntries : Nat) :
    Nat → Nat → Option (List (StateCatchUp Kind) × Option HistoryCompacted)
  | 0,_ => none
  | fuel + 1,cursor =>
    match log.mutationsSince cursor maxEntries with
    | .error failure => some ([],some failure)
    | .ok batch =>
      let entries := batch.entries.filterMap fun record => (translate record.1).map (·,record.2)
      let event :=
        { seq := (entries.head?.map Prod.snd).getD batch.nextSeq
          entries := entries
          finalBatch := batch.caughtUp }
      if batch.caughtUp then some ([event],none)
      else
        (pushCatchUp translate maxEntries fuel batch.nextSeq).map fun (events,failure) =>
          (event :: events,failure)

variable {log} {translate : Op → Option Kind} {cursor maxEntries : Nat}

theorem mutationsSince_spec (kept : log.compactedBefore ≤ cursor) :
    ∃ batch, log.mutationsSince cursor maxEntries = .ok batch ∧
      (batch.caughtUp = true → log.remaining cursor ≤ min maxEntries maxCatchUpPage) ∧
      (batch.caughtUp = false → min maxEntries maxCatchUpPage < log.remaining cursor ∧
        batch.nextSeq = cursor + min maxEntries maxCatchUpPage) := by
  refine ⟨_,if_neg (Nat.not_lt.mpr kept),?_⟩
  unfold remaining records
  dsimp only
  generalize min maxEntries maxCatchUpPage = page
  generalize u64Max = limit
  have slice : ∀ lo hi, ((log.ops.zipIdx (log.compactedBefore + 1)).drop
      (lo - (log.compactedBefore + 1)) |>.take (hi - lo)).length =
      min (hi - lo) (log.ops.length - (lo - (log.compactedBefore + 1))) := by simp
  rw [decide_eq_true_eq,decide_eq_false_iff_not,slice]
  refine ⟨fun all => by omega,fun more => ⟨by omega,?_⟩⟩
  rw [if_neg more,List.take_take,List.getLast?_eq_getElem?,List.length_take,List.length_drop,
    List.length_zipIdx]
  cases page with
  | zero => simp
  | succ page =>
    rw [List.getElem?_take_of_lt (by omega),List.getElem?_drop,List.getElem?_zipIdx,
      List.getElem?_eq_getElem (by omega)]
    simp only [Option.map_some,Option.getD_some]
    omega

theorem remaining_add (after step : Nat) :
    log.remaining (after + step) = log.remaining after - step := by
  unfold remaining
  omega

/-- One page: it is the last one, or the loop goes on behind it. -/
theorem pushCatchUp_succ (kept : log.compactedBefore ≤ cursor) (fuel : Nat) : ∃ event,
    (log.remaining cursor ≤ min maxEntries maxCatchUpPage ∧
      log.pushCatchUp translate maxEntries (fuel + 1) cursor = some ([event],none)) ∨
    (min maxEntries maxCatchUpPage < log.remaining cursor ∧
      log.pushCatchUp translate maxEntries (fuel + 1) cursor =
        (log.pushCatchUp translate maxEntries fuel
          (cursor + min maxEntries maxCatchUpPage)).map fun (events,failure) =>
            (event :: events,failure)) := by
  obtain ⟨batch,read,last,more⟩ := @mutationsSince_spec _ log cursor maxEntries kept
  rw [pushCatchUp,read]
  dsimp only
  split
  · rename_i caughtUp
    exact ⟨_,.inl ⟨last caughtUp,rfl⟩⟩
  · rename_i behind
    obtain ⟨less,next⟩ := more (Bool.eq_false_iff.mpr behind)
    rw [next]
    exact ⟨_,.inr ⟨less,rfl⟩⟩

theorem pushCatchUp_finishes (kept : log.compactedBefore ≤ cursor) {fuel : Nat}
    (enough : log.remaining cursor ≤ (fuel + 1) * min maxEntries maxCatchUpPage) :
    ∃ events, log.pushCatchUp translate maxEntries (fuel + 1) cursor = some (events,none) ∧
      events.length ≤ fuel + 1 := by
  induction fuel generalizing cursor with
  | zero =>
    obtain ⟨event,⟨_,finished⟩ | ⟨less,_⟩⟩ := @pushCatchUp_succ _ _ log translate _ maxEntries kept 0
    · exact ⟨_,finished,Nat.le_refl _⟩
    · omega
  | succ fuel ih =>
    obtain ⟨event,⟨_,finished⟩ | ⟨_,continued⟩⟩ :=
      @pushCatchUp_succ _ _ log translate _ maxEntries kept (fuel + 1)
    · exact ⟨_,finished,Nat.le_add_left _ _⟩
    · obtain ⟨events,finished,few⟩ := @ih (cursor + min maxEntries maxCatchUpPage)
        (Nat.le_add_right_of_le kept) (by
          rw [Nat.add_one_mul] at enough
          rw [remaining_add]
          omega)
      rw [continued,finished]
      exact ⟨_,rfl,Nat.succ_le_succ few⟩

theorem remaining_le_of_pushCatchUp (kept : log.compactedBefore ≤ cursor) {fuel : Nat}
    {events : List (StateCatchUp Kind)} {failure : Option HistoryCompacted}
    (finished : log.pushCatchUp translate maxEntries fuel cursor = some (events,failure)) :
    log.remaining cursor ≤ events.length * min maxEntries maxCatchUpPage := by
  induction fuel generalizing cursor events with
  | zero => cases finished
  | succ fuel ih =>
    obtain ⟨event,⟨last,whole⟩ | ⟨_,continued⟩⟩ :=
      @pushCatchUp_succ _ _ log translate _ maxEntries kept fuel
    · rw [whole] at finished
      cases finished
      rw [List.length_singleton,Nat.one_mul]
      exact last
    · rw [continued] at finished
      obtain ⟨_,later,same⟩ := Option.map_eq_some_iff.mp finished
      cases same
      have left := ih (Nat.le_add_right_of_le kept) later
      rw [remaining_add] at left
      rw [List.length_cons,Nat.add_one_mul]
      omega

/-- The catch-up ends with its events in the queue exactly when the cursor is compacted, or
what is left to read fills at most as many pages as the queue has places. -/
theorem catch_up_queued_iff (log : MutationLog Op) (translate : Op → Option Kind)
    (maxEntries after : Nat) :
    (∃ fuel events failure,
      log.pushCatchUp translate maxEntries fuel after = some (events,failure) ∧
        events.length ≤ outboundQueueDepth) ↔
      after < log.compactedBefore ∨
        log.remaining after ≤ outboundQueueDepth * min maxEntries maxCatchUpPage := by
  rcases Nat.lt_or_ge after log.compactedBefore with compacted | kept
  · refine iff_of_true ⟨1,[],some ⟨after,log.compactedBefore⟩,?_,Nat.zero_le _⟩ (.inl compacted)
    unfold pushCatchUp mutationsSince
    rw [if_pos compacted]
  · rw [or_iff_right (Nat.not_lt.mpr kept)]
    constructor
    · rintro ⟨fuel,events,failure,finished,few⟩
      exact Nat.le_trans (remaining_le_of_pushCatchUp kept finished) (Nat.mul_le_mul_right _ few)
    · intro fits
      obtain ⟨events,finished,few⟩ :=
        @pushCatchUp_finishes _ _ log translate after maxEntries kept 511 fits
      exact ⟨512,events,none,finished,few⟩

/-- With pages of one mutation, a history of 513 never gets past the queue. -/
theorem long_history_blocks : ¬ ∃ fuel events failure,
    (⟨0,List.replicate 513 ()⟩ : MutationLog Unit).pushCatchUp some 1 fuel 0 =
      some (events,failure) ∧ events.length ≤ outboundQueueDepth := by
  rintro ⟨fuel,events,failure,finished,few⟩
  have read := remaining_le_of_pushCatchUp (Nat.zero_le _) finished
  have more : (⟨0,List.replicate 513 ()⟩ : MutationLog Unit).remaining 0 = 513 := by decide +kernel
  rw [more] at read
  change events.length ≤ 512 at few
  change 513 ≤ events.length * 1 at read
  omega

end MutationLog

end Astrs.Coordinator
