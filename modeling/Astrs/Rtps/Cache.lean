/-
The history cache.

Changes are held in the order of their sequence numbers.  `KEEP_LAST` makes room
by dropping the oldest change of the instance, `KEEP_ALL` refuses the new one when
the resource limit is reached.
-/

import Astrs.Base.Ordered
import Astrs.Rtps.Message

namespace Astrs.Rtps

open Astrs.Base Astrs.Cdr

abbrev InstanceHandle := BitVec 128

def InstanceHandle.nil : InstanceHandle := 0

inductive ChangeKind where
  | alive
  | notAliveDisposed
  | notAliveUnregistered
  deriving DecidableEq

namespace ChangeKind

def carriesData : ChangeKind → Bool
  | .alive => true
  | _ => false

def statusInfo : ChangeKind → Bytes
  | .alive => [0,0,0,0]
  | .notAliveDisposed => [0,0,0,1]
  | .notAliveUnregistered => [0,0,0,2]

def fromStatusInfo (octets : Bytes) : ChangeKind :=
  let flags := octets.getD 3 0
  if flags &&& 0x01 ≠ 0 then .notAliveDisposed
  else if flags &&& 0x02 ≠ 0 then .notAliveUnregistered
  else .alive

end ChangeKind

structure CacheChange where
  sequenceNumber : Int
  kind : ChangeKind
  instanceHandle : InstanceHandle
  payload : Bytes
  sourceTimestamp : Option Time
  writtenAt : Nat
  deriving DecidableEq

def CacheChange.hasExpired (change : CacheChange) (lifespan now : Nat) : Bool :=
  decide (lifespan ≤ now - change.writtenAt)

inductive ReassemblyDefect where
  | sampleSizeChanged (first later : Nat)
  | fragmentSizeChanged (first later : Nat)
  | windowPastSample (last sampleSize : Nat)
  | contradiction (fragment : Nat)
  | tooManyFragments (needed limit : Nat)
  deriving DecidableEq

inductive BehaviorError where
  | wire (reason : RtpsError)
  | historyFull (depth : Nat)
  | sampleTooLarge (len limit : Nat)
  | reassembly (writer : Guid) (sequenceNumber : Int) (defect : ReassemblyDefect)
  deriving DecidableEq

inductive HistoryKind where
  | keepLast
  | keepAll
  deriving DecidableEq

structure HistoryQos where
  kind : HistoryKind
  depth : Int
  deriving DecidableEq

/-- How many changes of an instance are kept; a depth below one counts as one. -/
def HistoryQos.retained (history : HistoryQos) : Option Nat :=
  match history.kind with
  | .keepAll => none
  | .keepLast => if history.depth < 1 then some 1 else some history.depth.toNat

structure ResourceLimitsQos where
  maxSamples : Int
  deriving DecidableEq

def ResourceLimitsQos.sampleCeiling (limits : ResourceLimitsQos) : Option Nat :=
  if limits.maxSamples < 0 then none else some limits.maxSamples.toNat

structure HistoryCache where
  changes : OrderedMap Int CacheChange
  history : HistoryQos
  limits : ResourceLimitsQos
  lifespan : Option Nat

namespace HistoryCache

def new (history : HistoryQos) (limits : ResourceLimitsQos) (lifespan : Option Nat) :
    HistoryCache :=
  { changes := OrderedMap.empty, history := history, limits := limits, lifespan := lifespan }

def len (cache : HistoryCache) : Nat := cache.changes.len

def get (cache : HistoryCache) (number : Int) : Option CacheChange := cache.changes.get number

variable (cache : HistoryCache)

def contains (number : Int) : Bool := (cache.get number).isSome

def sequenceNumbers : List Int := cache.changes.entries.map Prod.fst

def minSequenceNumber : Option Int := cache.sequenceNumbers.head?

def remove (cache : HistoryCache) (number : Int) : HistoryCache :=
  { cache with changes := cache.changes.remove number }

def instanceLen (handle : InstanceHandle) : Nat :=
  cache.changes.entries.countP fun binding => binding.2.instanceHandle == handle

def oldestOf (handle : InstanceHandle) : Option Int :=
  (cache.changes.entries.find? fun binding => binding.2.instanceHandle == handle).map Prod.fst

/-- Drops the change that `oldest` names until `enough` holds.  Every round drops one
change, so as many rounds as changes suffice. -/
def evictUntil (enough : HistoryCache → Bool) (oldest : HistoryCache → Option Int) :
    Nat → HistoryCache → HistoryCache
  | 0,cache => cache
  | fuel + 1,cache =>
    if enough cache then cache
    else
      match oldest cache with
      | none => cache
      | some number => evictUntil enough oldest fuel (cache.remove number)

def put (change : CacheChange) : HistoryCache :=
  { cache with changes := cache.changes.insert change.sequenceNumber change }

/-- The total ceiling, which drops the oldest changes whatever their instance. -/
def trim : HistoryCache :=
  match cache.limits.sampleCeiling with
  | none => cache
  | some ceiling =>
    cache.evictUntil (fun cache => decide (cache.len ≤ ceiling)) minSequenceNumber cache.len

def insert (change : CacheChange) : Except BehaviorError HistoryCache :=
  if cache.contains change.sequenceNumber then .ok (cache.put change)
  else
    match cache.history.kind with
    | .keepLast =>
      let depth := cache.history.retained.getD 1
      let stored := cache.put change
      .ok (stored.evictUntil (fun cache => decide (cache.instanceLen change.instanceHandle ≤ depth))
        (fun cache => cache.oldestOf change.instanceHandle) stored.len).trim
    | .keepAll =>
      match cache.limits.sampleCeiling with
      | some ceiling =>
        if ceiling ≤ cache.len then .error (.historyFull cache.len)
        else .ok (cache.put change).trim
      | none => .ok (cache.put change).trim

def dropThrough (through : Int) : HistoryCache :=
  (cache.sequenceNumbers.filter fun number => decide (number ≤ through)).foldl remove cache

def expire (now : Nat) : HistoryCache :=
  match cache.lifespan with
  | none => cache
  | some lifespan =>
    ((cache.changes.entries.filter fun binding => binding.2.hasExpired lifespan now).map
      Prod.fst).foldl remove cache

end HistoryCache

namespace HistoryCache

variable (cache : HistoryCache)

@[simp] theorem get_put (change : CacheChange) (seq : Int) : (cache.put change).get seq =
      if change.sequenceNumber = seq then some change else cache.get seq :=
  OrderedMap.get_insert _ _ _ _

@[simp] theorem get_remove (cache : HistoryCache) (dropped seq : Int) :
    (cache.remove dropped).get seq = if dropped = seq then none else cache.get seq :=
  OrderedMap.get_remove _ _ _

theorem contains_iff {cache : HistoryCache} {seq : Int} :
    cache.contains seq = true ↔ ∃ change, cache.get seq = some change :=
  Option.isSome_iff_exists

/-- What the smaller cache holds, the larger one holds. -/
def Within (smaller larger : HistoryCache) : Prop :=
  ∀ number change, smaller.get number = some change → larger.get number = some change

theorem Within.refl : cache.Within cache := fun _ _ => id

theorem Within.trans {first second third : HistoryCache} (before : first.Within second)
    (after : second.Within third) : first.Within third :=
  fun seq change found => after seq change (before seq change found)

theorem remove_within (seq : Int) : (cache.remove seq).Within cache := by
  intro _ _ found
  rw [get_remove] at found
  split at found
  · cases found
  · exact found

theorem evictUntil_within (enough : HistoryCache → Bool) (oldest : HistoryCache → Option Int)
    (fuel : Nat) (cache : HistoryCache) : (evictUntil enough oldest fuel cache).Within cache := by
  induction fuel generalizing cache with
  | zero => exact Within.refl cache
  | succ fuel ih =>
    unfold evictUntil
    split
    · exact Within.refl cache
    · split
      · exact Within.refl cache
      · exact (ih _).trans (remove_within cache _)

theorem trim_within : cache.trim.Within cache := by
  unfold trim
  split
  · exact Within.refl cache
  · exact evictUntil_within _ _ _ cache

theorem foldl_remove_within (numbers : List Int) (cache : HistoryCache) :
    (numbers.foldl remove cache).Within cache := by
  induction numbers generalizing cache with
  | nil => exact Within.refl cache
  | cons seq rest ih => exact (ih _).trans (remove_within cache seq)

theorem dropThrough_within (through : Int) : (cache.dropThrough through).Within cache :=
  foldl_remove_within _ cache

theorem expire_within (now : Nat) : (cache.expire now).Within cache := by
  unfold expire
  split
  · exact Within.refl cache
  · exact foldl_remove_within _ cache

theorem insert_within {cache stored : HistoryCache} {change : CacheChange}
    (added : cache.insert change = .ok stored) : stored.Within (cache.put change) := by
  unfold insert at added
  split at added
  · cases added
    exact Within.refl _
  · split at added
    · cases added
      exact (trim_within _).trans (evictUntil_within _ _ _ _)
    · split at added
      · split at added
        · cases added
        · cases added
          exact trim_within _
      · cases added
        exact trim_within _

end HistoryCache

end Astrs.Rtps
