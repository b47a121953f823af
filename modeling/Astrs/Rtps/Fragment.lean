/-
Fragmentation and reassembly.

A sample is cut into fragments of one size, the last of which may be shorter.  The
receiver pins the size of the sample and of its fragments by the first fragment it
sees and copies each run of fragments to its place.
-/

import Astrs.Rtps.Codec
import Astrs.Rtps.Cache
import Mathlib.Data.Prod.Lex

namespace Astrs.Rtps

open Astrs.Base Astrs.Cdr

def maxReassemblySample : Nat := 67108864

def maxFragments : Nat := 1048576

def maxAssembliesPerWriter : Nat := 32

structure FragmentPlan where
  sampleSize : Nat
  fragmentSize : Nat
  totalFragments : Nat
  deriving DecidableEq

namespace FragmentPlan

def fromDeclared (sampleSize fragmentSize : Nat) (writer : Guid) (number : Int) :
    Except BehaviorError FragmentPlan :=
  if maxReassemblySample < sampleSize then
    .error (.sampleTooLarge sampleSize maxReassemblySample)
  else if fragmentSize = 0 then .error (.sampleTooLarge sampleSize 0)
  else
    let total := (sampleSize + fragmentSize - 1) / fragmentSize
    if maxFragments < total then
      .error (.reassembly writer number (.tooManyFragments total maxFragments))
    else
      .ok { sampleSize := sampleSize, fragmentSize := fragmentSize, totalFragments := total }

def new (sampleSize fragmentSize : Nat) : Except BehaviorError FragmentPlan :=
  if sampleSize ≤ 4294967295 then fromDeclared sampleSize fragmentSize ⟨0,0⟩ 1
  else .error (.sampleTooLarge sampleSize maxReassemblySample)

def windowOf (plan : FragmentPlan) (number count : Nat) : Except BehaviorError (Nat × Nat) :=
  let failure : BehaviorError := .reassembly ⟨0,0⟩ 1
      (.windowPastSample ((number - 1 + count) * plan.fragmentSize) plan.sampleSize)
  if number = 0 ∨ count = 0 ∨ plan.totalFragments < number then .error failure
  else
    let first := (number - 1) * plan.fragmentSize
    let last := min (first + count * plan.fragmentSize) plan.sampleSize
    if plan.sampleSize ≤ first ∧ plan.sampleSize ≠ 0 then .error failure
    else .ok (first,last)

def fragmentsPerDatagram (plan : FragmentPlan) (budget : Nat) : Nat :=
  let overhead := headerLen + submessageHeaderLen + dataFragPreludeLen
  let per := (budget - overhead) / max plan.fragmentSize 1
  max 1 (min per 65535)

end FragmentPlan

/-- The `DATA_FRAG`s from fragment `next` on.  Each carries at least one fragment, so
`fuel` is enough when it reaches the number of fragments left. -/
def fragmentsFrom (readerId writerId : EntityId) (number : Int) (payload : Bytes)
    (plan : FragmentPlan) (perDatagram : Nat) : Nat → Nat → Except BehaviorError (List DataFrag)
  | 0,_ => .ok []
  | fuel + 1,next =>
    if plan.totalFragments < next then .ok []
    else do
      let count := min (plan.totalFragments - next + 1) perDatagram
      let (first,last) ← plan.windowOf next count
      let fragment : DataFrag :=
        { readerId := readerId
          writerId := writerId
          writerSn := number
          fragmentStartingNum := next
          fragmentsInSubmessage := count
          fragmentSize := plan.fragmentSize
          sampleSize := plan.sampleSize
          payload := (payload.take last).drop first }
      let rest ← fragmentsFrom readerId writerId number payload plan perDatagram fuel (next + count)
      return fragment :: rest

def fragmentSample (readerId writerId : EntityId) (number : Int) (payload : Bytes)
    (fragmentSize budget : Nat) : Except BehaviorError (List DataFrag) := do
  let plan ← FragmentPlan.new payload.length fragmentSize
  fragmentsFrom readerId writerId number payload plan (plan.fragmentsPerDatagram budget)
    plan.totalFragments 1

/-- One sample being reassembled.  `received` holds the bits of the words the source
keeps, one for each fragment, in order. -/
structure Assembly where
  plan : FragmentPlan
  buffer : Bytes
  received : List Bool
  receivedCount : Nat
  deriving DecidableEq

namespace Assembly

def new (plan : FragmentPlan) : Assembly :=
  { plan := plan
    buffer := List.replicate plan.sampleSize 0
    received := List.replicate (64 * max ((plan.totalFragments + 63) / 64) 1) false
    receivedCount := 0 }

def isComplete (assembly : Assembly) : Bool :=
  decide (assembly.plan.totalFragments ≤ assembly.receivedCount)

def has (assembly : Assembly) (number : Nat) : Bool :=
  if number = 0 ∨ assembly.plan.totalFragments < number then false
  else assembly.received.getD (number - 1) false

def mark (assembly : Assembly) (number : Nat) : Assembly :=
  if number = 0 ∨ assembly.plan.totalFragments < number then assembly
  else
    match assembly.received[number - 1]? with
    | some false =>
      { assembly with
        received := assembly.received.set (number - 1) true
        receivedCount := assembly.receivedCount + 1 }
    | _ => assembly

def markAll (assembly : Assembly) (numbers : List Nat) : Assembly := numbers.foldl mark assembly

/-- Overwrites the octets of a window that lies inside the buffer. -/
def copyInto (assembly : Assembly) (first : Nat) (source : Bytes) : Assembly :=
  { assembly with
    buffer := assembly.buffer.take first ++ source ++ assembly.buffer.drop (first + source.length) }

def missing (assembly : Assembly) : Option FragmentNumberSet :=
  let total := assembly.plan.totalFragments
  match (List.range total).find? fun offset => !assembly.has (offset + 1) with
  | none => none
  | some offset =>
    let first := offset + 1
    let last := min (first + maxSetBits) (total + 1)
    some ((List.range (last - first)).foldl (fun set step =>
        if assembly.has (first + step) then set
        else
          match set.insert (first + step) with
          | .ok marked => marked
          | .error _ => set)
      (FragmentNumberSet.new first))

end Assembly

structure Reassembler where
  assemblies : OrderedMap (Guid ×ₗ Int) Assembly
  perWriterLimit : Nat

namespace Reassembler

def new : Reassembler := { assemblies := OrderedMap.empty, perWriterLimit := maxAssembliesPerWriter }

variable (reassembler : Reassembler) (writer : Guid)

def assembly (number : Int) : Option Assembly := reassembler.assemblies.get (toLex (writer,number))

def store (number : Int) (assembly : Assembly) : Reassembler :=
  { reassembler with assemblies := reassembler.assemblies.insert (toLex (writer,number)) assembly }

def discard (number : Int) : Reassembler :=
  { reassembler with assemblies := reassembler.assemblies.remove (toLex (writer,number)) }

/-- The numbers of one writer that are part-assembled, ascending. -/
def inFlight : List Int := (reassembler.assemblies.entries.filter fun binding =>
    decide ((ofLex binding.1).1 = writer)).map fun binding => (ofLex binding.1).2

/-- Drops the oldest sample in flight of a writer that has reached its ceiling. -/
def evictIfNeeded : Reassembler :=
  let held := reassembler.inFlight writer
  if held.length < reassembler.perWriterLimit then reassembler
  else
    match held.head? with
    | none => reassembler
    | some oldest => reassembler.discard writer oldest

/-- Copies a run of fragments to its place and hands the sample out when it is
complete. -/
def fill (fragment : DataFrag) (plan : FragmentPlan) :
    Except BehaviorError (Option Bytes) × Reassembler :=
  let number := fragment.writerSn
  let start := fragment.fragmentStartingNum
  let count := fragment.fragmentsInSubmessage
  match plan.windowOf start count with
  | .error _ =>
    (.error (.reassembly writer number (.windowPastSample
      ((fragment.fragmentEnd - 1) * fragment.fragmentSize) fragment.sampleSize)),reassembler)
  | .ok (first,last) =>
    if fragment.payload.length < last - first then
      (.error (.wire (.truncated (last - first) fragment.payload.length
        "DATA_FRAG serializedPayload")),reassembler)
    else
      match reassembler.assembly writer number with
      | none => (.ok none,reassembler)
      | some assembly =>
        let source := fragment.payload.take (last - first)
        let numbers := (List.range count).map (start + ·)
        if last ≤ assembly.buffer.length ∧ numbers.all assembly.has = true ∧
            (assembly.buffer.take last).drop first ≠ source then
          (.error (.reassembly writer number (.contradiction start)),reassembler)
        else
          let copied :=
            if last ≤ assembly.buffer.length then assembly.copyInto first source else assembly
          let marked := copied.markAll numbers
          if marked.isComplete then (.ok (some marked.buffer),reassembler.discard writer number)
          else (.ok none,reassembler.store writer number marked)

/-- Takes one `DATA_FRAG` in, and returns the sample when it completes it. -/
def accept (fragment : DataFrag) : Except BehaviorError (Option Bytes) × Reassembler :=
  let number := fragment.writerSn
  match FragmentPlan.fromDeclared fragment.sampleSize fragment.fragmentSize writer number with
  | .error failure => (.error failure,reassembler)
  | .ok plan =>
    match reassembler.assembly writer number with
    | some existing =>
      if existing.plan.sampleSize ≠ plan.sampleSize then
        (.error (.reassembly writer number
          (.sampleSizeChanged existing.plan.sampleSize plan.sampleSize)),reassembler)
      else if existing.plan.fragmentSize ≠ plan.fragmentSize then
        (.error (.reassembly writer number
          (.fragmentSizeChanged existing.plan.fragmentSize plan.fragmentSize)),reassembler)
      else reassembler.fill writer fragment plan
    | none =>
      ((reassembler.evictIfNeeded writer).store writer number (Assembly.new plan)).fill
        writer fragment plan

def missing (reassembler : Reassembler) (writer : Guid) (number : Int) : Option FragmentNumberSet :=
  (reassembler.assembly writer number).bind Assembly.missing

end Reassembler

end Astrs.Rtps
