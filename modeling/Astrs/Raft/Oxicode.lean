/-
The wire encoding of the log's records.

Integers are variable-length, optional values and the variants of an enumeration
start with their number, sequences with their length, and the fields of a record
follow one another.
-/

import Astrs.Base.Varint
import Astrs.Raft.Wal

namespace Astrs.Raft

open Astrs.Base Coder

namespace Oxicode

def bytes : Coder Bytes := sequence byte

def membership : Coder Membership := (sequence varint).convert
    (fun membership => membership.voters.elems)
    (fun voters => some (Membership.new voters))
    (by
      intro membership
      unfold Membership.new
      rw [OrderedSet.ofList_elems])

def peer : Coder (Option PeerId) where
  put value :=
    match value with
    | none => some [0]
    | some peer => (varint.put peer).map (1 :: ·)
  get bytes :=
    match bytes with
    | 0 :: rest => some (none,rest)
    | 1 :: rest => (varint.get rest).map fun read => (some read.1,read.2)
    | _ => none
  get_put := by
    intro value bytes wrote rest
    cases value with
    | none =>
      cases wrote
      rfl
    | some peer =>
      obtain ⟨tail,wroteTail,same⟩ := Option.map_eq_some_iff.mp wrote
      subst same
      change (varint.get (tail ++ rest)).map _ = _
      rw [varint.get_put peer tail wroteTail]
      rfl

def payload : Coder EntryPayload where
  put value :=
    match value with
    | .command command => (bytes.put command).map (0 :: ·)
    | .noop => some [1]
    | .config voters => (membership.put voters).map (2 :: ·)
  get encoded :=
    match encoded with
    | 0 :: rest => (bytes.get rest).map fun read => (.command read.1,read.2)
    | 1 :: rest => some (.noop,rest)
    | 2 :: rest => (membership.get rest).map fun read => (.config read.1,read.2)
    | _ => none
  get_put := by
    intro value encoded wrote rest
    cases value with
    | command command =>
      obtain ⟨tail,wroteTail,same⟩ := Option.map_eq_some_iff.mp wrote
      subst same
      change (bytes.get (tail ++ rest)).map _ = _
      rw [bytes.get_put command tail wroteTail]
      rfl
    | noop =>
      cases wrote
      rfl
    | config voters =>
      obtain ⟨tail,wroteTail,same⟩ := Option.map_eq_some_iff.mp wrote
      subst same
      change (membership.get (tail ++ rest)).map _ = _
      rw [membership.get_put voters tail wroteTail]
      rfl

def entry : Coder LogEntry := (pair varint (pair varint payload)).convert
    (fun entry => (entry.term,entry.index,entry.payload))
    (fun read => some { term := read.1, index := read.2.1, payload := read.2.2 })
    (fun _ => rfl)

def hardState : Coder HardState := (pair varint peer).convert
    (fun state => (state.term,state.votedFor))
    (fun read => some { term := read.1, votedFor := read.2 })
    (fun _ => rfl)

def info : Coder SnapshotMeta :=
  (pair varint (pair varint membership)).convert
    (fun info => (info.lastIndex,info.lastTerm,info.membership))
    (fun read => some { lastIndex := read.1, lastTerm := read.2.1, membership := read.2.2 })
    (fun _ => rfl)

def snapshot : Coder Snapshot := (pair info bytes).convert
    (fun snapshot => (snapshot.info,snapshot.data))
    (fun read => some { info := read.1, data := read.2 })
    (fun _ => rfl)

def failure : RaftError := .codec "the value has no encoding, or the bytes no value"

theorem hardState_length {state : HardState} {body : Bytes}
    (wrote : hardState.put state = some body) : body.length ≤ 19 := by
  obtain ⟨_,wroteFront,wrote⟩ := Option.bind_eq_some_iff.mp wrote
  obtain ⟨back,wroteBack,last⟩ := Option.bind_eq_some_iff.mp wrote
  cases last
  have short : back.length ≤ 10 := by
    change peer.put state.votedFor = some back at wroteBack
    cases vote : state.votedFor with
    | none =>
      rw [vote] at wroteBack
      cases wroteBack
      decide
    | some =>
      rw [vote] at wroteBack
      obtain ⟨_,wroteTail,same⟩ := Option.map_eq_some_iff.mp wroteBack
      rw [← same,List.length_cons]
      exact Nat.succ_le_succ (length_putVarint wroteTail)
  rw [List.length_append]
  have := length_putVarint wroteFront
  omega

end Oxicode

def oxicode : WalCodec where
  entry := Oxicode.entry.codec Oxicode.failure
  hardState := Oxicode.hardState.codec Oxicode.failure
  index := varint.codec Oxicode.failure
  info := Oxicode.info.codec Oxicode.failure
  snapshot := Oxicode.snapshot.codec Oxicode.failure
  hardState_small := by
    intro state body encoded
    have short := Oxicode.hardState_length (encode_iff.mp encoded)
    have room : 19 ≤ maxRecordBody := by decide
    omega
  index_small := by
    intro value body encoded
    have short := length_putVarint (encode_iff.mp encoded)
    have room : 9 ≤ maxRecordBody := by decide
    omega

end Astrs.Raft
