/-
Self-delimiting encodings.

A coder reads its value off the front of a byte string and hands back the rest, so
coders compose.
-/

import Astrs.Base.Bytes

namespace Astrs.Base

structure Coder (α : Type) where
  put : α → Option (List UInt8)
  get : List UInt8 → Option (α × List UInt8)
  get_put : ∀ value bytes, put value = some bytes → ∀ rest, get (bytes ++ rest) = some (value,rest)

namespace Coder

variable {ε α β : Type}

def putVarint (value : Nat) : Option (List UInt8) :=
  if value < 251 then some [UInt8.ofNat value]
  else if value < 65536 then some (251 :: littleEndian 2 value)
  else if value < 4294967296 then some (252 :: littleEndian 4 value)
  else if value < 18446744073709551616 then some (253 :: littleEndian 8 value)
  else none

def getFixed (width : Nat) (bytes : List UInt8) : Option (Nat × List UInt8) :=
  if width ≤ bytes.length then some (ofLittleEndian (bytes.take width),bytes.drop width) else none

def getVarint : List UInt8 → Option (Nat × List UInt8)
  | [] => none
  | marker :: rest =>
    if marker < 251 then some (marker.toNat,rest)
    else if marker = 251 then getFixed 2 rest
    else if marker = 252 then getFixed 4 rest
    else if marker = 253 then getFixed 8 rest
    else none

theorem getFixed_littleEndian {width value : Nat} (fits : value < 256 ^ width) (rest : List UInt8) :
    getFixed width (littleEndian width value ++ rest) = some (value,rest) := by
  unfold getFixed
  rw [if_pos (by simp),List.take_left' (by simp),List.drop_left' (by simp),
    ofLittleEndian_littleEndian fits]

theorem getVarint_putVarint (value : Nat) (bytes : List UInt8)
    (wrote : putVarint value = some bytes)
    (rest : List UInt8) : getVarint (bytes ++ rest) = some (value,rest) := by
  unfold putVarint at wrote
  split at wrote
  · rename_i small
    cases wrote
    have kept : (UInt8.ofNat value).toNat = value := by
      exact Nat.mod_eq_of_lt (by omega)
    have below : UInt8.ofNat value < 251 := by
      rw [UInt8.lt_iff_toNat_lt,kept]
      exact small
    change (if UInt8.ofNat value < 251 then some ((UInt8.ofNat value).toNat,rest) else _) = _
    rw [if_pos below,kept]
  · split at wrote
    · rename_i fits
      cases wrote
      exact @getFixed_littleEndian 2 value fits rest
    · split at wrote
      · rename_i fits
        cases wrote
        exact @getFixed_littleEndian 4 value fits rest
      · split at wrote
        · rename_i fits
          cases wrote
          exact @getFixed_littleEndian 8 value fits rest
        · cases wrote

variable {bytes : List UInt8}

theorem length_putVarint {value : Nat} (wrote : putVarint value = some bytes) :
    bytes.length ≤ 9 := by
  unfold putVarint at wrote
  split at wrote
  · cases wrote
    simp
  · split at wrote
    · cases wrote
      simp
    · split at wrote
      · cases wrote
        simp
      · split at wrote
        · cases wrote
          simp
        · cases wrote

def varint : Coder Nat := ⟨putVarint,getVarint,getVarint_putVarint⟩

def pair (first : Coder α) (second : Coder β) : Coder (α × β) where
  put value := do
    let front ← first.put value.1
    let back ← second.put value.2
    return front ++ back
  get bytes := do
    let (left,rest) ← first.get bytes
    let (right,rest) ← second.get rest
    return ((left,right),rest)
  get_put := by
    rintro ⟨left,right⟩ bytes wrote rest
    obtain ⟨front,wroteFront,wrote⟩ := Option.bind_eq_some_iff.mp wrote
    obtain ⟨back,wroteBack,last⟩ := Option.bind_eq_some_iff.mp wrote
    cases last
    rw [List.append_assoc,first.get_put left front wroteFront]
    change (second.get (back ++ rest)).bind _ = _
    rw [second.get_put right back wroteBack]
    rfl

def convert (coder : Coder α) (into : β → α) (back : α → Option β)
    (reads : ∀ value, back (into value) = some value) : Coder β where
  put value := coder.put (into value)
  get bytes := do
    let (read,rest) ← coder.get bytes
    let value ← back read
    return (value,rest)
  get_put := by
    intro value bytes wrote rest
    rw [coder.get_put (into value) bytes wrote]
    change (back (into value)).bind _ = _
    rw [reads]
    rfl

def putItems (item : Coder α) : List α → Option (List UInt8)
  | [] => some []
  | value :: rest => do
    let front ← item.put value
    let back ← putItems item rest
    return front ++ back

def getItems (item : Coder α) : Nat → List UInt8 → Option (List α × List UInt8)
  | 0,bytes => some ([],bytes)
  | count + 1,bytes => do
    let (value,rest) ← item.get bytes
    let (values,rest) ← getItems item count rest
    return (value :: values,rest)

theorem getItems_putItems (item : Coder α) (values : List α) (bytes : List UInt8)
    (wrote : putItems item values = some bytes) (rest : List UInt8) :
    getItems item values.length (bytes ++ rest) = some (values,rest) := by
  induction values generalizing bytes with
  | nil =>
    cases wrote
    rfl
  | cons value others ih =>
    obtain ⟨front,wroteFront,wrote⟩ := Option.bind_eq_some_iff.mp wrote
    obtain ⟨back,wroteBack,last⟩ := Option.bind_eq_some_iff.mp wrote
    cases last
    rw [List.append_assoc]
    change (item.get (front ++ (back ++ rest))).bind _ = _
    rw [item.get_put value front wroteFront]
    change (getItems item others.length (back ++ rest)).bind _ = _
    rw [ih back wroteBack]
    rfl

def sequence (item : Coder α) : Coder (List α) where
  put values := do
    let front ← putVarint values.length
    let back ← putItems item values
    return front ++ back
  get bytes := do
    let (count,rest) ← getVarint bytes
    getItems item count rest
  get_put := by
    intro values bytes wrote rest
    obtain ⟨front,wroteFront,wrote⟩ := Option.bind_eq_some_iff.mp wrote
    obtain ⟨back,wroteBack,last⟩ := Option.bind_eq_some_iff.mp wrote
    cases last
    rw [List.append_assoc,getVarint_putVarint _ _ wroteFront]
    exact getItems_putItems item values back wroteBack rest

def byte : Coder UInt8 where
  put value := some [value]
  get bytes :=
    match bytes with
    | [] => none
    | value :: rest => some (value,rest)
  get_put := by
    intro value bytes wrote rest
    cases wrote
    rfl

theorem putItems_byte (bytes : List UInt8) : putItems byte bytes = some bytes := by
  induction bytes with
  | nil => rfl
  | cons value rest ih =>
    unfold putItems
    rw [ih]
    rfl

def codec (coder : Coder α) (failure : ε) : Codec ε α where
  encode value :=
    match coder.put value with
    | some bytes => .ok bytes
    | none => .error failure
  decode bytes :=
    match coder.get bytes with
    | some (value,[]) => .ok value
    | _ => .error failure
  decode_encode := by
    intro value bytes wrote
    cases put : coder.put value with
    | none =>
      rw [put] at wrote
      cases wrote
    | some found =>
      rw [put] at wrote
      cases wrote
      have read := coder.get_put value bytes put []
      rw [List.append_nil] at read
      rw [read]

theorem encode_iff {coder : Coder α} {failure : ε} {value : α} :
    (coder.codec failure).encode value = .ok bytes ↔ coder.put value = some bytes := by
  unfold codec
  dsimp only
  cases coder.put value with
  | none =>
    constructor
    · exact nofun
    · exact nofun
  | some =>
    constructor
    · intro encoded
      cases encoded
      rfl
    · intro wrote
      cases wrote
      rfl

end Coder

end Astrs.Base
