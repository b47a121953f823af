/-
References as texts: a node id, a slash and an output.

Carrying a reference out of nested scopes touches its node id alone, and a virtual
source not at all.
-/

import Astrs.Manifests.Hierarchy

namespace Astrs.Manifests

open Astrs.Base List Scopes

/-! ### Names -/

/-- A text that can stand before the slash of a reference. -/
structure IsName (id : Text) : Prop where
  nonempty : id ≠ []
  plain : '/' ∉ id

/-- The name that makes a source a virtual one. -/
def virtualId : Text := ['a','s','t','r','s']

variable {id source rest : Text}

theorem isName_of_valid (valid : isValidIdCharset id = true) : IsName id := by
  unfold isValidIdCharset at valid
  rw [Bool.and_eq_true,all_eq_true] at valid
  constructor
  · simpa using valid.1
  · intro slash
    exact absurd (valid.2 _ slash) (by decide)

/-- A name under a host has a dot, which no virtual source and no boundary has. -/
theorem isName_under {host : Text} (plainHost : '/' ∉ host) (plain : '/' ∉ id) :
    IsName (host ++ '.' :: id) := by
  constructor
  · intro empty
    cases host <;> cases empty
  · rw [mem_append,mem_cons]
    rintro (inHost | dot | inId)
    · exact plainHost inHost
    · cases dot
    · exact plain inId

theorem under_ne_virtualId (host id : Text) : host ++ '.' :: id ≠ virtualId := by
  intro same
  have dot : '.' ∈ virtualId := same ▸ mem_append_right _ mem_cons_self
  exact absurd dot (by decide)

theorem splitOnce_reference (rest : Text) (plain : '/' ∉ id) :
    splitOnce (id ++ '/' :: rest) = some (id,rest) := by
  induction id with
  | nil => rfl
  | cons letter tail ih =>
    rw [cons_append,splitOnce,if_neg,ih,Option.map_some]
    · exact fun slash => plain (mem_cons_of_mem _ slash)
    · exact fun slash => plain (slash ▸ mem_cons_self)

theorem splitOnce_eq_some (split : splitOnce source = some (id,rest)) :
    source = id ++ '/' :: rest ∧ '/' ∉ id := by
  induction source generalizing id with
  | nil => cases split
  | cons letter tail ih =>
    unfold splitOnce at split
    split at split
    · rename_i slash
      cases split
      exact ⟨by rw [slash,nil_append],not_mem_nil⟩
    · rename_i other
      cases found : splitOnce tail with
      | none =>
        rw [found] at split
        cases split
      | some =>
        rw [found] at split
        cases split
        obtain ⟨same,plain⟩ := ih found
        refine ⟨by rw [cons_append,← same],?_⟩
        rw [mem_cons]
        rintro (slash | later)
        · exact other slash.symm
        · exact plain later

/-- A reference is read back in one way. -/
theorem reference_inj {left right leftRest rightRest : Text} (leftPlain : '/' ∉ left)
    (rightPlain : '/' ∉ right) (same : left ++ '/' :: leftRest = right ++ '/' :: rightRest) :
    left = right ∧ leftRest = rightRest := by
  have split := splitOnce_reference leftRest leftPlain
  rw [same,splitOnce_reference rightRest rightPlain] at split
  cases split
  exact ⟨rfl,rfl⟩

theorem splitReference_reference (name : IsName id) (output : rest ≠ []) :
    splitReference (id ++ '/' :: rest) = some (id,rest) := by
  unfold splitReference
  rw [splitOnce_reference rest name.plain]
  dsimp only
  rw [if_neg]
  rintro (empty | empty)
  · exact name.nonempty empty
  · exact output empty

theorem splitReference_eq_some (split : splitReference source = some (id,rest)) :
    source = id ++ '/' :: rest ∧ IsName id ∧ rest ≠ [] := by
  unfold splitReference at split
  split at split
  · cases split
  · rename_i parts found
    split at split
    · cases split
    · rename_i filled
      cases split
      obtain ⟨same,plain⟩ := splitOnce_eq_some found
      exact ⟨same,⟨fun empty => filled (.inl empty),plain⟩,fun empty => filled (.inr empty)⟩

theorem recognize_isSome (known : (recognize source).isSome = true) :
    ∃ rest, source = virtualId ++ '/' :: rest := by
  unfold recognize at known
  split at known
  · exact ⟨_,rfl⟩
  · cases known

/-- Only the reserved name makes a reference a virtual source. -/
theorem recognize_reference (rest : Text) (plain : '/' ∉ id) (other : id ≠ virtualId) :
    (recognize (id ++ '/' :: rest)).isSome = false := by
  rw [Bool.eq_false_iff]
  intro known
  obtain ⟨_,same⟩ := recognize_isSome known
  exact other (reference_inj plain (by decide) same).1

theorem boundaryPort_eq_some {port : Text} (found : boundaryPort source = some port) :
    source = moduleBoundaryNodeId ++ '/' :: port := by
  unfold boundaryPort at found
  split at found
  · cases found
    rfl
  · cases found

theorem boundaryPort_reference (rest : Text) (plain : '/' ∉ id)
    (other : id ≠ moduleBoundaryNodeId) : boundaryPort (id ++ '/' :: rest) = none := by
  cases found : boundaryPort (id ++ '/' :: rest) with
  | none => rfl
  | some =>
    exact absurd (reference_inj plain (by decide) (boundaryPort_eq_some found)).1 other

/-- A reference carried out of one scope. -/
def raiseSource (frame : Frame Char) (source : Text) : Text :=
  rewriteReferenceNodeId source fun id =>
    if id ∈ frame.names then some (frame.host ++ '.' :: id) else none

/-- A reference carried out of scope after scope, the innermost first. -/
def liftSource (frames : List (Frame Char)) (source : Text) : Text :=
  frames.foldl (fun carried frame => raiseSource frame carried) source

theorem liftSource_cons (frame : Frame Char) (frames : List (Frame Char)) (source : Text) :
    liftSource (frame :: frames) source = liftSource frames (raiseSource frame source) := rfl

theorem liftSource_virtual (frames : List (Frame Char))
    (known : (recognize source).isSome = true) : liftSource frames source = source := by
  induction frames with
  | nil => rfl
  | cons frame frames ih =>
    have unchanged : raiseSource frame source = source := by
      unfold raiseSource rewriteReferenceNodeId
      rw [if_pos known]
    rw [liftSource_cons,unchanged]
    exact ih

theorem raiseSource_reference (frame : Frame Char) (name : IsName id)
    (other : id ≠ virtualId) (output : rest ≠ []) :
    raiseSource frame (id ++ '/' :: rest) = raise '.' frame id ++ '/' :: rest := by
  unfold raiseSource rewriteReferenceNodeId raise
  rw [recognize_reference rest name.plain other,if_neg (by decide),
    splitReference_reference name output]
  dsimp only
  by_cases present : id ∈ frame.names
  · rw [if_pos present,if_pos present]
  · rw [if_neg present,if_neg present]

def PlainHosts (frames : List (Frame Char)) : Prop := ∀ frame ∈ frames, '/' ∉ frame.host

theorem isName_raise {frame : Frame Char} (plain : '/' ∉ frame.host) (name : IsName id) :
    IsName (raise '.' frame id) := by
  unfold raise
  split
  · exact isName_under plain name.plain
  · exact name

theorem raise_ne_virtualId (frame : Frame Char) (other : id ≠ virtualId) :
    raise '.' frame id ≠ virtualId := by
  unfold raise
  split
  · exact under_ne_virtualId frame.host id
  · exact other

theorem liftSource_reference {frames : List (Frame Char)} (plain : PlainHosts frames)
    (name : IsName id) (other : id ≠ virtualId) (output : rest ≠ []) :
    liftSource frames (id ++ '/' :: rest) = lift '.' frames id ++ '/' :: rest ∧
      '/' ∉ lift '.' frames id := by
  induction frames generalizing id with
  | nil => exact ⟨rfl,name.plain⟩
  | cons frame frames ih =>
    rw [liftSource_cons,raiseSource_reference frame name other output,lift_cons]
    exact ih (fun item later => plain item (mem_cons_of_mem _ later))
      (isName_raise (plain frame mem_cons_self) name) (raise_ne_virtualId frame other)

theorem plain_flatId {hosts : List Text} (plain : ∀ host ∈ hosts, '/' ∉ host)
    (name : '/' ∉ id) : '/' ∉ flatId hosts id := by
  induction hosts with
  | nil => exact name
  | cons host hosts ih =>
    exact (isName_under (plain host mem_cons_self)
      (ih fun item member => plain item (mem_cons_of_mem _ member))).plain

end Astrs.Manifests
