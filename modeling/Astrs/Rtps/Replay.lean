/-
The anti-replay window of a security session.

A window is the highest counter accepted and a mask of the sixty-four counters
up to it: bit `n` stands for the counter `n` below the highest.
-/

import Mathlib.Data.Nat.Init
import Mathlib.Data.List.Basic

namespace Astrs.Rtps

structure ReplayWindow where
  highest : BitVec 64
  seen : BitVec 64
  deriving DecidableEq

def replayWindow : BitVec 64 := 64

namespace ReplayWindow

def new : ReplayWindow := { highest := 0, seen := 0 }

def isFresh (window : ReplayWindow) (counter : BitVec 64) : Bool :=
  if counter = 0 then false
  else if window.highest < counter then true
  else
    let behind := window.highest - counter
    if replayWindow ≤ behind then false
    else window.seen &&& (1#64 <<< behind) == 0

def accept (window : ReplayWindow) (counter : BitVec 64) : Bool × ReplayWindow :=
  if window.isFresh counter = false then (false,window)
  else if window.highest < counter then
    let advance := counter - window.highest
    let slid := if replayWindow ≤ advance then 0 else window.seen <<< advance
    (true,{ highest := counter, seen := slid ||| 1 })
  else
    let behind := window.highest - counter
    (true,{ window with seen := window.seen ||| 1#64 <<< behind })

/-! ### The set of accepted counters -/

/-- The highest counter of a history, zero when it is empty. -/
def highestOf (accepted : List Nat) : Nat := accepted.foldr max 0

/-- What the window is for: a counter is accepted once, and only within reach of the
highest one. -/
def Admissible (accepted : List Nat) (counter : Nat) : Prop :=
  1 ≤ counter ∧ counter ∉ accepted ∧ (highestOf accepted : Int) - 64 < counter

instance (accepted : List Nat) (counter : Nat) : Decidable (Admissible accepted counter) :=
  inferInstanceAs (Decidable (_ ∧ _ ∧ _))

variable {accepted : List Nat}

theorem le_highestOf {counter : Nat} (mem : counter ∈ accepted) : counter ≤ highestOf accepted := by
  induction accepted with
  | nil => cases mem
  | cons first rest ih =>
    cases mem with
    | head => exact Nat.le_max_left _ _
    | tail _ later => exact Nat.le_trans (ih later) (Nat.le_max_right _ _)

/-- A window stands for a history when each bit tells whether its counter was accepted. -/
structure Represents (window : ReplayWindow) (accepted : List Nat) : Prop where
  highest : window.highest.toNat = highestOf accepted
  seen : ∀ offset, offset < 64 →
    (window.seen.getLsbD offset = true ↔ ∃ counter ∈ accepted, counter + offset = highestOf accepted)

theorem represents_new : Represents new [] where
  highest := rfl
  seen := by
    intro _ _
    simp [new]

theorem one_shiftLeft (behind : BitVec 64) : 1#64 <<< behind = BitVec.twoPow 64 behind.toNat := by
  rw [BitVec.shiftLeft_eq',BitVec.twoPow_eq]

theorem and_one_shiftLeft (mask behind : BitVec 64) (within : behind.toNat < 64) :
    (mask &&& (1#64 <<< behind) == 0) = !mask.getLsbD behind.toNat := by
  rw [one_shiftLeft,BitVec.and_twoPow]
  cases bit : mask.getLsbD behind.toNat with
  | false => rfl
  | true =>
    simp only [if_true,Bool.not_true,beq_eq_false_iff_ne]
    intro zero
    have set := congrArg (fun (bits : BitVec 64) => bits.getLsbD behind.toNat) zero
    simp [within] at set

theorem replayWindow_le {offset : BitVec 64} : replayWindow ≤ offset ↔ 64 ≤ offset.toNat :=
  BitVec.le_def

variable {window : ReplayWindow}

/-- The window answers as the history does. -/
theorem isFresh_iff (models : window.Represents accepted) (counter : BitVec 64) :
    window.isFresh counter = true ↔ Admissible accepted counter.toNat := by
  have highest := models.highest
  unfold isFresh Admissible
  by_cases zero : counter = 0
  · rw [if_pos zero,zero]
    simp
  · have positive : counter.toNat ≠ 0 := fun none => zero (BitVec.eq_of_toNat_eq none)
    rw [if_neg zero]
    by_cases above : window.highest < counter
    · have higher : highestOf accepted < counter.toNat := by
        rw [← highest]
        exact BitVec.lt_def.mp above
      rw [if_pos above]
      simp only [true_iff]
      refine ⟨by omega,?_,by omega⟩
      intro mem
      have reached := le_highestOf mem
      omega
    · have reached : counter ≤ window.highest := BitVec.not_lt.mp above
      have lower : counter.toNat ≤ highestOf accepted := by
        rw [← highest]
        exact BitVec.le_def.mp reached
      have behind : (window.highest - counter).toNat = highestOf accepted - counter.toNat := by
        rw [BitVec.toNat_sub_of_le reached,highest]
      rw [if_neg above]
      by_cases far : replayWindow ≤ window.highest - counter
      · rw [if_pos far]
        rw [replayWindow_le,behind] at far
        simp only [Bool.false_eq_true,false_iff,not_and]
        intro _ _
        omega
      · rw [if_neg far]
        rw [replayWindow_le,behind] at far
        rw [and_one_shiftLeft _ _ (by omega),behind,Bool.not_eq_true',← Bool.not_eq_true,
          models.seen _ (by omega)]
        constructor
        · intro unseen
          refine ⟨by omega,?_,by omega⟩
          intro mem
          exact unseen ⟨counter.toNat,mem,by omega⟩
        · rintro ⟨_,fresh,_⟩ ⟨other,mem,_⟩
          have same : other = counter.toNat := by omega
          exact fresh (same ▸ mem)

variable {counter : BitVec 64} {trail : History}

theorem represents_slide (models : window.Represents accepted)
    (above : window.highest < counter) :
    Represents
      { highest := counter
        seen := (if replayWindow ≤ counter - window.highest then 0
          else window.seen <<< (counter - window.highest)) ||| 1 }
      (counter.toNat :: accepted) := by
  have higher : highestOf accepted < counter.toNat := by
    rw [← models.highest]
    exact BitVec.lt_def.mp above
  have advance : (counter - window.highest).toNat = counter.toNat - highestOf accepted := by
    rw [BitVec.toNat_sub_of_le (BitVec.le_of_lt above),models.highest]
  have top : highestOf (counter.toNat :: accepted) = counter.toNat :=
    Nat.max_eq_left (Nat.le_of_lt higher)
  refine ⟨top.symm,?_⟩
  intro offset within
  rw [top,BitVec.getLsbD_or]
  by_cases first : offset = 0
  · subst first
    constructor
    · intro _
      exact ⟨counter.toNat,.head _,rfl⟩
    · intro _
      simp
  · have clear : (1 : BitVec 64).getLsbD offset = false := by
      simp [BitVec.getLsbD_one,first]
    have older : (∃ other ∈ counter.toNat :: accepted, other + offset = counter.toNat) ↔
        ∃ other ∈ accepted, other + offset = counter.toNat := by
      constructor
      · rintro ⟨other,mem,sum⟩
        rcases List.mem_cons.mp mem with here | past
        · omega
        · exact ⟨other,past,sum⟩
      · rintro ⟨other,mem,sum⟩
        exact ⟨other,.tail _ mem,sum⟩
    rw [clear,Bool.or_false,older]
    clear older
    split
    · rename_i far
      rw [replayWindow_le,advance] at far
      have none : (0 : BitVec 64).getLsbD offset = false := by simp
      rw [none]
      simp only [Bool.false_eq_true,false_iff]
      rintro ⟨other,mem,sum⟩
      have reached := le_highestOf mem
      omega
    · rename_i near
      rw [BitVec.shiftLeft_eq',BitVec.getLsbD_shiftLeft,advance,decide_eq_true within,
        Bool.true_and]
      by_cases below : offset < counter.toNat - highestOf accepted
      · rw [decide_eq_true below]
        simp only [Bool.not_true,Bool.false_and,Bool.false_eq_true,false_iff]
        rintro ⟨other,mem,sum⟩
        have reached := le_highestOf mem
        omega
      · rw [decide_eq_false below,Bool.not_false,Bool.true_and,models.seen _ (by omega)]
        constructor
        · rintro ⟨other,mem,sum⟩
          exact ⟨other,mem,by omega⟩
        · rintro ⟨other,mem,_⟩
          exact ⟨other,mem,by omega⟩

theorem represents_mark (models : window.Represents accepted)
    (reached : counter ≤ window.highest) (near : ¬ replayWindow ≤ window.highest - counter) :
    Represents { window with seen := window.seen ||| 1#64 <<< (window.highest - counter) }
      (counter.toNat :: accepted) := by
  have lower : counter.toNat ≤ highestOf accepted := by
    rw [← models.highest]
    exact BitVec.le_def.mp reached
  have behind : (window.highest - counter).toNat = highestOf accepted - counter.toNat := by
    rw [BitVec.toNat_sub_of_le reached,models.highest]
  have top : highestOf (counter.toNat :: accepted) = highestOf accepted := Nat.max_eq_right lower
  rw [replayWindow_le,behind] at near
  refine ⟨models.highest.trans top.symm,?_⟩
  intro offset within
  rw [top,one_shiftLeft,BitVec.getLsbD_or,BitVec.getLsbD_twoPow,behind,Bool.or_eq_true,
    models.seen offset within]
  constructor
  · rintro (⟨other,mem,sum⟩ | here)
    · exact ⟨other,.tail _ mem,sum⟩
    · simp at here
      exact ⟨counter.toNat,.head _,by omega⟩
  · rintro ⟨other,mem,sum⟩
    rcases List.mem_cons.mp mem with here | past
    · right
      simp
      omega
    · exact .inl ⟨other,past,sum⟩

/-- A window and the counters it has accepted, the latest first. -/
structure History where
  window : ReplayWindow
  accepted : List Nat

namespace History

def fresh : History := { window := new, accepted := [] }

def offer (history : History) (counter : BitVec 64) : History :=
  match history.window.accept counter with
  | (true,window) => { window := window, accepted := counter.toNat :: history.accepted }
  | (false,window) => { history with window := window }

end History

theorem accept_fst (window : ReplayWindow) (counter : BitVec 64) :
    (window.accept counter).1 = window.isFresh counter := by
  unfold accept
  cases fresh : window.isFresh counter with
  | false => rfl
  | true =>
    rw [if_neg (by simp)]
    split <;> rfl

theorem accept_rejected (rejected : window.isFresh counter = false) :
    window.accept counter = (false,window) := by
  unfold accept
  rw [if_pos rejected]

theorem represents_offer
    (models : trail.window.Represents trail.accepted) (counter : BitVec 64) :
    (trail.offer counter).window.Represents (trail.offer counter).accepted := by
  cases fresh : trail.window.isFresh counter with
  | false =>
    unfold History.offer
    rw [accept_rejected fresh]
    exact models
  | true =>
    have admissible := (isFresh_iff models counter).mp fresh
    unfold History.offer accept
    rw [if_neg (by simp [fresh])]
    by_cases above : trail.window.highest < counter
    · rw [if_pos above]
      exact represents_slide models above
    · have reached : counter ≤ trail.window.highest := BitVec.not_lt.mp above
      rw [if_neg above]
      apply represents_mark models reached
      rw [replayWindow_le,BitVec.toNat_sub_of_le reached,models.highest]
      have within := admissible.2.2
      have _ := BitVec.le_def.mp reached
      omega

theorem represents_run (offered : List (BitVec 64))
    (models : trail.window.Represents trail.accepted) :
    (offered.foldl History.offer trail).window.Represents
      (offered.foldl History.offer trail).accepted := by
  induction offered generalizing trail with
  | nil => exact models
  | cons counter _ ih => exact ih (represents_offer models counter)

/-- After any counters, a fresh window accepts exactly the admissible ones; asking
changes nothing and neither does a refusal. -/
theorem replay_window_exact (offered : List (BitVec 64)) (counter : BitVec 64) :
    let history := offered.foldl History.offer History.fresh
    ((history.window.accept counter).1 = true ↔ Admissible history.accepted counter.toNat) ∧
      history.window.isFresh counter = (history.window.accept counter).1 ∧
      ((history.window.accept counter).1 = false →
        (history.window.accept counter).2 = history.window) := by
  intro history
  have represents : history.window.Represents history.accepted :=
    represents_run offered represents_new
  rw [accept_fst]
  refine ⟨isFresh_iff represents counter,rfl,?_⟩
  intro rejected
  rw [accept_rejected rejected]

end ReplayWindow

end Astrs.Rtps
