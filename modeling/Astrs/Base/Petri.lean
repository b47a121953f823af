/-
Petri nets, and the places that stay empty.

A siphon is a set of places into which no transition produces without consuming
from it.  Once empty it stays empty, whatever the net does.
-/

import Mathlib.Order.Basic

namespace Astrs.Base

/-- How many tokens each transition takes from a place, and how many it puts there. -/
structure Net (P T : Type) where
  pre : T → P → Nat
  post : T → P → Nat

namespace Net

variable {P T : Type}

structure Fires (net : Net P T) (transition : T) (before after : P → Nat) : Prop where
  enabled : ∀ place, net.pre transition place ≤ before place
  effect : ∀ place,
    after place = before place - net.pre transition place + net.post transition place

inductive Reachable (net : Net P T) (start : P → Nat) : (P → Nat) → Prop
  | start : Reachable net start start
  | step {before after : P → Nat} (transition : T) (reached : Reachable net start before)
      (fires : net.Fires transition before after) : Reachable net start after

/-- Every transition that produces into the set consumes from it. -/
def IsSiphon (net : Net P T) (siphon : P → Prop) : Prop :=
  ∀ transition place, siphon place → 0 < net.post transition place →
    ∃ source, siphon source ∧ 0 < net.pre transition source

variable {net : Net P T} {siphon : P → Prop}

theorem IsSiphon.empty_step (closed : net.IsSiphon siphon)
    {transition : T} {before after : P → Nat} (fires : net.Fires transition before after)
    (empty : ∀ place, siphon place → before place = 0) (place : P) (mem : siphon place) :
    after place = 0 := by
  have idle : net.post transition place = 0 := by
    by_contra produces
    obtain ⟨source,inside,_⟩ := closed transition place mem (Nat.pos_of_ne_zero produces)
    have enough := fires.enabled source
    rw [empty source inside] at enough
    omega
  rw [fires.effect place,idle,empty place mem]
  omega

theorem IsSiphon.empty_run (closed : net.IsSiphon siphon)
    {start marking : P → Nat} (empty : ∀ place, siphon place → start place = 0)
    (reached : net.Reachable start marking) : ∀ place, siphon place → marking place = 0 := by
  induction reached with
  | start => exact empty
  | step transition _ fires ih =>
    intro place mem
    exact closed.empty_step fires ih place mem

end Net

end Astrs.Base
