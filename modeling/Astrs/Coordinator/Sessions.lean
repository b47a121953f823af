/-
The connections of one daemon.

A connection registers, folds the daemon's events in and cleans up when it ends, all under the
daemon's id alone.  The coordinator's other state and what the handlers make of it are
parameters.
-/

import Astrs.Base.Turns

namespace Astrs.Coordinator

open Astrs.Base

/-- How far a connection is.  Each of its steps may be followed by steps of another one. -/
inductive SessionPhase
  | inserted
  | serving
  | handling
  | closing
  | removed
  | marked
  deriving DecidableEq

/-- `handle` is the connection the registry holds under the daemon's id; `turns` has the phases of
the connections, numbered in the order they registered, that have not ended. -/
structure Sessions (σ : Type) where
  handle : Option Nat := none
  reachable : Bool := false
  turns : Turns SessionPhase := {}
  state : σ

inductive SessionStep (Event : Type)
  | insert
  | upsert (session : Nat)
  | receive (session : Nat)
  | handleEvent (session : Nat) (event : Event)
  | hangUp (session : Nat)
  | remove (session : Nat)
  | setUnreachable (session : Nat)
  | handleDisconnected (session : Nat)
  | declareLost

/-- What the handlers make of an event and of the daemon's disconnect. -/
structure Handlers (σ Event : Type) where
  handleEvent : σ → Event → σ
  handleDisconnected : σ → σ

namespace Sessions

variable {σ Event : Type} (handlers : Handlers σ Event)

/-- The connection that takes the step, its phase before and, unless it ends, after.  A received
frame is only handled while the daemon is registered. -/
def transition (sessions : Sessions σ) :
    SessionStep Event → Option (Nat × SessionPhase × Option SessionPhase)
  | .insert | .declareLost => none
  | .upsert session => some (session,.inserted,some .serving)
  | .receive session =>
    some (session,.serving,some (if sessions.handle.isSome then .handling else .closing))
  | .handleEvent session _ => some (session,.handling,some .serving)
  | .hangUp session => some (session,.serving,some .closing)
  | .remove session => some (session,.closing,some .removed)
  | .setUnreachable session => some (session,.removed,some .marked)
  | .handleDisconnected session => some (session,.marked,none)

def effect (sessions : Sessions σ) : SessionStep Event → Sessions σ
  | .insert =>
    { sessions with
      handle := some sessions.turns.entered
      turns := sessions.turns.enter .inserted }
  | .upsert _ => { sessions with reachable := true }
  | .receive _ | .hangUp _ => sessions
  | .handleEvent _ event => { sessions with state := handlers.handleEvent sessions.state event }
  | .remove _ => { sessions with handle := none }
  | .setUnreachable _ => { sessions with reachable := false }
  | .handleDisconnected _ => { sessions with state := handlers.handleDisconnected sessions.state }
  | .declareLost =>
    { sessions with
      handle := none
      reachable := false
      state := handlers.handleDisconnected sessions.state }

def step (sessions : Sessions σ) (taken : SessionStep Event) : Option (Sessions σ) :=
  let after := sessions.effect handlers taken
  match sessions.transition taken with
  | none => some after
  | some (session,before,next) =>
    (sessions.turns.move session before next).map fun turns => { after with turns := turns }

/-- The connection that by the step folds an event in, removes a handle, marks the daemon
unreachable or fails what waits for it. -/
def touches (sessions : Sessions σ) : SessionStep Event → Option Nat
  | .handleEvent session _ | .setUnreachable session | .handleDisconnected session => some session
  | .remove session => if sessions.handle.isSome then some session else none
  | _ => none

/-- No step of a connection touches anything once a later one has registered. -/
def Lawful : Sessions σ → List (SessionStep Event) → Prop
  | _,[] => True
  | sessions,first :: rest =>
    (∀ session, sessions.touches first = some session → sessions.turns.entered ≤ session + 1) ∧
      ∀ next, sessions.step handlers first = some next → next.Lawful rest

/-- A connection registers only after every earlier one has run to its end. -/
def Apart : Sessions σ → List (SessionStep Event) → Prop
  | _,[] => True
  | sessions,first :: rest =>
    (first = .insert → sessions.turns.present = []) ∧
      ∀ next, sessions.step handlers first = some next → next.Apart rest

variable {handlers : Handlers σ Event} {sessions next final : Sessions σ}
  {taken : SessionStep Event} {steps : List (SessionStep Event)} {session : Nat}

theorem touches_of_leaves {before : SessionPhase}
    (leaves : sessions.transition taken = some (session,before,none)) :
    sessions.touches taken = some session := by
  cases taken <;> cases leaves
  rfl

theorem transition_of_touches (touches : sessions.touches taken = some session) :
    ∃ before after, sessions.transition taken = some (session,before,after) := by
  cases taken with
  | remove other =>
    unfold Sessions.touches at touches
    dsimp only at touches
    split at touches <;> cases touches
    exact ⟨_,_,rfl⟩
  | handleEvent | setUnreachable | handleDisconnected => cases touches; exact ⟨_,_,rfl⟩
  | insert | upsert | receive | hangUp | declareLost => cases touches

/-- A connection registers, the step is nobody's, or a connection takes it. -/
theorem step_spec (stepped : sessions.step handlers taken = some next) :
    taken = .insert ∧ next.turns = sessions.turns.enter .inserted ∨
    taken ≠ .insert ∧ sessions.transition taken = none ∧ next.turns = sessions.turns ∨
    ∃ session before after, sessions.transition taken = some (session,before,after) ∧
      sessions.turns.move session before after = some next.turns := by
  unfold step at stepped
  dsimp only at stepped
  split at stepped
  case h_1 still =>
    cases stepped
    cases taken <;> try cases still
    · exact .inl ⟨rfl,rfl⟩
    · exact .inr (.inl ⟨nofun,rfl,rfl⟩)
  case h_2 session before after moves =>
    obtain ⟨turns,moved,same⟩ := Option.map_eq_some_iff.mp stepped
    cases same
    exact .inr (.inr ⟨session,before,after,moves,moved⟩)

/-- A connection that was overtaken before its end never gets there lawfully. -/
theorem Lawful.stuck (lawful : sessions.Lawful handlers steps)
    (ran : steps.foldlM (step handlers) sessions = some final)
    (overtaken : session + 1 < sessions.turns.entered)
    (there : ∃ phase, (session,phase) ∈ sessions.turns.present) : final.turns.present ≠ [] := by
  induction steps generalizing sessions with
  | nil =>
    cases ran
    obtain ⟨_,held⟩ := there
    exact List.ne_nil_of_mem held
  | cons first rest ih =>
    obtain ⟨next,stepped,later⟩ := Option.bind_eq_some_iff.mp ran
    have lawful_next := lawful.2 next stepped
    rcases step_spec stepped with ⟨_,same⟩ | ⟨_,_,same⟩ | ⟨mover,_,after,moves,moved⟩
    · obtain ⟨phase,held⟩ := there
      exact ih lawful_next later (same ▸ Nat.lt_succ_of_lt overtaken)
        ⟨phase,same ▸ List.mem_cons_of_mem _ held⟩
    · exact ih lawful_next later (same ▸ overtaken) (same ▸ there)
    · refine ih lawful_next later ((Turns.move_spec moved).2.1.symm ▸ overtaken)
        (Turns.present_move moved there ?_)
      rintro rfl rfl
      exact absurd (lawful.1 mover (touches_of_leaves moves)) (Nat.not_le_of_lt overtaken)

theorem Apart.lawful (apart : sessions.Apart handlers steps)
    (ran : steps.foldlM (step handlers) sessions = some final)
    (settled : sessions.turns.Settled) : sessions.Lawful handlers steps := by
  induction steps generalizing sessions with
  | nil => trivial
  | cons first rest ih =>
    obtain ⟨next,stepped,later⟩ := Option.bind_eq_some_iff.mp ran
    refine ⟨fun session touches => ?_,fun other reached => ?_⟩
    · obtain ⟨before,after,moves⟩ := transition_of_touches touches
      rcases step_spec stepped with ⟨rfl,_⟩ | ⟨_,still,_⟩ | ⟨_,_,_,same,moved⟩
      · cases moves
      · cases still.symm.trans moves
      · cases same.symm.trans moves
        exact Nat.le_of_eq (settled.move moved).1.symm
    · cases stepped.symm.trans reached
      refine ih (apart.2 next stepped) later ?_
      rcases step_spec stepped with ⟨rfl,same⟩ | ⟨_,_,same⟩ | ⟨_,_,_,_,moved⟩
      · exact same ▸ .enter (apart.1 rfl) .inserted
      · exact same ▸ settled
      · exact (settled.move moved).2

theorem Lawful.apart (lawful : sessions.Lawful handlers steps)
    (ran : steps.foldlM (step handlers) sessions = some final)
    (complete : final.turns.present = []) : sessions.Apart handlers steps := by
  induction steps generalizing sessions with
  | nil => trivial
  | cons first rest ih =>
    obtain ⟨next,stepped,later⟩ := Option.bind_eq_some_iff.mp ran
    refine ⟨?_,fun other reached => ?_⟩
    · rintro rfl
      by_contra busy
      obtain ⟨⟨session,phase⟩,held⟩ := List.exists_mem_of_ne_nil _ busy
      cases stepped
      exact (lawful.2 _ rfl).stuck later (Nat.succ_lt_succ (sessions.turns.known _ held))
        ⟨phase,.tail _ held⟩ complete
    · cases stepped.symm.trans reached
      exact ih (lawful.2 next stepped) later

/-- Where each connection registers only after the earlier ones have ended, none undoes a later
one; and in a run that every connection ends in, only there. -/
theorem stale_connection_harmless (state : σ)
    (ran : steps.foldlM (step handlers) { state := state } = some final) :
    (Apart handlers { state := state } steps → Lawful handlers { state := state } steps) ∧
      (final.turns.present = [] → Lawful handlers { state := state } steps →
        Apart handlers { state := state } steps) :=
  ⟨fun apart => apart.lawful ran nofun,fun complete lawful => lawful.apart ran complete⟩

/-- A daemon that reconnects once its first connection has cleaned up, and goes on reporting. -/
def reconnecting : List (SessionStep Unit) :=
  [.insert,.upsert 0,.receive 0,.handleEvent 0 (),.hangUp 0,.remove 0,.setUnreachable 0,
    .handleDisconnected 0,.insert,.upsert 1,.receive 1,.handleEvent 1 ()]

theorem reconnect_harmless : ∃ final : Sessions Unit,
    reconnecting.foldlM (step ⟨fun _ _ => (),id⟩) { state := () } = some final ∧
      final.handle = some 1 ∧ final.reachable = true ∧
      Lawful ⟨fun _ _ => (),id⟩ { state := () } reconnecting := by
  refine ⟨_,rfl,rfl,rfl,(stale_connection_harmless () rfl).1 ?_⟩
  unfold reconnecting
  repeat
    refine ⟨by first | exact fun _ => rfl | exact nofun,fun _ stepped => ?_⟩
    cases stepped
  trivial

def overlapping : List (SessionStep Unit) :=
  [.insert,.upsert 0,.insert,.upsert 1,.hangUp 0,.remove 0,.setUnreachable 0]

/-- The end of an overtaken connection takes the new one's handle with it and marks the daemon
unreachable. -/
theorem reconnect_undone : ∃ final : Sessions Unit,
    overlapping.foldlM (step ⟨fun _ _ => (),id⟩) { state := () } = some final ∧
      final.turns.entered = 2 ∧ final.handle = none ∧ final.reachable = false :=
  ⟨_,rfl,rfl,rfl,rfl⟩

end Sessions

end Astrs.Coordinator
