/-
Causality among hybrid logical clocks.

Any number of clocks issue timestamps and merge those of earlier events, their own
included.  A merge that is refused records nothing.
-/

import Astrs.Time.Hlc

namespace Astrs.Time

open HlcTimestamp HlcClock

open Function (update update_of_ne update_self)

/-- A timestamp taken by a clock, and the position of the event it merged. -/
structure Event (ι : Type) where
  clock : ι
  stamp : HlcTimestamp
  source : Option Nat

/-- Positions of events of which the first happens before the second: the same clock
took it earlier, the second merged it, or a chain of such steps. -/
inductive HappensBefore {ι : Type} (events : List (Event ι)) : Nat → Nat → Prop where
  | sameClock {first second : Nat} {before after : Event ι} :
      first < second → events[first]? = some before → events[second]? = some after →
        before.clock = after.clock → HappensBefore events first second
  | merged {first second : Nat} {after : Event ι} :
      events[second]? = some after → after.source = some first → HappensBefore events first second
  | trans {first second third : Nat} :
      HappensBefore events first second → HappensBefore events second third →
        HappensBefore events first third

inductive Action (ι : Type) where
  | issue (clock : ι) (wall : PhysicalNs)
  | merge (clock : ι) (wall : PhysicalNs) (source : Nat)
  | setMaxDrift (clock : ι) (maxDrift : Nat)

structure Ensemble (ι : Type) where
  clocks : ι → HlcClock
  events : List (Event ι)

variable {ι : Type}

namespace Ensemble

def start (maxDrift : ι → Nat) : Ensemble ι :=
  { clocks := fun clock => withMaxDrift (maxDrift clock), events := [] }

def setClock [DecidableEq ι] (ensemble : Ensemble ι) (clock : ι) (held : HlcClock) : Ensemble ι :=
  { ensemble with clocks := update ensemble.clocks clock held }

def record (ensemble : Ensemble ι) (event : Event ι) : Ensemble ι :=
  { ensemble with events := ensemble.events ++ [event] }

def act [DecidableEq ι] (ensemble : Ensemble ι) : Action ι → Ensemble ι
  | .issue clock wall =>
    let issued := (ensemble.clocks clock).now wall
    (ensemble.setClock clock issued.2).record
      { clock := clock, stamp := issued.1, source := none }
  | .merge clock wall source =>
    match ensemble.events[source]? with
    | none => ensemble
    | some remote =>
      let answered := (ensemble.clocks clock).updateWith wall remote.stamp
      match answered.1 with
      | .error _ => ensemble.setClock clock answered.2
      | .ok stamp =>
        (ensemble.setClock clock answered.2).record
          { clock := clock, stamp := stamp, source := some source }
  | .setMaxDrift clock maxDrift =>
    ensemble.setClock clock { ensemble.clocks clock with maxDrift := maxDrift }

def run [DecidableEq ι] (actions : List (Action ι)) (ensemble : Ensemble ι) : Ensemble ι :=
  actions.foldl act ensemble

end Ensemble

/-! ### The invariant -/

structure Causal (ensemble : Ensemble ι) : Prop where
  room : ∀ clock, (ensemble.clocks clock).state ≠ max
  latest : ∀ (position : Nat) (event : Event ι), ensemble.events[position]? = some event →
    event.stamp = (ensemble.clocks event.clock).state ∨
      event.stamp < (ensemble.clocks event.clock).state
  sameClock : ∀ (first second : Nat) (before after : Event ι), first < second →
    ensemble.events[first]? = some before → ensemble.events[second]? = some after →
      before.clock = after.clock → before.stamp < after.stamp
  merged : ∀ (position : Nat) (event : Event ι) (source : Nat),
    ensemble.events[position]? = some event → event.source = some source →
      ∃ remote : Event ι, ensemble.events[source]? = some remote ∧ remote.stamp < event.stamp

namespace Causal

theorem start (maxDrift : ι → Nat) : Causal (Ensemble.start maxDrift) where
  room := by
    intro _
    change epoch ≠ max
    decide
  latest := nofun
  sameClock := nofun
  merged := nofun

theorem stamp_lt {group : Ensemble ι} (causal : Causal group) {first second : Nat}
    (order : HappensBefore group.events first second) :
    ∃ before after : Event ι, group.events[first]? = some before ∧
      group.events[second]? = some after ∧ before.stamp < after.stamp := by
  induction order with
  | sameClock order foundFirst foundSecond same =>
    exact ⟨_,_,foundFirst,foundSecond,causal.sameClock _ _ _ _ order foundFirst foundSecond same⟩
  | merged found sourced =>
    obtain ⟨remote,held,less⟩ := causal.merged _ _ _ found sourced
    exact ⟨remote,_,held,found,less⟩
  | trans _ _ ihFirst ihSecond =>
    obtain ⟨before,_,foundFirst,foundMiddle,less⟩ := ihFirst
    obtain ⟨_,after,foundSame,foundSecond,more⟩ := ihSecond
    rw [foundMiddle] at foundSame
    cases foundSame
    exact ⟨before,after,foundFirst,foundSecond,lt_trans less more⟩

variable [DecidableEq ι]

section

variable {group : Ensemble ι} (causal : Causal group)
include causal

variable {clock : ι} {held : HlcClock}

/-- A change of a clock that keeps its state is of no account. -/
theorem setClock (kept : held.state = (group.clocks clock).state) :
    Causal (group.setClock clock held) := by
  have states : ∀ other, ((group.setClock clock held).clocks other).state =
      (group.clocks other).state :=
    (Function.forall_update_iff group.clocks fun other held =>
      held.state = (group.clocks other).state).mpr ⟨kept,fun _ _ => rfl⟩
  constructor
  · intro other
    rw [states]
    exact causal.room other
  · intro spot event found
    rw [states]
    exact causal.latest spot event found
  · exact causal.sameClock
  · exact causal.merged

theorem record {event : Event ι} (own : event.clock = clock) (taken : held.state = event.stamp)
    (room : event.stamp ≠ max) (above : (group.clocks clock).state < event.stamp)
    (source : ∀ spot, event.source = some spot →
      ∃ remote : Event ι, group.events[spot]? = some remote ∧ remote.stamp < event.stamp) :
    Causal ((group.setClock clock held).record event) := by
  have split : ∀ {spot : Nat} {other : Event ι},
      (group.events ++ [event])[spot]? = some other →
        group.events[spot]? = some other ∨
          (spot = group.events.length ∧ other = event) := by
    intro spot _ found
    obtain ⟨within,_⟩ := List.getElem?_eq_some_iff.mp found
    rw [List.length_append,List.length_singleton] at within
    rw [List.getElem?_append] at found
    by_cases old : spot < group.events.length
    · rw [if_pos old] at found
      exact .inl found
    · rw [if_neg old] at found
      exact .inr ⟨by omega,List.mem_singleton.mp (List.mem_of_getElem? found)⟩
  have keep : ∀ {spot : Nat} {other : Event ι}, group.events[spot]? = some other →
      (group.events ++ [event])[spot]? = some other := by
    intro _ _ found
    obtain ⟨within,_⟩ := List.getElem?_eq_some_iff.mp found
    rw [List.getElem?_append_left within]
    exact found
  have below : ∀ {spot : Nat} {other : Event ι}, group.events[spot]? = some other →
      other.clock = clock → other.stamp < event.stamp := by
    intro spot other found same
    rcases causal.latest spot other found with equal | less
    · rw [equal,same]
      exact above
    · rw [same] at less
      exact lt_trans less above
  constructor
  · rw [← taken] at room
    exact (Function.forall_update_iff group.clocks fun _ held => held.state ≠ max).mpr
      ⟨room,fun other _ => causal.room other⟩
  · intro spot other found
    change other.stamp = (update group.clocks clock held other.clock).state ∨
      other.stamp < (update group.clocks clock held other.clock).state
    rcases split found with old | ⟨_,new⟩
    · by_cases same : other.clock = clock
      · rw [same,update_self,taken]
        exact .inr (below old same)
      · rw [update_of_ne same]
        exact causal.latest spot other old
    · rw [new,own,update_self,taken]
      exact .inl rfl
  · intro first second before after order foundFirst foundSecond same
    rcases split foundSecond with oldSecond | ⟨past,new⟩
    · rcases split foundFirst with oldFirst | ⟨pastFirst,_⟩
      · exact causal.sameClock first second before after order oldFirst oldSecond same
      · obtain ⟨within,_⟩ := List.getElem?_eq_some_iff.mp oldSecond
        omega
    · rcases split foundFirst with oldFirst | ⟨pastFirst,_⟩
      · rw [new] at same ⊢
        exact below oldFirst (same.trans own)
      · omega
  · intro spot other merged found sourced
    rcases split found with old | ⟨_,new⟩
    · obtain ⟨remote,held,less⟩ := causal.merged spot other merged old sourced
      exact ⟨remote,keep held,less⟩
    · rw [new] at sourced ⊢
      obtain ⟨remote,held,less⟩ := source merged sourced
      exact ⟨remote,keep held,less⟩

/-- One call keeps the invariant while no timestamp is the last one. -/
theorem act (action : Action ι)
    (room : ∀ event ∈ (group.act action).events, event.stamp ≠ max) :
    Causal (group.act action) := by
  cases action with
  | issue clock wall =>
    refine causal.record rfl rfl (room _ ?_) (lt_now (causal.room clock) wall) ?_
    · exact List.mem_append_right _ (List.mem_singleton.mpr rfl)
    · exact nofun
  | setMaxDrift => exact causal.setClock rfl
  | merge clock wall source =>
    unfold Ensemble.act at room ⊢
    dsimp only at room ⊢
    cases found : group.events[source]? with
    | none => exact causal
    | some remote =>
      rw [found] at room
      dsimp only at room ⊢
      cases answer : ((group.clocks clock).updateWith wall remote.stamp).1 with
      | error =>
        apply causal.setClock
        rw [updateWith_rejected answer]
      | ok stamp =>
        rw [answer] at room
        obtain ⟨stamped,held⟩ := updateWith_merged answer
        have remoteRoom : remote.stamp ≠ max :=
          room remote (List.mem_append_left _ (List.mem_of_getElem? found))
        refine causal.record rfl ?_ (room _ ?_) ?_ ?_
        · rw [held]
        · exact List.mem_append_right _ (List.mem_singleton.mpr rfl)
        · rw [stamped]
          exact state_lt_merged (causal.room clock) wall remote.stamp
        · intro _ same
          cases same
          refine ⟨remote,found,?_⟩
          rw [stamped]
          exact remote_lt_merged remoteRoom wall _

end

end Causal

variable [DecidableEq ι]

theorem Ensemble.events_act_subset (group : Ensemble ι) (action : Action ι) :
    group.events ⊆ (group.act action).events := by
  intro _ held
  cases action with
  | issue => exact List.mem_append_left _ held
  | setMaxDrift => exact held
  | merge =>
    unfold Ensemble.act
    dsimp only
    split
    · exact held
    · split
      · exact held
      · exact List.mem_append_left _ held

theorem Ensemble.events_run_subset (actions : List (Action ι)) (group : Ensemble ι) :
    group.events ⊆ (group.run actions).events := by
  induction actions generalizing group with
  | nil => exact fun _ held => held
  | cons action _ ih =>
    exact fun _ held => ih (group.act action) (group.events_act_subset action held)

theorem Causal.run (actions : List (Action ι)) {group : Ensemble ι} (causal : Causal group)
    (room : ∀ event ∈ (group.run actions).events, event.stamp ≠ max) :
    Causal (group.run actions) := by
  induction actions generalizing group with
  | nil => exact causal
  | cons action rest ih =>
    refine ih (causal.act action ?_) room
    intro event held
    exact room event ((group.act action).events_run_subset rest held)

/-- In every run of any clocks, with any wall readings, what happens before has the
smaller timestamp as long as none is the last one; a refused merge changes nothing. -/
theorem hlc_respects_causality (maxDrift : ι → Nat) (actions : List (Action ι))
    (room : ∀ event ∈ ((Ensemble.start maxDrift).run actions).events,
      event.stamp ≠ HlcTimestamp.max) :
    (∀ (first second : Nat) (before after : Event ι),
      HappensBefore ((Ensemble.start maxDrift).run actions).events first second →
      ((Ensemble.start maxDrift).run actions).events[first]? = some before →
      ((Ensemble.start maxDrift).run actions).events[second]? = some after →
        before.stamp < after.stamp) ∧
    ∀ (clock : HlcClock) (wall : PhysicalNs) (remote : HlcTimestamp) (failure : HlcDriftError),
      (clock.updateWith wall remote).1 = .error failure →
        (clock.updateWith wall remote).2 = clock := by
  have causal := (Causal.start maxDrift).run actions room
  refine ⟨?_,fun clock wall remote failure => updateWith_rejected⟩
  intro _ _ _ _ ordered foundFirst foundSecond
  obtain ⟨_,_,heldFirst,laterSecond,less⟩ := causal.stamp_lt ordered
  rw [foundFirst] at heldFirst
  rw [foundSecond] at laterSecond
  cases heldFirst
  cases laterSecond
  exact less

/-- Two clocks whose wall readings stand still and step back. -/
def pingPong : List (Action Bool) :=
  [.issue false ⟨1000,by decide⟩,.merge true ⟨990,by decide⟩ 0,.issue true ⟨980,by decide⟩,
    .merge false ⟨1000,by decide⟩ 2]

theorem hlc_ping_pong : ((Ensemble.start fun _ => 500000000).run pingPong).events =
      [⟨false,⟨1000,0⟩,none⟩,⟨true,⟨1000,1⟩,some 0⟩,⟨true,⟨1000,2⟩,none⟩,⟨false,⟨1000,3⟩,some 2⟩] ∧
    (⟨1000,0⟩ : HlcTimestamp) < ⟨1000,3⟩ := by
  have events : ((Ensemble.start fun _ => 500000000).run pingPong).events =
      [⟨false,⟨1000,0⟩,none⟩,⟨true,⟨1000,1⟩,some 0⟩,⟨true,⟨1000,2⟩,none⟩,
        ⟨false,⟨1000,3⟩,some 2⟩] := rfl
  refine ⟨events,(hlc_respects_causality (fun _ => 500000000) pingPong ?_).1 0 3
    ⟨false,⟨1000,0⟩,none⟩ ⟨false,⟨1000,3⟩,some 2⟩ ?_ rfl rfl⟩
  · rw [events]
    decide
  · rw [events]
    exact .trans (.merged rfl rfl)
      (.trans (HappensBefore.sameClock (show 1 < 2 by decide) rfl rfl rfl) (.merged rfl rfl))

end Astrs.Time
