/-
Where the timing wheel keeps its timers.

A timer whose deadline lies ahead sits in a slot that the wheel comes to no later than the
deadline: in level 0 exactly then, in a higher level before, to be placed anew.
-/

import Astrs.Scheduler.Wheel

namespace Astrs.Scheduler

open Astrs.Base Astrs.Time List OrderedMap

theorem levelWidth_pos (level : Nat) : 0 < levelWidth level := by
  unfold levelWidth
  split <;> decide

theorem levelWidth_dvd_succ : (level : Nat) → levelWidth level ∣ levelWidth (level + 1)
  | 0 => by decide
  | 1 => by decide
  | 2 => by decide
  | 3 => by decide
  | _ + 4 => Nat.dvd_refl _

theorem levelWidth_dvd {lower upper : Nat} (order : lower ≤ upper) :
    levelWidth lower ∣ levelWidth upper := by
  induction order with
  | refl => exact Nat.dvd_refl _
  | step _ ih => exact Nat.dvd_trans ih (levelWidth_dvd_succ _)

theorem climb_spec (delay fuel level : Nat) (within : level < levels)
    (narrow : levelWidth level ≤ delay) :
    level ≤ climb delay fuel level ∧ climb delay fuel level < levels ∧
      levelWidth (climb delay fuel level) ≤ delay := by
  induction fuel generalizing level with
  | zero => exact ⟨Nat.le_refl level,within,narrow⟩
  | succ fuel ih =>
    unfold climb
    split
    · rename_i higher
      obtain ⟨_,below,fits⟩ := ih (level + 1) higher.1 higher.2
      exact ⟨by omega,below,fits⟩
    · exact ⟨Nat.le_refl level,within,narrow⟩

/-- Only a delay shorter than a cycle of level 0 stays there. -/
theorem climb_zero {delay : Nat} (low : climb delay levels 0 = 0) : delay < slotsPerLevel := by
  by_contra long
  have higher : 0 + 1 < levels ∧ levelWidth (0 + 1) ≤ delay := ⟨by decide,by
    change 64 ≤ delay
    unfold slotsPerLevel at long
    omega⟩
  have climbed : climb delay levels 0 = climb delay 4 1 := by
    unfold levels
    rw [climb,if_pos higher]
  have above := (climb_spec delay 4 1 (by decide) higher.2).1
  omega

/-- The slot is the one that its level's cursor points at. -/
def Visits (place : Nat × Nat) (tick : Nat) : Prop :=
  tick % levelWidth place.1 = 0 ∧ tick / levelWidth place.1 % slotsPerLevel = place.2

structure Ahead (current deadline : Nat) (place : Nat × Nat) : Prop where
  later : current < deadline
  level : place.1 < levels
  slot : place.2 < slotsPerLevel
  fine : place.1 = 0 → place.2 = deadline % slotsPerLevel ∧ deadline < current + slotsPerLevel
  coarse : place.1 ≠ 0 → ∃ visit, current < visit ∧ visit ≤ deadline ∧ Visits place visit

theorem levelAndSlot_ahead {limit current : Nat} (later : current < limit) :
    Ahead current limit (levelAndSlot limit current) := by
  have delay : max (limit - current) 1 = limit - current := by omega
  have narrow : levelWidth 0 ≤ limit - current := by
    change 1 ≤ limit - current
    omega
  obtain ⟨-,within,fits⟩ := climb_spec (limit - current) levels 0 (by decide) narrow
  have place : levelAndSlot limit current = (climb (limit - current) levels 0,
        limit / levelWidth (climb (limit - current) levels 0) % slotsPerLevel) := by
    unfold levelAndSlot
    rw [delay]
  rw [place]
  constructor
  · exact later
  · exact within
  · exact Nat.mod_lt _ (by decide)
  · intro low
    dsimp only at low ⊢
    have short := climb_zero low
    rw [low]
    constructor
    · change limit / 1 % slotsPerLevel = _
      rw [Nat.div_one]
    · omega
  · intro _
    generalize climb (limit - current) levels 0 = level at within fits
    have pos := levelWidth_pos level
    have rounded := Nat.lt_div_mul_add (a := limit) pos
    have below := Nat.div_mul_le_self limit (levelWidth level)
    refine ⟨limit / levelWidth level * levelWidth level,by omega,below,?_,?_⟩
    · exact Nat.mul_mod_left _ _
    · rw [Nat.mul_div_cancel _ pos]

/-- A deadline at the current position is put into the slot being processed. -/
theorem levelAndSlot_now (current : Nat) :
    levelAndSlot current current = (0,current % slotsPerLevel) := by
  have low : climb (max (current - current) 1) levels 0 = 0 := by
    rw [Nat.sub_self]
    decide
  unfold levelAndSlot
  dsimp only
  rw [low]
  change (0,current / 1 % slotsPerLevel) = _
  rw [Nat.div_one]

def OnTime (current deadline : Nat) (place : Nat × Nat) : Prop :=
  Ahead current deadline place ∨ deadline ≤ current ∧ place = (0,(current + 1) % slotsPerLevel)

theorem schedule_onTime (current limit : Nat) :
    OnTime current limit (levelAndSlot (max limit (current + 1)) current) := by
  by_cases later : current < limit
  · rw [show max limit (current + 1) = limit by omega]
    exact .inl (levelAndSlot_ahead later)
  · right
    have next := levelAndSlot_ahead (Nat.lt_succ_self current)
    refine ⟨by omega,?_⟩
    rw [show max limit (current + 1) = current + 1 by omega]
    have low : (levelAndSlot (current + 1) current).1 = 0 := by
      change climb (max (current + 1 - current) 1) levels 0 = 0
      rw [Nat.add_sub_cancel_left]
      decide
    exact Prod.ext low (next.fine low).1

variable {wheel : TimerWheel} {rest : List TimerId} {id : TimerId} {entry : TimerEntry}
  {good : Nat → Nat × Nat → Prop} {held : Nat → Prop}

namespace TimerWheel

/-- Every registered timer is kept in one spot, and ids are given out once. -/
structure Placed (wheel : TimerWheel) (hand : List TimerId) (good : Nat → Nat × Nat → Prop)
    (held : Nat → Prop) : Prop where
  kept : ∀ id entry, wheel.entries.get id = some entry →
    Shelves.Kept wheel.slots hand (good (wheel.dueMs entry)) (held (wheel.dueMs entry)) id
  known : ∀ id entry, wheel.entries.get id = some entry → id < wheel.nextId
  slots : ∀ place, ∀ id ∈ wheel.slots place, id < wheel.nextId
  hand : ∀ id ∈ hand, id < wheel.nextId

/-- What moving timers about leaves alone. -/
structure SameTable (before after : TimerWheel) : Prop where
  epoch : after.epoch = before.epoch
  currentMs : after.currentMs = before.currentMs
  registered : ∀ id, (after.entries.get id).map TimerEntry.interval =
    (before.entries.get id).map TimerEntry.interval

theorem SameTable.refl (wheel : TimerWheel) : wheel.SameTable wheel := ⟨rfl,rfl,fun _ => rfl⟩

theorem SameTable.trans {first second third : TimerWheel} (one : first.SameTable second)
    (two : second.SameTable third) : first.SameTable third where
  epoch := two.epoch.trans one.epoch
  currentMs := two.currentMs.trans one.currentMs
  registered := fun id => (two.registered id).trans (one.registered id)

variable {hand : List TimerId} {finer : Nat → Nat × Nat → Prop} {right : Nat → Prop}

theorem Placed.imp (placed : wheel.Placed hand good held)
    (goods : ∀ limit place, good limit place → finer limit place)
    (holds : ∀ limit, held limit → right limit) : wheel.Placed hand finer right :=
  { placed with
    kept := fun id entry found => (placed.kept id entry found).imp (goods _) (holds _) }

/-- With an empty hand every timer is in a slot. -/
theorem Placed.shelved (placed : wheel.Placed [] good held) :
    wheel.Placed [] good fun _ => False := by
  refine { placed with kept := fun id entry found => ?_ }
  obtain ⟨_,sits,fits⟩ := (placed.kept id entry found).sits
  exact .shelved rfl sits fits

/-- Emptying a slot into the hand. -/
theorem Placed.take (placed : wheel.Placed [] good fun _ => False) (place : Nat × Nat) :
    (wheel.clearSlot place).Placed (wheel.slots place)
      (fun limit other => good limit other ∧ other ≠ place)
      (fun limit => good limit place) where
  kept := fun id entry found => (placed.kept id entry found).take place
  known := placed.known
  slots := (Function.forall_update_iff wheel.slots fun _ ids => ∀ id ∈ ids, id < wheel.nextId).mpr
    ⟨forall_mem_nil _,fun other _ => placed.slots other⟩
  hand := placed.slots place

/-- A cancelled timer is dropped from the hand. -/
theorem Placed.drop (placed : wheel.Placed (id :: rest) good held)
    (gone : wheel.entries.get id = none) : wheel.Placed rest good held where
  kept := by
    intro other entry found
    apply (placed.kept other entry found).drop_other
    intro same
    rw [same,found] at gone
    cases gone
  known := placed.known
  slots := placed.slots
  hand := fun moved mem => placed.hand moved (mem_cons_of_mem id mem)

theorem Placed.push (placed : wheel.Placed (id :: rest) good held) {place : Nat × Nat}
    (fits : ∀ entry, wheel.entries.get id = some entry → good (wheel.dueMs entry) place) :
    (wheel.push place id).Placed rest good held where
  kept := by
    intro other entry found
    by_cases same : id = other
    · subst same
      exact (placed.kept id entry found).put_self (fits entry found) _
    · exact (placed.kept other entry found).put_other same
  known := placed.known
  slots := (Function.forall_update_iff wheel.slots fun _ ids => ∀ id ∈ ids, id < wheel.nextId).mpr
    ⟨forall_mem_append.mpr ⟨placed.slots place,
      forall_mem_singleton.mpr (placed.hand id mem_cons_self)⟩,fun other _ => placed.slots other⟩
  hand := fun moved mem => placed.hand moved (mem_cons_of_mem id mem)

theorem replace_sameTable (wheel : TimerWheel) (id : TimerId) :
    wheel.SameTable (wheel.replace id) := by
  unfold replace
  split
  · exact SameTable.refl wheel
  · exact ⟨rfl,rfl,fun _ => rfl⟩

theorem replace_placed (placed : wheel.Placed (id :: rest) good held)
    (replaced : ∀ limit, held limit → good limit (levelAndSlot limit wheel.currentMs)) :
    (wheel.replace id).Placed rest good held := by
  unfold replace
  split
  · rename_i gone
    exact placed.drop gone
  · rename_i entry found
    apply placed.push
    intro _ same
    rw [found] at same
    cases same
    exact replaced _ (placed.kept id entry found).rightly

variable {current limit : Nat}

theorem foldl_replace (ids : List TimerId) (placed : wheel.Placed ids good held)
    (replaced : ∀ limit, held limit → good limit (levelAndSlot limit wheel.currentMs)) :
    (ids.foldl replace wheel).Placed [] good (fun _ => False) ∧
      wheel.SameTable (ids.foldl replace wheel) := by
  induction ids generalizing wheel with
  | nil => exact ⟨placed.shelved,SameTable.refl wheel⟩
  | cons id rest ih =>
    have same := replace_sameTable wheel id
    obtain ⟨after,table⟩ := ih (replace_placed placed replaced) (by
      rw [same.currentMs]
      exact replaced)
    exact ⟨after,same.trans table⟩

/-- While the levels below `level` have been cascaded: a timer is ahead, or about to be
resolved, or in a slot still to be cascaded. -/
def Midway (current level deadline : Nat) (place : Nat × Nat) : Prop :=
  Ahead current deadline place ∨ place = (0,current % slotsPerLevel) ∨
    level ≤ place.1 ∧ place.1 < levels ∧ Visits place current ∧ current ≤ deadline

/-- After the cascades: a timer is ahead or about to be resolved. -/
def Ready (current deadline : Nat) (place : Nat × Nat) : Prop :=
  Ahead current deadline place ∨ place = (0,current % slotsPerLevel)

theorem levelAndSlot_midway (level : Nat) (reached : current ≤ limit) :
    Midway current level limit (levelAndSlot limit current) := by
  rcases Nat.lt_or_eq_of_le reached with later | same
  · exact .inl (levelAndSlot_ahead later)
  · rw [← same]
    exact .inr (.inl (levelAndSlot_now current))

/-- Whoever sits in a slot that is being cascaded is due now or later. -/
theorem Midway.reached {level slot : Nat} (pos : 1 ≤ level)
    (midway : Midway current level limit (level,slot)) : current ≤ limit := by
  rcases midway with ahead | here | ⟨-,-,-,reached⟩
  · exact ahead.later.le
  · have low := congrArg Prod.fst here
    omega
  · exact reached

section

variable {level : Nat} {place : Nat × Nat} (midway : Midway current level limit place)
include midway

theorem Midway.next (other : place ≠ (level,current / levelWidth level % slotsPerLevel)) :
    Midway current (level + 1) limit place := by
  rcases midway with ahead | here | ⟨above,within,visits,reached⟩
  · exact .inl ahead
  · exact .inr (.inl here)
  · refine .inr (.inr ⟨?_,within,visits,reached⟩)
    by_contra low
    have same : place.1 = level := by omega
    apply other
    apply Prod.ext same
    rw [← visits.2,same]

/-- A level that has not completed a cycle stops the cascade: no higher one has. -/
theorem Midway.stop (unfinished : current % levelWidth level ≠ 0) : Ready current limit place := by
  rcases midway with ahead | here | ⟨above,-,visits,-⟩
  · exact .inl ahead
  · exact .inr here
  · have multiple := Nat.dvd_trans (levelWidth_dvd above) (Nat.dvd_of_mod_eq_zero visits.1)
    exact absurd (Nat.mod_eq_zero_of_dvd multiple) unfinished

end

theorem cascadeFrom_placed (fuel level : Nat) (pos : 1 ≤ level) (total : level + fuel = levels)
    (placed : wheel.Placed [] (Midway wheel.currentMs level) fun _ => False) :
    (cascadeFrom fuel level wheel).Placed [] (Ready wheel.currentMs) (fun _ => False) ∧
      wheel.SameTable (cascadeFrom fuel level wheel) := by
  induction fuel generalizing level wheel with
  | zero =>
    refine ⟨placed.imp ?_ fun _ => id,SameTable.refl wheel⟩
    rintro limit place (ahead | here | ⟨_,_,-⟩)
    · exact .inl ahead
    · exact .inr here
    · omega
  | succ fuel ih =>
    unfold cascadeFrom
    split
    · have cleared : wheel.SameTable (wheel.clearSlot (wheel.cursor level)) :=
        ⟨rfl,rfl,fun _ => rfl⟩
      have taken : (wheel.clearSlot (wheel.cursor level)).Placed
          (wheel.slots (wheel.cursor level)) (Midway wheel.currentMs (level + 1))
          (fun limit => wheel.currentMs ≤ limit) :=
        (placed.take (wheel.cursor level)).imp (fun _ _ both => both.1.next both.2)
          (fun _ midway => midway.reached pos)
      obtain ⟨after,table⟩ := foldl_replace _ taken
        (fun _ reached => levelAndSlot_midway _ reached)
      have same := cleared.trans table
      rw [← same.currentMs] at after ⊢
      obtain ⟨done,through⟩ := ih (level + 1) (by omega) (by omega) after
      exact ⟨done,same.trans through⟩
    · rename_i unfinished
      exact ⟨placed.imp (fun _ _ midway => midway.stop unfinished) (fun _ => id),
        SameTable.refl wheel⟩

end TimerWheel

/-! ### Resolving -/

structure Reported (now : Int) (id : TimerId) (event : TimerFired) : Prop where
  id : event.id = id
  scheduled : event.scheduledAt ≤ now
  fired : event.firedAt = now

variable {now : Int}

namespace TimerEntry

theorem burst_reported (id : TimerId) (now : Int) (left : Nat) (entry : TimerEntry) :
    ∀ event ∈ (entry.burst id now left).1, Reported now id event := by
  induction left generalizing entry with
  | zero =>
    exact forall_mem_nil _
  | succ left ih =>
    unfold burst
    split
    · rename_i due
      exact forall_mem_cons.mpr ⟨⟨rfl,due,rfl⟩,ih _⟩
    · exact forall_mem_nil _

theorem coalesce_reported (due : entry.nextDue ≤ now)
    (id : TimerId) : ∀ event ∈ (entry.coalesce id now).1, Reported now id event := by
  intro _ mem
  rw [mem_singleton.mp mem]
  exact ⟨rfl,due,rfl⟩

theorem burst_interval (id : TimerId) (now : Int) (left : Nat) (entry : TimerEntry) :
    (entry.burst id now left).2.interval = entry.interval := by
  induction left generalizing entry with
  | zero => rfl
  | succ left ih =>
    unfold burst
    split
    · exact ih _
    · rfl

theorem fire_interval (entry : TimerEntry) (id : TimerId) (now : Int) (burstCap : Nat) :
    (entry.fire id now burstCap).2.interval = entry.interval := by
  unfold fire
  split
  · dsimp only
    split <;> exact burst_interval id now burstCap entry
  · rfl

theorem fire_reported (due : entry.nextDue ≤ now) (id : TimerId) (burstCap : Nat) :
    ∀ event ∈ (entry.fire id now burstCap).1, Reported now id event := by
  unfold fire
  split
  · dsimp only
    have burst := burst_reported id now burstCap entry
    split
    · rename_i still
      exact forall_mem_append.mpr ⟨burst,coalesce_reported still id⟩
    · exact burst
  · exact coalesce_reported due id

theorem fire_later (ranged : entry.interval.Ranged now) (id : TimerId) (burstCap : Nat) :
    now < (entry.fire id now burstCap).2.nextDue := by
  unfold fire
  split
  · dsimp only
    split
    · apply TimerInterval.lt_nextTick
      rw [burst_interval]
      exact ranged
    · rename_i caught
      exact Int.not_le.mp caught
  · exact TimerInterval.lt_nextTick ranged

end TimerEntry

/-- A deadline after now is, in milliseconds, after the milliseconds elapsed. -/
theorem floor_lt_ceil {epoch due : Int} (started : epoch ≤ now) (later : now < due)
    (fits : floorMsSinceEpoch epoch now < millisMax) :
    floorMsSinceEpoch epoch now < ceilMsSinceEpoch epoch due := by
  unfold floorMsSinceEpoch ceilMsSinceEpoch at *
  omega

namespace TimerWheel

structure Reaches (wheel : TimerWheel) (now : Int) : Prop where
  started : wheel.epoch ≤ now
  position : wheel.currentMs ≤ floorMsSinceEpoch wheel.epoch now
  inRange : wheel.InRange now

variable {after : TimerWheel} {fired : List TimerFired}

theorem InRange.congr (inRange : wheel.InRange now) (same : wheel.SameTable after) :
    after.InRange now := by
  constructor
  · rw [same.epoch]
    exact inRange.1
  · intro timer listed
    have kept := same.registered timer.1
    rw [get_eq_some_iff.mpr listed] at kept
    obtain ⟨old,held,interval⟩ := Option.map_eq_some_iff.mp kept.symm
    rw [← interval]
    exact inRange.2 _ (get_eq_some_iff.mp held)

theorem Reaches.congr (reaches : wheel.Reaches now)
    (same : wheel.SameTable after) : after.Reaches now := by
  refine ⟨?_,?_,reaches.inRange.congr same⟩
  · rw [same.epoch]
    exact reaches.started
  · rw [same.epoch,same.currentMs]
    exact reaches.position

theorem Reaches.ahead (reaches : wheel.Reaches now) {due : Int} (later : now < due) :
    wheel.currentMs < ceilMsSinceEpoch wheel.epoch due :=
  Nat.lt_of_le_of_lt reaches.position (floor_lt_ceil reaches.started later reaches.inRange.1)

theorem scheduleAt_placed (reaches : wheel.Reaches now)
    (placed : wheel.Placed (id :: rest) (Ahead wheel.currentMs) held)
    (found : wheel.entries.get id = some entry) (later : now < entry.nextDue) :
    (wheel.scheduleAt id entry.nextDue).Placed rest (Ahead wheel.currentMs) held := by
  apply placed.push
  intro _ same
  rw [found] at same
  cases same
  have ahead := reaches.ahead later
  rw [show max (ceilMsSinceEpoch wheel.epoch entry.nextDue) (wheel.currentMs + 1) =
    ceilMsSinceEpoch wheel.epoch entry.nextDue by omega]
  exact levelAndSlot_ahead ahead

theorem Placed.update (placed : wheel.Placed (id :: rest) good held) {changed : TimerEntry}
    (found : wheel.entries.get id = some entry) :
    ({ wheel with entries := wheel.entries.insert id changed } : TimerWheel).Placed (id :: rest)
      good (fun _ => True) where
  kept := by
    intro other current present
    rcases insert_some _ present with ⟨rfl,_⟩ | ⟨_,present⟩
    · cases placed.kept id entry found with
      | shelved away =>
        rw [count_cons_self] at away
        omega
      | inHand once off => exact .inHand once off trivial
    · exact (placed.kept other current present).imp (fun _ fits => fits) (fun _ => trivial)
  known := by
    intro other current present
    rcases insert_some _ present with ⟨rfl,_⟩ | ⟨_,present⟩
    · exact placed.known id entry found
    · exact placed.known other current present
  slots := placed.slots
  hand := placed.hand

theorem update_sameTable {changed : TimerEntry} (found : wheel.entries.get id = some entry)
    (interval : changed.interval = entry.interval) :
    wheel.SameTable { wheel with entries := wheel.entries.insert id changed } where
  epoch := rfl
  currentMs := rfl
  registered := by
    intro _
    rw [get_insert]
    split
    · rename_i same
      rw [← same,found]
      exact congrArg some interval
    · rfl

/-- The events reported so far are those of registered timers. -/
def Reports (wheel : TimerWheel) (now : Int) (fired : List TimerFired) : Prop :=
  ∀ event ∈ fired, Reported now event.id event ∧ (wheel.entries.get event.id).isSome = true

theorem Reports.congr (reports : wheel.Reports now fired) (same : wheel.SameTable after) :
    after.Reports now fired := by
  intro event mem
  rw [← Option.isSome_map (f := TimerEntry.interval),same.registered,Option.isSome_map]
  exact reports event mem

/-- Everything that moving timers keeps, with the timers still in the hand. -/
structure Moving (now : Int) (before : TimerWheel) (hand : List TimerId)
    (state : TimerWheel × List TimerFired) : Prop where
  table : before.SameTable state.1
  placed : state.1.Placed hand (Ahead before.currentMs) fun _ => True
  reports : state.1.Reports now state.2

variable {state : TimerWheel × List TimerFired} {before : TimerWheel}

theorem resolveDue_moving (reaches : before.Reaches now)
    (moving : Moving now before (id :: rest) state) :
    Moving now before rest (resolveDue now state id) := by
  obtain ⟨wheel,_⟩ := state
  obtain ⟨table,placed,reports⟩ := moving
  rw [← table.currentMs] at placed
  have reached := reaches.congr table
  unfold resolveDue
  dsimp only
  split
  · rename_i gone
    exact ⟨table,table.currentMs ▸ placed.drop gone,reports⟩
  · rename_i entry found
    split
    · rename_i later
      refine ⟨{ table with },?_,reports⟩
      rw [← table.currentMs]
      exact scheduleAt_placed reached placed found later
    · rename_i due
      have reported := TimerEntry.fire_reported (Int.not_lt.mp due) id wheel.burstCap
      have later := TimerEntry.fire_later (reached.inRange.2 _ (get_eq_some_iff.mp found)) id wheel.burstCap
      have same := update_sameTable found (entry.fire_interval id now wheel.burstCap)
      generalize entry.fire id now wheel.burstCap = outcome at reported later same
      obtain ⟨_,changed⟩ := outcome
      have current : (wheel.entries.insert id changed).get id = some changed := by
        rw [get_insert,if_pos rfl]
      have through := table.trans same
      refine ⟨{ through with },?_,?_⟩
      · rw [← table.currentMs]
        exact scheduleAt_placed (reached.congr same) (placed.update found) current later
      · intro event mem
        rcases mem_append.mp mem with earlier | new
        · exact (reports.congr same) event earlier
        · have facts := reported event new
          constructor
          · rw [facts.id]
            exact facts
          · change ((wheel.entries.insert id changed).get event.id).isSome = true
            rw [facts.id,current]
            rfl

theorem foldl_resolveDue (reaches : before.Reaches now) (ids : List TimerId)
    (moving : Moving now before ids state) :
    Moving now before [] (ids.foldl (resolveDue now) state) := by
  induction ids generalizing state with
  | nil => exact moving
  | cons id rest ih => exact ih (resolveDue_moving reaches moving)

def Sound (wheel : TimerWheel) : Prop := wheel.Placed [] (OnTime wheel.currentMs) fun _ => False

/-- Every timer is kept on time, and none is overdue. -/
def Settled (wheel : TimerWheel) : Prop := wheel.Placed [] (Ahead wheel.currentMs) fun _ => False

theorem Settled.sound (settled : wheel.Settled) : wheel.Sound :=
  settled.imp (fun _ _ => .inl) (fun _ => id)

theorem Moving.settled (moving : Moving now before [] state) : state.1.Settled := by
  unfold Settled
  rw [moving.table.currentMs]
  exact moving.placed.shelved

/-- One millisecond on, a timer is ahead, about to be resolved, or about to be cascaded. -/
theorem OnTime.midway {current limit : Nat} {place : Nat × Nat}
    (onTime : OnTime current limit place) : Midway (current + 1) 1 limit place := by
  rcases onTime with ahead | ⟨-,next⟩
  · by_cases low : place.1 = 0
    · obtain ⟨slot,_⟩ := ahead.fine low
      by_cases due : limit = current + 1
      · right
        left
        rw [due] at slot
        exact Prod.ext low slot
      · have later := ahead.later
        exact .inl ⟨by omega,ahead.level,ahead.slot,fun _ => ⟨slot,by omega⟩,
          fun high => absurd low high⟩
    · obtain ⟨visit,_,before,visits⟩ := ahead.coarse low
      by_cases due : visit = current + 1
      · rw [due] at visits before
        exact .inr (.inr ⟨Nat.pos_of_ne_zero low,ahead.level,visits,before⟩)
      · exact .inl ⟨by omega,ahead.level,ahead.slot,fun high => absurd high low,
          fun _ => ⟨visit,by omega,before,visits⟩⟩
  · exact .inr (.inl next)

theorem tickOneMs_moving (sound : wheel.Sound)
    (reaches : (wheel.movedTo (wheel.currentMs + 1)).Reaches now)
    (reports : wheel.Reports now fired) :
    Moving now (wheel.movedTo (wheel.currentMs + 1)) [] (tickOneMs now (wheel,fired)) := by
  have placed : (wheel.movedTo (wheel.currentMs + 1)).Placed [] (Midway (wheel.currentMs + 1) 1)
      fun _ => False := { sound.imp (fun _ _ => OnTime.midway) (fun _ => id) with }
  obtain ⟨ready,table⟩ := cascadeFrom_placed (levels - 1) 1 (Nat.le_refl 1) rfl placed
  unfold tickOneMs
  dsimp only
  generalize cascadeFrom (levels - 1) 1 (wheel.movedTo (wheel.currentMs + 1)) = moved
    at ready table
  apply foldl_resolveDue reaches
  refine ⟨{ table with },?_,?_⟩
  · refine (ready.take (moved.cursor 0)).imp ?_ (fun _ _ => trivial)
    rintro limit place ⟨ahead | here,other⟩
    · exact ahead
    · exfalso
      apply other
      rw [here]
      unfold cursor
      rw [table.currentMs]
      change _ = (0,(wheel.currentMs + 1) / 1 % slotsPerLevel)
      rw [Nat.div_one]
      rfl
  · have reported : (wheel.movedTo (wheel.currentMs + 1)).Reports now fired := reports
    exact reported.congr { table with }

/-- What an advance reaches: every timer ahead, at the new position, and the events
reported. -/
structure Arrived (now : Int) (before : TimerWheel) (position : Nat)
    (state : TimerWheel × List TimerFired) : Prop where
  table : (before.movedTo position).SameTable state.1
  settled : state.1.Settled
  reports : state.1.Reports now state.2

theorem Moving.arrived {spot : Nat} (moving : Moving now (before.movedTo spot) [] state) :
    Arrived now before spot state :=
  ⟨moving.table,moving.settled,moving.reports⟩

theorem walk_arrived (ticks : Nat) (sound : wheel.Sound) (started : wheel.epoch ≤ now)
    (inRange : wheel.InRange now)
    (spot : wheel.currentMs + (ticks + 1) ≤ floorMsSinceEpoch wheel.epoch now)
    (reports : wheel.Reports now fired) :
    Arrived now wheel (wheel.currentMs + (ticks + 1)) (walk now (ticks + 1) (wheel,fired)) := by
  induction ticks generalizing wheel fired with
  | zero => exact (tickOneMs_moving sound ⟨started,spot,inRange⟩ reports).arrived
  | succ ticks ih =>
    have moved : (wheel.movedTo (wheel.currentMs + 1)).InRange now := inRange
    have first := tickOneMs_moving sound
      ⟨started,by change wheel.currentMs + 1 ≤ floorMsSinceEpoch wheel.epoch now; omega,moved⟩ reports
    have epoch : (tickOneMs now (wheel,fired)).1.epoch = wheel.epoch := first.table.epoch
    have current : (tickOneMs now (wheel,fired)).1.currentMs = wheel.currentMs + 1 :=
      first.table.currentMs
    have others := ih first.settled.sound (by rw [epoch]; exact started)
      (moved.congr first.table) (by rw [epoch,current]; omega) first.reports
    rw [current,show wheel.currentMs + 1 + (ticks + 1) = wheel.currentMs + (ticks + 1 + 1) by
      omega] at others
    refine ⟨⟨?_,others.table.currentMs,?_⟩,others.settled,others.reports⟩
    · exact others.table.epoch.trans epoch
    · intro id
      exact (others.table.registered id).trans (first.table.registered id)

theorem resync_arrived {nowMs : Nat} (sound : wheel.Sound) (started : wheel.epoch ≤ now)
    (inRange : wheel.InRange now) (spot : nowMs ≤ floorMsSinceEpoch wheel.epoch now) :
    Arrived now wheel nowMs (wheel.resync now nowMs) := by
  have reaches : (wheel.movedTo nowMs).Reaches now := ⟨started,spot,inRange⟩
  apply Moving.arrived
  apply foldl_resolveDue reaches
  refine ⟨⟨rfl,rfl,fun _ => rfl⟩,⟨?_,sound.known,?_,?_⟩,?_⟩
  · intro _ _ found
    have mem := get_eq_some_iff.mp found
    refine .inHand ?_ (fun _ => rfl) trivial
    have distinct : (wheel.entries.entries.map Prod.fst).Nodup :=
      wheel.entries.sorted.imp fun before => ne_of_lt before
    exact count_eq_one_of_mem distinct (mem_map_of_mem mem)
  · intro _ _ absent
    exact absurd absent not_mem_nil
  · intro _ mem
    obtain ⟨⟨found,entry⟩,listed,same⟩ := mem_map.mp mem
    rw [← same]
    exact sound.known found entry (get_eq_some_iff.mpr listed)
  · exact forall_mem_nil _

end TimerWheel

end Astrs.Scheduler
