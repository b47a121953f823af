/-
The ticks of a periodic timer.

Every event of a timer stands for the grid point it was scheduled at and the points skipped
after it; one event begins where the last one ended.
-/

import Mathlib.Data.Set.Card
import Mathlib.Order.Interval.Finset.Nat
import Astrs.Scheduler.Placement

namespace Astrs.Scheduler

open Astrs.Base Astrs.Time List OrderedMap

def point (interval : TimerInterval) (index : Nat) : Int :=
  interval.anchor + (index * interval.period : Nat)

variable {interval : TimerInterval} {index last : Nat} {now : Int}

theorem periods_point (index : Nat) : interval.periods (point interval index) = index := by
  unfold TimerInterval.periods point
  rw [Int.add_comm,Int.add_sub_cancel,Int.toNat_natCast]
  exact Nat.mul_div_left index interval.positive

/-- The number of grid points up to an instant. -/
def passed (interval : TimerInterval) (instant : Int) : Nat :=
  if instant < interval.anchor then 0 else interval.periods instant + 1

theorem passed_point (index : Nat) : passed interval (point interval index) = index + 1 := by
  unfold passed
  rw [if_neg (by unfold point; omega),periods_point]

theorem point_le_iff {instant : Int} :
    point interval index ≤ instant ↔ index < passed interval instant := by
  unfold passed point
  split
  · omega
  · rw [Nat.lt_succ_iff,TimerInterval.periods,Nat.le_div_iff_mul_le interval.positive]
    omega

/-- In range the grid point after an instant is an instant. -/
theorem ranged_iff {instant : Int} : interval.Ranged instant ↔
    instant < interval.anchor ∨ point interval (passed interval instant) < instantEnd := by
  unfold TimerInterval.Ranged passed point
  split
  · simp [*]
  · rfl

theorem nextTick_eq {after : Int} (ranged : interval.Ranged after) :
    interval.nextTick after = point interval (passed interval after) := by
  by_cases late : interval.anchor ≤ after
  · rw [TimerInterval.nextTick_within late ranged,passed,if_neg (Int.not_lt.mpr late)]
    rfl
  · rw [TimerInterval.nextTick_before (Int.not_le.mp late),passed,if_pos (Int.not_le.mp late)]
    simp [point]

theorem point_mono {lower upper : Nat} (order : lower ≤ upper) :
    point interval lower ≤ point interval upper := by
  have scaled := Nat.mul_le_mul_right interval.period order
  unfold point
  omega

/-- Before an instant in range every grid point but the last leads to the next. -/
theorem ranged_point (ranged : interval.Ranged now) (within : index < passed interval now) :
    interval.Ranged (point interval index) := by
  rw [ranged_iff] at ranged ⊢
  right
  rw [passed_point]
  have started : ¬ now < interval.anchor := fun early => by
    rw [passed,if_pos early] at within
    omega
  have order : point interval (index + 1) ≤ point interval (passed interval now) :=
    point_mono within
  have inside := ranged.resolve_left started
  omega

theorem iterate_nextTick {after : Int} (ranged : interval.Ranged after) (count : Nat)
    (inside : ∀ step < count, interval.Ranged (point interval (passed interval after + step))) :
    interval.nextTick^[count + 1] after = point interval (passed interval after + count) := by
  induction count with
  | zero => exact nextTick_eq ranged
  | succ count ih =>
    rw [Function.iterate_succ_apply',ih fun step below => inside step (by omega),
      nextTick_eq (inside count (Nat.lt_succ_self count)),passed_point]
    rfl

/-- From one instant, `count` ticks in a row and no more lie up to another. -/
def Fits (interval : TimerInterval) (first last : Int) (count : Nat) : Prop :=
  (∀ step < count, interval.nextTick^[step + 1] first ≤ last) ∧
    last < interval.nextTick^[count + 1] first

/-- Where the range ends the ticks never get past an instant. -/
theorem iterate_beyond {first last : Int} (late : interval.anchor ≤ first) (order : first ≤ last)
    (beyond : ¬ interval.Ranged last) (count : Nat) :
    interval.anchor ≤ interval.nextTick^[count] first ∧ interval.nextTick^[count] first ≤ last := by
  induction count with
  | zero => exact ⟨late,order⟩
  | succ count ih =>
    rw [Function.iterate_succ_apply']
    generalize interval.nextTick^[count] first = tick at ih
    obtain ⟨started,reached⟩ := ih
    by_cases ranged : interval.Ranged tick
    · have forward := TimerInterval.lt_nextTick ranged
      refine ⟨by omega,?_⟩
      rw [nextTick_eq ranged,point_le_iff]
      rw [ranged_iff] at ranged beyond
      by_contra past
      have grown := @point_mono interval _ _ (Nat.not_lt.mp past)
      omega
    · rw [TimerInterval.nextTick_beyond started ranged]
      exact ⟨started,reached⟩

theorem passed_mono {first last : Int} (order : first ≤ last) :
    passed interval first ≤ passed interval last := by
  have grows : interval.periods first ≤ interval.periods last :=
    Nat.div_le_div_right (by omega)
  unfold passed
  split <;> split <;> omega

theorem fits_passed {first last : Int} (order : first ≤ last) (ranged : interval.Ranged last) :
    Fits interval first last (passed interval last - passed interval first) := by
  have grown := @passed_mono interval _ _ order
  have begins : interval.Ranged first := by
    rw [ranged_iff] at ranged ⊢
    rcases ranged with early | inside
    · exact .inl (Int.lt_of_le_of_lt order early)
    · exact .inr (Int.lt_of_le_of_lt (point_mono grown) inside)
  have ticks : ∀ count, passed interval first + count ≤ passed interval last →
      interval.nextTick^[count + 1] first = point interval (passed interval first + count) := by
    intro count most
    apply iterate_nextTick begins
    intro step below
    exact ranged_point ranged (by omega)
  constructor
  · intro step within
    rw [ticks step (by omega),point_le_iff]
    omega
  · rw [ticks _ (by omega),← Int.not_le,point_le_iff]
    omega

theorem ncard_points (first last : Int) :
    {index | first < point interval index ∧ point interval index ≤ last}.ncard =
      passed interval last - passed interval first := by
  have between : {index | first < point interval index ∧ point interval index ≤ last} =
      Finset.Ico (passed interval first) (passed interval last) := by
    ext index
    simp only [← Int.not_le,point_le_iff,Set.mem_ofPred_eq,Finset.coe_Ico,Set.mem_Ico,Nat.not_lt]
  rw [between,Set.ncard_coe_finset,Nat.card_Ico]

theorem ticksBetween_points_iff {first last : Int} (order : first ≤ last) :
    {index | first < point interval index ∧ point interval index ≤ last}.ncard =
        interval.ticksBetween first last ↔
      (last < interval.anchor ∨ interval.anchor ≤ first) ∧
        (interval.periods last ≤ 18446744073709551615 ∨
          interval.periods first = interval.periods last) := by
  have grows : interval.periods first ≤ interval.periods last :=
    Nat.div_le_div_right (by omega)
  have early : last < interval.anchor → interval.periods last = 0 := by
    intro before
    unfold TimerInterval.periods
    rw [Int.toNat_of_nonpos (by omega),Nat.zero_div]
  have still : last ≤ first → interval.periods first = interval.periods last :=
    fun back => by rw [Int.le_antisymm order back]
  rw [ncard_points]
  unfold TimerInterval.ticksBetween TimerInterval.ticksElapsed passed
  split <;> split <;> split <;> omega

/-- The closed form counts the ticks that iteration makes, and the grid points, exactly when
the anchor is not among them, the periods since the anchor do not saturate, and the range has a
tick after the last instant. -/
theorem ticksBetween_exact_iff (interval : TimerInterval) {first last : Int}
    (order : first ≤ last) :
    (Fits interval first last (interval.ticksBetween first last) ∧
      {index | first < point interval index ∧ point interval index ≤ last}.ncard =
        interval.ticksBetween first last) ↔
      ((last < interval.anchor ∨ interval.anchor ≤ first) ∧
        (interval.periods last ≤ 18446744073709551615 ∨
          interval.periods first = interval.periods last)) ∧ interval.Ranged last := by
  have counted := @ticksBetween_points_iff interval first last order
  constructor
  · rintro ⟨fits,points⟩
    have exact := counted.mp points
    refine ⟨exact,?_⟩
    by_contra beyond
    have late := exact.1.resolve_left fun early => beyond (.inl early)
    have stays := (iterate_beyond late order beyond (interval.ticksBetween first last + 1)).2
    exact absurd fits.2 (Int.not_lt.mpr stays)
  · rintro ⟨exact,ranged⟩
    have points := counted.mpr exact
    refine ⟨?_,points⟩
    rw [← points,ncard_points]
    exact fits_passed order ranged

def tens : TimerInterval := ⟨10,100,by decide,by decide⟩

/-- Ticks every 10 ns from 100: two lie after 105 and up to 125. -/
theorem two_ticks_between :
    Fits tens 105 125 (tens.ticksBetween 105 125) ∧ tens.ticksBetween 105 125 = 2 :=
  ⟨((ticksBetween_exact_iff tens (by decide : (105 : Int) ≤ 125)).mpr (by decide)).1,by decide⟩

/-- The anchor is a grid point after 95, but it is not counted. -/
theorem anchor_uncounted : tens.nextTick 95 = 100 ∧ tens.ticksBetween 95 105 = 0 := by
  decide

/-- The events stand for the grid points from one index up to another. -/
def Covers (interval : TimerInterval) : Nat → List TimerFired → Nat → Prop
  | index,[],last => index = last
  | index,event :: rest,last =>
    event.scheduledAt = point interval index ∧ Covers interval (index + 1 + event.skipped) rest last

theorem Covers.append {earlier later : List TimerFired} {middle : Nat}
    (first : Covers interval index earlier middle) (second : Covers interval middle later last) :
    Covers interval index (earlier ++ later) last := by
  induction earlier generalizing index with
  | nil =>
    cases first
    exact second
  | cons event rest ih => exact ⟨first.1,ih first.2⟩

/-- The ticks that events stand for, their own and those skipped. -/
def ticksOf : List TimerFired → Nat
  | [] => 0
  | event :: rest => 1 + event.skipped + ticksOf rest

variable {events : List TimerFired}

theorem Covers.total (covers : Covers interval index events last) :
    index + ticksOf events = last := by
  induction events generalizing index with
  | nil => exact covers
  | cons event rest ih =>
    rw [← ih covers.2,ticksOf]
    omega

theorem Covers.points (covers : Covers interval index events last) :
    ∀ event ∈ events, ∃ later, index ≤ later ∧ event.scheduledAt = point interval later := by
  induction events generalizing index with
  | nil => exact forall_mem_nil _
  | cons event rest ih =>
    refine forall_mem_cons.mpr ⟨⟨index,Nat.le_refl _,covers.1⟩,?_⟩
    intro other mem
    obtain ⟨later,above,scheduled⟩ := ih covers.2 other mem
    exact ⟨later,by omega,scheduled⟩

theorem Covers.increasing (covers : Covers interval index events last) :
    events.Pairwise fun left right => left.scheduledAt < right.scheduledAt := by
  induction events generalizing index with
  | nil => exact .nil
  | cons event rest ih =>
    refine .cons ?_ (ih covers.2)
    intro other mem
    obtain ⟨later,above,scheduled⟩ := covers.2.points other mem
    rw [covers.1,scheduled]
    have apart := Nat.mul_lt_mul_of_pos_right (show index < later by omega) interval.positive
    unfold point
    omega

/-- At now fewer periods have passed than the count can hold, and a tick is to come. -/
def Counted (interval : TimerInterval) (now : Int) : Prop :=
  interval.periods now < 18446744073709551615 ∧ interval.Ranged now

instance (interval : TimerInterval) (now : Int) : Decidable (Counted interval now) :=
  inferInstanceAs (Decidable (_ ∧ _))

namespace TimerEntry

/-- The next deadline is the grid point that the events lead up to. -/
def Continues (entry : TimerEntry) (interval : TimerInterval) (index : Nat)
    (events : List TimerFired) : Prop :=
  entry.interval = interval ∧
    ∃ last, entry.nextDue = point interval last ∧ Covers interval index events last

variable {entry : TimerEntry} (scheduled : entry.nextDue = point entry.interval index)
include scheduled

theorem burst_continues (ranged : entry.interval.Ranged now) (id : TimerId) (left : Nat) :
    (entry.burst id now left).2.Continues entry.interval index (entry.burst id now left).1 := by
  induction left generalizing entry index with
  | zero => exact ⟨rfl,index,scheduled,rfl⟩
  | succ left ih =>
    unfold burst
    split
    · rename_i reached
      have ticks : entry.interval.nextTick entry.nextDue = point entry.interval (index + 1) := by
        rw [scheduled,point_le_iff] at reached
        rw [scheduled,nextTick_eq (ranged_point ranged reached),passed_point]
      obtain ⟨same,last,due,covers⟩ := @ih (index + 1)
        { entry with nextDue := entry.interval.nextTick entry.nextDue } ticks ranged
      exact ⟨same,last,due,scheduled,covers⟩
    · exact ⟨rfl,index,scheduled,rfl⟩

theorem coalesce_continues (reached : entry.nextDue ≤ now)
    (bounded : Counted entry.interval now) (id : TimerId) :
    (entry.coalesce id now).2.Continues entry.interval index (entry.coalesce id now).1 := by
  have order : index ≤ entry.interval.periods now := by
    rw [← @periods_point entry.interval index,← scheduled]
    exact Nat.div_le_div_right (by omega)
  have few := bounded.1
  have between : entry.interval.ticksBetween entry.nextDue now =
      entry.interval.periods now - index := by
    unfold TimerInterval.ticksBetween TimerInterval.ticksElapsed
    split
    · rename_i back
      rw [Int.le_antisymm back reached,scheduled,periods_point]
      omega
    · rw [scheduled,periods_point]
      omega
  have late : entry.interval.anchor ≤ now := by
    rw [scheduled] at reached
    unfold point at reached
    omega
  refine ⟨rfl,_,nextTick_eq bounded.2,scheduled,?_⟩
  change index + 1 + entry.interval.ticksBetween entry.nextDue now = _
  rw [between,passed,if_neg (Int.not_lt.mpr late)]
  omega

theorem fire_continues (reached : entry.nextDue ≤ now)
    (bounded : Counted entry.interval now) (id : TimerId) (burstCap : Nat) :
    (entry.fire id now burstCap).2.Continues entry.interval index (entry.fire id now burstCap).1 := by
  unfold fire
  split
  · have caught := burst_continues scheduled bounded.2 id burstCap
    dsimp only
    split
    · rename_i still
      obtain ⟨same,middle,due,first⟩ := caught
      rw [← same] at bounded due first ⊢
      obtain ⟨kept,last,next,rest⟩ := coalesce_continues due still bounded id
      exact ⟨kept,last,next,first.append rest⟩
    · exact caught
  · exact coalesce_continues scheduled reached bounded id

end TimerEntry

def ownEvents (id : TimerId) (fired : List TimerFired) : List TimerFired :=
  fired.filter fun event => event.id = id

namespace TimerWheel

/-- A timer is registered, and its events lead from a grid point up to its next deadline. -/
def Accounts (interval : TimerInterval) (index : Nat) (id : TimerId)
    (state : TimerWheel × List TimerFired) : Prop :=
  ∃ entry, state.1.entries.get id = some entry ∧
    entry.Continues interval index (ownEvents id state.2)

variable {id : TimerId} {wheel : TimerWheel} {state : TimerWheel × List TimerFired}

theorem foldl_replace_entries (ids : List TimerId) (wheel : TimerWheel) :
    (ids.foldl replace wheel).entries = wheel.entries := by
  induction ids generalizing wheel with
  | nil => rfl
  | cons id rest ih =>
    rw [foldl_cons,ih]
    unfold replace
    split <;> rfl

theorem cascadeFrom_entries (fuel level : Nat) (wheel : TimerWheel) :
    (cascadeFrom fuel level wheel).entries = wheel.entries := by
  induction fuel generalizing level wheel with
  | zero => rfl
  | succ fuel ih =>
    unfold cascadeFrom
    split
    · exact (ih _ _).trans (foldl_replace_entries _ _)
    · rfl

section

variable (bounded : Counted interval now)
include bounded

theorem Accounts.resolveDue (accounts : Accounts interval index id state) (other : TimerId) :
    Accounts interval index id (resolveDue now state other) := by
  obtain ⟨wheel,fired⟩ := state
  unfold TimerWheel.resolveDue
  dsimp only
  split
  · exact accounts
  · rename_i held found
    split
    · exact accounts
    · rename_i reached
      have due := Int.not_lt.mp reached
      have reported := TimerEntry.fire_reported due other wheel.burstCap
      obtain ⟨entry,there,same,last,scheduled,covers⟩ := accounts
      by_cases own : other = id
      · subst own
        cases found.symm.trans there
        obtain ⟨kept,next,later,more⟩ := held.fire_continues (same ▸ scheduled) due
          (same ▸ bounded) other wheel.burstCap
        refine ⟨_,(get_insert _ _ _ _).trans (if_pos rfl),kept.trans same,next,same ▸ later,?_⟩
        unfold ownEvents
        rw [filter_append,filter_eq_self.mpr fun event mem =>
          decide_eq_true (reported event mem).id]
        exact covers.append (same ▸ more)
      · refine ⟨entry,(get_insert _ _ _ _).trans ((if_neg own).trans there),same,last,scheduled,?_⟩
        have others : ownEvents id (held.fire other now wheel.burstCap).1 = [] :=
          filter_eq_nil_iff.mpr fun event mem => by simpa [(reported event mem).id] using own
        unfold ownEvents at others ⊢
        rw [filter_append,others,append_nil]
        exact covers

theorem Accounts.foldl (ids : List TimerId) (accounts : Accounts interval index id state) :
    Accounts interval index id (ids.foldl (TimerWheel.resolveDue now) state) := by
  induction ids generalizing state with
  | nil => exact accounts
  | cons other _ ih => exact ih (accounts.resolveDue bounded other)

theorem Accounts.walk (ticks : Nat) (accounts : Accounts interval index id state) :
    Accounts interval index id (walk now ticks state) := by
  induction ticks generalizing state with
  | zero => exact accounts
  | succ _ ih =>
    refine ih (Accounts.foldl bounded _ ?_)
    obtain ⟨entry,there,told⟩ := accounts
    exact ⟨entry,by rw [← there]; exact congrArg (·.get id) (cascadeFrom_entries _ _ _),told⟩

omit bounded in
/-- Sorting keeps the order that the events of one timer already have. -/
theorem Accounts.sort (accounts : Accounts interval index id state) :
    Accounts interval index id (state.1,state.2.insertionSort fun left right =>
      toLex (left.scheduledAt,left.id) ≤ toLex (right.scheduledAt,right.id)) := by
  obtain ⟨entry,there,same,last,scheduled,covers⟩ := accounts
  refine ⟨entry,there,same,last,scheduled,?_⟩
  have ordered : (ownEvents id state.2).Pairwise fun left right =>
      toLex (left.scheduledAt,left.id) ≤ toLex (right.scheduledAt,right.id) :=
    covers.increasing.imp fun less => Prod.Lex.toLex_le_toLex.mpr (.inl less)
  have inside := (sublist_insertionSort ordered filter_sublist).filter fun event => event.id = id
  unfold ownEvents at inside covers ⊢
  rw [filter_filter] at inside
  simp only [Bool.and_self] at inside
  rw [← inside.eq_of_length ((perm_insertionSort _ _).symm.filter _).length_eq]
  exact covers

theorem Accounts.advance (accounts : Accounts interval index id (wheel,[])) :
    Accounts interval index id (wheel.advance now).swap := by
  unfold TimerWheel.advance
  dsimp only
  split
  · exact accounts
  · refine Accounts.sort ?_
    split
    · exact Accounts.foldl bounded _ accounts
    · exact accounts.walk bounded _

end

def advanceAll : List Int → TimerWheel → List TimerFired × TimerWheel
  | [],wheel => ([],wheel)
  | now :: rest,wheel =>
    let (events,moved) := wheel.advance now
    let (more,last) := advanceAll rest moved
    (events ++ more,last)

theorem Accounts.advanceAll {times : List Int}
    (bounded : ∀ now ∈ times, Counted interval now)
    (accounts : Accounts interval index id (wheel,[])) :
    Accounts interval index id (wheel.advanceAll times).swap := by
  induction times generalizing wheel index with
  | nil => exact accounts
  | cons now rest ih =>
    obtain ⟨first,later⟩ := forall_mem_cons.mp bounded
    obtain ⟨entry,there,same,middle,scheduled,covers⟩ := accounts.advance first
    obtain ⟨final,found,kept,last,due,more⟩ := ih later ⟨entry,there,same,middle,scheduled,rfl⟩
    refine ⟨final,found,kept,last,due,?_⟩
    unfold ownEvents at covers more ⊢
    exact filter_append .. ▸ covers.append more

end TimerWheel

/-- Of a timer inserted into any wheel and never cancelled: as long as the clock stays in range
and fewer than 2^64 - 1 periods have passed since the anchor, its events are scheduled at
increasing grid points, and together they stand for the grid points from its first deadline
up to its next one. -/
theorem ticks_accounted (wheel : TimerWheel) (spec : TimerSpec) {start : Int} {times : List Int}
    (begins : spec.interval.Ranged start)
    (bounded : ∀ now ∈ times, floorMsSinceEpoch wheel.epoch now < millisMax ∧
      Counted spec.interval now) :
    let added := wheel.insert spec start
    let moved := added.2.advanceAll times
    let events := ownEvents added.1 moved.1
    events.Pairwise (fun left right => left.scheduledAt < right.scheduledAt) ∧
      (∀ event ∈ events, ∃ index, event.scheduledAt = point spec.interval index) ∧
      ∃ entry first last, moved.2.entries.get added.1 = some entry ∧
        spec.interval.nextTick start = point spec.interval first ∧
        entry.nextDue = point spec.interval last ∧ first + ticksOf events = last := by
  have ticked := nextTick_eq begins
  have begun : TimerWheel.Accounts spec.interval (passed spec.interval start) wheel.nextId
      ((wheel.insert spec start).2,[]) :=
    ⟨_,(get_insert _ _ _ _).trans (if_pos rfl),rfl,_,ticked,rfl⟩
  obtain ⟨entry,found,_,last,due,covers⟩ := begun.advanceAll fun now mem => (bounded now mem).2
  refine ⟨covers.increasing,?_,entry,_,last,found,ticked,due,covers.total⟩
  intro event mem
  obtain ⟨index,_,scheduled⟩ := covers.points event mem
  exact ⟨index,scheduled⟩

def everyNanosecond : TimerSpec := ⟨⟨1,0,Nat.one_pos,zero_started⟩,.skip,0⟩

theorem ticks_accounted_skipping :
    let added := (TimerWheel.new 0).insert everyNanosecond 0
    let moved := added.2.advanceAll [1000000,2500000]
    let events := ownEvents added.1 moved.1
    events.Pairwise (fun left right => left.scheduledAt < right.scheduledAt) ∧
      ∃ entry first last, moved.2.entries.get added.1 = some entry ∧
        everyNanosecond.interval.nextTick 0 = point everyNanosecond.interval first ∧
        entry.nextDue = point everyNanosecond.interval last ∧ first + ticksOf events = last :=
  have told := ticks_accounted (TimerWheel.new 0) everyNanosecond (by decide) (by decide)
  ⟨told.1,told.2.2⟩

/-- Beyond 2^64 periods the count stays where it is, and ticks are lost. -/
theorem ticks_lost : let started := ((TimerWheel.new 0).insert everyNanosecond 0).2
    let moved := started.advanceAll [18446744073709551700]
    (started.entries.get 0).map TimerEntry.nextDue = some 1 ∧
      (moved.2.entries.get 0).map TimerEntry.nextDue = some 18446744073709551701 ∧
      ticksOf moved.1 = 18446744073709551615 := by
  decide +kernel

end Astrs.Scheduler
