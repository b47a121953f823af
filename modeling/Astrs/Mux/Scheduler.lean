/-
What the scheduler can take from one end.

A popped frame is the oldest control frame, the oldest datagram when no control frame
waits, or the oldest frame of a route that has credit.
-/

import Astrs.Mux.State

namespace Astrs.Mux

open Astrs.Base

namespace MuxState

/-! ### Popping one frame -/

/-- One frame leaves the queues.  The place of the round-robin cursor is left
open: a pass that finds no ready route turns it as well. -/
inductive Pops (controlBurst : Nat) (state : MuxState) : Outbound → MuxState → Prop
  | control {item : Outbound} {rest : List Outbound} (order : List RouteId)
      (queued : state.control = item :: rest) :
      Pops controlBurst state item
        { state with
          control := rest
          order := order
          controlRun := saturatingAdd state.controlRun 1 }
  | datagram {item : Outbound} {rest : List Outbound} (order : List RouteId)
      (idle : state.control = []) (queued : state.datagrams = item :: rest) :
      Pops controlBurst state item
        { state with
          datagrams := rest
          order := order
          controlRun := saturatingAdd state.controlRun 1 }
  | route {route : RouteId} {entry : RouteEntry} {item : Outbound} {rest : List Outbound}
      (order : List RouteId) (yielded : state.control = [] ∨ controlBurst ≤ state.controlRun)
      (held : state.routes.get route = some entry) (queued : entry.queue = item :: rest)
      (ready : item.consumesCredit = true → 0 < entry.credit) :
      Pops controlBurst state item
        { state with
          routes := state.routes.insert route
            { entry with
              queue := rest
              credit := if item.consumesCredit then entry.credit - 1 else entry.credit }
          order := order
          controlRun := 0 }

theorem popUnmetered_cases (state : MuxState) :
    (state.popUnmetered = none ∧ state.control = [] ∧ state.datagrams = []) ∨
    (∃ item rest, state.control = item :: rest ∧
      state.popUnmetered = some (item,{ state with control := rest })) ∨
    (∃ item rest, state.control = [] ∧ state.datagrams = item :: rest ∧
      state.popUnmetered = some (item,{ state with datagrams := rest })) := by
  unfold popUnmetered
  cases control : state.control with
  | cons item rest => exact .inr (.inl ⟨item,rest,rfl,rfl⟩)
  | nil =>
    cases datagrams : state.datagrams with
    | cons item rest => exact .inr (.inr ⟨item,rest,rfl,rfl,rfl⟩)
    | nil => exact .inl ⟨rfl,rfl,rfl⟩

theorem ready_of_isReady {entry : RouteEntry} {item : Outbound} {rest : List Outbound}
    (ready : entry.isReady = true) (queued : entry.queue = item :: rest)
    (consumes : item.consumesCredit = true) : 0 < entry.credit := by
  unfold RouteEntry.isReady at ready
  rw [queued] at ready
  simpa [consumes] using ready

/-- A pass of the round robin: either only the cursor has turned, or one ready
route has given up its oldest frame. -/
theorem popRouteWithin_cases (turns : Nat) (state : MuxState) :
    (∃ order, popRouteWithin turns state = (none,{ state with order := order })) ∨
    (∃ order route entry item rest, state.routes.get route = some entry ∧
      entry.queue = item :: rest ∧ (item.consumesCredit = true → 0 < entry.credit) ∧
      popRouteWithin turns state = (some item,
          { state with
            routes := state.routes.insert route
              { entry with
                queue := rest
                credit := if item.consumesCredit then entry.credit - 1 else entry.credit }
            order := order })) := by
  induction turns generalizing state with
  | zero => exact .inl ⟨state.order,rfl⟩
  | succ turns ih =>
    unfold popRouteWithin
    cases order : state.order with
    | nil => exact .inl ⟨state.order,rfl⟩
    | cons route later =>
      dsimp only
      cases held : state.routes.get route with
      | none => exact ih { state with order := later ++ [route] }
      | some entry =>
        dsimp only
        cases ready : entry.isReady with
        | false => exact ih { state with order := later ++ [route] }
        | true =>
          cases queued : entry.queue with
          | nil => exact .inl ⟨later ++ [route],rfl⟩
          | cons item rest =>
            exact .inr ⟨later ++ [route],route,entry,item,rest,held,queued,
              ready_of_isReady ready queued,rfl⟩

/-- After a fruitless pass the unmetered queues are tried without the burst limit. -/
theorem popNext_cases (controlBurst : Nat) (state : MuxState) :
    (∃ order, state.popNext controlBurst = (none,{ state with order := order })) ∨
    (∃ item next, Pops controlBurst state item next ∧
      state.popNext controlBurst = (some item,next)) := by
  have routed (yielded : state.control = [] ∨ controlBurst ≤ state.controlRun)
      (skipped : (if state.controlRun < controlBurst then state.popUnmetered else none) = none) :
      (∃ order, state.popNext controlBurst = (none,{ state with order := order })) ∨
      (∃ item next, Pops controlBurst state item next ∧
        state.popNext controlBurst = (some item,next)) := by
    unfold popNext popRoute
    rw [skipped]
    rcases popRouteWithin_cases state.order.length state with
      ⟨order,turned⟩ | ⟨order,route,entry,item,rest,held,queued,ready,popped⟩
    · rw [turned]
      dsimp only
      rcases popUnmetered_cases { state with order := order } with
        ⟨none,_,_⟩ | ⟨item,rest,control,popped⟩ | ⟨item,rest,idle,datagrams,popped⟩
      · rw [none]
        exact .inl ⟨order,rfl⟩
      · rw [popped]
        exact .inr ⟨item,_,.control order control,rfl⟩
      · rw [popped]
        exact .inr ⟨item,_,.datagram order idle datagrams,rfl⟩
    · rw [popped]
      exact .inr ⟨item,_,.route order yielded held queued ready,rfl⟩
  by_cases burst : state.controlRun < controlBurst
  · rcases popUnmetered_cases state with
      ⟨none,idle,_⟩ | ⟨item,rest,control,popped⟩ | ⟨item,rest,idle,datagrams,popped⟩
    · exact routed (.inl idle) (by rw [if_pos burst,none])
    · refine .inr ⟨item,_,.control state.order control,?_⟩
      unfold popNext
      rw [if_pos burst,popped]
    · refine .inr ⟨item,_,.datagram state.order idle datagrams,?_⟩
      unfold popNext
      rw [if_pos burst,popped]
  · exact routed (.inr (not_lt.mp burst)) (if_neg burst)

/-- What every pop and every turn of the cursor keeps, a whole batch keeps; the
property may speak of the frames taken so far. -/
theorem takeWithin_induct {controlBurst : Nat} {motive : List Outbound → MuxState → Prop}
    (turn : ∀ taken state order, motive taken state → motive taken { state with order := order })
    (pop : ∀ taken state item next, Pops controlBurst state item next → motive taken state →
      motive (taken ++ [item]) next)
    (room : Nat) (taken : List Outbound) (state : MuxState) (start : motive taken state) :
    motive (taken ++ (takeWithin controlBurst room state).1)
      (takeWithin controlBurst room state).2 := by
  induction room generalizing taken state with
  | zero =>
    simpa [takeWithin] using start
  | succ room ih =>
    unfold takeWithin
    rcases popNext_cases controlBurst state with ⟨order,none⟩ | ⟨item,next,popped,some⟩
    · rw [none]
      simpa using turn taken state order start
    · rw [some]
      simpa using ih (taken ++ [item]) next (pop taken state item next popped start)

end MuxState

end Astrs.Mux
