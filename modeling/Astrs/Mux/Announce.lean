/-
A route is announced before it is used, when its frames are queued in time.

The scheduler serves the control queue in bursts and then lets a route frame through, so
data overtakes an announcement that stands further back than the current burst reaches,
and only then.
-/

import Astrs.Mux.Calls

namespace Astrs.Mux

open Astrs.Base List SendCall MuxShared

def announcedBefore (route : RouteId) : List MuxFrame → Bool
  | [] => true
  | frame :: rest => frame.opens route || (!frame.carries route && announcedBefore route rest)

def withinBurst (controlBurst : Nat) (route : RouteId) : Nat → List Outbound → Bool
  | _,[] => true
  | run,item :: rest =>
    (!item.frame.opens route || decide (run < controlBurst)) &&
      withinBurst controlBurst route (run + 1) rest

def openedBy (mux : MuxShared) : List SendCall → List RouteId
  | [] => []
  | call :: calls =>
    (match call with
      | .openRoute route descriptor =>
        if (mux.openRoute route descriptor).1.toBool then [route] else []
      | _ => []) ++ openedBy (call.perform mux).2 calls

def transmitted (mux : MuxShared) : List SendCall → List MuxFrame
  | [] => []
  | call :: calls => (call.perform mux).1 ++ transmitted (call.perform mux).2 calls

def SendCall.prompt (mux : MuxShared) : SendCall → Bool
  | queueRouteFrame route _ =>
    withinBurst mux.config.controlBurst route mux.state.controlRun mux.state.control
  | _ => true

def promptly (mux : MuxShared) : List SendCall → Bool
  | [] => true
  | call :: calls => call.prompt mux && promptly (call.perform mux).2 calls

theorem announcedBefore_append (route : RouteId) (front back : List MuxFrame) :
    announcedBefore route (front ++ back) =
      (announcedBefore route front && (front.any (·.opens route) || announcedBefore route back)) := by
  induction front with
  | nil => simp [announcedBefore]
  | cons frame front ih =>
    simp only [cons_append,announcedBefore,ih,any_cons]
    cases frame.opens route <;> cases frame.carries route <;> simp

variable {route : RouteId} {mux : MuxShared} {sent : List MuxFrame} {calls : List SendCall}

theorem announcedBefore_of_none {frames : List MuxFrame}
    (none : ∀ frame ∈ frames, frame.carries route = false) :
    announcedBefore route frames = true := by
  induction frames with
  | nil => rfl
  | cons frame frames ih =>
    have here := none frame mem_cons_self
    have later := ih fun other mem => none other (mem_cons_of_mem frame mem)
    simp [announcedBefore,here,later]

variable {controlBurst : Nat}

section

variable {items : List Outbound}

theorem withinBurst_mono {low high : Nat} (order : low ≤ high)
    (within : withinBurst controlBurst route high items = true) :
    withinBurst controlBurst route low items = true := by
  induction items generalizing low high with
  | nil => rfl
  | cons item items ih =>
    unfold withinBurst at within ⊢
    obtain ⟨here,later⟩ := Bool.and_eq_true_iff.mp within
    rw [ih (Nat.add_le_add_right order 1) later,Bool.and_true]
    cases opens : item.frame.opens route with
    | false => rfl
    | true =>
      rw [opens] at here
      have reached : high < controlBurst := by simpa using here
      simpa using lt_of_le_of_lt order reached

theorem withinBurst_push {run : Nat} {item : Outbound} (other : item.frame.opens route = false)
    (within : withinBurst controlBurst route run items = true) :
    withinBurst controlBurst route run (items ++ [item]) = true := by
  induction items generalizing run with
  | nil => simp [withinBurst,other]
  | cons head items ih =>
    obtain ⟨here,later⟩ := Bool.and_eq_true_iff.mp within
    rw [cons_append,withinBurst,here,ih later]
    rfl

/-- An announcement within reach means the burst is not used up. -/
theorem lt_of_withinBurst {run : Nat} (within : withinBurst controlBurst route run items = true)
    (waiting : items.any (·.frame.opens route) = true) : run < controlBurst := by
  induction items generalizing run with
  | nil => cases waiting
  | cons head items ih =>
    obtain ⟨here,later⟩ := Bool.and_eq_true_iff.mp within
    cases opens : head.frame.opens route with
    | true =>
      rw [opens] at here
      simpa using here
    | false =>
      rw [any_cons,opens,Bool.false_or] at waiting
      exact lt_of_le_of_lt (Nat.le_succ run) (ih later waiting)

end

/-! ### An opened route -/

/-- After the route was opened: its data has waited for its announcement so far,
the announcement is out or queued, and data waits only behind an announcement
that the burst reaches. -/
structure Opened (controlBurst : Nat) (route : RouteId) (sent : List MuxFrame)
    (state : MuxState) : Prop where
  held : (state.routes.get route).isSome = true
  ordered : announcedBefore route sent = true
  announced : sent.any (·.opens route) = true ∨ state.control.any (·.frame.opens route) = true
  reached : ∀ entry, state.routes.get route = some entry → entry.queue ≠ [] →
    withinBurst controlBurst route state.controlRun state.control = true

namespace Opened

variable {state next : MuxState}

theorem turned (opened : Opened controlBurst route sent state) (order : List RouteId) :
    Opened controlBurst route sent { state with order := order } :=
  { opened with }

variable {frame : MuxFrame}

/-- Sending a frame that is not the route's data keeps the order. -/
theorem ordered_push (opened : Opened controlBurst route sent state)
    (other : frame.carries route = false) : announcedBefore route (sent ++ [frame]) = true := by
  rw [announcedBefore_append,opened.ordered]
  simp [announcedBefore,other]

theorem not_carries_of_isData (plain : frame.isData = false) (route : RouteId) :
    frame.carries route = false := by
  cases frame with
  | routeData => cases plain
  | _ => rfl

/-- One pop: a control frame brings the announcement closer as it lengthens the
run, and a route frame is served only where no announcement of it waits. -/
theorem pops (opened : Opened controlBurst route sent state) (filed : state.Filed)
    {item : Outbound} (popped : state.Pops controlBurst item next) :
    Opened controlBurst route (sent ++ [item.frame]) next := by
  cases popped with
  | @control item rest order queued =>
    have plain : item.frame.isData = false := filed.control item (queued ▸ mem_cons_self)
    constructor
    · exact opened.held
    · exact opened.ordered_push (not_carries_of_isData plain route)
    · have announced := opened.announced
      rw [queued,any_cons] at announced
      rw [any_append]
      cases opens : item.frame.opens route with
      | true =>
        left
        simp [opens]
      | false =>
        rw [opens,Bool.false_or] at announced
        rcases announced with out | waiting
        · left
          rw [out,Bool.true_or]
        · exact .inr waiting
    · intro entry found busy
      have within := opened.reached entry found busy
      rw [queued,withinBurst] at within
      exact withinBurst_mono (min_le_left _ _) (Bool.and_eq_true_iff.mp within).2
  | @datagram item rest order idle queued =>
    obtain ⟨message,datagram⟩ := filed.datagrams item (queued ▸ mem_cons_self)
    constructor
    · exact opened.held
    · apply opened.ordered_push
      rw [datagram]
      rfl
    · have announced := opened.announced
      rw [idle] at announced
      left
      rw [any_append,announced.resolve_right Bool.false_ne_true,Bool.true_or]
    · intro _ _ _
      rw [idle]
      rfl
  | @route served entry item rest order yielded held queued ready =>
    obtain ⟨_,data⟩ := filed.queues served entry held item (queued ▸ mem_cons_self)
    by_cases same : served = route
    · subst same
      have busy : entry.queue ≠ [] := by
        rw [queued]
        exact cons_ne_nil _ _
      have within := opened.reached entry held busy
      have out : sent.any (·.opens served) = true := by
        rcases opened.announced with out | waiting
        · exact out
        · have unspent := lt_of_withinBurst within waiting
          rcases yielded with idle | spent
          · rw [idle] at waiting
            cases waiting
          · exact absurd unspent (not_lt.mpr spent)
      constructor
      · simp
      · rw [announcedBefore_append,opened.ordered,out]
        rfl
      · left
        rw [any_append,out,Bool.true_or]
      · intro _ _ _
        exact withinBurst_mono (Nat.zero_le _) within
    · have kept : (state.routes.insert served
          { entry with
            queue := rest
            credit := if item.consumesCredit then entry.credit - 1 else entry.credit }).get route =
          state.routes.get route := by
        rw [OrderedMap.get_insert,if_neg same]
      constructor
      · rw [kept]
        exact opened.held
      · apply opened.ordered_push
        rw [data]
        simpa [MuxFrame.carries] using same
      · rcases opened.announced with out | waiting
        · left
          rw [any_append,out,Bool.true_or]
        · exact .inr waiting
      · intro found lookup busy
        rw [kept] at lookup
        exact withinBurst_mono (Nat.zero_le _) (opened.reached found lookup busy)

theorem pushControl (opened : Opened controlBurst route sent mux.state)
    (other : frame.opens route = false) :
    Opened controlBurst route sent (mux.pushControl (Outbound.control frame)).state := by
  constructor
  · exact opened.held
  · exact opened.ordered
  · rcases opened.announced with out | waiting
    · exact .inl out
    · right
      rw [control_pushControl,any_append,waiting,Bool.true_or]
  · intro entry found busy
    exact withinBurst_push other (opened.reached entry found busy)

theorem openRoute (opened : Opened controlBurst route sent mux.state) (other : RouteId)
    (descriptor : Bytes) :
    Opened controlBurst route sent (mux.openRoute other descriptor).2.state := by
  rcases mux.openRoute_cases other descriptor with
    ⟨fault,same⟩ | ⟨added,absent,done,outcome⟩
  · rw [same]
    exact opened
  · have differs : other ≠ route := by
      intro equal
      have held := opened.held
      rw [← equal,show mux.state.routes.get other = none from absent] at held
      cases held
    have kept : added.state.routes.get route = mux.state.routes.get route :=
      (entry_insertRoute done route).trans (if_neg differs)
    have control : added.state.control = mux.state.control := by
      rw [insertRoute_ok done]
    have run : added.state.controlRun = mux.state.controlRun := by
      rw [insertRoute_ok done]
    have entered : Opened controlBurst route sent added.state := by
      constructor
      · rw [kept]
        exact opened.held
      · exact opened.ordered
      · rw [control]
        exact opened.announced
      · rw [kept,control,run]
        exact opened.reached
    rcases outcome with ⟨fault,unsent⟩ | announced
    · rw [unsent]
      exact entered
    · rw [announced]
      apply entered.pushControl
      simpa [MuxFrame.opens] using differs

variable (opened : Opened mux.config.controlBurst route sent mux.state)
include opened

theorem takeBatch (filed : mux.state.Filed) (max : Nat) :
    Opened mux.config.controlBurst route (sent ++ (mux.takeBatch max).1.map Outbound.frame)
      (mux.takeBatch max).2.state := by
  refine (MuxState.takeWithin_induct (motive := fun taken state => state.Filed ∧ Opened
    mux.config.controlBurst route (sent ++ taken.map Outbound.frame) state)
    ?turn ?pop max [] mux.state ?start).2
  case start =>
    refine ⟨filed,?_⟩
    rw [map_nil,append_nil]
    exact opened
  case turn => exact fun _ _ order kept => ⟨kept.1.turned order,kept.2.turned order⟩
  case pop =>
    intro _ _ _ _ popped kept
    refine ⟨kept.1.pops popped,?_⟩
    rw [map_append,← append_assoc]
    exact kept.2.pops kept.1 popped

theorem queueRouteFrame (other : RouteId) (message : Message)
    (prompt : (queueRouteFrame other message).prompt mux = true) :
    Opened mux.config.controlBurst route sent (mux.queueRouteFrame other message).2.state := by
  rcases mux.queueRouteFrame_cases other message with same | ⟨entry,_,queued⟩
  · rw [same]
    exact opened
  · rw [queued]
    by_cases same : other = route
    · subst same
      constructor
      · exact congrArg Option.isSome ((mux.entry_setEntry _ _ _).trans (if_pos rfl))
      · exact opened.ordered
      · exact opened.announced
      · intro _ _ _
        exact prompt
    · have kept (changed : RouteEntry) :
          (mux.setEntry other changed).state.routes.get route = mux.state.routes.get route :=
        (mux.entry_setEntry other route changed).trans (if_neg same)
      constructor
      · rw [kept]
        exact opened.held
      · exact opened.ordered
      · exact opened.announced
      · rw [kept]
        exact opened.reached

theorem sends (filed : mux.state.Filed) (call : SendCall) (prompt : call.prompt mux = true) :
    Opened mux.config.controlBurst route (sent ++ (call.perform mux).1)
      (call.perform mux).2.state := by
  cases call with
  | takeBatch max => exact opened.takeBatch filed max
  | openRoute other descriptor =>
    rw [perform,append_nil]
    exact opened.openRoute other descriptor
  | queueRouteFrame other message =>
    rw [perform,append_nil]
    exact opened.queueRouteFrame other message prompt
  | queueControl message =>
    rw [perform,append_nil]
    rcases mux.queueControlMetered_cases message with same | pushed
    · rw [same]
      exact opened
    · rw [pushed]
      exact opened.pushControl rfl
  | queueDatagram message =>
    rw [perform,append_nil]
    rcases mux.queueDatagram_cases message with same | ⟨kept,_,queued⟩
    · rw [same]
      exact opened
    · rw [queued]
      exact { opened with }

end Opened

/-! ### Runs of sending calls -/

theorem Opened.run (opened : Opened mux.config.controlBurst route sent mux.state)
    (filed : mux.state.Filed) (prompt : promptly mux calls = true) :
    announcedBefore route (sent ++ transmitted mux calls) = true := by
  induction calls generalizing mux sent with
  | nil =>
    rw [transmitted,append_nil]
    exact opened.ordered
  | cons call calls ih =>
    obtain ⟨now,later⟩ := Bool.and_eq_true_iff.mp prompt
    have stepped := opened.sends filed call now
    rw [← mux.config_send call] at stepped
    rw [transmitted,← append_assoc]
    exact ih stepped ((MuxShared.Keeps.send mux call).filed filed) later

theorem takeBatch_unopened (filed : mux.state.Filed) (absent : mux.entry route = none) (max : Nat) :
    ∀ frame ∈ (mux.takeBatch max).1.map Outbound.frame, frame.carries route = false := by
  refine (MuxState.takeWithin_induct (motive := fun taken state =>
    state.Filed ∧ state.routes.get route = none ∧
      ∀ frame ∈ taken.map Outbound.frame, frame.carries route = false)
    ?turn ?pop max [] mux.state ⟨filed,absent,nofun⟩).2.2
  case turn => exact fun _ _ order kept => ⟨kept.1.turned order,kept.2⟩
  case pop =>
    intro taken state item next popped ⟨filedNow,missing,silent⟩
    have step : next.routes.get route = none ∧ item.frame.carries route = false := by
      cases popped with
      | control order queued =>
        exact ⟨missing,Opened.not_carries_of_isData
          (filedNow.control item (queued ▸ mem_cons_self)) route⟩
      | datagram order idle queued =>
        obtain ⟨message,datagram⟩ := filedNow.datagrams item (queued ▸ mem_cons_self)
        rw [datagram]
        exact ⟨missing,rfl⟩
      | @route served entry _ rest order yielded held queued ready =>
        have differs : served ≠ route := by
          intro same
          rw [same,missing] at held
          cases held
        obtain ⟨_,data⟩ := filedNow.queues served entry held item (queued ▸ mem_cons_self)
        constructor
        · rw [OrderedMap.get_insert,if_neg differs]
          exact missing
        · rw [data]
          simpa [MuxFrame.carries] using differs
    refine ⟨filedNow.pops popped,step.1,?_⟩
    intro frame mem
    rw [map_append] at mem
    rcases mem_append.mp mem with earlier | last
    · exact silent frame earlier
    · rw [mem_singleton.mp last]
      exact step.2

theorem isSome_entry_takeBatch (mux : MuxShared) (route : RouteId) (max : Nat) :
    ((mux.takeBatch max).2.entry route).isSome = (mux.entry route).isSome := by
  refine MuxState.takeWithin_induct (motive := fun _ state =>
    (state.routes.get route).isSome = (mux.entry route).isSome)
    (fun _ _ _ kept => kept) ?_ max [] mux.state rfl
  intro _ _ _ _ popped kept
  cases popped with
  | control | datagram => exact kept
  | @route served entry _ rest order yielded held queued ready =>
    rw [OrderedMap.get_insert]
    by_cases same : served = route
    · rw [if_pos same,← kept,← same,held]
      rfl
    · rw [if_neg same]
      exact kept

theorem SendCall.held_perform (call : SendCall) (held : (mux.entry route).isSome = true) :
    ((call.perform mux).2.entry route).isSome = true := by
  cases call with
  | takeBatch max => exact (isSome_entry_takeBatch mux route max).trans held
  | openRoute opened descriptor =>
    by_cases same : route = opened
    · rcases mux.openRoute_cases opened descriptor with ⟨fault,kept⟩ | ⟨added,absent,_,_⟩
      · rw [perform,kept]
        exact held
      · rw [same,absent] at held
        cases held
    · rw [perform,(Touches.openRoute mux opened descriptor).entry route same]
      exact held
  | queueControl message =>
    rcases mux.queueControlMetered_cases message with same | pushed
    · rw [perform,same]
      exact held
    · rw [perform,pushed,entry_pushControl]
      exact held
  | queueDatagram message =>
    rcases mux.queueDatagram_cases message with same | ⟨kept,_,queued⟩
    · rw [perform,same]
      exact held
    · rw [perform,queued]
      exact held
  | queueRouteFrame served message =>
    rcases mux.queueRouteFrame_cases served message with same | ⟨entry,_,queued⟩
    · rw [perform,same]
      exact held
    · rw [perform,queued,entry_setEntry]
      split
      · rfl
      · exact held

theorem not_mem_openedBy (held : (mux.entry route).isSome = true) : route ∉ openedBy mux calls := by
  induction calls generalizing mux with
  | nil => exact not_mem_nil
  | cons call calls ih =>
    intro mem
    rcases mem_append.mp mem with now | later
    · cases call with
      | openRoute opened descriptor =>
        dsimp only at now
        rcases mux.openRoute_cases opened descriptor with
          ⟨fault,same⟩ | ⟨added,absent,_,_⟩
        · rw [same] at now
          cases now
        · have equal : route = opened := by
            split at now
            · exact mem_singleton.mp now
            · cases now
          rw [equal,absent] at held
          cases held
      | _ => cases now
    · exact ih (call.held_perform held) later

theorem Opened.of_openRoute {descriptor : Bytes}
    (silent : ∀ frame ∈ sent, frame.carries route = false)
    (succeeded : (mux.openRoute route descriptor).1.toBool = true) :
    Opened mux.config.controlBurst route sent (mux.openRoute route descriptor).2.state := by
  rcases mux.openRoute_cases route descriptor with
    ⟨fault,same⟩ | ⟨added,_,done,⟨fault,unsent⟩ | announced⟩
  · rw [same] at succeeded
    cases succeeded
  · rw [unsent] at succeeded
    cases succeeded
  · have fresh : added.state.routes.get route =
        some (RouteEntry.fresh mux.config.initialWindowFrames true) :=
      (entry_insertRoute done route).trans (if_pos rfl)
    rw [announced]
    constructor
    · exact congrArg Option.isSome fresh
    · exact announcedBefore_of_none silent
    · right
      simp [Outbound.control,MuxFrame.opens]
    · intro entry found busy
      rw [show added.state.routes.get route = some entry from found,Option.some.injEq] at fresh
      rw [fresh] at busy
      exact absurd rfl busy

theorem announced_of_openedBy (filed : mux.state.Filed)
    (silent : ∀ frame ∈ sent, frame.carries route = false) (prompt : promptly mux calls = true)
    (opened : route ∈ openedBy mux calls) :
    announcedBefore route (sent ++ transmitted mux calls) = true := by
  induction calls generalizing mux sent with
  | nil => cases opened
  | cons call calls ih =>
    obtain ⟨_,later⟩ := Bool.and_eq_true_iff.mp prompt
    have absent : mux.entry route = none := by
      cases held : mux.entry route with
      | none => rfl
      | some => exact absurd opened (not_mem_openedBy (by rw [held]; rfl))
    rw [transmitted,← append_assoc]
    rcases mem_append.mp opened with now | after
    · cases call with
      | openRoute other descriptor =>
        dsimp only at now
        split at now
        · rename_i succeeded
          rw [mem_singleton.mp now] at silent ⊢
          have started := Opened.of_openRoute silent succeeded
          rw [← mux.config_send (.openRoute other descriptor)] at started
          rw [perform,append_nil]
          exact started.run ((Touches.openRoute mux other descriptor).filed filed) later
        · cases now
      | _ => cases now
    · refine ih ((MuxShared.Keeps.send mux call).filed filed) ?_ later after
      intro frame mem
      rcases mem_append.mp mem with earlier | last
      · exact silent frame earlier
      · cases call with
        | takeBatch max => exact takeBatch_unopened filed absent max frame last
        | _ => cases last

/-- From every state an end can be in, whatever was called before: a run of sending
calls that queues route frames promptly announces each route it opens before it
hands over any data of that route. -/
theorem announced_before_used (config : MuxConfig) (side : Side) (maxPayload maxRoutes : Nat)
    (earlier : List Call) (calls : List SendCall) (route : RouteId) (prompt : promptly
      (earlier.foldl Call.perform (MuxShared.new config side maxPayload maxRoutes)) calls = true)
    (opened : route ∈ openedBy
      (earlier.foldl Call.perform (MuxShared.new config side maxPayload maxRoutes)) calls) :
    announcedBefore route (transmitted
      (earlier.foldl Call.perform (MuxShared.new config side maxPayload maxRoutes)) calls) =
      true := by
  have filed := (MuxState.Filed.new config side maxPayload maxRoutes).performAll earlier
  have silent : ∀ frame ∈ ([] : List MuxFrame), frame.carries route = false := by
    intro _ member
    cases member
  exact announced_of_openedBy filed silent prompt opened

def sampleMux : MuxShared := new MuxConfig.new .initiator 65536 16

def sampleMessage : Message := { kind := .data, body := [1,2,3] }

/-- A route opened and used behind a few control frames. -/
theorem announced_before_used_sample : announcedBefore 1 (transmitted
      ([Call.send (.queueControl sampleMessage)].foldl Call.perform sampleMux)
      [.openRoute 1 [],.queueRouteFrame 1 sampleMessage,.takeBatch 4]) = true :=
  announced_before_used MuxConfig.new .initiator 65536 16 [.send (.queueControl sampleMessage)]
    [.openRoute 1 [],.queueRouteFrame 1 sampleMessage,.takeBatch 4] 1
    (by decide +kernel) (by decide +kernel)

/-- With the default burst of eight and eight control frames waiting, the first data
frame of a new route leaves before its announcement. -/
theorem data_overtakes_announcement :
    let calls := List.replicate 8 (queueControl sampleMessage) ++
      [.openRoute 1 [],.queueRouteFrame 1 sampleMessage,.takeBatch 10]
    1 ∈ openedBy sampleMux calls ∧ announcedBefore 1 (transmitted sampleMux calls) = false ∧
      (transmitted sampleMux calls).drop 8 = [.routeData 1 sampleMessage,.routeOpen 1 32 []] := by
  decide +kernel

end Astrs.Mux
