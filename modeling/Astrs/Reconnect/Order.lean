/-
Frames keep their order across reconnects, when no frame is buffered at the wrong moment.

A frame pushed into the buffer during a flush, or while an open connection is in use, is
overtaken by later ones.  So is one left by a flush that gives up on an open connection,
which only a frame above its payload limit can cause.
-/

import Astrs.Reconnect.State

namespace Astrs.Reconnect

open List Reconnector

/-- The stages in which the newest connection may still take frames. -/
def Stage.isUp : Stage → Bool
  | .flushed | .installed | .pumping => true
  | _ => false

def Reconnector.isQuiet (shared : Reconnector) : Bool :=
  match shared.stage with
  | .flushing _ => false
  | stage => !stage.isUp || shared.live.all Connection.isClosed

/-- A frame is buffered only at a quiet moment, and what is flushed into an open
connection fits it. -/
def Step.orderly (shared : Reconnector) : Step → Bool
  | .divert =>
    match shared.producer with
    | .diverting _ => shared.isQuiet
    | _ => true
  | .flushNext =>
    match shared.stage with
    | .flushing (frame :: _) =>
      shared.live.all fun live => live.isClosed || live.fits frame
    | _ => true
  | _ => true

def orderlyRun (shared : Reconnector) : List Step → Bool
  | [] => true
  | step :: steps => step.orderly shared && orderlyRun (shared.perform step) steps

def Stage.pending : Stage → List Frame
  | .flushing pending => pending
  | _ => []

/-- The stages in which the producer can read the newest connection. -/
def Stage.isServing : Stage → Bool
  | .installed | .pumping => true
  | _ => false

/-- The stages in which the link may be reported as connected. -/
def Stage.isLinked : Stage → Bool
  | .pumping | .lost => true
  | _ => false

/-- What holds of the newest connection and of the buffered frames in a stage. -/
def Stage.Suits (live : Option Connection) (frames : List Frame) : Stage → Prop
  | .dialling | .lost | .backoff | .stopped => ∀ newest, live = some newest → newest.isClosed = true
  | .established => live.isSome = true
  | .flushing _ => live.isSome = true ∧ frames = []
  | .flushed | .installed | .pumping =>
    ∃ newest, live = some newest ∧ (newest.isClosed = false → frames = [])

/-- The frame of a call in progress. -/
def Producer.frame : Producer → Option Frame
  | .idle => none
  | .holding frame _ => some frame
  | .diverting frame => some frame

/-- A connection that someone can still try: an earlier one, or the newest, which is only
open while it is served. -/
def Reconnector.Reaches (shared : Reconnector) (handle : Nat) : Prop :=
  handle < shared.past.length ∨ handle = shared.past.length ∧ ∃ live, shared.live = some live ∧
    (live.isClosed = false → shared.stage.isServing = true)

structure Ordered (shared : Reconnector) : Prop where
  inOrder : (shared.handed ++ shared.stage.pending ++ shared.buffer.frames).Sublist shared.accepted
  numbered : shared.accepted.Pairwise (fun earlier later => earlier.call < later.call)
  calls : ∀ frame ∈ shared.accepted, frame.call < shared.calls
  ahead : ∀ busy, shared.producer.frame = some busy →
    busy.call < shared.calls ∧ ∀ frame ∈ shared.accepted, frame.call < busy.call
  pastClosed : ∀ connection ∈ shared.past, connection.isClosed = true
  suits : shared.stage.Suits shared.live shared.buffer.frames
  current : ∀ handle, shared.current = some handle → shared.Reaches handle
  held : ∀ frame handle, shared.producer = .holding frame (some handle) → shared.Reaches handle
  connected : shared.link = .connected → shared.stage.isLinked = true

theorem ordered_start (capacity : Nat) (policy : OverflowPolicy) :
    Ordered (start capacity policy) := by
  constructor
  · exact nil_sublist _
  · exact List.Pairwise.nil
  all_goals exact nofun

/-- Pushing keeps some of the buffered frames and puts the new one, if at all, behind
them. -/
theorem push_sublist (buffer : ReconnectBuffer) (frame : Frame) :
    (buffer.push frame).2.frames.Sublist (buffer.frames ++ [frame]) := by
  have keep : buffer.frames.Sublist (buffer.frames ++ [frame]) := sublist_append_left _ _
  unfold ReconnectBuffer.push
  split
  · cases buffer.policy with
    | reject | dropNewest => exact keep
    | dropOldest =>
      cases held : buffer.frames with
      | nil => exact nil_sublist _
      | cons =>
        exact sublist_cons_self _ _
  · exact List.Sublist.refl _

variable {stage : Stage} {frame : Frame} {failure : Mux.TransportError}
  {found changed connection live : Connection}

theorem push_error {buffer after : ReconnectBuffer}
    (refused : buffer.push frame = (.error failure,after)) : after.frames = buffer.frames := by
  unfold ReconnectBuffer.push at refused
  split at refused
  · cases policy : buffer.policy with
    | reject =>
      rw [policy] at refused
      rw [← (Prod.mk.inj refused).2]
    | dropNewest =>
      rw [policy] at refused
      cases (Prod.mk.inj refused).1
    | dropOldest =>
      rw [policy] at refused
      dsimp only at refused
      split at refused
      · cases (Prod.mk.inj refused).1
      · cases (Prod.mk.inj refused).1
  · cases (Prod.mk.inj refused).1

/-- Putting frames back into an empty buffer keeps their order. -/
theorem foldl_push_sublist (frames : List Frame) (buffer : ReconnectBuffer) :
    (frames.foldl (fun buffer frame => (buffer.push frame).2) buffer).frames.Sublist
      (buffer.frames ++ frames) := by
  induction frames generalizing buffer with
  | nil =>
    rw [append_nil]
    exact List.Sublist.refl _
  | cons frame rest ih =>
    have first := push_sublist buffer frame
    have whole := (ih (buffer.push frame).2).trans (first.append (List.Sublist.refl rest))
    rw [append_assoc] at whole
    exact whole

variable {handle : Nat}

theorem flatMap_set {connections : List Connection}
    (there : connections[handle]? = some found) (same : changed.handed = found.handed) :
    (connections.set handle changed).flatMap Connection.handed =
      connections.flatMap Connection.handed := by
  induction connections generalizing handle with
  | nil => rfl
  | cons first rest ih =>
    cases handle with
    | zero =>
      obtain rfl := Option.some.inj there
      rw [set_cons_zero,List.flatMap_cons,List.flatMap_cons,same]
    | succ =>
      rw [set_cons_succ,List.flatMap_cons,List.flatMap_cons,ih there]

theorem open_of_open (stays : found.isClosed = true → changed.isClosed = true)
    (open_ : changed.isClosed = false) : found.isClosed = false :=
  Bool.eq_false_iff.mpr fun closed => Bool.eq_false_iff.mp open_ (stays closed)

namespace Stage.Suits

variable {newest : Option Connection} {frames : List Frame}

theorem touch (suits : stage.Suits (some found) frames)
    (stays : found.isClosed = true → changed.isClosed = true) :
    stage.Suits (some changed) frames := by
  cases stage with
  | established => rfl
  | flushing => exact ⟨rfl,suits.2⟩
  | flushed | installed | pumping =>
    obtain ⟨_,same,empty⟩ := suits
    cases same
    exact ⟨changed,rfl,fun open_ => empty (open_of_open stays open_)⟩
  | dialling | lost | backoff | stopped =>
    intro _ same
    cases same
    exact stays (suits found rfl)

theorem serving (suits : stage.Suits newest frames) (served : stage.isServing = true) :
    stage.pending = [] ∧
      ∃ live, newest = some live ∧ (live.isClosed = false → frames = []) := by
  cases stage with
  | installed | pumping => exact ⟨rfl,suits⟩
  | _ => cases served

/-- At a quiet moment anything may be in the buffer. -/
theorem quiet {shared : Reconnector} (suits : shared.stage.Suits shared.live frames)
    (quiet : shared.isQuiet = true) (others : List Frame) :
    shared.stage.Suits shared.live others := by
  unfold isQuiet at quiet
  cases stage : shared.stage with
  | dialling | established | lost | backoff | stopped =>
    rw [stage] at suits
    exact suits
  | flushing =>
    rw [stage] at quiet
    cases quiet
  | flushed | installed | pumping =>
    rw [stage] at suits quiet
    obtain ⟨live,same,_⟩ := suits
    rw [same] at quiet
    have closed : live.isClosed = true := quiet
    exact ⟨live,same,fun open_ => absurd (closed.symm.trans open_) Bool.noConfusion⟩

end Stage.Suits

variable {shared : Reconnector}

theorem queueControlMetered_ok (taken : connection.queueControlMetered frame = .ok changed) :
    connection.isClosed = false ∧ changed.handed = connection.handed ++ [frame] := by
  unfold Connection.queueControlMetered at taken
  cases open_ : connection.closeReason with
  | some =>
    rw [open_] at taken
    cases taken
  | none =>
    rw [open_] at taken
    dsimp only at taken
    split at taken
    · cases taken
      refine ⟨?_,rfl⟩
      rw [Connection.isClosed,open_]
      rfl
    · cases taken

theorem trySend_ok (taken : connection.trySend frame = .ok changed) :
    connection.queueControlMetered frame = .ok changed := by
  unfold Connection.trySend at taken
  split at taken
  · cases taken
  · exact taken

theorem handed_live (newest : shared.live = some live)
    (longer : changed.handed = live.handed ++ [frame]) :
    handed { shared with live := some changed } = shared.handed ++ [frame] := by
  unfold handed
  rw [newest]
  simp [longer]

/-- What is flushed into an open connection fits it. -/
theorem closed_of_refused {rest : List Frame} (stage : shared.stage = .flushing (frame :: rest))
    (newest : shared.live = some live) (orderly : Step.orderly shared .flushNext = true)
    (refused : live.queueControlMetered frame = .error failure) : live.isClosed = true := by
  unfold Step.orderly at orderly
  rw [stage,newest] at orderly
  unfold Connection.queueControlMetered at refused
  cases reason : live.closeReason with
  | some =>
    rw [Connection.isClosed,reason]
    rfl
  | none =>
    rw [reason] at refused
    simp only [Option.all_some,Connection.isClosed,reason,Option.isSome_none,
      Bool.false_or] at orderly
    rw [if_pos orderly] at refused
    cases refused

section

variable (ordered : Ordered shared)
include ordered

theorem Ordered.touch (there : shared.connection handle = some found)
    (same : changed.handed = found.handed) (stays : found.isClosed = true → changed.isClosed = true) :
    Ordered (shared.setConnection handle changed) := by
  unfold connection at there
  unfold setConnection
  by_cases newest : handle = shared.past.length
  · rw [if_pos newest] at there ⊢
    have handed : handed { shared with live := some changed } = shared.handed := by
      unfold handed
      rw [there]
      simp [same]
    have reaches : ∀ other, shared.Reaches other →
        Reaches { shared with live := some changed } other := by
      rintro other (earlier | ⟨last,live,equal,serving⟩)
      · exact .inl earlier
      · cases there.symm.trans equal
        exact .inr ⟨last,changed,rfl,fun open_ => serving (open_of_open stays open_)⟩
    exact { ordered with
      inOrder := handed ▸ ordered.inOrder
      suits := (there ▸ ordered.suits).touch stays
      current := fun other reads => reaches other (ordered.current other reads)
      held := fun frame other holding => reaches other (ordered.held frame other holding) }
  · rw [if_neg newest] at there ⊢
    have handed : handed { shared with past := shared.past.set handle changed } =
        shared.handed := by
      unfold handed
      rw [List.flatMap_append,List.flatMap_append,flatMap_set there same]
    have reaches : Reaches { shared with past := shared.past.set handle changed } =
        shared.Reaches := by
      funext other
      simp only [Reaches,length_set]
    refine { ordered with
      inOrder := handed ▸ ordered.inOrder
      pastClosed := fun connection mem => ?_
      current := reaches ▸ ordered.current
      held := reaches ▸ ordered.held }
    rcases mem_or_eq_of_mem_set mem with earlier | equal
    · exact ordered.pastClosed connection earlier
    · rw [equal]
      exact stays (ordered.pastClosed found (mem_of_getElem? there))

/-! ### The producer's steps -/

theorem Ordered.call (kind : Mux.FrameKind) (payload : Mux.Bytes) :
    Ordered (shared.perform (.call kind payload)) := by
  unfold Reconnector.perform
  cases producing : shared.producer with
  | holding | diverting => exact ordered
  | idle =>
    refine { ordered with
      calls := fun frame mem => Nat.lt_succ_of_lt (ordered.calls frame mem)
      ahead := fun busy equal => ?_
      held := fun frame handle holding => ordered.current handle (Producer.holding.inj holding).2 }
    obtain rfl := Option.some.inj equal
    exact ⟨Nat.lt_succ_self _,ordered.calls⟩

/-- A call that goes on to the buffer, or fails. -/
theorem Ordered.goesOn {next : Producer}
    (same : ∀ busy, next.frame = some busy → shared.producer.frame = some busy)
    (released : ∀ frame handle, next ≠ .holding frame handle) :
    Ordered { shared with producer := next } :=
  { ordered with
    ahead := fun busy equal => ordered.ahead busy (same busy equal)
    held := fun frame handle holding => absurd holding (released frame (some handle)) }

theorem numbered_push (busy : shared.producer.frame = some frame) :
    (shared.accepted ++ [frame]).Pairwise (fun earlier later => earlier.call < later.call) ∧
      ∀ other ∈ shared.accepted ++ [frame], other.call < shared.calls := by
  obtain ⟨below,ahead⟩ := ordered.ahead frame busy
  constructor
  · refine pairwise_append.mpr ⟨ordered.numbered,pairwise_singleton _ _,?_⟩
    intro earlier mem _ last
    rw [mem_singleton.mp last]
    exact ahead earlier mem
  · exact forall_mem_append.mpr ⟨ordered.calls,forall_mem_singleton.mpr below⟩

/-- A direct send: the connection is open, so it is the one in use and nothing is
buffered. -/
theorem Ordered.sends (holding : shared.producer = .holding frame (some handle))
    (there : shared.connection handle = some found)
    (taken : found.trySend frame = .ok changed) :
    Ordered ((shared.setConnection handle changed).accept frame) := by
  obtain ⟨wasOpen,longer⟩ := queueControlMetered_ok (trySend_ok taken)
  unfold connection at there
  rcases ordered.held frame handle holding with earlier | ⟨last,live,newest,serving⟩
  · rw [if_neg (Nat.ne_of_lt earlier)] at there
    have closed := ordered.pastClosed found (mem_of_getElem? there)
    exact absurd (wasOpen.symm.trans closed) Bool.false_ne_true
  · rw [if_pos last] at there
    cases newest.symm.trans there
    unfold setConnection accept
    rw [if_pos last]
    have serving := serving wasOpen
    obtain ⟨silent,_,equal,empty⟩ := ordered.suits.serving serving
    cases newest.symm.trans equal
    have before := ordered.inOrder
    rw [silent,empty wasOpen,append_nil,append_nil] at before
    obtain ⟨numbered,calls⟩ := numbered_push ordered (by rw [holding]; rfl)
    refine { ordered with
      inOrder := ?_
      numbered := numbered
      calls := calls
      ahead := nofun
      suits := (newest ▸ ordered.suits).touch fun closed =>
        absurd (wasOpen.symm.trans closed) Bool.false_ne_true
      current := fun other reads => (ordered.current other reads).imp_right fun ⟨place,_⟩ =>
        ⟨place,changed,rfl,fun _ => serving⟩
      held := nofun }
    rw [show handed { shared with
        live := some changed
        producer := .idle
        accepted := shared.accepted ++ [frame] } = shared.handed ++ [frame] from
      handed_live newest longer,silent,empty wasOpen,append_nil,append_nil]
    exact before.append (List.Sublist.refl _)

theorem Ordered.attempt : Ordered shared.attempt := by
  unfold Reconnector.attempt
  cases producing : shared.producer with
  | idle | diverting => exact ordered
  | holding frame handle =>
    have on : Ordered { shared with producer := .diverting frame } := by
      apply ordered.goesOn
      · intro _ equal
        rw [producing]
        exact equal
      · exact nofun
    cases handle with
    | none => exact on
    | some handle =>
      dsimp only
      cases there : shared.connection handle with
      | none => exact on
      | some =>
        dsimp only
        split
        · rename_i changed taken
          exact ordered.sends producing there taken
        · exact on
        · exact on
        · exact ordered.goesOn nofun nofun

theorem Ordered.divert (orderly : Step.orderly shared .divert = true) : Ordered shared.divert := by
  unfold Reconnector.divert
  cases producing : shared.producer with
  | idle | holding => exact ordered
  | diverting frame =>
    unfold Step.orderly at orderly
    rw [producing] at orderly
    have ends {buffer : ReconnectBuffer} {accepted : List Frame}
        (inOrder : (shared.handed ++ shared.stage.pending ++ buffer.frames).Sublist accepted)
        (numbered : accepted.Pairwise fun earlier later => earlier.call < later.call)
        (calls : ∀ other ∈ accepted, other.call < shared.calls) :
        Ordered { shared with buffer := buffer, producer := .idle, accepted := accepted } :=
      { ordered with
        inOrder := inOrder
        numbered := numbered
        calls := calls
        ahead := nofun
        suits := ordered.suits.quiet orderly _
        held := nofun }
    dsimp only
    have pushed := push_sublist shared.buffer frame
    cases outcome : shared.buffer.push frame with
    | mk result =>
      rw [outcome] at pushed
      cases result with
      | error =>
        have frames := push_error outcome
        exact ends (frames ▸ ordered.inOrder) ordered.numbered ordered.calls
      | ok _ =>
        obtain ⟨numbered,calls⟩ := numbered_push ordered (by rw [producing]; rfl)
        have longer := ordered.inOrder.append (List.Sublist.refl [frame])
        rw [append_assoc] at longer
        exact ends (((List.Sublist.refl _).append pushed).trans longer) numbered calls

/-! ### The supervisor's steps -/

theorem Ordered.off (apart : shared.stage.isLinked = false) : shared.link ≠ .connected :=
  fun on => absurd (apart.symm.trans (ordered.connected on)) Bool.false_ne_true

/-- A new stage for the same connections: whoever could try one still can where the stages it
is served in go on. -/
theorem Ordered.moves {link : LinkState} {buffer : ReconnectBuffer} {current : Option Nat}
    (inOrder : (shared.handed ++ stage.pending ++ buffer.frames).Sublist shared.accepted)
    (suits : stage.Suits shared.live buffer.frames)
    (serving : ∀ live, shared.live = some live → live.isClosed = false →
      shared.stage.isServing = true → stage.isServing = true)
    (reads : ∀ handle, current = some handle → shared.current = some handle ∨
      handle = shared.past.length ∧ stage.isServing = true)
    (on : link = .connected → stage.isLinked = true) :
    Ordered { shared with current := current, buffer := buffer, link := link, stage := stage } := by
  have reaches : ∀ other, shared.Reaches other → Reaches
      { shared with current := current, buffer := buffer, link := link, stage := stage } other := by
    rintro other (earlier | ⟨last,live,newest,served⟩)
    · exact .inl earlier
    · exact .inr ⟨last,live,newest,fun open_ => serving live newest open_ (served open_)⟩
  refine { ordered with
    inOrder := inOrder
    suits := suits
    current := fun handle read => ?_
    held := fun frame handle holding => reaches handle (ordered.held frame handle holding)
    connected := on }
  rcases reads handle read with old | ⟨last,served⟩
  · exact reaches handle (ordered.current handle old)
  · obtain ⟨_,live,newest,_⟩ := suits.serving served
    exact .inr ⟨last,live,newest,fun _ => served⟩

/-- The same, out of a stage in which no connection is served. -/
theorem Ordered.restages {link : LinkState} {buffer : ReconnectBuffer}
    (notServing : shared.stage.isServing = false)
    (inOrder : (shared.handed ++ stage.pending ++ buffer.frames).Sublist shared.accepted)
    (suits : stage.Suits shared.live buffer.frames) (off : link ≠ .connected) :
    Ordered { shared with buffer := buffer, link := link, stage := stage } :=
  ordered.moves inOrder suits
    (fun _ _ _ serving => absurd (notServing.symm.trans serving) Bool.false_ne_true)
    (fun _ => .inl) fun on => absurd on off

theorem Ordered.connect (dialling : shared.stage = .dialling) (depth maxPayload : Nat) : Ordered
      { shared with
        past := shared.past ++ shared.live.toList
        live := some (Connection.new depth maxPayload)
        stage := .established } := by
  have closed := ordered.suits
  rw [dialling] at closed
  have reaches : ∀ other, shared.Reaches other →
      other < (shared.past ++ shared.live.toList).length := by
    rintro other (earlier | ⟨last,live,newest,_⟩)
    · rw [length_append]
      exact Nat.lt_add_right _ earlier
    · rw [length_append,last,newest]
      exact Nat.lt_succ_self _
  refine { ordered with
    inOrder := ?_
    pastClosed := forall_mem_append.mpr ⟨ordered.pastClosed,fun connection last =>
      closed connection (Option.mem_toList.mp last)⟩
    suits := rfl
    current := fun handle reads => .inl (reaches handle (ordered.current handle reads))
    held := fun frame handle holding => .inl (reaches handle (ordered.held frame handle holding))
    connected := fun on => absurd on (ordered.off (by rw [dialling]; rfl)) }
  have before := ordered.inOrder
  rw [dialling] at before
  unfold handed at before ⊢
  simpa [Connection.new,Stage.pending] using before

/-- A flush hands over its next frame, ends, or gives up and puts the rest back. -/
theorem Ordered.flushNext (orderly : Step.orderly shared .flushNext = true) :
    Ordered shared.flushNext := by
  unfold Reconnector.flushNext
  cases stage : shared.stage with
  | flushing pending =>
    have notServing : shared.stage.isServing = false := by rw [stage]; rfl
    have off : shared.link ≠ .connected := ordered.off (by rw [stage]; rfl)
    have suits := ordered.suits
    have before := ordered.inOrder
    rw [stage] at suits before
    obtain ⟨present,empty⟩ := suits
    obtain ⟨live,newest⟩ := Option.isSome_iff_exists.mp present
    rw [empty,append_nil] at before
    cases pending with
    | nil =>
      refine ordered.restages notServing ?_ ⟨live,newest,fun _ => empty⟩ off
      rw [empty,append_nil]
      exact before
    | cons frame rest =>
      rw [newest]
      dsimp only
      split
      · exact ordered
      · split
        · rename_i changed taken
          obtain ⟨wasOpen,longer⟩ := queueControlMetered_ok taken
          have reaches : ∀ other, shared.Reaches other → other < shared.past.length := by
            rintro other (earlier | ⟨_,_,equal,serving⟩)
            · exact earlier
            · cases newest.symm.trans equal
              exact absurd (notServing.symm.trans (serving wasOpen)) Bool.false_ne_true
          refine { ordered with
            inOrder := ?_
            suits := ⟨rfl,empty⟩
            current := fun handle reads => .inl (reaches handle (ordered.current handle reads))
            held := fun frame handle holding =>
              .inl (reaches handle (ordered.held frame handle holding))
            connected := fun on => absurd on off }
          change (handed { shared with live := some changed } ++ rest ++ _).Sublist _
          rw [handed_live newest longer,empty,append_nil,append_assoc]
          exact before
        · rename_i failure refused
          have closed := closed_of_refused stage newest orderly refused
          have back := foldl_push_sublist (frame :: rest) shared.buffer
          rw [empty,nil_append] at back
          refine newest ▸ ordered.restages notServing ?_ ⟨live,newest,fun open_ =>
            absurd (closed.symm.trans open_) Bool.noConfusion⟩ off
          change (shared.handed ++ [] ++ _).Sublist shared.accepted
          rw [append_nil]
          exact ((List.Sublist.refl _).append back).trans before
  | _ => exact ordered

/-! ### Runs -/

theorem Ordered.perform (step : Step) (orderly : step.orderly shared = true) :
    Ordered (shared.perform step) := by
  have suits := ordered.suits
  have before := ordered.inOrder
  cases step with
  | call kind payload => exact ordered.call kind payload
  | attempt => exact ordered.attempt
  | divert => exact ordered.divert orderly
  | flushNext => exact ordered.flushNext orderly
  | connect depth maxPayload =>
    dsimp only [Reconnector.perform]
    split
    · rename_i dialling
      exact ordered.connect dialling depth maxPayload
    · exact ordered
  | dialFailed | backOff | retry =>
    dsimp only [Reconnector.perform]
    split
    · rename_i waiting
      rw [waiting] at suits before
      exact ordered.restages (by rw [waiting]; rfl) before suits LinkState.noConfusion
    · exact ordered
  | drain =>
    dsimp only [Reconnector.perform]
    split
    · rename_i established
      rw [established] at suits before
      refine ordered.restages (by rw [established]; rfl) ?_ ⟨suits,rfl⟩
        (ordered.off (by rw [established]; rfl))
      rw [show Stage.established.pending = [] from rfl,append_nil] at before
      change (shared.handed ++ shared.buffer.frames ++ []).Sublist shared.accepted
      rw [append_nil]
      exact before
    · exact ordered
  | install =>
    dsimp only [Reconnector.perform]
    split
    · rename_i flushed
      rw [flushed] at suits before
      exact ordered.moves before suits (fun _ _ _ _ => rfl)
        (fun _ read => .inr ⟨(Option.some.inj read).symm,rfl⟩)
        fun on => absurd on (ordered.off (by rw [flushed]; rfl))
    · exact ordered
  | connected =>
    dsimp only [Reconnector.perform]
    split
    · rename_i installed
      rw [installed] at suits before
      exact ordered.moves before suits (fun _ _ _ _ => rfl) (fun _ => .inl) fun _ => rfl
    · exact ordered
  | disconnect =>
    dsimp only [Reconnector.perform]
    split
    · rename_i pumping
      split
      · rename_i dead
        have closed : ∀ live, shared.live = some live → live.isClosed = true := by
          intro _ newest
          rw [newest] at dead
          exact dead
        rw [pumping] at before
        exact ordered.moves before closed
          (fun live newest open_ => absurd ((closed live newest).symm.trans open_) Bool.noConfusion)
          nofun fun _ => rfl
      · exact ordered
    · exact ordered
  | giveUp =>
    dsimp only [Reconnector.perform]
    split
    · rename_i waiting
      rw [waiting] at suits before
      exact ordered.restages (by rw [waiting]; rfl)
        (((List.Sublist.refl _).append (nil_sublist _)).trans before) suits LinkState.noConfusion
    · exact ordered
  | release =>
    dsimp only [Reconnector.perform]
    split
    · rename_i found there
      exact ordered.touch there rfl (fun closed => closed)
    · exact ordered
  | close =>
    dsimp only [Reconnector.perform]
    split
    · rename_i found there
      refine ordered.touch there rfl fun closed => ?_
      obtain ⟨_,was⟩ := Option.isSome_iff_exists.mp closed
      rw [Connection.isClosed,was]
      rfl
    · exact ordered

theorem Ordered.run {steps : List Step} (orderly : orderlyRun shared steps = true) :
    Ordered (shared.run steps) := by
  induction steps generalizing shared with
  | nil => exact ordered
  | cons step steps ih =>
    obtain ⟨now,later⟩ := Bool.and_eq_true_iff.mp orderly
    exact ih (ordered.perform step now) later

end

/-- In every orderly run the connections are handed accepted frames in the order of
the calls, none twice, and a connected link whose connection is open has nothing left
in the buffer. -/
theorem frames_in_order (capacity : Nat) (policy : OverflowPolicy) (steps : List Step)
    (orderly : orderlyRun (Reconnector.start capacity policy) steps = true) :
    ((Reconnector.start capacity policy).run steps).handed.Sublist
        ((Reconnector.start capacity policy).run steps).accepted ∧
      ((Reconnector.start capacity policy).run steps).accepted.Pairwise
        (fun earlier later => earlier.call < later.call) ∧
      (((Reconnector.start capacity policy).run steps).link = .connected →
        ∀ live, ((Reconnector.start capacity policy).run steps).live = some live →
          live.isClosed = false →
          ((Reconnector.start capacity policy).run steps).buffer.frames = []) := by
  have ordered := (ordered_start capacity policy).run orderly
  generalize (start capacity policy).run steps = shared at ordered ⊢
  refine ⟨?_,ordered.numbered,?_⟩
  · have before := ordered.inOrder
    rw [append_assoc] at before
    exact (sublist_append_left _ _).trans before
  · intro connected live newest open_
    have linked := ordered.connected connected
    have suits := ordered.suits
    cases stage : shared.stage with
    | pumping =>
      rw [stage] at suits
      obtain ⟨_,same,empty⟩ := suits
      cases newest.symm.trans same
      exact empty open_
    | lost =>
      rw [stage] at suits
      exact absurd ((suits live newest).symm.trans open_) Bool.noConfusion
    | _ =>
      rw [stage] at linked
      cases linked

def send : List Step := [.call .daemonEvent [1,2,3],.attempt,.divert]

/-- A frame buffered before the link comes up, and one sent over it. -/
def sampleSteps : List Step :=
  send ++ [.connect 4 64,.drain,.flushNext,.flushNext,.install,.connected] ++ send

theorem frames_in_order_sample : ((Reconnector.start 8 .reject).run sampleSteps).handed.Sublist
        ((Reconnector.start 8 .reject).run sampleSteps).accepted ∧
      ((Reconnector.start 8 .reject).run sampleSteps).accepted.Pairwise
        (fun earlier later => earlier.call < later.call) ∧
      (((Reconnector.start 8 .reject).run sampleSteps).link = .connected →
        ∀ live, ((Reconnector.start 8 .reject).run sampleSteps).live = some live →
          live.isClosed = false →
          ((Reconnector.start 8 .reject).run sampleSteps).buffer.frames = []) :=
  frames_in_order 8 .reject sampleSteps (by decide +kernel)

/-- A frame sent while the flush is running stays in the buffer of the connected link;
the frame sent after it goes out first, and the stranded one follows on the next
connection. -/
theorem stranded_frame_overtaken :
    let up : List Step := [.connect 4 64,.drain]
    let through : List Step := [.flushNext,.flushNext,.install,.connected]
    let shared := (start 8 .reject).run (send ++ up ++ send ++ through)
    let later := shared.run (send ++ [.close 0 .eof,.disconnect,.backOff,.retry] ++ up ++ through)
    shared.link = .connected ∧ shared.buffer.frames.map Frame.call = [1] ∧
      shared.live.map Connection.isClosed = some false ∧
      later.accepted.map Frame.call = [0,1,2] ∧ later.handed.map Frame.call = [0,2,1] := by
  decide +kernel

end Astrs.Reconnect
