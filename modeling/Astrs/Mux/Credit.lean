/-
The credit protocol of one route, apart from the multiplexer that carries it.

The opener announces a window, the peer accepts or refuses it, and from then on each end
spends credit on data and gives back what its application consumes.  While the route is
open at both ends the window is exactly divided between the sender's credit, the data and
grants on their way, and what the receiver holds.
-/

import Astrs.Mux.State

namespace Astrs.Mux

open List

/-- The frames of one route, reduced to what the accounts read. -/
inductive Signal where
  | data
  | announce (window : Nat)
  | accept (window : Nat)
  | refuse
  | close
  | credit (delta : Nat)
  deriving DecidableEq

structure Account where
  credit : Nat
  window : Nat
  consumed : Nat
  capacity : Nat
  buffered : Nat
  deriving DecidableEq

def Account.fresh (window : Nat) : Account :=
  { credit := window, window := window, consumed := 0, capacity := max window 1, buffered := 0 }

/-- One end of a route: its account while the route is open there, and the signals
it has queued and not yet put on the link. -/
structure RouteEnd where
  account : Option Account
  pending : List Signal

namespace RouteEnd

/-- What an end does by itself, and the signals it puts on its link. -/
inductive Acts : RouteEnd → List Signal → RouteEnd → Prop
  | emit (account : Option Account) (signal : Signal) (pending : List Signal) :
      Acts ⟨account,signal :: pending⟩ [signal] ⟨account,pending⟩
  | spend (account : Account) (pending : List Signal) (funded : 0 < account.credit) :
      Acts ⟨some account,pending⟩ [.data]
        ⟨some { account with credit := account.credit - 1 },pending⟩
  | consume (account : Account) (pending : List Signal) {left : Nat}
      (holds : account.buffered = left + 1)
      (below : saturatingAdd account.consumed 1 < max account.window 1) :
      Acts ⟨some account,pending⟩ [] ⟨some { account with
          buffered := left
          consumed := saturatingAdd account.consumed 1 },pending⟩
  | grant (account : Account) (pending : List Signal) {left : Nat}
      (holds : account.buffered = left + 1) :
      Acts ⟨some account,pending⟩ [] ⟨some { account with buffered := left, consumed := 0 },
          pending ++ [.credit (saturatingAdd account.consumed 1)]⟩

inductive Absorbs : RouteEnd → Signal → RouteEnd → Prop
  | stray (pending : List Signal) {signal : Signal} (plain : ∀ window, signal ≠ .announce window) :
      Absorbs ⟨none,pending⟩ signal ⟨none,pending⟩
  | buffer (account : Account) (pending : List Signal)
      (room : account.buffered < account.capacity) :
      Absorbs ⟨some account,pending⟩ .data
        ⟨some { account with buffered := account.buffered + 1 },pending⟩
  | overrun (account : Account) (pending : List Signal)
      (full : account.capacity ≤ account.buffered) :
      Absorbs ⟨some account,pending⟩ .data ⟨none,pending ++ [.close]⟩
  | join (pending : List Signal) {window granted : Nat}
      (asked : window ≠ 0 → granted = window) :
      Absorbs ⟨none,pending⟩ (.announce window)
        ⟨some (Account.fresh granted),pending ++ [.accept granted]⟩
  | reject (account : Option Account) (pending : List Signal) (window : Nat) :
      Absorbs ⟨account,pending⟩ (.announce window) ⟨account,pending ++ [.refuse,.close]⟩
  | confirm (account : Account) (pending : List Signal) (window : Nat) :
      Absorbs ⟨some account,pending⟩ (.accept window) ⟨some { account with
          credit := min account.credit window
          window := max window 1 },pending⟩
  | refuse (account : Account) (pending : List Signal) :
      Absorbs ⟨some account,pending⟩ .refuse ⟨none,pending⟩
  | close (account : Account) (pending : List Signal) :
      Absorbs ⟨some account,pending⟩ .close ⟨none,pending⟩
  | credit (account : Account) (pending : List Signal) (delta : Nat) :
      Absorbs ⟨some account,pending⟩ (.credit delta)
        ⟨some { account with credit := saturatingAdd account.credit delta },pending⟩

end RouteEnd

/-! ### An open route -/

def dataCount (signals : List Signal) : Nat := signals.count .data

/-- The credit that queued or flying grants carry. -/
def granted : List Signal → Nat
  | [] => 0
  | .credit delta :: rest => delta + granted rest
  | _ :: rest => granted rest

/-- The signals an end queues while a route is open at both ends. -/
def Signal.Answers (window : Nat) (signal : Signal) : Prop :=
  signal = .accept window ∨ ∃ delta, signal = .credit delta

def Signal.Flows (window : Nat) (signal : Signal) : Prop :=
  signal = .data ∨ signal.Answers window

@[simp] theorem dataCount_nil : dataCount [] = 0 := rfl

@[simp] theorem dataCount_append (front back : List Signal) :
    dataCount (front ++ back) = dataCount front + dataCount back :=
  count_append

@[simp] theorem dataCount_data (rest : List Signal) :
    dataCount (.data :: rest) = dataCount rest + 1 :=
  count_cons_self

@[simp] theorem dataCount_accept (window : Nat) (rest : List Signal) :
    dataCount (.accept window :: rest) = dataCount rest :=
  count_cons_of_ne (by simp)

@[simp] theorem dataCount_credit (delta : Nat) (rest : List Signal) :
    dataCount (.credit delta :: rest) = dataCount rest :=
  count_cons_of_ne (by simp)

@[simp] theorem granted_nil : granted [] = 0 := rfl

@[simp] theorem granted_data (rest : List Signal) : granted (.data :: rest) = granted rest := rfl

@[simp] theorem granted_accept (window : Nat) (rest : List Signal) :
    granted (.accept window :: rest) = granted rest := rfl

@[simp] theorem granted_credit (delta : Nat) (rest : List Signal) :
    granted (.credit delta :: rest) = delta + granted rest := rfl

@[simp] theorem granted_append (front back : List Signal) :
    granted (front ++ back) = granted front + granted back := by
  induction front with
  | nil => simp
  | cons signal front ih =>
    cases signal with
    | credit =>
      rw [cons_append,granted_credit,granted_credit,ih,Nat.add_assoc]
    | _ => exact ih

/-- Everything one direction's window is divided into: the sender's credit, the data
in flight, what the receiver buffers and has consumed, and the grants on the way
back. -/
def divided (sender : Account) (out : List Signal) (receiver : Account)
    (pending back : List Signal) : Nat :=
  sender.credit + dataCount out + receiver.buffered + receiver.consumed + granted pending +
    granted back

structure Account.Settled (account : Account) (window : Nat) : Prop where
  window_eq : account.window = window
  capacity_eq : account.capacity = window
  consumed_lt : account.consumed < window

/-- One end of a route that is open at both. -/
structure Half (window : Nat) (own : Account) (pending : List Signal) (other : Account)
    (waiting out back : List Signal) : Prop where
  settled : own.Settled window
  answers : ∀ signal ∈ pending, signal.Answers window
  flows : ∀ signal ∈ out, signal.Flows window
  whole : divided own out other waiting back = window

/-- A route open at both ends, seen from one of them. -/
def Shared (window : Nat) (own : Account) (pending : List Signal) (other : Account)
    (waiting out back : List Signal) : Prop :=
  Half window own pending other waiting out back ∧ Half window other waiting own pending back out

namespace Shared

variable {window : Nat} {own other : Account} {pending waiting out back : List Signal}

theorem symm (shared : Shared window own pending other waiting out back) :
    Shared window other waiting own pending back out := And.symm shared

theorem saturatingAdd_of_le {left right : Nat} (fits : left + right ≤ u32Max) :
    saturatingAdd left right = left + right :=
  Nat.min_eq_left fits

theorem flows_push {signals : List Signal} (flows : ∀ signal ∈ signals, signal.Flows window)
    {last : Signal} (flow : last.Flows window) :
    ∀ signal ∈ signals ++ [last], signal.Flows window :=
  forall_mem_append.mpr ⟨flows,forall_mem_singleton.mpr flow⟩

variable {after : RouteEnd}

/-- What an end does by itself keeps both directions divided. -/
theorem acts (bound : window ≤ u32Max) (shared : Shared window own pending other waiting out back)
    {sent : List Signal} (act : RouteEnd.Acts ⟨some own,pending⟩ sent after) :
    ∃ changed left, after = ⟨some changed,left⟩ ∧
      Shared window changed left other waiting (out ++ sent) back := by
  obtain ⟨near,far⟩ := shared
  have forward := near.whole
  have backward := far.whole
  obtain ⟨sized,roomy,below⟩ := near.settled
  have count : saturatingAdd own.consumed 1 = own.consumed + 1 :=
    saturatingAdd_of_le (below.trans_le bound)
  have pos : 0 < window := Nat.zero_lt_of_lt below
  unfold divided at forward backward
  cases act with
  | emit _ signal rest =>
    obtain ⟨answer,answers⟩ := forall_mem_cons.mp near.answers
    have moved : dataCount [signal] = 0 ∧
        granted (signal :: rest) = granted [signal] + granted rest := by
      rcases answer with rfl | ⟨delta,rfl⟩
      · simp
      · simp
    refine ⟨own,rest,rfl,⟨near.settled,answers,flows_push near.flows (.inr answer),?_⟩,
      { far with whole := ?_ }⟩
    · unfold divided
      rw [dataCount_append,moved.1]
      omega
    · unfold divided
      rw [granted_append]
      omega
  | spend =>
    refine ⟨_,pending,rfl,⟨⟨sized,roomy,below⟩,near.answers,flows_push near.flows (.inl rfl),?_⟩,
      { far with whole := ?_ }⟩
    · unfold divided
      simp only [dataCount_append,dataCount_data,dataCount_nil]
      omega
    · unfold divided
      simpa using backward
  | consume _ _ _ less =>
    rw [sized,Nat.max_eq_left pos] at less
    refine ⟨_,pending,rfl,⟨⟨sized,roomy,less⟩,near.answers,?_,?_⟩,{ far with whole := ?_ }⟩
    · rw [append_nil]
      exact near.flows
    · rw [append_nil]
      exact forward
    · unfold divided
      rw [append_nil]
      dsimp only
      omega
  | grant =>
    refine ⟨_,_,rfl,⟨⟨sized,roomy,pos⟩,?_,?_,?_⟩,{ far with whole := ?_ }⟩
    · exact forall_mem_append.mpr ⟨near.answers,forall_mem_singleton.mpr (.inr ⟨_,rfl⟩)⟩
    · rw [append_nil]
      exact near.flows
    · rw [append_nil]
      exact forward
    · unfold divided
      simp only [append_nil,granted_append,granted_credit,granted_nil,count]
      omega

/-- The next signal on the link finds room and keeps both directions divided. -/
theorem absorbs (bound : window ≤ u32Max) {signal : Signal}
    (shared : Shared window own pending other waiting (signal :: out) back)
    (absorbed : RouteEnd.Absorbs ⟨some other,waiting⟩ signal after) :
    ∃ changed left, after = ⟨some changed,left⟩ ∧
      Shared window own pending changed left out back := by
  obtain ⟨near,far⟩ := shared
  have forward := near.whole
  have backward := far.whole
  obtain ⟨sized,roomy,below⟩ := far.settled
  obtain ⟨first,flows⟩ := forall_mem_cons.mp near.flows
  unfold divided at forward backward
  rcases first with rfl | rfl | ⟨delta,rfl⟩
  · rw [dataCount_data] at forward
    cases absorbed with
    | overrun _ _ full =>
      rw [roomy] at full
      omega
    | buffer =>
      refine ⟨_,waiting,rfl,⟨near.settled,near.answers,flows,?_⟩,⟨sized,roomy,below⟩,
        far.answers,far.flows,backward⟩
      unfold divided
      dsimp only
      omega
  · rw [dataCount_accept] at forward
    cases absorbed with
    | confirm =>
      have within : min other.credit window = other.credit := by
        apply Nat.min_eq_left
        omega
      refine ⟨_,waiting,rfl,⟨near.settled,near.answers,flows,forward⟩,
        ⟨Nat.max_eq_left (Nat.zero_lt_of_lt below),roomy,below⟩,far.answers,far.flows,?_⟩
      rw [within]
      exact backward
  · rw [dataCount_credit] at forward
    rw [granted_credit] at backward
    cases absorbed with
    | credit =>
      have sum : saturatingAdd other.credit delta = other.credit + delta := by
        apply saturatingAdd_of_le
        omega
      refine ⟨_,waiting,rfl,⟨near.settled,near.answers,flows,forward⟩,⟨sized,roomy,below⟩,
        far.answers,far.flows,?_⟩
      unfold divided
      dsimp only
      omega

/-- Data in flight has a free slot waiting for it. -/
theorem room (shared : Shared window own pending other waiting out back)
    (flying : .data ∈ out) : other.buffered < other.capacity := by
  have forward := shared.1.whole
  have some_data : 0 < dataCount out := count_pos_iff.mpr flying
  rw [shared.2.settled.capacity_eq]
  unfold divided at forward
  omega

/-- With nothing on the way and nothing buffered, the sender can send. -/
theorem funded (shared : Shared window own pending other waiting out back)
    (delivered : dataCount out = 0) (drained : other.buffered = 0)
    (returned : granted waiting + granted back = 0) : own.credit ≠ 0 := by
  have forward := shared.1.whole
  have below := shared.2.settled.consumed_lt
  unfold divided at forward
  omega

end Shared

/-! ### The life of a route -/

/-- A route between the end that opens it and its peer.  `used` records that the
opener has used the handle, `announced` that the announcement is on the link. -/
structure RouteLink where
  opener : RouteEnd
  peer : RouteEnd
  outward : List Signal
  inward : List Signal
  used : Bool
  announced : Bool

def Signal.isAnnounce : Signal → Bool
  | announce _ => true
  | _ => false

namespace RouteLink

def unused : RouteLink :=
  { opener := ⟨none,[]⟩, peer := ⟨none,[]⟩, outward := [], inward := []
    used := false, announced := false }

/-- The opener uses the handle once, and sends no data before the announcement. -/
inductive Step (window : Nat) : RouteLink → RouteLink → Prop
  | opens {link : RouteLink} {queued : List Signal} (fresh : link.used = false)
      (announces : queued = [] ∨ queued = [.announce window]) :
      Step window link
        { link with
          opener := ⟨some (Account.fresh window),link.opener.pending ++ queued⟩
          used := true }
  | fails {link : RouteLink} : Step window link { link with used := true }
  | openerActs {link : RouteLink} {sent : List Signal} {after : RouteEnd}
      (act : link.opener.Acts sent after) (ordered : .data ∈ sent → link.announced = true) :
      Step window link
        { link with
          opener := after
          outward := link.outward ++ sent
          announced := link.announced || sent.any Signal.isAnnounce }
  | peerActs {link : RouteLink} {sent : List Signal} {after : RouteEnd}
      (act : link.peer.Acts sent after) :
      Step window link { link with peer := after, inward := link.inward ++ sent }
  | peerAbsorbs {link : RouteLink} {signal : Signal} {rest : List Signal} {after : RouteEnd}
      (first : link.outward = signal :: rest) (absorbed : link.peer.Absorbs signal after) :
      Step window link { link with peer := after, outward := rest }
  | openerAbsorbs {link : RouteLink} {signal : Signal} {rest : List Signal} {after : RouteEnd}
      (first : link.inward = signal :: rest) (absorbed : link.opener.Absorbs signal after) :
      Step window link { link with opener := after, inward := rest }

/-- Where a route stands: never used, announced and not yet at the peer, open at both
ends, or gone from the peer for good. -/
inductive Phase (window : Nat) : RouteLink → Prop
  | unused : Phase window RouteLink.unused
  | queued :
      Phase window
        { opener := ⟨some (Account.fresh window),[.announce window]⟩, peer := ⟨none,[]⟩
          outward := [], inward := [], used := true, announced := false }
  | flying (credit sent : Nat) (sum : credit + sent = window) :
      Phase window
        { opener := ⟨some { Account.fresh window with credit := credit },[]⟩
          peer := ⟨none,[]⟩
          outward := .announce window :: List.replicate sent .data
          inward := [], used := true, announced := true }
  | shared {own other : Account} {pending waiting out back : List Signal}
      (balanced : Shared window own pending other waiting out back) :
      Phase window
        { opener := ⟨some own,pending⟩, peer := ⟨some other,waiting⟩
          outward := out, inward := back, used := true, announced := true }
  | spent {link : RouteLink} (used : link.used = true) (gone : link.peer.account = none)
      (silent : ∀ signal ∈ link.outward ++ link.opener.pending, signal.isAnnounce = false)
      (mute : Signal.data ∉ link.inward ++ link.peer.pending) :
      Phase window link

variable {window : Nat} {before after : RouteEnd} {signal : Signal} {link : RouteLink}

/-- The peer opens the account it was offered: the data already in flight is what the
opener has spent. -/
theorem shared_of_join {credit sent : Nat} (pos : 0 < window) (sum : credit + sent = window) :
    Shared window { Account.fresh window with credit := credit } [] (Account.fresh window)
      [.accept window] (List.replicate sent .data) [] := by
  have data : dataCount (List.replicate sent .data) = sent := count_replicate_self
  have silent : granted (List.replicate sent .data) = 0 := by
    clear sum data
    induction sent with
    | zero => rfl
    | succ _ ih => exact ih
  refine ⟨⟨⟨rfl,Nat.max_eq_left pos,pos⟩,nofun,?_,?_⟩,⟨rfl,Nat.max_eq_left pos,pos⟩,?_,nofun,?_⟩
  · intro _ mem
    exact .inl (eq_of_mem_replicate mem)
  · unfold divided
    simp only [data,granted_accept,granted_nil,Account.fresh]
    omega
  · exact forall_mem_singleton.mpr (.inl rfl)
  · unfold divided
    simp only [silent,dataCount_nil,granted_nil,Account.fresh]
    omega

theorem silent_acts {out sent : List Signal}
    (silent : ∀ signal ∈ out ++ before.pending, signal.isAnnounce = false)
    (act : before.Acts sent after) :
    ∀ signal ∈ out ++ sent ++ after.pending, signal.isAnnounce = false := by
  cases act with
  | emit =>
    rw [append_assoc]
    exact silent
  | spend =>
    intro signal mem
    rcases mem_append.mp mem with front | queued
    · rcases mem_append.mp front with earlier | last
      · exact silent signal (mem_append_left _ earlier)
      · rw [mem_singleton.mp last]
        rfl
    · exact silent signal (mem_append_right _ queued)
  | consume =>
    rw [append_nil]
    exact silent
  | grant =>
    rw [append_nil,← append_assoc]
    exact forall_mem_append.mpr ⟨silent,forall_mem_singleton.mpr rfl⟩

theorem silent_absorbs (absorbed : before.Absorbs signal after) :
    ∃ answers, after.pending = before.pending ++ answers ∧
      ∀ answer ∈ answers, answer.isAnnounce = false := by
  cases absorbed with
  | overrun => exact ⟨[.close],rfl,by simp [Signal.isAnnounce]⟩
  | join => exact ⟨[.accept _],rfl,by simp [Signal.isAnnounce]⟩
  | reject =>
    exact ⟨[.refuse,.close],rfl,by simp [Signal.isAnnounce]⟩
  | _ => exact ⟨[],(append_nil _).symm,nofun⟩

/-- An end without an account only empties its queue. -/
theorem acts_of_gone {sent : List Signal}
    (gone : before.account = none) (act : before.Acts sent after) :
    after.account = none ∧ sent ++ after.pending = before.pending := by
  cases act with
  | emit => exact ⟨gone,rfl⟩
  | spend | consume | grant => cases gone

theorem absorbs_of_gone (gone : before.account = none) (plain : signal.isAnnounce = false)
    (absorbed : before.Absorbs signal after) : after = before := by
  cases absorbed with
  | stray => rfl
  | join | reject => cases plain
  | _ => cases gone

section

variable (pos : 0 < window) (bound : window ≤ u32Max) {next : RouteLink} (phase : Phase window link)
include pos bound phase

/-- One step: every phase leads to itself or to a later one. -/
theorem Phase.step (step : Step window link next) : Phase window next := by
  cases phase with
  | unused =>
    cases step with
    | opens fresh announces =>
      rcases announces with rfl | rfl
      · exact .spent rfl rfl nofun not_mem_nil
      · exact .queued
    | fails => exact .spent rfl rfl nofun not_mem_nil
    | openerActs act | peerActs act => cases act
    | peerAbsorbs first | openerAbsorbs first => cases first
  | queued =>
    cases step with
    | opens fresh => cases fresh
    | fails => exact .queued
    | openerActs act ordered =>
      cases act with
      | emit => exact .flying window 0 rfl
      | spend => cases ordered mem_cons_self
      | consume account pending holds | grant account pending holds => cases holds
    | peerActs act => cases act
    | peerAbsorbs first | openerAbsorbs first => cases first
  | flying credit sent sum =>
    cases step with
    | opens fresh => cases fresh
    | fails => exact .flying credit sent sum
    | openerActs act =>
      cases act with
      | spend account pending funded =>
        have moved : credit - 1 + (sent + 1) = window := by
          change 0 < credit at funded
          omega
        have longer : Signal.announce window :: List.replicate sent .data ++ [.data] =
            .announce window :: List.replicate (sent + 1) .data := by
          rw [replicate_succ',cons_append]
        rw [longer]
        exact .flying (credit - 1) (sent + 1) moved
      | consume account pending holds | grant account pending holds => cases holds
    | peerActs act => cases act
    | openerAbsorbs first => cases first
    | peerAbsorbs first absorbed =>
      obtain ⟨rfl,rfl⟩ := List.cons.inj first
      cases absorbed with
      | stray pending plain => exact absurd rfl (plain window)
      | join pending asked =>
        rw [asked pos.ne']
        exact .shared (shared_of_join pos sum)
      | reject account pending _ =>
        refine .spent rfl rfl ?_ (by simp)
        intro _ mem
        rw [append_nil] at mem
        rw [eq_of_mem_replicate mem]
        rfl
  | shared balanced =>
    cases step with
    | opens fresh => cases fresh
    | fails => exact .shared balanced
    | openerActs act =>
      obtain ⟨changed,left,rfl,kept⟩ := balanced.acts bound act
      exact .shared kept
    | peerActs act =>
      obtain ⟨changed,left,rfl,kept⟩ := balanced.symm.acts bound act
      exact .shared kept.symm
    | peerAbsorbs first absorbed =>
      subst first
      obtain ⟨changed,left,rfl,kept⟩ := balanced.absorbs bound absorbed
      exact .shared kept
    | openerAbsorbs first absorbed =>
      subst first
      obtain ⟨_,_,rfl,kept⟩ := balanced.symm.absorbs bound absorbed
      exact .shared kept.symm
  | spent used gone silent mute =>
    cases step with
    | opens fresh =>
      rw [used] at fresh
      cases fresh
    | fails => exact .spent rfl gone silent mute
    | openerActs act => exact .spent used gone (silent_acts silent act) mute
    | peerActs act =>
      obtain ⟨stillGone,moved⟩ := acts_of_gone gone act
      refine .spent used stillGone silent ?_
      rw [append_assoc,moved]
      exact mute
    | @peerAbsorbs signal rest after first absorbed =>
      have plain : signal.isAnnounce = false := by
        apply silent signal
        rw [first]
        exact mem_cons_self
      rw [absorbs_of_gone gone plain absorbed]
      refine .spent used gone ?_ mute
      intro other mem
      apply silent other
      rw [first]
      exact mem_cons_of_mem signal mem
    | @openerAbsorbs signal rest after first absorbed =>
      obtain ⟨_,queued,plain⟩ := silent_absorbs absorbed
      refine .spent used gone ?_ ?_
      · intro signal mem
        rw [queued,← append_assoc] at mem
        rcases mem_append.mp mem with earlier | answer
        · exact silent signal earlier
        · exact plain signal answer
      · intro mem
        apply mute
        rw [first]
        exact mem_cons_of_mem signal mem

theorem Phase.run (steps : Relation.ReflTransGen (Step window) link next) : Phase window next := by
  induction steps with
  | refl => exact phase
  | tail _ step ih => exact ih.step pos bound step

end

theorem Phase.shared_of_open (phase : Phase window link) {own other : Account}
    (opener : link.opener.account = some own) (peer : link.peer.account = some other) :
    Shared window own link.opener.pending other link.peer.pending link.outward link.inward := by
  cases phase with
  | unused => cases opener
  | queued | flying => cases peer
  | shared balanced =>
    obtain rfl := Option.some.inj opener
    obtain rfl := Option.some.inj peer
    exact balanced
  | spent used gone =>
    rw [gone] at peer
    cases peer

theorem Phase.peer_open_of_inward (phase : Phase window link)
    (flying : .data ∈ link.inward) : link.peer.account ≠ none := by
  cases phase with
  | unused | queued | flying => cases flying
  | shared =>
    exact nofun
  | spent used gone silent mute => exact absurd (mem_append_left _ flying) mute

theorem Phase.opener_open_of_peer (phase : Phase window link)
    (held : link.peer.account ≠ none) : link.opener.account ≠ none := by
  cases phase with
  | unused | queued | flying => exact absurd rfl held
  | shared =>
    exact nofun
  | spent used gone => exact absurd gone held

end RouteLink

end Astrs.Mux
