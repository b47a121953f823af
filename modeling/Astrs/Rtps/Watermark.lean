/-
The watermark of a reader's proxy.

The watermark only moves over numbers that arrived, were declared irrelevant, or lie below
what the writer still holds.
-/

import Astrs.Rtps.Proxy

namespace Astrs.Rtps

open Astrs.Base SequenceNumber WriterProxy OrderedSet
open List hiding contains_iff
open OrderedSet (contains_iff mem_insert)

namespace WriterProxy

/-! ### Walking the watermark -/

/-- A set cut down to a watermark: it gains nothing, and loses only what the mark covers. -/
structure Trimmed (mark : Int) (before after : OrderedSet Int) : Prop where
  only : ∀ number ∈ after.elems, number ∈ before.elems
  kept : ∀ number ∈ before.elems, number ≤ mark ∨ number ∈ after.elems

section

variable (mark : Int) (set : OrderedSet Int)

theorem Trimmed.refl : Trimmed mark set set := ⟨fun _ held => held,fun _ held => .inr held⟩

theorem Trimmed.remove : Trimmed mark set (set.remove mark) where
  only := fun _ held => (mem_remove.mp held).1
  kept := by
    intro seq held
    by_cases same : seq = mark
    · exact .inl (Int.le_of_eq same)
    · exact .inr (mem_remove.mpr ⟨held,same⟩)

theorem Trimmed.retain : Trimmed mark set (set.retain fun seq => mark < seq) where
  only := fun _ held => (mem_retain.mp held).1
  kept := by
    intro seq held
    by_cases above : mark < seq
    · exact .inr (mem_retain.mpr ⟨held,decide_eq_true above⟩)
    · exact .inl (Int.not_lt.mp above)

end

theorem Trimmed.trans {early late : Int} {first second third : OrderedSet Int}
    (before : Trimmed early first second) (after : Trimmed late second third)
    (moved : early ≤ late) : Trimmed late first third where
  only := fun seq held => before.only seq (after.only seq held)
  kept := by
    intro seq held
    rcases before.kept seq held with below | kept
    · exact .inl (Int.le_trans below moved)
    · exact after.kept seq kept

/-- A watermark that moves up takes the numbers it covers out of both sets. -/
structure Moved (before after : WriterProxy) : Prop where
  acked : before.ackedThrough ≤ after.ackedThrough
  received : Trimmed after.ackedThrough before.received after.received
  irrelevant : Trimmed after.ackedThrough before.irrelevant after.irrelevant

theorem Moved.refl (proxy : WriterProxy) : Moved proxy proxy :=
  ⟨Int.le_refl _,.refl _ _,.refl _ _⟩

variable {first second third : WriterProxy}

theorem Moved.trans (before : Moved first second)
    (after : Moved second third) : Moved first third where
  acked := Int.le_trans before.acked after.acked
  received := before.received.trans after.received after.acked
  irrelevant := before.irrelevant.trans after.irrelevant after.acked

/-- What a walk over satisfied numbers may change. -/
structure Advanced (before after : WriterProxy) : Prop extends Moved before after where
  frame : after = { before with
    received := after.received
    irrelevant := after.irrelevant
    ackedThrough := after.ackedThrough }
  ranged : after.ackedThrough ≤ i64Max
  passed : ∀ number, before.ackedThrough < number → number ≤ after.ackedThrough →
    number ∈ before.received.elems ∨ number ∈ before.irrelevant.elems

variable {proxy : WriterProxy}

theorem Advanced.refl (ranged : proxy.ackedThrough ≤ i64Max) : Advanced proxy proxy where
  toMoved := .refl proxy
  frame := rfl
  ranged := ranged
  passed := by
    intro _ _ _
    omega

theorem Advanced.trans (before : Advanced first second)
    (after : Advanced second third) : Advanced first third where
  toMoved := before.toMoved.trans after.toMoved
  frame := by
    have frame := after.frame
    rw [before.frame] at frame
    exact frame
  ranged := after.ranged
  passed := by
    intro seq above below
    by_cases early : seq ≤ second.ackedThrough
    · exact before.passed seq above early
    · exact (after.passed seq (by omega) below).imp (before.received.only seq)
        (before.irrelevant.only seq)

theorem advanceOnce_cases {next : WriterProxy} (moved : proxy.advanceOnce = some next) :
    let seq := SequenceNumber.next proxy.ackedThrough
    (seq ∈ proxy.received.elems ∧
        next = { proxy with received := proxy.received.remove seq, ackedThrough := seq }) ∨
      seq ∉ proxy.received.elems ∧ seq ∈ proxy.irrelevant.elems ∧
        next = { proxy with irrelevant := proxy.irrelevant.remove seq, ackedThrough := seq } := by
  unfold advanceOnce at moved
  simp only [contains_iff] at moved ⊢
  split at moved
  · rename_i arrived
    exact .inl ⟨arrived,(Option.some.inj moved).symm⟩
  · rename_i absent
    split at moved
    · rename_i given
      exact .inr ⟨absent,given,(Option.some.inj moved).symm⟩
    · cases moved

theorem advanceOnce_advanced {next : WriterProxy} (ranged : proxy.ackedThrough ≤ i64Max)
    (moved : proxy.advanceOnce = some next) : Advanced proxy next := by
  have step : SequenceNumber.next proxy.ackedThrough = min (proxy.ackedThrough + 1) i64Max := rfl
  have only : ∀ seq, proxy.ackedThrough < seq →
      seq ≤ SequenceNumber.next proxy.ackedThrough →
      seq = SequenceNumber.next proxy.ackedThrough := by
    intro _ _ _
    omega
  have up : proxy.ackedThrough ≤ SequenceNumber.next proxy.ackedThrough := by omega
  have low : SequenceNumber.next proxy.ackedThrough ≤ i64Max := by omega
  rcases advanceOnce_cases moved with ⟨arrived,rfl⟩ | ⟨_,given,rfl⟩
  · refine ⟨⟨up,.remove _ _,.refl _ _⟩,rfl,low,?_⟩
    intro seq above below
    rw [only seq above below]
    exact .inl arrived
  · refine ⟨⟨up,.refl _ _,.remove _ _⟩,rfl,low,?_⟩
    intro seq above below
    rw [only seq above below]
    exact .inr given

theorem advanceFor_keeps {property : WriterProxy → Prop} (step : ∀ {before after : WriterProxy},
      before.advanceOnce = some after → property before → property after)
    (fuel : Nat) (holds : property proxy) : property (advanceFor fuel proxy) := by
  induction fuel generalizing proxy with
  | zero => exact holds
  | succ fuel ih =>
    unfold advanceFor
    cases moved : proxy.advanceOnce with
    | none => exact holds
    | some => exact ih (step moved holds)

theorem advanceFor_advanced (fuel : Nat) (ranged : proxy.ackedThrough ≤ i64Max) :
    Advanced proxy (advanceFor fuel proxy) :=
  advanceFor_keeps (fun moved before => before.trans (advanceOnce_advanced before.ranged moved)) fuel
    (Advanced.refl ranged)

theorem advance_advanced (ranged : proxy.ackedThrough ≤ i64Max) : Advanced proxy proxy.advance :=
  advanceFor_advanced _ ranged

/-! ### What each submessage does -/

structure Noted (numbers : List Int) (before after : WriterProxy) : Prop where
  frame : after = { before with
    irrelevant := after.irrelevant
    lastAvailable := after.lastAvailable }
  kept : ∀ number ∈ before.irrelevant.elems, number ∈ after.irrelevant.elems
  added : ∀ number ∈ after.irrelevant.elems,
    number ∈ before.irrelevant.elems ∨ number ∈ numbers ∧ before.ackedThrough < number
  announced : ∀ bound, before.lastAvailable < bound → (∀ number ∈ numbers, number < bound) →
    after.lastAvailable < bound
  complete : before.irrelevant.len + numbers.length ≤ maxTracked →
    ∀ number ∈ numbers, number ≤ before.ackedThrough ∨ number ∈ after.irrelevant.elems

theorem noteIrrelevant_noted (numbers : List Int) (proxy : WriterProxy) :
    Noted numbers proxy (noteIrrelevant numbers proxy) := by
  induction numbers generalizing proxy with
  | nil =>
    exact ⟨rfl,fun _ held => held,fun _ held => .inl held,fun _ below _ => below,
      fun _ _ none => absurd none not_mem_nil⟩
  | cons first rest ih =>
    unfold noteIrrelevant
    split
    · rename_i known
      obtain ⟨frame,kept,added,announced,complete⟩ := ih proxy
      refine ⟨frame,kept,?_,?_,?_⟩
      · intro seq held
        exact (added seq held).imp_right (.imp_left (.tail _))
      · intro bound below all
        exact announced bound below fun seq mem => all seq (.tail _ mem)
      · intro room seq mem
        rw [length_cons] at room
        rcases mem_cons.mp mem with here | later
        · subst here
          exact known.imp_right fun held => kept seq ((contains_iff _ _).mp held)
        · exact complete (by omega) seq later
    · rename_i unknown
      split
      · rename_i full
        refine ⟨rfl,fun _ held => held,fun _ held => .inl held,fun _ below _ => below,?_⟩
        intro room
        rw [length_cons] at room
        omega
      · obtain ⟨frame,kept,added,announced,complete⟩ := ih (noteAvailable
          { proxy with irrelevant := proxy.irrelevant.insert first } first)
        refine ⟨frame,?_,?_,?_,?_⟩
        · intro seq held
          exact kept seq (mem_insert.mpr (.inr held))
        · intro seq held
          rcases added seq held with here | later
          · rcases mem_insert.mp here with same | before
            · refine .inr ⟨mem_cons.mpr (.inl same),?_⟩
              rw [same]
              exact Int.not_le.mp fun below => unknown (.inl below)
            · exact .inl before
          · exact .inr ⟨.tail _ later.1,later.2⟩
        · intro bound below all
          refine announced bound ?_ fun seq mem => all seq (.tail _ mem)
          have firstBelow := all first (.head _)
          unfold noteAvailable
          split
          · exact firstBelow
          · exact below
        · intro room seq mem
          rw [length_cons] at room
          rcases mem_cons.mp mem with here | later
          · exact .inr (kept seq (mem_insert.mpr (.inl here)))
          · have grown := len_insert_le proxy.irrelevant first
            refine complete ?_ seq later
            change (proxy.irrelevant.insert first).len + _ ≤ _
            omega

theorem acceptGap_eq (proxy : WriterProxy) (gap : Gap) :
    ∃ noted, Noted gap.irrelevant { proxy with active := true } noted ∧
      proxy.acceptGap gap = noted.advance :=
  ⟨_,noteIrrelevant_noted _ _,rfl⟩

/-- A reliable proxy refuses a number, or holds it until the watermark takes it. -/
theorem acceptData_reliable (reliable : proxy.reliable = true) (seq : Int) :
    proxy.acceptData seq = (false,{ proxy with active := true }) ∨
      (proxy.ackedThrough < seq ∧ seq ∉ proxy.received.elems ∧
        proxy.acceptData seq = (true,(noteAvailable
          { proxy with active := true, received := proxy.received.insert seq } seq).advance)) := by
  unfold acceptData
  rw [reliable]
  rw [if_neg (by simp)]
  split
  · exact .inl rfl
  · rename_i unknown
    split
    · exact .inl rfl
    · refine .inr ⟨?_,?_,rfl⟩
      · exact Int.not_le.mp fun below => unknown (.inl below)
      · intro held
        exact unknown (.inr ((contains_iff _ _).mpr held))

/-- What dropping the numbers below a writer's window may change. -/
structure Skipped (firstSn : Int) (before after : WriterProxy) : Prop
    extends Moved before after where
  frame : after = { before with
    firstAvailable := after.firstAvailable
    received := after.received
    irrelevant := after.irrelevant
    ackedThrough := after.ackedThrough }
  ranged : before.ackedThrough ≤ i64Max → firstSn ≤ i64Max → after.ackedThrough ≤ i64Max
  short : before.ackedThrough < i64Max → firstSn ≤ i64Max → after.ackedThrough < i64Max
  passed : ∀ number, 1 ≤ number → before.ackedThrough < number →
    number ≤ after.ackedThrough → number < firstSn

theorem Skipped.unmoved {firstSn : Int} {before after : WriterProxy}
    (frame : after = { before with firstAvailable := after.firstAvailable }) :
    Skipped firstSn before after := by
  rw [frame]
  refine ⟨{ Moved.refl before with },rfl,fun ranged _ => ranged,fun short _ => short,?_⟩
  intro seq _ above below
  change seq ≤ before.ackedThrough at below
  omega

theorem skipBelow_skipped (firstSn : Int) (proxy : WriterProxy) :
    Skipped firstSn proxy (proxy.skipBelow firstSn) := by
  have least : i64Min < 1 := by decide
  have least' : i64Min < i64Max := by decide
  have through : previous firstSn = max (firstSn - 1) i64Min := rfl
  unfold skipBelow
  dsimp only
  split
  · split
    · rename_i moves
      refine ⟨⟨Int.le_of_lt moves,.retain _ _,.retain _ _⟩,rfl,?_,?_,?_⟩
      · intro _ _
        change previous firstSn ≤ i64Max
        omega
      · intro _ _
        change previous firstSn < i64Max
        omega
      · intro seq _ _ below
        change seq ≤ previous firstSn at below
        omega
    · exact .unmoved rfl
  · exact .unmoved rfl

/-- A heartbeat is stale, or drops what is gone, announces the last number and walks
the watermark. -/
theorem acceptHeartbeat_cases (proxy : WriterProxy) (heartbeat : Heartbeat) :
    proxy.acceptHeartbeat heartbeat = (false,proxy) ∨ ∃ skipped pending, Skipped heartbeat.firstSn
          { proxy with lastHeartbeatCount := heartbeat.count, active := true } skipped ∧
        proxy.acceptHeartbeat heartbeat =
          (true,{ (skipped.noteAvailable heartbeat.lastSn).advance with
            heartbeatPending := pending }) := by
  unfold acceptHeartbeat
  split
  · exact .inl rfl
  · right
    dsimp only
    split
    · exact ⟨_,true,skipBelow_skipped _ _,rfl⟩
    · exact ⟨_,_,skipBelow_skipped _ _,rfl⟩

theorem nameMissing_spec {set : SequenceNumberSet} {first : Int}
    (within : set.base ≤ first ∧ first - set.base < 256) :
    (proxy.nameMissing set first).base = set.base ∧
      ∀ other, (proxy.nameMissing set first).contains other = true ↔
        set.contains other = true ∨ other = first ∧ proxy.isSatisfied other = false := by
  unfold nameMissing
  cases satisfied : proxy.isSatisfied first with
  | true =>
    refine ⟨rfl,fun other => (or_iff_left ?_).symm⟩
    rintro ⟨rfl,missing⟩
    rw [satisfied] at missing
    cases missing
  | false =>
    obtain ⟨marked,inserted,base,marks⟩ := SequenceNumberSet.insert_eq within.1 within.2
    rw [if_neg (by simp),inserted]
    refine ⟨base,fun other => ?_⟩
    rw [marks other]
    exact or_congr_right ⟨fun here => ⟨here,here ▸ satisfied⟩,And.left⟩

theorem foldl_nameMissing (numbers : List Int) (set : SequenceNumberSet)
    (within : ∀ seq ∈ numbers, set.base ≤ seq ∧ seq - set.base < 256) :
    let named := numbers.foldl proxy.nameMissing set
    named.base = set.base ∧ ∀ other, named.contains other = true ↔
      set.contains other = true ∨ (other ∈ numbers ∧ proxy.isSatisfied other = false) := by
  induction numbers generalizing set with
  | nil => simp
  | cons first rest ih =>
    obtain ⟨here,later⟩ := forall_mem_cons.mp within
    obtain ⟨base,marks⟩ := @nameMissing_spec proxy set first here
    obtain ⟨same,named⟩ := ih (proxy.nameMissing set first) (by rw [base]; exact later)
    refine ⟨same.trans base,fun other => ?_⟩
    rw [foldl_cons,named other,marks other,mem_cons,or_and_right,or_assoc]

theorem isSatisfied_eq_false_iff {seq : Int} : proxy.isSatisfied seq = false ↔
    proxy.ackedThrough < seq ∧ seq ∉ proxy.received.elems ∧ seq ∉ proxy.irrelevant.elems := by
  unfold isSatisfied
  rw [Bool.or_eq_false_iff,Bool.or_eq_false_iff,decide_eq_false_iff_not,← Bool.not_eq_true,
    ← Bool.not_eq_true,contains_iff,contains_iff,Int.not_le,and_assoc]

/-- Short of the last number, the set is based one past the watermark and names what
is missing of the next 256 numbers. -/
theorem acknackState_spec (short : proxy.ackedThrough < i64Max)
    (announced : proxy.lastAvailable < i64Max) :
    proxy.acknackState.base = proxy.ackedThrough + 1 ∧
      ∀ seq, proxy.acknackState.contains seq = true ↔
        proxy.ackedThrough + 1 ≤ seq ∧ seq ≤ proxy.ackedThrough + 1 + 255 ∧
          seq ≤ proxy.lastAvailable ∧ proxy.isSatisfied seq = false := by
  have next : SequenceNumber.next proxy.ackedThrough = proxy.ackedThrough + 1 := by
    unfold SequenceNumber.next
    omega
  have wide : (maxSetBits : Int) = 256 := rfl
  obtain ⟨base,named⟩ := @foldl_nameMissing proxy
    (numbersFrom (SequenceNumber.next proxy.ackedThrough)
      (min (min (SequenceNumber.next proxy.ackedThrough + maxSetBits) i64Max)
        (min (proxy.lastAvailable + 1) i64Max) - SequenceNumber.next proxy.ackedThrough).toNat)
    (SequenceNumberSet.new (SequenceNumber.next proxy.ackedThrough)) (by
      intro seq mem
      rw [mem_numbersFrom] at mem
      change SequenceNumber.next proxy.ackedThrough ≤ seq ∧
        seq - SequenceNumber.next proxy.ackedThrough < 256
      omega)
  refine ⟨base.trans next,?_⟩
  intro seq
  unfold acknackState
  rw [named seq,SequenceNumberSet.contains_new,mem_numbersFrom,next]
  constructor
  · rintro (none | ⟨⟨above,_⟩,missing⟩)
    · cases none
    · exact ⟨above,by omega,by omega,missing⟩
  · rintro ⟨above,_,_,missing⟩
    exact .inr ⟨⟨above,by omega⟩,missing⟩

end WriterProxy

inductive ProxyInput where
  | data (number : Int)
  | heartbeat (heartbeat : Heartbeat)
  | gap (gap : Gap)

/-- The numbers of the submessage are 64-bit integers. -/
def ProxyInput.InRange : ProxyInput → Prop
  | .data number => i64Min ≤ number ∧ number ≤ i64Max
  | .heartbeat body =>
    (i64Min ≤ body.firstSn ∧ body.firstSn ≤ i64Max) ∧ i64Min ≤ body.lastSn ∧ body.lastSn ≤ i64Max
  | .gap body =>
    (i64Min ≤ body.gapStart ∧ body.gapStart ≤ i64Max) ∧
      i64Min ≤ body.gapList.base ∧ body.gapList.base ≤ i64Max

instance : (input : ProxyInput) → Decidable input.InRange
  | .data _ => inferInstanceAs (Decidable (_ ∧ _))
  | .heartbeat _ => inferInstanceAs (Decidable ((_ ∧ _) ∧ _ ∧ _))
  | .gap _ => inferInstanceAs (Decidable ((_ ∧ _) ∧ _ ∧ _))

def ProxyInput.trackable (proxy : WriterProxy) : ProxyInput → Bool
  | .data number => decide (number < i64Max)
  | .heartbeat body => decide (body.lastSn < i64Max)
  | .gap body =>
    (body.irrelevant.all fun number => decide (number < i64Max)) &&
      decide (proxy.irrelevant.len + body.irrelevant.length ≤ maxTracked)

/-- A proxy with what it has been told: the numbers it took, the heartbeats that were
not stale, and the gaps. -/
structure Hearing where
  proxy : WriterProxy
  accepted : List Int
  heartbeats : List Heartbeat
  gaps : List Gap

namespace Hearing

def fresh (guid : Guid) (locators : List Locator) : Hearing :=
  { proxy := new guid locators true, accepted := [], heartbeats := [], gaps := [] }

def hear (hearing : Hearing) : ProxyInput → Hearing
  | .data number =>
    match hearing.proxy.acceptData number with
    | (true,proxy) => { hearing with proxy := proxy, accepted := number :: hearing.accepted }
    | (false,proxy) => { hearing with proxy := proxy }
  | .heartbeat heartbeat =>
    match hearing.proxy.acceptHeartbeat heartbeat with
    | (true,proxy) =>
      { hearing with proxy := proxy, heartbeats := heartbeat :: hearing.heartbeats }
    | (false,proxy) => { hearing with proxy := proxy }
  | .gap gap => { hearing with proxy := hearing.proxy.acceptGap gap, gaps := gap :: hearing.gaps }

def run (inputs : List ProxyInput) (hearing : Hearing) : Hearing := inputs.foldl hear hearing

/-- Every submessage of a run is trackable where it arrives. -/
def tracks : List ProxyInput → Hearing → Bool
  | [],_ => true
  | input :: rest,hearing => input.trackable hearing.proxy && tracks rest (hearing.hear input)

/-! ### The invariant -/

/-- What the sets of a proxy mean in terms of what it has been told.  When that was trackable,
the last number is out of reach and every gap is remembered down to the watermark. -/
structure Sound (trackable : Prop) (proxy : WriterProxy) (accepted : List Int)
    (heartbeats : List Heartbeat) (gaps : List Gap) : Prop where
  reliable : proxy.reliable = true
  ranged : proxy.ackedThrough ≤ i64Max
  received : ∀ number ∈ proxy.received.elems, number ∈ accepted
  acceptedKept : ∀ number ∈ accepted, number ≤ proxy.ackedThrough ∨ number ∈ proxy.received.elems
  irrelevant : ∀ number ∈ proxy.irrelevant.elems, ∃ gap ∈ gaps, number ∈ gap.irrelevant
  satisfied : ∀ number, 1 ≤ number → number ≤ proxy.ackedThrough →
    number ∈ accepted ∨ (∃ gap ∈ gaps, number ∈ gap.irrelevant) ∨
      ∃ heartbeat ∈ heartbeats, number < heartbeat.firstSn
  nodup : accepted.Nodup
  acked : trackable → proxy.ackedThrough < i64Max
  announced : trackable → proxy.lastAvailable < i64Max
  acceptedShort : trackable → ∀ number ∈ accepted, number < i64Max
  gapsKept : trackable → ∀ gap ∈ gaps, ∀ number ∈ gap.irrelevant,
    number < i64Max ∧ (number ≤ proxy.ackedThrough ∨ number ∈ proxy.irrelevant.elems)

variable {trackable : Prop}

theorem Sound.fresh (guid : Guid) (locators : List Locator) :
    Sound trackable (new guid locators true) [] [] [] := by
  have zero : (0 : Int) < i64Max := by decide
  refine ⟨rfl,Int.le_of_lt zero,forall_mem_nil _,forall_mem_nil _,forall_mem_nil _,?_,nodup_nil,
    fun _ => zero,fun _ => zero,fun _ => forall_mem_nil _,fun _ => forall_mem_nil _⟩
  intro seq _ below
  change seq ≤ 0 at below
  omega

variable {before after : WriterProxy} {accepted : List Int} {heartbeats : List Heartbeat}
  {gaps : List Gap}

section

variable (sound : Sound trackable before accepted heartbeats gaps)
include sound

/-- A watermark that moves up stays sound when all it passes is accounted for. -/
theorem Sound.moved (moved : WriterProxy.Moved before after)
    (reliable : after.reliable = before.reliable) (ranged : after.ackedThrough ≤ i64Max)
    (acked : trackable → after.ackedThrough < i64Max)
    (announced : after.lastAvailable = before.lastAvailable)
    (passed : ∀ seq, 1 ≤ seq → before.ackedThrough < seq →
      seq ≤ after.ackedThrough → seq ∈ accepted ∨ (∃ gap ∈ gaps, seq ∈ gap.irrelevant) ∨
          ∃ heartbeat ∈ heartbeats, seq < heartbeat.firstSn) :
    Sound trackable after accepted heartbeats gaps where
  reliable := reliable.trans sound.reliable
  ranged := ranged
  received := fun seq held => sound.received seq (moved.received.only seq held)
  acceptedKept := by
    intro seq mem
    rcases sound.acceptedKept seq mem with below | held
    · exact .inl (Int.le_trans below moved.acked)
    · exact moved.received.kept seq held
  irrelevant := fun seq held => sound.irrelevant seq (moved.irrelevant.only seq held)
  satisfied := by
    intro seq pos below
    by_cases early : seq ≤ before.ackedThrough
    · exact sound.satisfied seq pos early
    · exact passed seq pos (Int.not_le.mp early) below
  nodup := sound.nodup
  acked := acked
  announced := announced ▸ sound.announced
  acceptedShort := sound.acceptedShort
  gapsKept := by
    intro tracked gap mem seq named
    obtain ⟨short,below | held⟩ := sound.gapsKept tracked gap mem seq named
    · exact ⟨short,.inl (Int.le_trans below moved.acked)⟩
    · exact ⟨short,moved.irrelevant.kept seq held⟩

theorem Sound.advanced (advanced : WriterProxy.Advanced before after) :
    Sound trackable after accepted heartbeats gaps := by
  refine sound.moved advanced.toMoved (by rw [advanced.frame]) advanced.ranged ?_
    (by rw [advanced.frame]) ?_
  · intro tracked
    by_cases moved : before.ackedThrough < after.ackedThrough
    · rcases advanced.passed _ moved (Int.le_refl _) with held | held
      · exact sound.acceptedShort tracked _ (sound.received _ held)
      · obtain ⟨gap,mem,named⟩ := sound.irrelevant _ held
        exact (sound.gapsKept tracked gap mem _ named).1
    · have short := sound.acked tracked
      omega
  · intro seq _ above below
    exact (advanced.passed seq above below).imp (sound.received seq)
      fun held => .inl (sound.irrelevant seq held)

theorem Sound.skipped {heartbeat : Heartbeat} (small : heartbeat.firstSn ≤ i64Max)
    (skipped : WriterProxy.Skipped heartbeat.firstSn before after) :
    Sound trackable after accepted (heartbeat :: heartbeats) gaps := by
  have heard : Sound trackable before accepted (heartbeat :: heartbeats) gaps := { sound with
    satisfied := by
      intro seq pos below
      rcases sound.satisfied seq pos below with held | held | ⟨other,mem,gone⟩
      · exact .inl held
      · exact .inr (.inl held)
      · exact .inr (.inr ⟨other,.tail _ mem,gone⟩) }
  refine heard.moved skipped.toMoved (by rw [skipped.frame]) (skipped.ranged sound.ranged small)
    (fun tracked => skipped.short (sound.acked tracked) small) (by rw [skipped.frame]) ?_
  intro seq pos above below
  exact .inr (.inr ⟨heartbeat,.head _,skipped.passed seq pos above below⟩)

theorem Sound.noteAvailable {seq : Int} (short : trackable → seq < i64Max) :
    Sound trackable (before.noteAvailable seq) accepted heartbeats gaps := by
  refine { sound with announced := fun tracked => ?_ }
  unfold WriterProxy.noteAvailable
  split
  · exact short tracked
  · exact sound.announced tracked

theorem Sound.noted {gap : Gap} (noted : WriterProxy.Noted gap.irrelevant before after)
    (short : trackable → ∀ seq ∈ gap.irrelevant, seq < i64Max)
    (room : trackable → before.irrelevant.len + gap.irrelevant.length ≤ maxTracked) :
    Sound trackable after accepted heartbeats (gap :: gaps) := by
  rw [noted.frame]
  refine { sound with irrelevant := ?_, satisfied := ?_, announced := ?_, gapsKept := ?_ }
  · intro seq held
    rcases noted.added seq held with old | new
    · obtain ⟨other,mem,named⟩ := sound.irrelevant seq old
      exact ⟨other,.tail _ mem,named⟩
    · exact ⟨gap,.head _,new.1⟩
  · intro seq pos below
    rcases sound.satisfied seq pos below with held | ⟨other,mem,named⟩ | gone
    · exact .inl held
    · exact .inr (.inl ⟨other,.tail _ mem,named⟩)
    · exact .inr (.inr gone)
  · exact fun tracked => noted.announced _ (sound.announced tracked) (short tracked)
  · intro tracked other mem seq named
    rcases mem_cons.mp mem with rfl | old
    · exact ⟨short tracked seq named,noted.complete (room tracked) seq named⟩
    · exact (sound.gapsKept tracked other old seq named).imp_right (.imp_right (noted.kept seq))

theorem Sound.taken {seq : Int} (above : before.ackedThrough < seq)
    (unheld : seq ∉ before.received.elems) (short : trackable → seq < i64Max) :
    Sound trackable { before with received := before.received.insert seq } (seq :: accepted)
      heartbeats gaps := by
  refine { sound with
    received := ?_, acceptedKept := ?_, satisfied := ?_, nodup := ?_, acceptedShort := ?_ }
  · intro other held
    exact mem_cons.mpr ((mem_insert.mp held).imp_right (sound.received other))
  · intro other mem
    rcases mem_cons.mp mem with same | old
    · exact .inr (mem_insert.mpr (.inl same))
    · exact (sound.acceptedKept other old).imp_right fun held => mem_insert.mpr (.inr held)
  · intro other pos below
    exact (sound.satisfied other pos below).imp_left (.tail _)
  · refine nodup_cons.mpr ⟨?_,sound.nodup⟩
    intro mem
    rcases sound.acceptedKept seq mem with below | held
    · omega
    · exact unheld held
  · exact fun tracked => forall_mem_cons.mpr ⟨short tracked,sound.acceptedShort tracked⟩

end

def IsSound (trackable : Prop) (hearing : Hearing) : Prop :=
  Sound trackable hearing.proxy hearing.accepted hearing.heartbeats hearing.gaps

variable {hearing : Hearing} {input : ProxyInput} {inputs : List ProxyInput}

/-- One submessage keeps the meaning of the sets and never lowers the watermark. -/
theorem IsSound.hear (sound : hearing.IsSound trackable) (ranged : input.InRange)
    (tracked : trackable → input.trackable hearing.proxy = true) :
    (hearing.hear input).IsSound trackable ∧
      hearing.proxy.ackedThrough ≤ (hearing.hear input).proxy.ackedThrough := by
  cases input with
  | data seq =>
    have short : trackable → seq < i64Max := fun held => of_decide_eq_true (tracked held)
    unfold Hearing.hear
    dsimp only
    rcases acceptData_reliable sound.reliable seq with
      refused | ⟨above,unheld,taken⟩
    · rw [refused]
      exact ⟨{ sound with },Int.le_refl _⟩
    · rw [taken]
      have held : Sound trackable { hearing.proxy with
            active := true, received := hearing.proxy.received.insert seq }
          (seq :: hearing.accepted) hearing.heartbeats hearing.gaps :=
        { Sound.taken sound above unheld short with }
      have advanced := advance_advanced (held.noteAvailable short).ranged
      exact ⟨(held.noteAvailable short).advanced advanced,advanced.acked⟩
  | heartbeat body =>
    unfold Hearing.hear
    dsimp only
    rcases hearing.proxy.acceptHeartbeat_cases body with
      stale | ⟨skipped,pending,dropped,applied⟩
    · rw [stale]
      exact ⟨sound,Int.le_refl _⟩
    · rw [applied]
      have heard : Sound trackable { hearing.proxy with
            lastHeartbeatCount := body.count, active := true }
          hearing.accepted hearing.heartbeats hearing.gaps := { sound with }
      have noted := (heard.skipped ranged.1.2 dropped).noteAvailable
        fun held => of_decide_eq_true (tracked held)
      have advanced := advance_advanced noted.ranged
      exact ⟨{ noted.advanced advanced with },Int.le_trans dropped.acked advanced.acked⟩
  | gap body =>
    unfold Hearing.hear
    obtain ⟨marked,noted,applied⟩ := hearing.proxy.acceptGap_eq body
    have heard : Sound trackable { hearing.proxy with active := true }
        hearing.accepted hearing.heartbeats hearing.gaps := { sound with }
    have given := heard.noted noted
      (fun held seq mem => of_decide_eq_true
        (all_eq_true.mp (Bool.and_eq_true_iff.mp (tracked held)).1 seq mem))
      fun held => of_decide_eq_true (Bool.and_eq_true_iff.mp (tracked held)).2
    have advanced := advance_advanced given.ranged
    have start : hearing.proxy.ackedThrough = marked.ackedThrough := by
      rw [noted.frame]
    dsimp only
    rw [applied,start]
    exact ⟨given.advanced advanced,advanced.acked⟩

theorem IsSound.run (ranged : ∀ input ∈ inputs, input.InRange) (sound : hearing.IsSound trackable)
    (tracked : trackable → hearing.tracks inputs = true) :
    (hearing.run inputs).IsSound trackable ∧
      hearing.proxy.ackedThrough ≤ (hearing.run inputs).proxy.ackedThrough := by
  induction inputs generalizing hearing with
  | nil => exact ⟨sound,Int.le_refl _⟩
  | cons input rest ih =>
    obtain ⟨kept,moved⟩ := sound.hear (ranged input (.head _))
      fun held => (Bool.and_eq_true_iff.mp (tracked held)).1
    obtain ⟨last,more⟩ := ih (fun other mem => ranged other (.tail _ mem)) kept
      fun held => (Bool.and_eq_true_iff.mp (tracked held)).2
    exact ⟨last,Int.le_trans moved more⟩

end Hearing

/-- In every run the watermark never falls, everything below it is accounted for, and
no number is taken twice.  In a run of trackable submessages an acknowledgement is
based one past the watermark and names exactly what is missing. -/
theorem watermark_sound (guid : Guid) (locators : List Locator) (inputs : List ProxyInput)
    (ranged : ∀ input ∈ inputs, input.InRange) :
    let hearing := (Hearing.fresh guid locators).run inputs
    let state := hearing.proxy.acknackState
    (∀ earlier later, earlier ++ later = inputs →
      ((Hearing.fresh guid locators).run earlier).proxy.ackedThrough ≤ hearing.proxy.ackedThrough) ∧
    (∀ number, 1 ≤ number → number ≤ hearing.proxy.ackedThrough →
      number ∈ hearing.accepted ∨ (∃ gap ∈ hearing.gaps, number ∈ gap.irrelevant) ∨
        ∃ heartbeat ∈ hearing.heartbeats, number < heartbeat.firstSn) ∧
    hearing.accepted.Nodup ∧
    ((Hearing.fresh guid locators).tracks inputs = true →
      state.base = hearing.proxy.ackedThrough + 1 ∧
      ∀ number, state.contains number = true ↔ state.base ≤ number ∧ number ≤ state.base + 255 ∧
          number ≤ hearing.proxy.lastAvailable ∧ number ∉ hearing.accepted ∧
            ∀ gap ∈ hearing.gaps, number ∉ gap.irrelevant) := by
  intro _ _
  have fresh : ∀ trackable, (Hearing.fresh guid locators).IsSound trackable := fun _ =>
    Hearing.Sound.fresh guid locators
  obtain ⟨sound,_⟩ := (fresh _).run ranged fun tracked => tracked
  refine ⟨?_,sound.satisfied,sound.nodup,?_⟩
  · intro earlier later parts
    subst parts
    obtain ⟨middle,_⟩ := (fresh False).run
      (fun input member => ranged input (mem_append_left later member)) False.elim
    have last := (middle.run (fun input member => ranged input (mem_append_right earlier member))
      False.elim).2
    change _ ≤ ((earlier ++ later).foldl Hearing.hear _).proxy.ackedThrough
    rw [foldl_append]
    exact last
  · intro tracked
    obtain ⟨base,named⟩ := acknackState_spec (sound.acked tracked) (sound.announced tracked)
    refine ⟨base,?_⟩
    intro number
    rw [base,named number,isSatisfied_eq_false_iff]
    constructor
    · rintro ⟨above,near,announced,_,unreceived,relevant⟩
      refine ⟨above,near,announced,?_,?_⟩
      · intro member
        rcases sound.acceptedKept number member with below | held
        · omega
        · exact unreceived held
      · intro gap member declared
        rcases (sound.gapsKept tracked gap member number declared).2 with below | held
        · omega
        · exact relevant held
    · rintro ⟨above,near,announced,untaken,undeclared⟩
      refine ⟨above,near,announced,by omega,?_,?_⟩
      · exact fun held => untaken (sound.received number held)
      · intro held
        obtain ⟨gap,member,declared⟩ := sound.irrelevant number held
        exact undeclared gap member declared

def earlyArrival : List ProxyInput := [.data 2,
    .heartbeat { readerId := 0, writerId := 0, firstSn := 1, lastSn := 3, count := 1 }]

theorem watermark_early_arrival :
    let hearing := (Hearing.fresh ⟨0,0⟩ []).run earlyArrival
    hearing.proxy.acknackState.contains 3 = true ∧
      hearing.proxy.acknackState.contains 2 = false := by
  intro _
  obtain ⟨_,named⟩ := (watermark_sound ⟨0,0⟩ [] earlyArrival (by decide)).2.2.2 (by decide)
  constructor
  · exact (named 3).mpr (by decide)
  · rw [← Bool.not_eq_true,named 2]
    decide

/-- A heartbeat that announces the last number and nothing else: the number is missing
and no acknowledgement ever asks for it. -/
theorem last_number_unrequested :
    let hearing := (Hearing.fresh ⟨0,0⟩ []).run
      [.heartbeat { readerId := 0, writerId := 0, firstSn := i64Max, lastSn := i64Max, count := 1 }]
    hearing.heartbeats.length = 1 ∧ hearing.accepted = [] ∧ hearing.gaps.length = 0 ∧
      hearing.proxy.ackedThrough = i64Max - 1 ∧ hearing.proxy.lastAvailable = i64Max ∧
      hearing.proxy.acknackState.base = i64Max ∧
      hearing.proxy.acknackState.contains i64Max = false := by
  decide

end Astrs.Rtps
