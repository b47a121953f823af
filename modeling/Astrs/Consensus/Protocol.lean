/-
Replicated logs under elected leaders, as a transition system.

The state keeps the whole history a safety argument needs: every ballot with the log it
was cast on, every winner's log at election, every acknowledgement and every commit.  A
peer's `floor` is how much of its log it has folded away; the log itself stays whole.
-/

import Astrs.Consensus.History
import Astrs.Consensus.Quorum

namespace Astrs.Consensus

open Function (update update_of_ne update_self)

inductive Standing where
  | idle
  | candidate
  | leading
  deriving DecidableEq

structure Offices (P α : Type) where
  term : P → Nat
  role : P → Standing
  vote : P → Nat → Option (P × List α)
  campaign : P → Nat → Option (List α)
  owner : Nat → Option P
  base : Nat → List α

/-- The peers' logs and the line each term's leader wrote. -/
structure Logs (P α : Type) where
  log : P → List α
  line : Nat → List α

/-- What followers acknowledged to a term's leader, and what leaders committed:
`commits term index length` is a commit up to `index` decided by the voters of
the first `length` entries. -/
structure Promises (P : Type) where
  acked : P → Nat → Nat → Prop
  commits : Nat → Nat → Nat → Prop

/-- How far each peer has folded, committed and applied, and what it said of it. -/
structure Marks (P α : Type) where
  floor : P → Nat
  commit : P → Nat
  applied : P → Nat
  accepted : P → Nat → Nat → Prop
  told : Nat → Nat → Prop
  shipped : Nat → Nat → Prop
  handed : P → Nat → α → Prop

structure State (P α : Type) extends Offices P α, Logs P α, Promises P, Marks P α

/-- The restrictions a family of runs keeps to.  Each one that does not hold
leaves its rule unrestricted. -/
structure Guards where
  /-- No entry changes the voters. -/
  fixed : Prop
  /-- No log is ever shipped folded. -/
  whole : Prop
  /-- A shipped log replaces nothing that agrees with it. -/
  install : Prop
  /-- A peer reports its log's end only when the leader's line has all of it. -/
  report : Prop
  /-- A leader changes the voters only after committing in its own term. -/
  reconfigure : Prop
  /-- A peer recovers no mark it had not reached. -/
  durable : Prop

/-- Every restriction that commitment rests on. -/
def Guards.Strict (guards : Guards) : Prop :=
  guards.install ∧ guards.report ∧ guards.reconfigure ∧ guards.durable

section Records

variable {P α : Type} [DecidableEq P]

/-- Writes one cell of a table of optional records. -/
def enter (table : P → Nat → Option α) (peer : P) (term : Nat) (value : α) : P → Nat → Option α :=
  fun other when_ => if other = peer ∧ when_ = term then some value else table other when_

theorem enter_self (table : P → Nat → Option α) (peer : P) (term : Nat) (value : α) :
    enter table peer term value peer term = some value := by
  simp [enter]

variable {table : P → Nat → Option α} {peer other : P} {term when_ : Nat} {value held : α}
  {values : P → α}

theorem enter_kept (vacant : table peer term = none) (found : table other when_ = some held) :
    enter table peer term value other when_ = some held := by
  unfold enter
  split
  · rename_i same
    rw [same.1,same.2,vacant] at found
    cases found
  · exact found

theorem enter_cases (found : enter table peer term value other when_ = some held) :
    (other = peer ∧ when_ = term ∧ held = value) ∨ table other when_ = some held := by
  unfold enter at found
  split at found
  · rename_i same
    cases found
    exact .inl ⟨same.1,same.2,rfl⟩
  · exact .inr found

theorem enter_of_ne (apart : other ≠ peer)
    (term : Nat) (value : α) : enter table peer term value other = table other := by
  funext when_
  unfold enter
  rw [if_neg (fun same => apart same.1)]

theorem of_update_ne {found : α}
    (updated : update values peer value other = found) (apart : value ≠ found) :
    other ≠ peer ∧ values other = found := by
  by_cases same : other = peer
  · subst same
    rw [update_self] at updated
    exact absurd updated apart
  · rw [update_of_ne same] at updated
    exact ⟨same,updated⟩

/-- What holds in every cell of a table still does when it holds of the cell written. -/
theorem all_updated (holds : P → α → Prop)
    (rest : ∀ other, holds other (values other)) (here : holds peer value) (other : P) :
    holds other (update values peer value other) :=
  (Function.forall_update_iff values holds).mpr ⟨here,fun other _ => rest other⟩ other

theorem all_updated_both {β : Type} (holds : P → α → β → Prop) {others : P → β} {further : β}
    (rest : ∀ other, holds other (values other) (others other)) (here : holds peer value further)
    (other : P) :
    holds other (update values peer value other) (update others peer further other) := by
  by_cases same : other = peer
  · subst same
    rw [update_self,update_self]
    exact here
  · rw [update_of_ne same,update_of_ne same]
    exact rest other

theorem prefix_update_snoc (log : P → List α) (peer : P) (entry : α) (other : P) :
    log other <+: update log peer (log peer ++ [entry]) other :=
  all_updated (fun other longer => log other <+: longer) (fun _ => List.prefix_refl _)
    (List.prefix_append _ _) other

end Records

variable {P α : Type}

/-- Records stay and lines grow. -/
structure Extends (before after : State P α) : Prop where
  term : before.term ≤ after.term
  vote : ∀ peer term ballot, before.vote peer term = some ballot →
    after.vote peer term = some ballot
  campaign : ∀ peer term base, before.campaign peer term = some base →
    after.campaign peer term = some base
  owner : ∀ term peer, before.owner term = some peer → after.owner term = some peer
  base : ∀ term, before.owner term ≠ none → after.base term = before.base term
  line : ∀ term, before.line term <+: after.line term
  acked : before.acked ≤ after.acked
  accepted : before.accepted ≤ after.accepted
  commits : before.commits ≤ after.commits
  told : before.told ≤ after.told
  shipped : before.shipped ≤ after.shipped
  handed : before.handed ≤ after.handed

theorem Extends.refl (state : State P α) : Extends state state where
  term := le_refl _
  vote := fun _ _ _ found => found
  campaign := fun _ _ _ found => found
  owner := fun _ _ found => found
  base := fun _ _ => rfl
  line := fun _ => List.prefix_refl _
  acked := le_refl _
  accepted := le_refl _
  commits := le_refl _
  told := le_refl _
  shipped := le_refl _
  handed := le_refl _

theorem Extends.trans {first middle last : State P α} (before : Extends first middle)
    (after : Extends middle last) : Extends first last where
  term := before.term.trans after.term
  vote := fun peer term ballot found => after.vote _ _ _ (before.vote peer term ballot found)
  campaign := fun peer term base found =>
    after.campaign _ _ _ (before.campaign peer term base found)
  owner := fun term peer found => after.owner _ _ (before.owner term peer found)
  base := fun term owned => by
    obtain ⟨peer,found⟩ := Option.ne_none_iff_exists'.mp owned
    rw [after.base term (by rw [before.owner term peer found]; simp),before.base term owned]
  line := fun term => (before.line term).trans (after.line term)
  acked := before.acked.trans after.acked
  accepted := before.accepted.trans after.accepted
  commits := before.commits.trans after.commits
  told := before.told.trans after.told
  shipped := before.shipped.trans after.shipped
  handed := before.handed.trans after.handed

/-! ### Transitions -/

variable [DecidableEq P]

/-- What one peer can do in one transition. -/
inductive Step (setting : Setting P α) (guards : Guards) (peer : P) :
    State P α → State P α → Prop where
  /-- Moves to a later term. -/
  | bump (state : State P α) (later : Nat) :
      state.term peer < later →
      Step setting guards peer state
        { state with
          term := update state.term peer later
          role := update state.role peer .idle }
  | resign (state : State P α) :
      Step setting guards peer state
        { state with role := update state.role peer .idle }
  /-- Stands for the next term with its current log, voting for itself. -/
  | stand (state : State P α) :
      state.vote peer (state.term peer + 1) = none →
      state.campaign peer (state.term peer + 1) = none →
      peer ∈ setting.configuration (state.log peer) →
      Step setting guards peer state
        { state with
          term := update state.term peer (state.term peer + 1)
          role := update state.role peer .candidate
          vote := enter state.vote peer (state.term peer + 1) (peer,state.log peer)
          campaign := enter state.campaign peer (state.term peer + 1) (state.log peer) }
  /-- Votes for a candidate of its own term. -/
  | cast (state : State P α) (candidate : P) (base : List α) :
      state.vote peer (state.term peer) = none →
      state.campaign candidate (state.term peer) = some base →
      setting.UpToDate base (state.log peer) →
      peer ∈ setting.configuration base →
      Step setting guards peer state
        { state with
          vote := enter state.vote peer (state.term peer) (candidate,state.log peer) }
  /-- Wins its term with a majority of the voters its log names. -/
  | elect (state : State P α) (quorum : Finset P) :
      state.role peer = .candidate →
      state.owner (state.term peer) = none →
      Majority quorum (setting.configuration (state.log peer)) →
      (∀ voter ∈ quorum, ∃ log, state.vote voter (state.term peer) = some (peer,log)) →
      Step setting guards peer state
        { state with
          role := update state.role peer .leading
          owner := update state.owner (state.term peer) (some peer)
          base := update state.base (state.term peer) (state.log peer)
          line := update state.line (state.term peer) (state.log peer) }
  /-- Writes an entry of its own term at the end of its line. -/
  | append (state : State P α) (entry : α) :
      state.role peer = .leading →
      setting.termOf entry = state.term peer →
      (guards.fixed → setting.votersOf entry = none) →
      (∀ voters, setting.votersOf entry = some voters →
        Overlapping (setting.configuration (state.log peer)) voters ∧ (guards.reconfigure →
            (∃ front last, front ++ [last] <+: state.log peer ∧
              front.length + 1 = state.commit peer ∧ setting.termOf last = state.term peer) ∧
            ∀ front change, front ++ [change] <+: state.log peer →
              setting.votersOf change ≠ none → front.length + 1 ≤ state.commit peer)) →
      Step setting guards peer state
        { state with
          log := update state.log peer (state.log peer ++ [entry])
          line := update state.line (state.term peer) (state.log peer ++ [entry]) }
  /-- Copies a front of its term's line. -/
  | accept (state : State P α) (count : Nat) :
      state.role peer = .idle →
      state.owner (state.term peer) ≠ none →
      count ≤ (state.line (state.term peer)).length →
      state.floor peer ≤ count →
      Step setting guards peer state
        { state with
          log := update state.log peer
            (overwrite ((state.line (state.term peer)).take count) (state.log peer)) }
  /-- Replaces its log by a shipped front of its term's line. -/
  | install (state : State P α) (count : Nat) :
      state.role peer = .idle →
      state.shipped (state.term peer) count →
      count ≤ (state.line (state.term peer)).length →
      (guards.install → state.floor peer ≤ count ∧
        ((state.line (state.term peer)).take count <+: state.log peer →
          (state.log peer).length ≤ count)) →
      Step setting guards peer state
        { state with
          log := update state.log peer ((state.line (state.term peer)).take count)
          floor := update state.floor peer count
          commit := update state.commit peer count
          applied := update state.applied peer count }
  /-- Acknowledges an index to its term's leader. -/
  | ack (state : State P α) (index : Nat) :
      state.owner (state.term peer) ≠ none →
      (index ≤ state.floor peer ∨ (state.line (state.term peer)).take index <+: state.log peer ∧
          index ≤ (state.line (state.term peer)).length ∨
        index = (state.log peer).length ∧
          (guards.report → (state.log peer).length ≤ state.commit peer ∨
            setting.lastTerm (state.log peer) = state.term peer)) →
      Step setting guards peer state
        { state with
          acked := fun voter term upTo => state.acked voter term upTo ∨
            voter = peer ∧ term = state.term peer ∧ upTo = index }
  /-- Acknowledges an index of entries it was sent. -/
  | permit (state : State P α) (index : Nat) :
      (index ≤ state.floor peer ∨ (state.line (state.term peer)).take index <+: state.log peer ∧
          index ≤ (state.line (state.term peer)).length) →
      Step setting guards peer state
        { state with
          accepted := fun voter term upTo => state.accepted voter term upTo ∨
            voter = peer ∧ term = state.term peer ∧ upTo = index }
  /-- Commits an entry of its own term that a majority has acknowledged. -/
  | decide (state : State P α) (quorum : Finset P) (front : List α) (last : α) :
      state.role peer = .leading →
      front ++ [last] <+: state.log peer →
      setting.termOf last = state.term peer →
      Majority quorum (setting.configuration (state.log peer)) →
      (∀ voter ∈ quorum, ∃ index, front.length + 1 ≤ index ∧
        state.acked voter (state.term peer) index) →
      state.commit peer ≤ front.length →
      Step setting guards peer state
        { state with
          commit := update state.commit peer (front.length + 1)
          commits := fun term upTo length => state.commits term upTo length ∨
            term = state.term peer ∧ upTo = front.length + 1 ∧ length = (state.log peer).length }
  /-- Learns how far its leader has committed. -/
  | learn (state : State P α) (index announced : Nat) :
      state.told (state.term peer) announced →
      index ≤ announced →
      (state.line (state.term peer)).take index <+: state.log peer →
      state.role peer = .idle →
      Step setting guards peer state
        { state with commit := update state.commit peer index }
  /-- Announces its commit index. -/
  | tell (state : State P α) :
      state.role peer = .leading →
      Step setting guards peer state
        { state with
          told := fun term upTo => state.told term upTo ∨
            term = state.term peer ∧ upTo = state.commit peer }
  /-- Ships its folded log. -/
  | ship (state : State P α) :
      ¬ guards.whole →
      state.role peer = .leading →
      Step setting guards peer state
        { state with
          shipped := fun term upTo => state.shipped term upTo ∨
            term = state.term peer ∧ upTo = state.floor peer }
  /-- Hands the next committed entry to its application. -/
  | hand (state : State P α) (front : List α) (entry : α) :
      state.applied peer < state.commit peer →
      front ++ [entry] <+: state.log peer →
      front.length = state.applied peer →
      Step setting guards peer state
        { state with
          handed := fun voter index item => state.handed voter index item ∨
            voter = peer ∧ index = state.applied peer + 1 ∧ item = entry }
  /-- Counts the next committed entry as applied. -/
  | apply (state : State P α) :
      state.applied peer < state.commit peer →
      (state.applied peer < (state.log peer).length →
        ∃ entry, state.handed peer (state.applied peer + 1) entry) →
      Step setting guards peer state
        { state with applied := update state.applied peer (state.applied peer + 1) }
  /-- Folds away a front of its log that it has applied. -/
  | fold (state : State P α) (count : Nat) :
      state.floor peer ≤ count →
      count ≤ state.applied peer →
      count ≤ (state.log peer).length →
      Step setting guards peer state
        { state with floor := update state.floor peer count }
  /-- Starts again from what it kept. -/
  | recover (state : State P α) (reached : Nat) :
      state.floor peer ≤ reached →
      (guards.durable → reached ≤ state.applied peer) →
      Step setting guards peer state
        { state with
          role := update state.role peer .idle
          commit := update state.commit peer reached
          applied := update state.applied peer reached }

def Moves (setting : Setting P α) (guards : Guards) (peer : P) : State P α → State P α → Prop :=
  Relation.ReflTransGen (Step setting guards peer)

def Evolves (setting : Setting P α) (guards : Guards) : State P α → State P α → Prop :=
  Relation.ReflTransGen fun before after => ∃ peer, Step setting guards peer before after

theorem Moves.evolves {setting : Setting P α} {guards : Guards} {peer : P}
    {before after : State P α} (moves : Moves setting guards peer before after) :
    Evolves setting guards before after := by
  induction moves with
  | refl => exact .refl
  | tail _ step ih => exact ih.tail ⟨peer,step⟩

/-- A peer's own marks, role, term, votes and log are as they were. -/
structure Unmoved (other : P) (before after : State P α) : Prop where
  term : after.term other = before.term other
  vote : after.vote other = before.vote other
  role : after.role other = before.role other
  log : after.log other = before.log other
  floor : after.floor other = before.floor other
  commit : after.commit other = before.commit other
  applied : after.applied other = before.applied other

section

variable {setting : Setting P α} {guards : Guards} {peer other : P} {before after : State P α}
  (apart : other ≠ peer)
include apart

theorem Step.unmoved (step : Step setting guards peer before after) :
    Unmoved other before after := by
  cases step <;> constructor <;> simp [update_of_ne apart,enter_of_ne apart]

theorem Moves.unmoved (moves : Moves setting guards peer before after) :
    Unmoved other before after := by
  induction moves with
  | refl => exact ⟨rfl,rfl,rfl,rfl,rfl,rfl,rfl⟩
  | tail _ step ih =>
    have last := step.unmoved apart
    exact ⟨last.term.trans ih.term,last.vote.trans ih.vote,last.role.trans ih.role,
      last.log.trans ih.log,last.floor.trans ih.floor,last.commit.trans ih.commit,
      last.applied.trans ih.applied⟩

end

end Astrs.Consensus
