/-
Elections: what the records of votes, campaigns and winners always satisfy.

The invariant reads terms, roles, votes and logs only, so the transitions that
move marks or acknowledgements keep it as it stands.
-/

import Astrs.Consensus.Protocol

namespace Astrs.Consensus

open Function (update update_of_ne update_self)

variable {P α : Type}

/-- The election records fit together: votes and campaigns lie in the past,
every ballot answers a campaign at least as complete, every winner has its
majority, and a leader's log is the line of its term. -/
structure ElectionInv (setting : Setting P α) (offices : Offices P α) (logs : Logs P α) :
    Prop where
  vote_le : ∀ voter term ballot, offices.vote voter term = some ballot → term ≤ offices.term voter
  campaign_le : ∀ peer term base, offices.campaign peer term = some base →
    0 < term ∧ term ≤ offices.term peer
  ballot : ∀ voter term candidate log, offices.vote voter term = some (candidate,log) →
    ∃ base, offices.campaign candidate term = some base ∧ setting.UpToDate base log ∧
      voter ∈ setting.configuration base
  won : ∀ term winner, offices.owner term = some winner →
    offices.campaign winner term = some (offices.base term) ∧
      ∃ quorum, Majority quorum (setting.configuration (offices.base term)) ∧
        ∀ voter ∈ quorum, ∃ log, offices.vote voter term = some (winner,log)
  unowned : ∀ term, offices.owner term = none → logs.line term = []
  candidate : ∀ peer, offices.role peer = .candidate →
    offices.campaign peer (offices.term peer) = some (logs.log peer) ∧
      offices.owner (offices.term peer) ≠ some peer
  leading : ∀ peer, offices.role peer = .leading → offices.owner (offices.term peer) = some peer ∧
      logs.line (offices.term peer) = logs.log peer

abbrev Elections (setting : Setting P α) (state : State P α) : Prop :=
  ElectionInv setting state.toOffices state.toLogs

namespace ElectionInv

variable {setting : Setting P α} {state after : State P α} {peer : P} {term : Nat}

theorem owner_of_mem_line (inv : Elections setting state)
    {entry : α} (mem : entry ∈ state.line term) : ∃ winner, state.owner term = some winner := by
  cases owned : state.owner term with
  | none =>
    rw [inv.unowned term owned] at mem
    cases mem
  | some winner => exact ⟨winner,rfl⟩

theorem owner_positive (inv : Elections setting state)
    {winner : P} (owned : state.owner term = some winner) : 0 < term ∧ term ≤ state.term winner :=
  inv.campaign_le winner term _ (inv.won term winner owned).1

theorem same_candidate {voter left right : P} {leftLog rightLog : List α}
    (first : state.vote voter term = some (left,leftLog))
    (second : state.vote voter term = some (right,rightLog)) : left = right := by
  rw [first] at second
  exact congrArg Prod.fst (Option.some.inj second)

variable [DecidableEq P] {guards : Guards}

section

variable (inv : Elections setting state)
include inv

private theorem bump {later : Nat} (ahead : state.term peer < later) : ElectionInv setting
      { state.toOffices with
        term := update state.term peer later
        role := update state.role peer .idle } state.toLogs := by
  have grown := all_updated (fun other term => state.term other ≤ term) (fun _ => Nat.le_refl _)
    (Nat.le_of_lt ahead)
  refine ⟨?_,?_,inv.ballot,inv.won,inv.unowned,?_,?_⟩
  · exact fun voter term ballot found => (inv.vote_le voter term ballot found).trans (grown voter)
  · intro other term base found
    obtain ⟨pos,bounded⟩ := inv.campaign_le other term base found
    exact ⟨pos,bounded.trans (grown other)⟩
  · intro other standing
    obtain ⟨unlike,held⟩ := of_update_ne standing (by decide)
    simp only [update_of_ne unlike]
    exact inv.candidate other held
  · intro other standing
    obtain ⟨unlike,held⟩ := of_update_ne standing (by decide)
    simp only [update_of_ne unlike]
    exact inv.leading other held

private theorem resign : ElectionInv setting
      { state.toOffices with role := update state.role peer .idle } state.toLogs := by
  refine { inv with candidate := ?_, leading := ?_ }
  · intro other standing
    exact inv.candidate other (of_update_ne standing (by decide)).2
  · intro other standing
    exact inv.leading other (of_update_ne standing (by decide)).2

private theorem stand (unspent : state.vote peer (state.term peer + 1) = none)
    (fresh : state.campaign peer (state.term peer + 1) = none)
    (mem : peer ∈ setting.configuration (state.log peer)) :
    ElectionInv setting
      { state.toOffices with
        term := update state.term peer (state.term peer + 1)
        role := update state.role peer .candidate
        vote := enter state.vote peer (state.term peer + 1) (peer,state.log peer)
        campaign := enter state.campaign peer (state.term peer + 1) (state.log peer) }
      state.toLogs := by
  have grown := all_updated (fun other term => state.term other ≤ term) (fun _ => Nat.le_refl _)
    (Nat.le_succ (state.term peer))
  refine ⟨?_,?_,?_,?_,inv.unowned,?_,?_⟩
  · intro voter term ballot found
    rcases enter_cases found with ⟨rfl,rfl,_⟩ | held
    · simp
    · exact (inv.vote_le voter term ballot held).trans (grown voter)
  · intro other term base found
    rcases enter_cases found with ⟨rfl,rfl,_⟩ | held
    · simp
    · obtain ⟨pos,bounded⟩ := inv.campaign_le other term base held
      exact ⟨pos,bounded.trans (grown other)⟩
  · intro voter term candidate log found
    rcases enter_cases found with ⟨rfl,rfl,same⟩ | held
    · cases same
      exact ⟨_,enter_self _ _ _ _,.inr ⟨rfl,Nat.le_refl _⟩,mem⟩
    · obtain ⟨base,stood,complete,voting⟩ := inv.ballot voter term candidate log held
      exact ⟨base,enter_kept fresh stood,complete,voting⟩
  · intro term winner owned
    obtain ⟨stood,quorum,most,cast⟩ := inv.won term winner owned
    refine ⟨enter_kept fresh stood,quorum,most,fun voter inside => ?_⟩
    obtain ⟨log,found⟩ := cast voter inside
    exact ⟨log,enter_kept unspent found⟩
  · intro other standing
    by_cases same : other = peer
    · subst same
      simp only [update_self]
      refine ⟨enter_self _ _ _ _,fun owned => ?_⟩
      exact Nat.not_succ_le_self _ (inv.owner_positive owned).2
    · simp only [update_of_ne same] at standing ⊢
      obtain ⟨stood,unwon⟩ := inv.candidate other standing
      exact ⟨enter_kept fresh stood,unwon⟩
  · intro other standing
    obtain ⟨unlike,held⟩ := of_update_ne standing (by decide)
    simp only [update_of_ne unlike]
    exact inv.leading other held

private theorem cast {candidate : P} {base : List α}
    (unspent : state.vote peer (state.term peer) = none)
    (stood : state.campaign candidate (state.term peer) = some base)
    (complete : setting.UpToDate base (state.log peer))
    (mem : peer ∈ setting.configuration base) :
    ElectionInv setting
      { state.toOffices with
        vote := enter state.vote peer (state.term peer) (candidate,state.log peer) }
      state.toLogs := by
  refine { inv with vote_le := ?_, ballot := ?_, won := ?_ }
  · intro voter term ballot found
    rcases enter_cases found with ⟨rfl,rfl,_⟩ | held
    · exact Nat.le_refl _
    · exact inv.vote_le voter term ballot held
  · intro voter term other log found
    rcases enter_cases found with ⟨rfl,rfl,same⟩ | held
    · cases same
      exact ⟨base,stood,complete,mem⟩
    · exact inv.ballot voter term other log held
  · intro term winner owned
    obtain ⟨elected,quorum,most,votes⟩ := inv.won term winner owned
    refine ⟨elected,quorum,most,fun voter inside => ?_⟩
    obtain ⟨log,found⟩ := votes voter inside
    exact ⟨log,enter_kept unspent found⟩

private theorem elect {quorum : Finset P} (standing : state.role peer = .candidate)
    (vacant : state.owner (state.term peer) = none)
    (most : Majority quorum (setting.configuration (state.log peer)))
    (votes : ∀ voter ∈ quorum, ∃ log, state.vote voter (state.term peer) = some (peer,log)) :
    ElectionInv setting
      { state.toOffices with
        role := update state.role peer .leading
        owner := update state.owner (state.term peer) (some peer)
        base := update state.base (state.term peer) (state.log peer) }
      { state.toLogs with
        line := update state.line (state.term peer) (state.log peer) } := by
  refine ⟨inv.vote_le,inv.campaign_le,inv.ballot,?_,?_,?_,?_⟩
  · intro term winner owned
    by_cases same : term = state.term peer
    · subst same
      simp only [update_self,Option.some.injEq] at owned ⊢
      subst owned
      exact ⟨(inv.candidate _ standing).1,quorum,most,votes⟩
    · simp only [update_of_ne same] at owned ⊢
      exact inv.won term winner owned
  · intro term owned
    by_cases same : term = state.term peer
    · subst same
      simp at owned
    · simp only [update_of_ne same] at owned ⊢
      exact inv.unowned term owned
  · intro other found
    obtain ⟨unlike,held⟩ := of_update_ne found (by decide)
    obtain ⟨stood,unwon⟩ := inv.candidate other held
    refine ⟨stood,?_⟩
    by_cases same : state.term other = state.term peer
    · simp only [same,update_self,ne_eq,Option.some.injEq]
      exact fun equal => unlike equal.symm
    · simp only [update_of_ne same]
      exact unwon
  · intro other found
    by_cases same : other = peer
    · subst same
      simp
    · simp only [update_of_ne same] at found
      obtain ⟨owned,line⟩ := inv.leading other found
      have apart : state.term other ≠ state.term peer := by
        intro equal
        rw [equal,vacant] at owned
        cases owned
      simp only [update_of_ne apart]
      exact ⟨owned,line⟩

private theorem append {entry : α} (standing : state.role peer = .leading) :
    ElectionInv setting state.toOffices
      { state.toLogs with
        log := update state.log peer (state.log peer ++ [entry])
        line := update state.line (state.term peer) (state.log peer ++ [entry]) } := by
  have mine := (inv.leading peer standing).1
  refine ⟨inv.vote_le,inv.campaign_le,inv.ballot,inv.won,?_,?_,?_⟩
  · intro term owned
    have apart : term ≠ state.term peer := by
      intro equal
      rw [equal,mine] at owned
      cases owned
    simp only [update_of_ne apart]
    exact inv.unowned term owned
  · intro other found
    have unlike : other ≠ peer := ne_of_apply_ne state.role (by simp [found,standing])
    simp only [update_of_ne unlike]
    exact inv.candidate other found
  · intro other found
    by_cases same : other = peer
    · subst same
      refine ⟨mine,?_⟩
      simp only [update_self]
    · obtain ⟨owned,line⟩ := inv.leading other found
      have apart : state.term other ≠ state.term peer := by
        intro equal
        rw [equal,mine] at owned
        exact same (Option.some.inj owned).symm
      simp only [update_of_ne apart,update_of_ne same]
      exact ⟨owned,line⟩

private theorem rewrite {log : List α} (standing : state.role peer = .idle) :
    ElectionInv setting state.toOffices
      { state.toLogs with log := update state.log peer log } := by
  refine { inv with candidate := ?_, leading := ?_ }
  · intro other found
    have unlike : other ≠ peer := ne_of_apply_ne state.role (by simp [found,standing])
    simp only [update_of_ne unlike]
    exact inv.candidate other found
  · intro other found
    have unlike : other ≠ peer := ne_of_apply_ne state.role (by simp [found,standing])
    simp only [update_of_ne unlike]
    exact inv.leading other found

theorem step (moved : Step setting guards peer state after) : Elections setting after := by
  cases moved with
  | bump later ahead => exact inv.bump ahead
  | resign => exact inv.resign
  | stand unspent fresh mem => exact inv.stand unspent fresh mem
  | cast candidate base unspent stood complete mem =>
    exact inv.cast unspent stood complete mem
  | elect quorum standing vacant most votes => exact inv.elect standing vacant most votes
  | append entry standing => exact inv.append standing
  | accept count standing | install count standing => exact inv.rewrite standing
  | recover => exact inv.resign
  | ack | permit | decide | learn | tell | ship | hand | apply | fold => exact inv

end

end ElectionInv

/-- A transition from a state with fitting election records only adds to the records. -/
theorem Step.extends [DecidableEq P] {setting : Setting P α} {guards : Guards} {peer : P}
    {before after : State P α} (inv : Elections setting before)
    (step : Step setting guards peer before after) : Extends before after := by
  have same := Extends.refl before
  cases step with
  | bump later ahead =>
    exact { same with
      term := all_updated (fun other term => before.term other ≤ term) (fun _ => Nat.le_refl _)
        (Nat.le_of_lt ahead) }
  | stand unspent fresh =>
    refine { same with term := ?_, vote := ?_, campaign := ?_ }
    · exact all_updated (fun other term => before.term other ≤ term) (fun _ => Nat.le_refl _)
        (Nat.le_succ _)
    · exact fun _ _ _ found => enter_kept unspent found
    · exact fun _ _ _ found => enter_kept fresh found
  | cast candidate base unspent =>
    exact { same with vote := fun _ _ _ found => enter_kept unspent found }
  | elect quorum standing vacant =>
    have apart : ∀ term, before.owner term ≠ none → term ≠ before.term peer := by
      intro _ owned equal
      rw [equal] at owned
      exact owned vacant
    refine { same with owner := ?_, base := ?_, line := ?_ }
    · intro term _ owned
      have unlike := apart term (by rw [owned]; simp)
      simp only [update_of_ne unlike]
      exact owned
    · intro term owned
      simp only [update_of_ne (apart term owned)]
    · intro term
      by_cases equal : term = before.term peer
      · rw [equal,inv.unowned _ vacant]
        exact List.nil_prefix
      · simp only [update_of_ne equal]
        exact List.prefix_refl _
  | append entry standing =>
    refine { same with line := fun term => ?_ }
    by_cases equal : term = before.term peer
    · subst equal
      rw [(inv.leading peer standing).2]
      simp
    · simp only [update_of_ne equal]
      exact List.prefix_refl _
  | ack => exact { same with acked := fun _ _ _ found => .inl found }
  | permit => exact { same with accepted := fun _ _ _ found => .inl found }
  | decide => exact { same with commits := fun _ _ _ found => .inl found }
  | tell => exact { same with told := fun _ _ found => .inl found }
  | ship => exact { same with shipped := fun _ _ found => .inl found }
  | hand => exact { same with handed := fun _ _ _ found => .inl found }
  | resign | accept | install | learn | apply | fold | recover => exact { same with }

end Astrs.Consensus
