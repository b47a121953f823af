/-
The lines of entries that terms write, and how every log is made of them.

Every log is rooted in the lines, so terms never go down along a log and two logs with
the same term at one index agree up to it.
-/

import Astrs.Consensus.Election

namespace Astrs.Consensus

open List

open Function (update update_of_ne update_self)

variable {P α : Type}

/-- A front that ends past a base ends in one of the entries added to it. -/
theorem prefix_snoc_append {front base added : List α} {entry : α}
    (within : front ++ [entry] <+: base ++ added) :
    front ++ [entry] <+: base ∨ base.length ≤ front.length ∧ entry ∈ added := by
  rcases prefix_or_prefix_of_prefix within (prefix_append base added) with inside | past
  · exact .inl inside
  · obtain ⟨rest,same⟩ := past
    rcases eq_nil_or_concat rest with rfl | ⟨earlier,last,rfl⟩
    · rw [append_nil] at same
      rw [← same]
      exact .inl (prefix_refl _)
    · rw [concat_eq_append,← append_assoc] at same
      obtain ⟨sameFront,sameEntry⟩ := append_inj' same rfl
      rw [← sameFront]
      refine .inr ⟨by simp,?_⟩
      rw [← same,append_assoc,prefix_append_right_inj] at within
      rw [← singleton_inj.mp sameEntry]
      exact mem_of_prefix_snoc within

/-- What holds of all logs: lines continue their winner's log in their own term,
terms stay below the terms of campaigns and peers, and every log is rooted. -/
structure ChainInv (setting : Setting P α) (guards : Guards) (offices : Offices P α)
    (logs : Logs P α) : Prop where
  written : ∀ term winner, offices.owner term = some winner →
    ∃ own, logs.line term = offices.base term ++ own ∧ ∀ entry ∈ own, setting.termOf entry = term
  below : ∀ peer term base, offices.campaign peer term = some base →
    ∀ entry ∈ base, setting.termOf entry < term
  bounded : ∀ peer, ∀ entry ∈ logs.log peer, setting.termOf entry ≤ offices.term peer
  rooted : ∀ peer, setting.Rooted logs.line (logs.log peer)
  rootedBase : ∀ term winner, offices.owner term = some winner →
    setting.Rooted logs.line (offices.base term)
  rootedBallot : ∀ voter term candidate log, offices.vote voter term = some (candidate,log) →
    setting.Rooted logs.line log
  unchanging : guards.fixed → ∀ term, setting.Unchanging (logs.line term)

abbrev Chains (setting : Setting P α) (guards : Guards) (state : State P α) : Prop :=
  ChainInv setting guards state.toOffices state.toLogs

namespace ChainInv

variable {setting : Setting P α} {guards : Guards} {state after : State P α} {peer : P} {term : Nat}
  {winner : P}

theorem base_below (election : Elections setting state) (chain : Chains setting guards state)
    (owned : state.owner term = some winner) :
    ∀ entry ∈ state.base term, setting.termOf entry < term :=
  chain.below winner term _ (election.won term winner owned).1

theorem base_prefix (chain : Chains setting guards state) (owned : state.owner term = some winner) :
    state.base term <+: state.line term := by
  obtain ⟨_,same,_⟩ := chain.written term winner owned
  rw [same]
  exact prefix_append _ _

section

variable (election : Elections setting state) (chain : Chains setting guards state)
include election chain

variable {entry : α}

/-- Along a line, what lies past the winner's log is of the line's own term. -/
theorem line_cases {front : List α} (within : front ++ [entry] <+: state.line term) :
    front ++ [entry] <+: state.base term ∧ setting.termOf entry < term ∨
      (state.base term).length ≤ front.length ∧ setting.termOf entry = term := by
  obtain ⟨winner,owned⟩ := election.owner_of_mem_line (mem_of_prefix_snoc within)
  obtain ⟨_,same,ownTerm⟩ := chain.written term winner owned
  rw [same] at within
  rcases prefix_snoc_append within with inside | ⟨past,mem⟩
  · exact .inl ⟨inside,chain.base_below election owned entry (mem_of_prefix_snoc inside)⟩
  · exact .inr ⟨past,ownTerm entry mem⟩

theorem line_le (mem : entry ∈ state.line term) : setting.termOf entry ≤ term := by
  obtain ⟨_,within⟩ := exists_snoc_prefix_of_mem mem
  rcases chain.line_cases election within with ⟨_,less⟩ | ⟨_,same⟩
  · exact Nat.le_of_lt less
  · exact Nat.le_of_eq same

theorem rooted_line (term : Nat) : setting.Rooted state.line (state.line term) := by
  intro front entry within
  obtain ⟨winner,owned⟩ := election.owner_of_mem_line (mem_of_prefix_snoc within)
  rcases chain.line_cases election within with ⟨inside,_⟩ | ⟨_,same⟩
  · exact chain.rootedBase term winner owned front entry inside
  · rw [same]
    exact within

theorem ascending_line (term : Nat) : setting.Ascending (state.line term) := by
  induction term using Nat.strong_induction_on with
  | _ term earlier =>
    cases owned : state.owner term with
    | none =>
      rw [election.unowned term owned]
      exact .nil
    | some winner =>
      obtain ⟨_,same,ownTerm⟩ := chain.written term winner owned
      have less := chain.base_below election owned
      rw [same]
      refine pairwise_append.mpr ⟨?_,?_,?_⟩
      · by_cases empty : state.base term = []
        · rw [empty]
          exact .nil
        · have within := (chain.rootedBase term winner owned).prefix_line setting empty
          refine (earlier _ ?_).of_isPrefix setting within
          rw [← List.dropLast_append_getLast empty,Setting.lastTerm_snoc]
          exact less _ (List.getLast_mem empty)
      · refine pairwise_of_forall_mem_list fun older olderMember newer newerMember => ?_
        rw [ownTerm older olderMember,ownTerm newer newerMember]
      · intro older olderMember newer newerMember
        rw [ownTerm newer newerMember]
        exact Nat.le_of_lt (less older olderMember)

theorem ascending {log : List α} (rooted : setting.Rooted state.line log) :
    setting.Ascending log := by
  by_cases empty : log = []
  · rw [empty]
    exact .nil
  · exact (chain.ascending_line election _).of_isPrefix setting (rooted.prefix_line setting empty)

private theorem of_line (peer : P) (count : Nat) :
    (∀ entry ∈ (state.line (state.term peer)).take count, setting.termOf entry ≤ state.term peer) ∧
      setting.Rooted state.line ((state.line (state.term peer)).take count) :=
  ⟨fun _ mem => chain.line_le election (( take_prefix _ _).subset mem),
    (chain.rooted_line election _).of_isPrefix setting ( take_prefix _ _)⟩

end

theorem unchanging_of_rooted (chain : Chains setting guards state)
    (fixed : guards.fixed) {log : List α} (rooted : setting.Rooted state.line log) :
    setting.Unchanging log := by
  intro entry mem
  obtain ⟨front,within⟩ := exists_snoc_prefix_of_mem mem
  exact chain.unchanging fixed _ entry (mem_of_prefix_snoc (rooted front entry within))

/-! ### Preservation -/

private theorem elect (chain : Chains setting guards state) (wider : ∀ term, state.line term <+:
      update state.line (state.term peer) (state.log peer) term) {role : P → Standing} :
    ChainInv setting guards
      { state.toOffices with
        role := role
        owner := update state.owner (state.term peer) (some peer)
        base := update state.base (state.term peer) (state.log peer) }
      { state.toLogs with
        line := update state.line (state.term peer) (state.log peer) } := by
  refine ⟨?_,chain.below,chain.bounded,?_,?_,?_,?_⟩
  · intro term winner owned
    by_cases same : term = state.term peer
    · subst same
      simp only [update_self]
      exact ⟨[],(append_nil _).symm,nofun⟩
    · simp only [update_of_ne same] at owned ⊢
      exact chain.written term winner owned
  · exact fun other => (chain.rooted other).mono setting wider
  · intro term winner owned
    by_cases same : term = state.term peer
    · subst same
      simp only [update_self]
      exact (chain.rooted peer).mono setting wider
    · simp only [update_of_ne same] at owned ⊢
      exact (chain.rootedBase term winner owned).mono setting wider
  · intro voter term candidate log found
    exact (chain.rootedBallot voter term candidate log found).mono setting wider
  · intro fixed
    exact all_updated (fun _ line => setting.Unchanging line) (chain.unchanging fixed)
      (chain.unchanging_of_rooted fixed (chain.rooted peer))

variable [DecidableEq P]

section

variable (chain : Chains setting guards state)
include chain

private theorem relog {log : List α}
    (bounded : ∀ entry ∈ log, setting.termOf entry ≤ state.term peer)
    (rooted : setting.Rooted state.line log) :
    ChainInv setting guards state.toOffices
      { state.toLogs with log := update state.log peer log } := by
  refine { chain with bounded := ?_, rooted := ?_ }
  · exact all_updated (fun other log => ∀ entry ∈ log, setting.termOf entry ≤ state.term other)
      chain.bounded bounded
  · exact all_updated (fun _ log => setting.Rooted state.line log) chain.rooted rooted

private theorem bump {later : Nat} (ahead : state.term peer ≤ later) (role : P → Standing) :
    ChainInv setting guards
      { state.toOffices with term := update state.term peer later, role := role }
      state.toLogs := by
  refine { chain with bounded := ?_ }
  exact all_updated (fun other term => ∀ entry ∈ state.log other, setting.termOf entry ≤ term)
    chain.bounded fun entry mem => (chain.bounded peer entry mem).trans ahead

private theorem stand {role : P → Standing} : ChainInv setting guards
      { state.toOffices with
        term := update state.term peer (state.term peer + 1)
        role := role
        vote := enter state.vote peer (state.term peer + 1) (peer,state.log peer)
        campaign := enter state.campaign peer (state.term peer + 1) (state.log peer) }
      state.toLogs := by
  have raised := chain.bump (Nat.le_succ (state.term peer)) role
  refine { raised with below := ?_, rootedBallot := ?_ }
  · intro other term base found entry mem
    rcases enter_cases found with ⟨rfl,rfl,rfl⟩ | held
    · exact Nat.lt_succ_of_le (chain.bounded other entry mem)
    · exact chain.below other term base held entry mem
  · intro voter term candidate log found
    rcases enter_cases found with ⟨rfl,rfl,same⟩ | held
    · cases same
      exact chain.rooted voter
    · exact chain.rootedBallot voter term candidate log held

private theorem cast {candidate : P} : ChainInv setting guards
      { state.toOffices with
        vote := enter state.vote peer (state.term peer) (candidate,state.log peer) }
      state.toLogs := by
  refine { chain with rootedBallot := fun voter term other log found => ?_ }
  rcases enter_cases found with ⟨rfl,rfl,same⟩ | held
  · cases same
    exact chain.rooted voter
  · exact chain.rootedBallot voter term other log held

end

private theorem append (election : Elections setting state) (chain : Chains setting guards state)
    {entry : α} (wider : ∀ term, state.line term <+:
      update state.line (state.term peer) (state.log peer ++ [entry]) term)
    (standing : state.role peer = .leading) (ownTerm : setting.termOf entry = state.term peer)
    (unset : guards.fixed → setting.votersOf entry = none) :
    ChainInv setting guards state.toOffices
      { state.toLogs with
        log := update state.log peer (state.log peer ++ [entry])
        line := update state.line (state.term peer) (state.log peer ++ [entry]) } := by
  obtain ⟨_,same⟩ := election.leading peer standing
  refine ⟨?_,chain.below,?_,?_,?_,?_,?_⟩
  · intro term winner owned
    obtain ⟨own,line,written⟩ := chain.written term winner owned
    by_cases mine : term = state.term peer
    · subst mine
      simp only [update_self]
      refine ⟨own ++ [entry],?_,fun item mem => ?_⟩
      · rw [← same,line,append_assoc]
      · rcases mem_append.mp mem with earlier | final
        · exact written item earlier
        · rw [mem_singleton.mp final]
          exact ownTerm
    · simp only [update_of_ne mine]
      exact ⟨own,line,written⟩
  · exact all_updated (fun other log => ∀ item ∈ log, setting.termOf item ≤ state.term other)
      chain.bounded (forall_mem_append.mpr ⟨chain.bounded peer,
        forall_mem_singleton.mpr (Nat.le_of_eq ownTerm)⟩)
  · refine all_updated (fun _ log => setting.Rooted _ log)
      (fun other => (chain.rooted other).mono setting wider) fun front item within => ?_
    rcases prefix_concat_iff.mp within with whole | inside
    · rw [whole]
      obtain ⟨_,sameItem⟩ := append_inj' whole rfl
      rw [singleton_inj.mp sameItem,ownTerm]
      simp only [update_self]
      exact prefix_refl _
    · exact (chain.rooted peer).mono setting wider front item inside
  · exact fun term winner owned => (chain.rootedBase term winner owned).mono setting wider
  · intro voter term candidate log found
    exact (chain.rootedBallot voter term candidate log found).mono setting wider
  · intro fixed
    exact all_updated (fun _ line => setting.Unchanging line) (chain.unchanging fixed)
      (forall_mem_append.mpr ⟨chain.unchanging_of_rooted fixed (chain.rooted peer),
        forall_mem_singleton.mpr (unset fixed)⟩)

theorem step (election : Elections setting state) (chain : Chains setting guards state)
    (moved : Step setting guards peer state after) : Chains setting guards after := by
  have wider := (moved.extends election).line
  cases moved with
  | bump later ahead => exact chain.bump (Nat.le_of_lt ahead) _
  | stand => exact chain.stand
  | cast => exact chain.cast
  | elect => exact chain.elect wider
  | append entry standing ownTerm unset =>
    exact chain.append election wider standing ownTerm unset
  | accept count =>
    obtain ⟨bounded,rooted⟩ := chain.of_line election peer count
    by_cases held : (state.line (state.term peer)).take count <+: state.log peer
    · rw [overwrite_of_isPrefix held]
      exact chain.relog (chain.bounded peer) (chain.rooted peer)
    · rw [overwrite_of_not_isPrefix held]
      exact chain.relog bounded rooted
  | install count =>
    obtain ⟨bounded,rooted⟩ := chain.of_line election peer count
    exact chain.relog bounded rooted
  | resign | recover => exact { chain with }
  | ack | permit | decide | learn | tell | ship | hand | apply | fold => exact chain

end ChainInv

end Astrs.Consensus
