/-
Acknowledgements, commits and the marks derived from them, over whole runs.

`Known` is the one fact behind every mark: the log up to the mark is a committed front
of some line no later than the peer's term.
-/

import Astrs.Consensus.Completeness

namespace Astrs.Consensus

open List

open Function (update update_of_ne update_self)

variable {P α : Type}

def Chosen (promises : Promises P) (term index : Nat) : Prop :=
  ∃ reached length, promises.commits term reached length ∧ index ≤ reached

def Known (logs : Logs P α) (promises : Promises P) (bound index : Nat) (log : List α) : Prop :=
  index = 0 ∨ ∃ term ≤ bound, Chosen promises term index ∧ Holds logs term index log

/-- Marks and reports reach committed entries only. -/
structure MarkInv (offices : Offices P α) (logs : Logs P α) (promises : Promises P)
    (marks : Marks P α) : Prop where
  commit : ∀ peer, Known logs promises (offices.term peer) (marks.commit peer) (logs.log peer)
  applied : ∀ peer, Known logs promises (offices.term peer) (marks.applied peer) (logs.log peer)
  told : ∀ term index, marks.told term index → Known logs promises term index (logs.line term)
  shipped : ∀ term index, marks.shipped term index → Known logs promises term index (logs.line term)
  handed : ∀ peer index entry, marks.handed peer index entry →
    ∃ term front, front ++ [entry] <+: logs.line term ∧ front.length + 1 = index ∧
      Chosen promises term index

/-- What holds of the folded part of a log and of acknowledged entries, whatever
was committed. -/
structure FloorInv (guards : Guards) (offices : Offices P α) (logs : Logs P α)
    (marks : Marks P α) : Prop where
  applied : ∀ peer, marks.floor peer ≤ marks.applied peer
  log : ∀ peer, marks.floor peer ≤ (logs.log peer).length
  unshipped : guards.whole → ∀ term index, ¬ marks.shipped term index
  accepted : guards.install → ∀ voter term index, marks.accepted voter term index →
    term ≤ offices.term voter ∧ (offices.term voter = term → index ≤ marks.floor voter ∨
      Holds logs term index (logs.log voter) ∧ index ≤ (logs.line term).length)

abbrev Marked (state : State P α) : Prop :=
  MarkInv state.toOffices state.toLogs state.toPromises state.toMarks

abbrev Floors (guards : Guards) (state : State P α) : Prop :=
  FloorInv guards state.toOffices state.toLogs state.toMarks

section Growth

variable {setting : Setting P α} {before after : State P α} {log : List α} {term index : Nat}

section

variable (grown : Extends before after) (fits : index ≤ (before.line term).length)
include grown fits

theorem Holds.grow (held : Holds before.toLogs term index log) :
    Holds after.toLogs term index log := by
  unfold Holds at *
  rw [take_eq_of_isPrefix (grown.line term) fits]
  exact held

theorem Holds.of_grown (held : Holds after.toLogs term index log) :
    Holds before.toLogs term index log := by
  unfold Holds at *
  rw [take_eq_of_isPrefix (grown.line term) fits] at held
  exact held

variable {bound wider : Nat}

theorem Broken.grow (ordered : bound ≤ wider)
    (broken : Broken before.toOffices before.toLogs term index bound) :
    Broken after.toOffices after.toLogs term index wider := by
  obtain ⟨later,follows,within,⟨winner,owned⟩,missing⟩ := broken
  refine ⟨later,follows,within.trans ordered,⟨winner,grown.owner _ _ owned⟩,fun held => ?_⟩
  rw [grown.base later (by rw [owned]; simp)] at held
  exact missing (held.of_grown grown fits)

theorem kept_or_broken_grow (ordered : bound ≤ wider) (either : Holds before.toLogs term index log ∨
      Broken before.toOffices before.toLogs term index bound) :
    Holds after.toLogs term index log ∨ Broken after.toOffices after.toLogs term index wider :=
  either.imp (fun held => held.grow grown fits) (fun broken => broken.grow grown fits ordered)

end

theorem PromiseInv.chosen_le (promise : Pledges setting before)
    (chosen : Chosen before.toPromises term index) : index ≤ (before.line term).length := by
  obtain ⟨_,_,committed,_⟩ := chosen
  have := promise.commit_le committed
  omega

theorem Chosen.grow (grown : Extends before after)
    (chosen : Chosen before.toPromises term index) : Chosen after.toPromises term index := by
  obtain ⟨reached,length,committed,within⟩ := chosen
  exact ⟨reached,length,grown.commits _ _ _ committed,within⟩

variable {promises : Promises P}

theorem Chosen.of_le {lower : Nat}
    (chosen : Chosen promises term index) (below : lower ≤ index) : Chosen promises term lower := by
  obtain ⟨reached,length,committed,within⟩ := chosen
  exact ⟨reached,length,committed,below.trans within⟩

theorem Known.grow (promise : Pledges setting before) (grown : Extends before after)
    {bound wider : Nat} {longer : List α} (ordered : bound ≤ wider)
    (longerLog : log <+: longer) (known : Known before.toLogs before.toPromises bound index log) :
    Known after.toLogs after.toPromises wider index longer := by
  rcases known with zero | ⟨term,within,chosen,held⟩
  · exact .inl zero
  · exact .inr ⟨term,within.trans ordered,chosen.grow grown,
      (held.grow grown (promise.chosen_le chosen)).trans longerLog⟩

theorem Known.le (promise : Pledges setting before)
    {bound : Nat} (known : Known before.toLogs before.toPromises bound index log) :
    index ≤ log.length := by
  rcases known with zero | ⟨term,_,chosen,held⟩
  · omega
  · have fits := promise.chosen_le chosen
    have length := held.length_le
    rw [length_take,Nat.min_eq_left fits] at length
    exact length

theorem Known.of_le {logs : Logs P α} {bound lower : Nat}
    (below : lower ≤ index) (known : Known logs promises bound index log) :
    Known logs promises bound lower log := by
  rcases known with zero | ⟨term,within,chosen,held⟩
  · exact .inl (by omega)
  · exact .inr ⟨term,within,chosen.of_le below,(take_prefix_take_left below).trans held⟩

end Growth

section Agreement

variable [DecidableEq P] {setting : Setting P α} {guards : Guards} {state : State P α} {peer : P}

section

variable (election : Elections setting state) (chain : Chains setting guards state)
  (promise : Pledges setting state)
include election chain promise

variable {later index : Nat} {winner : P}

theorem Chosen.prefix_line {term : Nat} (chosen : Chosen state.toPromises term index)
    (ordered : term ≤ later) (owned : state.owner later = some winner) :
    (state.line term).take index <+: state.line later := by
  rcases Nat.lt_or_eq_of_le ordered with before | same
  · obtain ⟨reached,length,committed,within⟩ := chosen
    have held := complete election chain promise later term later winner reached length before
      (Nat.le_refl _) owned committed
    exact ((take_prefix_take_left within).trans held).trans (chain.base_prefix owned)
  · rw [same]
    exact take_prefix _ _

/-- Below a known mark the peer's log and its leader's line are the same. -/
theorem Known.agrees {log : List α} (known : Known state.toLogs state.toPromises later index log)
    (owned : state.owner later = some winner) :
    index ≤ (state.line later).length ∧ Holds state.toLogs later index log := by
  rcases known with zero | ⟨term,within,chosen,held⟩
  · subst zero
    exact ⟨Nat.zero_le _,by simp [Holds]⟩
  · have shared := chosen.prefix_line election chain promise within owned
    have fits := promise.chosen_le chosen
    have length : ((state.line term).take index).length = index := by
      rw [length_take]
      omega
    have same : (state.line later).take index = (state.line term).take index := by
      have taken := prefix_iff_eq_take.mp shared
      rw [length] at taken
      exact taken.symm
    refine ⟨?_,?_⟩
    · rw [← length]
      exact shared.length_le
    · unfold Holds
      rw [same]
      exact held

/-- Two committed fronts agree wherever both reach. -/
theorem chosen_agree {left right : Nat} (leftChosen : Chosen state.toPromises left index)
    (rightChosen : Chosen state.toPromises right index) :
    (state.line left).take index = (state.line right).take index := by
  have ordered : ∀ {first second : Nat}, first ≤ second →
      Chosen state.toPromises first index → Chosen state.toPromises second index →
        (state.line first).take index = (state.line second).take index := by
    intro _ _ order firstChosen secondChosen
    obtain ⟨_,_,committed,_⟩ := secondChosen
    obtain ⟨_,owned⟩ := promise.commit_owner election committed
    have shared := firstChosen.prefix_line election chain promise order owned
    refine prefix_eq_of_length_eq shared ( take_prefix _ _) ?_
    have firstFits := promise.chosen_le firstChosen
    have secondFits := promise.commit_le committed
    rw [length_take,length_take]
    omega
  rcases Nat.le_total left right with order | order
  · exact ordered order leftChosen rightChosen
  · exact (ordered order rightChosen leftChosen).symm

end

end Agreement

/-! ### Promises along a transition -/

section Preservation

variable {setting : Setting P α} {guards : Guards} {state after : State P α} {peer : P}

namespace PromiseInv

/-- The log a voter chose a winner for holds what the voter had acknowledged. -/
private abbrev Endorses (state : State P α) (promises : Promises P) (later : Nat)
    (winner voter : P) : Prop :=
  ∃ log, state.vote voter later = some (winner,log) ∧
    ∀ term index upTo, promises.acked voter term index → upTo ≤ index → term < later →
      Holds state.toLogs term upTo log ∨ Broken state.toOffices state.toLogs term upTo (later - 1)

section

variable (promise : Pledges setting state)
include promise

/-- Transitions that grow lines or winners and leave the acknowledgements; of the ballots only
the new ones need a look. -/
private theorem regrow (grown : Extends state after)
    (samePromises : after.toPromises = state.toPromises)
    (logs : ∀ voter, state.log voter <+: after.log voter)
    (ballots : ∀ voter later candidate log, after.vote voter later = some (candidate,log) →
      state.vote voter later = some (candidate,log) ∨
        log = state.log voter ∧ state.term voter ≤ later)
    (quorums : ∀ later winner, after.owner later = some winner →
      state.owner later = some winner ∨ ∃ quorum,
        Majority quorum (setting.configuration (after.base later)) ∧
          ∀ voter ∈ quorum, Endorses state state.toPromises later winner voter)
    (changes : ∀ term front change voters, front ++ [change] <+: after.line term →
      setting.termOf change = term → setting.votersOf change = some voters →
        front ++ [change] <+: state.line term ∨ Overlapping (setting.configuration front) voters ∧
          ∃ index length, state.commits term index length ∧ length ≤ front.length ∧
            ∀ before earlier, before ++ [earlier] <+: front →
              setting.votersOf earlier ≠ none → before.length + 1 ≤ index) :
    Pledges setting after := by
  rw [Pledges,samePromises]
  refine ⟨?_,?_,?_,?_,?_⟩
  · intro voter term index acked
    obtain ⟨reached,fits,kept⟩ := promise.acked voter term index acked
    refine ⟨reached.trans (grown.term voter),fits.trans (grown.line term).length_le,
      fun upTo below => ?_⟩
    exact (kept_or_broken_grow grown (below.trans fits) (grown.term voter)
      (kept upTo below)).imp_left (fun held => List.IsPrefix.trans held (logs voter))
  · intro voter later candidate log found term index upTo acked below before
    obtain ⟨_,fits,kept⟩ := promise.acked voter term index acked
    rcases ballots voter later candidate log found with old | ⟨same,ordered⟩
    · exact kept_or_broken_grow grown (below.trans fits) (Nat.le_refl _)
        (promise.ballots voter later candidate log old term index upTo acked below before)
    · rw [same]
      exact kept_or_broken_grow grown (below.trans fits) ordered (kept upTo below)
  · intro later winner owned
    have transport : ∀ voter, Endorses state state.toPromises later winner voter →
        Endorses after state.toPromises later winner voter := by
      rintro voter ⟨log,found,kept⟩
      refine ⟨log,grown.vote _ _ _ found,fun term index upTo acked below before => ?_⟩
      have fits := (promise.acked voter term index acked).2.1
      exact kept_or_broken_grow grown (below.trans fits) (Nat.le_refl _)
        (kept term index upTo acked below before)
    rcases quorums later winner owned with old | ⟨quorum,most,votes⟩
    · obtain ⟨quorum,most,votes⟩ := promise.quorums later winner old
      rw [grown.base later (by rw [old]; simp)]
      exact ⟨quorum,most,fun voter inside => transport voter (votes voter inside)⟩
    · exact ⟨quorum,most,fun voter inside => transport voter (votes voter inside)⟩
  · intro term index length committed
    obtain ⟨front,last,within,counted,ownTerm,shorter,fits,quorum,most,acks⟩ :=
      promise.commits term index length committed
    refine ⟨front,last,within.trans (grown.line term),counted,ownTerm,shorter,
      fits.trans (grown.line term).length_le,quorum,?_,acks⟩
    rw [take_eq_of_isPrefix (grown.line term) fits]
    exact most
  · intro term front change voters within ownTerm set
    rcases changes term front change voters within ownTerm set with old | fresh
    · exact promise.changes term front change voters old ownTerm set
    · exact fresh

/-- A winner's ballots were cast while its term had no leader yet. -/
private theorem elect {quorum : Finset P} (vacant : state.owner (state.term peer) = none)
    (most : Majority quorum (setting.configuration (state.log peer)))
    (votes : ∀ voter ∈ quorum, ∃ log, state.vote voter (state.term peer) = some (peer,log)) :
    ∀ later winner, update state.owner (state.term peer) (some peer) later = some winner →
      state.owner later = some winner ∨ ∃ quorum, Majority quorum (setting.configuration
          (update state.base (state.term peer) (state.log peer) later)) ∧
          ∀ voter ∈ quorum, Endorses state state.toPromises later winner voter := by
  intro later _ owned
  by_cases same : later = state.term peer
  · subst same
    rw [update_self] at owned
    cases owned
    rw [update_self]
    refine .inr ⟨quorum,most,fun voter inside => ?_⟩
    obtain ⟨log,found⟩ := votes voter inside
    refine ⟨log,found,fun term index upTo acked below before => ?_⟩
    refine (promise.ballots voter _ peer log found term index upTo acked below before).imp_right ?_
    rintro ⟨between,follows,_,⟨owner,had⟩,missing⟩
    refine ⟨between,follows,?_,⟨owner,had⟩,missing⟩
    have apart : between ≠ state.term peer := by
      intro equal
      rw [equal,vacant] at had
      cases had
    omega
  · rw [update_of_ne same] at owned
    exact .inl owned

end

/-- An own-term commit backs every voter change a leader makes. -/
private theorem append (election : Elections setting state) (chain : Chains setting guards state)
    (promise : Pledges setting state) {commit : Nat}
    (known : Known state.toLogs state.toPromises (state.term peer) commit (state.log peer))
    (stands : state.role peer = .leading)
    (ready : ∃ front last, front ++ [last] <+: state.log peer ∧ front.length + 1 = commit ∧
      setting.termOf last = state.term peer) :
    ∃ index length, state.commits (state.term peer) index length ∧
      length ≤ (state.log peer).length ∧ commit ≤ index := by
  obtain ⟨front,last,within,_⟩ := ready
  rcases known with zero | ⟨term,bounded,chosen,held⟩
  · omega
  · have fits := promise.chosen_le chosen
    have placed : front ++ [last] <+: (state.line term).take commit := by
      refine prefix_of_prefix_length_le within held ?_
      simp only [length_append,length_singleton,length_take]
      omega
    have atMost := chain.line_le election (mem_of_prefix_snoc (placed.trans ( take_prefix _ _)))
    obtain rfl : term = state.term peer := by omega
    obtain ⟨reached,length,committed,below⟩ := chosen
    refine ⟨reached,length,committed,?_,below⟩
    rw [← (election.leading peer stands).2]
    exact (promise.commit_le committed).2.2

variable [DecidableEq P]

section

variable (election : Elections setting state) (chain : Chains setting guards state)
include election chain

/-- Writing a front of its term's line over a log keeps what was acknowledged. -/
private theorem rewrite (promise : Pledges setting state) {count : Nat} :
    PromiseInv setting state.toOffices
      { state.toLogs with
        log := update state.log peer
          (overwrite ((state.line (state.term peer)).take count) (state.log peer)) }
      state.toPromises := by
  refine { promise with acked := fun voter term index acked => ?_ }
  obtain ⟨reached,fits,kept⟩ := promise.acked voter term index acked
  refine ⟨reached,fits,fun upTo below => ?_⟩
  by_cases same : voter = peer
  · subst same
    simp only [Holds,update_self]
    rcases kept upTo below with held | broken
    · rcases Nat.lt_or_eq_of_le reached with before | now
      · cases owned : state.owner (state.term voter) with
        | none =>
          rw [election.unowned _ owned]
          simp only [take_nil]
          exact .inl held
        | some winner =>
          by_cases present : Holds state.toLogs term upTo (state.base (state.term voter))
          · exact .inl (kept_by_overwrite held
              (List.IsPrefix.trans present (chain.base_prefix owned)))
          · exact .inr ⟨_,before,Nat.le_refl _,⟨winner,owned⟩,present⟩
      · rw [← now]
        exact .inl (kept_by_overwrite held ( take_prefix _ _))
    · exact .inr broken
  · simp only [Holds,update_of_ne same]
    exact kept upTo below

/-- An acknowledgement made under the reporting rule is a front of the line. -/
private theorem ack_holds (floors : Floors guards state) (promise : Pledges setting state)
    (marks : Marked state) (report : guards.report) {index : Nat} {winner : P}
    (owned : state.owner (state.term peer) = some winner) (grounds : index ≤ state.floor peer ∨
      (state.line (state.term peer)).take index <+: state.log peer ∧
        index ≤ (state.line (state.term peer)).length ∨
      index = (state.log peer).length ∧
        (guards.report → (state.log peer).length ≤ state.commit peer ∨
          setting.lastTerm (state.log peer) = state.term peer)) :
    index ≤ (state.line (state.term peer)).length ∧
      Holds state.toLogs (state.term peer) index (state.log peer) := by
  have ofMark : ∀ mark, index ≤ mark →
      Known state.toLogs state.toPromises (state.term peer) mark (state.log peer) →
        index ≤ (state.line (state.term peer)).length ∧
          Holds state.toLogs (state.term peer) index (state.log peer) := by
    intro _ below known
    exact (known.of_le below).agrees election chain promise owned
  rcases grounds with folded | ⟨held,fits⟩ | ⟨same,whole⟩
  · exact ofMark _ (folded.trans (floors.applied peer)) (marks.applied peer)
  · exact ⟨fits,held⟩
  · rcases whole report with committed | current
    · exact ofMark _ (by omega) (marks.commit peer)
    · have nonempty : state.log peer ≠ [] := by
        intro empty
        rw [empty] at current
        exact absurd current (Nat.ne_of_lt (election.owner_positive owned).1)
      have onLine := (chain.rooted peer).prefix_line setting nonempty
      rw [current] at onLine
      refine ⟨same ▸ onLine.length_le,?_⟩
      unfold Holds
      rw [same,← prefix_iff_eq_take.mp onLine]

theorem step (floors : Floors guards state) (promise : Pledges setting state) (marks : Marked state)
    (strict : guards.Strict) (moved : Step setting guards peer state after) :
    Pledges setting after := by
  have grown := moved.extends election
  obtain ⟨installs,reports,reconfigures,_⟩ := strict
  cases moved with
  | bump | resign | recover =>
    exact promise.regrow grown rfl (fun _ => prefix_refl _) (fun _ _ _ _ found => .inl found)
      (fun _ _ owned => .inl owned) (fun _ _ _ _ within _ _ => .inl within)
  | stand | cast =>
    refine promise.regrow grown rfl (fun _ => prefix_refl _) ?_ (fun _ _ owned => .inl owned)
      (fun _ _ _ _ within _ _ => .inl within)
    intro voter later candidate log found
    rcases enter_cases found with ⟨rfl,rfl,same⟩ | held
    · cases same
      exact .inr ⟨rfl,by omega⟩
    · exact .inl held
  | elect quorum stands vacant most votes =>
    refine promise.regrow grown rfl (fun _ => prefix_refl _) (fun _ _ _ _ found => .inl found)
      (promise.elect vacant most votes) ?_
    intro term _ change _ within _ _
    by_cases same : term = state.term peer
    · subst same
      simp only [update_self] at within
      have less := chain.below peer _ _ (election.candidate peer stands).1 change
        (mem_of_prefix_snoc within)
      omega
    · simp only [update_of_ne same] at within
      exact .inl within
  | append entry stands ownTerm unset guarded =>
    refine promise.regrow grown rfl (prefix_update_snoc _ _ _) (fun _ _ _ _ found => .inl found)
      (fun _ _ owned => .inl owned) ?_
    intro term _ _ voters within _ set
    by_cases same : term = state.term peer
    · subst same
      simp only [update_self] at within
      rw [(election.leading peer stands).2]
      rcases prefix_concat_iff.mp within with whole | inside
      · obtain ⟨sameFront,sameChange⟩ := append_inj' whole rfl
        rw [singleton_inj.mp sameChange] at set
        obtain ⟨overlapping,condition⟩ := guarded voters set
        obtain ⟨ready,earlier⟩ := condition reconfigures
        obtain ⟨index,length,committed,fits,reached⟩ :=
          promise.append election chain (marks.commit peer) stands ready
        rw [sameFront]
        exact .inr ⟨overlapping,index,length,committed,fits,
          fun before older placed changes => (earlier before older placed changes).trans reached⟩
      · exact .inl inside
    · simp only [update_of_ne same] at within
      exact .inl within
  | accept => exact promise.rewrite election chain
  | install count stands shipped fits guarded =>
    rw [take_eq_overwrite fits (guarded installs).2]
    exact promise.rewrite election chain
  | ack index owned grounds =>
    obtain ⟨winner,owner⟩ := Option.ne_none_iff_exists'.mp owned
    obtain ⟨fits,held⟩ := promise.ack_holds election chain floors marks reports owner grounds
    -- A peer that acknowledges in its own term has cast no ballot of a later one.
    have early : ∀ later ballot, state.vote peer later = some ballot →
        ¬ state.term peer < later := by
      intro later ballot found
      have := election.vote_le peer later ballot found
      omega
    refine ⟨?_,?_,?_,?_,?_⟩
    · rintro voter term upTo (old | ⟨rfl,rfl,rfl⟩)
      · exact promise.acked voter term upTo old
      · exact ⟨Nat.le_refl _,fits,fun lower below =>
          .inl ((take_prefix_take_left below).trans held)⟩
    · rintro voter later candidate log found term upTo lower (old | ⟨rfl,rfl,rfl⟩) below before
      · exact promise.ballots voter later candidate log found term upTo lower old below before
      · exact absurd before (early later _ found)
    · intro later winner won
      obtain ⟨quorum,most,votes⟩ := promise.quorums later winner won
      refine ⟨quorum,most,fun voter inside => ?_⟩
      obtain ⟨log,found,kept⟩ := votes voter inside
      refine ⟨log,found,?_⟩
      rintro term upTo lower (old | ⟨rfl,rfl,rfl⟩) below before
      · exact kept term upTo lower old below before
      · exact absurd before (early later _ found)
    · intro term upTo length committed
      obtain ⟨front,last,within,counted,ownTerm,shorter,long,quorum,most,acks⟩ :=
        promise.commits term upTo length committed
      refine ⟨front,last,within,counted,ownTerm,shorter,long,quorum,most,?_⟩
      intro voter inside
      obtain ⟨reached,past,acked⟩ := acks voter inside
      exact ⟨reached,past,.inl acked⟩
    · exact promise.changes
  | decide quorum front last stands within ownTerm most acks =>
    have same := (election.leading peer stands).2
    refine { promise with commits := ?_, changes := ?_ }
    · rintro term upTo length (old | ⟨rfl,rfl,rfl⟩)
      · exact promise.commits term upTo length old
      · have shorter := within.length_le
        simp only [length_append,length_singleton] at shorter
        rw [same]
        refine ⟨front,last,within,rfl,ownTerm,shorter,Nat.le_refl _,quorum,?_,acks⟩
        rw [take_length]
        exact most
    · intro term before change voters placed itsTerm set
      obtain ⟨overlapping,index,length,committed,early,earlier⟩ :=
        promise.changes term before change voters placed itsTerm set
      exact ⟨overlapping,index,length,.inl committed,early,earlier⟩
  | permit | learn | tell | ship | hand | apply | fold => exact promise

end

end PromiseInv

end Preservation

end Astrs.Consensus
