/-
The invariant of the whole transition system and what it says about runs.

Elections, chains and folded logs are invariant under any guards; promises and marks are
once the guards are strict.
-/

import Astrs.Consensus.Commitment

namespace Astrs.Consensus

open List

open Function (update update_of_ne update_self)

variable {P α : Type} {setting : Setting P α} {guards : Guards} {state after : State P α}
  {peer : P}

namespace FloorInv

private theorem bump (floors : Floors guards state)
    {offices : Offices P α} (grown : ∀ other, state.term other ≤ offices.term other) :
    FloorInv guards offices state.toLogs state.toMarks := by
  refine { floors with accepted := fun installs voter term index accepted => ?_ }
  obtain ⟨reached,current⟩ := floors.accepted installs voter term index accepted
  refine ⟨reached.trans (grown voter),fun now => current ?_⟩
  have := grown voter
  omega

/-- A longer line and longer logs keep what was accepted. -/
private theorem regrow (floors : Floors guards state) (extended : Extends state after)
    (sameTerm : after.term = state.term) (sameMarks : after.toMarks = state.toMarks)
    (logs : ∀ voter, state.log voter <+: after.log voter) : Floors guards after := by
  rw [Floors,sameMarks]
  refine ⟨floors.applied,fun other => (floors.log other).trans (logs other).length_le,
    floors.unshipped,fun installs voter term index accepted => ?_⟩
  obtain ⟨reached,current⟩ := floors.accepted installs voter term index accepted
  refine ⟨reached.trans (extended.term voter),fun now => ?_⟩
  rw [sameTerm] at now
  rcases current now with folded | ⟨held,fits⟩
  · exact .inl folded
  · exact .inr ⟨List.IsPrefix.trans (held.grow extended fits) (logs voter),
      fits.trans (extended.line term).length_le⟩

variable [DecidableEq P]

private theorem relog (floors : Floors guards state)
    {log : List α} (long : state.floor peer ≤ log.length)
    (kept : guards.install → ∀ index, Holds state.toLogs (state.term peer) index (state.log peer) →
      Holds state.toLogs (state.term peer) index log) :
    FloorInv guards state.toOffices
      { state.toLogs with log := update state.log peer log } state.toMarks := by
  refine { floors with
    log := all_updated (fun other (log : List α) => state.floor other ≤ log.length) floors.log long
    accepted := ?_ }
  intro installs voter term index accepted
  obtain ⟨reached,current⟩ := floors.accepted installs voter term index accepted
  refine ⟨reached,fun now => ?_⟩
  rcases current now with folded | ⟨held,fits⟩
  · exact .inl folded
  · refine .inr ⟨?_,fits⟩
    by_cases same : voter = peer
    · subst same
      subst now
      simp only [update_self]
      exact kept installs index held
    · simp only [update_of_ne same]
      exact held

theorem step (election : Elections setting state) (floors : Floors guards state)
    (moved : Step setting guards peer state after) : Floors guards after := by
  have extended := moved.extends election
  cases moved with
  | bump | resign | stand | cast => exact floors.bump extended.term
  | elect => exact floors.regrow extended rfl rfl (fun _ => prefix_refl _)
  | append =>
    exact floors.regrow extended rfl rfl (prefix_update_snoc _ _ _)
  | accept count =>
    refine floors.relog ?_ (fun _ index held => kept_by_overwrite held ( take_prefix _ _))
    have counted := (prefix_overwrite ((state.line (state.term peer)).take count)
      (state.log peer)).length_le
    rw [length_take] at counted
    omega
  | install count stands shipped fits guarded =>
    refine ⟨?_,?_,floors.unshipped,?_⟩
    · exact all_updated_both (fun _ floor mark => floor ≤ mark) floors.applied (Nat.le_refl _)
    · apply all_updated_both (fun _ floor (log : List α) => floor ≤ log.length) floors.log
      rw [length_take]
      omega
    · intro installs voter term index accepted
      obtain ⟨reached,current⟩ := floors.accepted installs voter term index accepted
      refine ⟨reached,fun now => ?_⟩
      by_cases same : voter = peer
      · subst same
        subst now
        obtain ⟨above,shortens⟩ := guarded installs
        simp only [Holds,update_self]
        rcases current rfl with folded | ⟨held,within⟩
        · exact .inl (folded.trans above)
        · refine .inr ⟨?_,within⟩
          rw [take_eq_overwrite fits shortens]
          exact kept_by_overwrite held ( take_prefix _ _)
      · simp only [Holds,update_of_ne same]
        exact current now
  | permit index grounds =>
    refine { floors with accepted := ?_ }
    rintro installs voter term upTo (old | ⟨rfl,rfl,rfl⟩)
    · exact floors.accepted installs voter term upTo old
    · exact ⟨Nat.le_refl _,fun _ => grounds⟩
  | ship shippable =>
    exact { floors with unshipped := fun whole => absurd whole shippable }
  | apply =>
    exact { floors with
      applied := all_updated (fun other mark => state.floor other ≤ mark) floors.applied
        ((floors.applied peer).trans (Nat.le_succ _)) }
  | fold count above done long =>
    refine ⟨?_,?_,floors.unshipped,?_⟩
    · exact all_updated (fun other floor => floor ≤ state.applied other) floors.applied done
    · exact all_updated (fun other floor => floor ≤ (state.log other).length) floors.log long
    · intro installs voter term index accepted
      obtain ⟨reached,current⟩ := floors.accepted installs voter term index accepted
      have raised := all_updated (fun other floor => state.floor other ≤ floor)
        (fun _ => Nat.le_refl _) above voter
      exact ⟨reached,fun now => (current now).imp_left fun folded => folded.trans raised⟩
  | recover reached above =>
    exact { floors with
      applied := all_updated (fun other mark => state.floor other ≤ mark) floors.applied above }
  | ack | decide | learn | tell | hand => exact { floors with }

end FloorInv

/-! ### Marks -/

namespace MarkInv

/-- The marks stay good while lines, logs and commits only grow. -/
private theorem regrow (promise : Pledges setting state) (marks : Marked state)
    (extended : Extends state after) (logs : ∀ voter, state.log voter <+: after.log voter) :
    MarkInv after.toOffices after.toLogs after.toPromises state.toMarks := by
  refine ⟨?_,?_,?_,?_,?_⟩
  · exact fun other => (marks.commit other).grow promise extended (extended.term other) (logs other)
  · exact fun other =>
      (marks.applied other).grow promise extended (extended.term other) (logs other)
  · exact fun term index told =>
      (marks.told term index told).grow promise extended (Nat.le_refl _) (extended.line term)
  · exact fun term index shipped =>
      (marks.shipped term index shipped).grow promise extended (Nat.le_refl _) (extended.line term)
  · intro other index entry handed
    obtain ⟨term,front,within,counted,chosen⟩ := marks.handed other index entry handed
    exact ⟨term,front,within.trans (extended.line term),counted,chosen.grow extended⟩

variable {bound count : Nat} {log : List α}

private theorem known_of_line {index announced : Nat} (promise : Pledges setting state)
    (known : Known state.toLogs state.toPromises bound announced (state.line bound))
    (below : index ≤ announced) (held : Holds state.toLogs bound index log) :
    Known state.toLogs state.toPromises bound index log := by
  rcases known.of_le below with zero | ⟨term,within,chosen,onLine⟩
  · exact .inl zero
  · refine .inr ⟨term,within,chosen,?_⟩
    have fits := promise.chosen_le chosen
    refine List.IsPrefix.trans (prefix_take_iff.mpr ⟨onLine,?_⟩) held
    rw [length_take]
    omega

variable [DecidableEq P]

private theorem known_overwrite (election : Elections setting state)
    (chain : Chains setting guards state) (promise : Pledges setting state)
    {index : Nat} {winner : P} (owned : state.owner bound = some winner)
    (known : Known state.toLogs state.toPromises bound index log) :
    Known state.toLogs state.toPromises bound index
      (overwrite ((state.line bound).take count) log) := by
  rcases known with zero | ⟨term,within,chosen,held⟩
  · exact .inl zero
  · exact .inr ⟨term,within,chosen,
      kept_by_overwrite held (chosen.prefix_line election chain promise within owned)⟩

private theorem remark {offices : Offices P α} {logs : Logs P α} {promises : Promises P}
    {mark : P → Nat}
    (held : ∀ other, Known logs promises (offices.term other) (mark other) (logs.log other))
    {index : Nat} (known : Known logs promises (offices.term peer) index (logs.log peer)) :
    ∀ other, Known logs promises (offices.term other) (update mark peer index other)
      (logs.log other) :=
  all_updated (fun other mark => Known logs promises (offices.term other) mark (logs.log other))
    held known

private theorem install (promise : Pledges setting state) (marks : Marked state)
    (shipped : state.shipped (state.term peer) count) :
    MarkInv state.toOffices
      { state.toLogs with
        log := update state.log peer ((state.line (state.term peer)).take count) }
      state.toPromises
      { state.toMarks with
        floor := update state.floor peer count
        commit := update state.commit peer count
        applied := update state.applied peer count } := by
  have known : Known state.toLogs state.toPromises (state.term peer) count
      ((state.line (state.term peer)).take count) :=
    known_of_line promise (marks.shipped _ _ shipped) (Nat.le_refl _) (prefix_refl _)
  let holds := fun other index (log : List α) =>
    Known state.toLogs state.toPromises (state.term other) index log
  refine ⟨?_,?_,marks.told,marks.shipped,marks.handed⟩
  · exact all_updated_both holds marks.commit known
  · exact all_updated_both holds marks.applied known

theorem step (election : Elections setting state) (chain : Chains setting guards state)
    (floors : Floors guards state) (promise : Pledges setting state) (marks : Marked state)
    (strict : guards.Strict) (moved : Step setting guards peer state after) : Marked after := by
  have extended := moved.extends election
  cases moved with
  | bump | resign | stand | cast | elect | ack =>
    have grown := marks.regrow promise extended (fun _ => prefix_refl _)
    exact grown
  | append =>
    have grown := marks.regrow promise extended (prefix_update_snoc _ _ _)
    exact grown
  | accept count stands owned =>
    obtain ⟨_,owner⟩ := Option.ne_none_iff_exists'.mp owned
    let reaches := fun (mark : P → Nat) other (log : List α) =>
      Known state.toLogs state.toPromises (state.term other) (mark other) log
    refine { marks with commit := ?_, applied := ?_ }
    · exact all_updated (reaches state.commit) marks.commit
        (known_overwrite election chain promise owner (marks.commit peer))
    · exact all_updated (reaches state.applied) marks.applied
        (known_overwrite election chain promise owner (marks.applied peer))
  | install count stands shipped => exact marks.install promise shipped
  | decide quorum front last stands =>
    have line := (election.leading peer stands).2
    have grown := marks.regrow promise extended (fun _ => prefix_refl _)
    refine { grown with commit := remark grown.commit (.inr ⟨_,Nat.le_refl _,?_,?_⟩) }
    · exact ⟨front.length + 1,_,.inr ⟨rfl,rfl,rfl⟩,Nat.le_refl _⟩
    · simp only [Holds,line]
      exact take_prefix _ _
  | learn index announced told below held =>
    exact { marks with
      commit := remark marks.commit (known_of_line promise (marks.told _ _ told) below held) }
  | tell stands =>
    refine { marks with told := ?_ }
    rintro term upTo (old | ⟨rfl,rfl⟩)
    · exact marks.told term upTo old
    · rw [(election.leading peer stands).2]
      exact marks.commit peer
  | ship shippable stands =>
    refine { marks with shipped := ?_ }
    rintro term upTo (old | ⟨rfl,rfl⟩)
    · exact marks.shipped term upTo old
    · rw [(election.leading peer stands).2]
      exact (marks.applied peer).of_le (floors.applied peer)
  | hand front entry ahead within =>
    refine { marks with handed := ?_ }
    rintro other index item (old | ⟨rfl,rfl,rfl⟩)
    · exact marks.handed other index item old
    · rcases marks.commit other with zero | ⟨term,_,chosen,held⟩
      · omega
      · have fits := promise.chosen_le chosen
        refine ⟨term,front,?_,by omega,chosen.of_le ahead⟩
        refine (prefix_of_prefix_length_le within held ?_).trans ( take_prefix _ _)
        simp only [length_append,length_singleton,length_take]
        omega
  | apply ahead =>
    exact { marks with applied := remark marks.applied ((marks.commit peer).of_le ahead) }
  | recover reached above durable =>
    have known := (marks.applied peer).of_le (durable strict.2.2.2)
    exact { marks with
      commit := remark marks.commit known
      applied := remark marks.applied known }
  | permit | fold => exact { marks with }

end MarkInv

/-- A leader has applied nothing past its commit index, unless it took office so. -/
def Caught (state : State P α) : Prop :=
  ∀ peer, state.role peer = .leading → state.applied peer ≤ state.commit peer ∨
    state.applied peer ≤ (state.base (state.term peer)).length

section Caught

variable [DecidableEq P]

/-- A step that changes nothing the other leaders are judged by. -/
private theorem Caught.elsewhere (caught : Caught state)
    (moved : Step setting guards peer state after) (base : after.base = state.base)
    (own : after.role peer = .leading → after.applied peer ≤ after.commit peer ∨
      after.applied peer ≤ (after.base (after.term peer)).length) : Caught after := by
  intro other leads
  by_cases same : other = peer
  · subst same
    exact own leads
  · have unmoved := moved.unmoved same
    rw [unmoved.role] at leads
    rw [unmoved.applied,unmoved.commit,unmoved.term,base]
    exact caught other leads

theorem Caught.step (election : Elections setting state)
    (reached : ∀ peer, state.applied peer ≤ (state.log peer).length) (caught : Caught state)
    (moved : Step setting guards peer state after) : Caught after := by
  have step := moved
  cases moved with
  | bump | resign | stand | recover =>
    refine caught.elsewhere step rfl fun leads => ?_
    simp only [update_self,reduceCtorEq] at leads
  | cast | append | accept | ack | permit | tell | ship | hand | fold =>
    exact caught.elsewhere step rfl (caught peer)
  | elect quorum stands vacant =>
    intro other leads
    by_cases same : other = peer
    · subst same
      refine .inr ?_
      simp only [update_self]
      exact reached other
    · simp only [update_of_ne same] at leads
      have apart : state.term other ≠ state.term peer := by
        intro shared
        have owned := (election.leading other leads).1
        rw [shared,vacant] at owned
        cases owned
      simp only [update_of_ne apart]
      exact caught other leads
  | decide quorum front last stands =>
    refine caught.elsewhere step rfl fun _ => ?_
    simp only [update_self]
    exact (caught peer stands).imp_left fun low => by omega
  | install _ stands | learn _ _ _ _ _ stands =>
    refine caught.elsewhere step rfl fun leads => ?_
    rw [stands] at leads
    cases leads
  | apply ahead =>
    refine caught.elsewhere step rfl fun _ => .inl ?_
    simp only [update_self]
    exact ahead

end Caught

structure Inv (setting : Setting P α) (guards : Guards) (state : State P α) : Prop where
  election : Elections setting state
  chain : Chains setting guards state
  floors : FloorInv guards state.toOffices state.toLogs state.toMarks
  promise : guards.Strict → Pledges setting state
  marks : guards.Strict → MarkInv state.toOffices state.toLogs state.toPromises state.toMarks
  caught : guards.Strict → Caught state

/-- Nobody has acted: every peer idle in term zero with an empty log. -/
def State.initial : State P α where
  term := fun _ => 0
  role := fun _ => .idle
  vote := fun _ _ => none
  campaign := fun _ _ => none
  owner := fun _ => none
  base := fun _ => []
  log := fun _ => []
  line := fun _ => []
  acked := fun _ _ _ => False
  commits := fun _ _ _ => False
  floor := fun _ => 0
  commit := fun _ => 0
  applied := fun _ => 0
  accepted := fun _ _ _ => False
  told := fun _ _ => False
  shipped := fun _ _ => False
  handed := fun _ _ _ => False

theorem Inv.initial (setting : Setting P α) (guards : Guards) :
    Inv setting guards State.initial where
  election := {
    vote_le := nofun
    campaign_le := nofun
    ballot := nofun
    won := nofun
    unowned := fun _ _ => rfl
    candidate := nofun
    leading := nofun }
  chain := {
    written := nofun
    below := nofun
    bounded := nofun
    rooted := fun _ front _ within => by simp [State.initial] at within
    rootedBase := nofun
    rootedBallot := nofun
    unchanging := nofun }
  floors := {
    applied := fun _ => Nat.le_refl _
    log := fun _ => Nat.le_refl _
    unshipped := fun _ _ _ found => found
    accepted := fun _ _ _ _ found => found.elim }
  promise := fun _ => {
    acked := fun _ _ _ found => found.elim
    ballots := nofun
    quorums := nofun
    commits := fun _ _ _ found => found.elim
    changes := fun _ front _ _ within => by simp [State.initial] at within }
  marks := fun _ => {
    commit := fun _ => .inl rfl
    applied := fun _ => .inl rfl
    told := fun _ _ found => found.elim
    shipped := fun _ _ found => found.elim
    handed := fun _ _ _ found => found.elim }
  caught := nofun

variable {index : Nat} {entry : α}

/-- While a voter is in the term of a promise it has not broken it. -/
theorem Inv.acked_holds (inv : Inv setting guards state) (strict : guards.Strict)
    (acked : state.acked peer (state.term peer) index) :
    index ≤ (state.line (state.term peer)).length ∧
      (state.line (state.term peer)).take index <+: state.log peer := by
  obtain ⟨_,fits,kept⟩ := (inv.promise strict).acked peer _ index acked
  refine ⟨fits,(kept index (Nat.le_refl _)).resolve_right ?_⟩
  rintro ⟨_,follows,within,_⟩
  exact absurd within (Nat.not_le_of_lt follows)

variable {front : List α}

theorem Inv.ready (inv : Inv setting guards state) (strict : guards.Strict)
    (leads : state.role peer = .leading) {last : α} (within : front ++ [last] <+: state.log peer)
    (counted : front.length + 1 = state.commit peer) (own : setting.termOf last = state.term peer) :
    (state.base (state.term peer)).length < state.commit peer ∧
      state.applied peer ≤ state.commit peer := by
  obtain ⟨owned,line⟩ := inv.election.leading peer leads
  have based : (state.base (state.term peer)).length < state.commit peer := by
    by_contra short
    have onBase : front ++ [last] <+: state.base (state.term peer) := by
      refine prefix_of_prefix_length_le within ?_ ?_
      · have based := inv.chain.base_prefix owned
        rw [line] at based
        exact based
      · rw [length_append,length_singleton]
        omega
    have older := inv.chain.base_below inv.election owned last
      (onBase.subset (mem_append_right _ (mem_singleton.mpr rfl)))
    omega
  refine ⟨based,?_⟩
  rcases inv.caught strict peer leads with low | low <;> omega

theorem Inv.commit_le (inv : Inv setting guards state) (strict : guards.Strict) (peer : P) :
    state.commit peer ≤ (state.log peer).length :=
  ((inv.marks strict).commit peer).le (inv.promise strict)

variable [DecidableEq P]

namespace Inv

section

variable (inv : Inv setting guards state)
include inv

theorem step (moved : Step setting guards peer state after) : Inv setting guards after where
  election := inv.election.step moved
  chain := inv.chain.step inv.election moved
  floors := inv.floors.step inv.election moved
  promise := fun strict => (inv.promise strict).step inv.election inv.chain inv.floors
    (inv.marks strict) strict moved
  marks := fun strict => (inv.marks strict).step inv.election inv.chain inv.floors
    (inv.promise strict) strict moved
  caught := fun strict => (inv.caught strict).step inv.election
    (fun other => ((inv.marks strict).applied other).le (inv.promise strict)) moved

theorem evolves (evolved : Evolves setting guards state after) :
    Inv setting guards after ∧ Extends state after := by
  induction evolved with
  | refl => exact ⟨inv,Extends.refl state⟩
  | tail _ moved ih =>
    obtain ⟨_,moved⟩ := moved
    exact ⟨ih.1.step moved,ih.2.trans (moved.extends ih.1.election)⟩

theorem moves (moved : Moves setting guards peer state after) :
    Inv setting guards after ∧ Extends state after :=
  inv.evolves moved.evolves

theorem unowned (mode : guards.fixed ∨ guards.Strict) {quorum : Finset P}
    (stands : state.role peer = .candidate)
    (most : Majority quorum (setting.configuration (state.log peer)))
    (votes : ∀ voter ∈ quorum, ∃ log, state.vote voter (state.term peer) = some (peer,log)) :
    state.owner (state.term peer) = none := by
  rcases mode with fixed | strict
  · exact unowned_of_fixed stands most votes inv.election inv.chain fixed
  · exact unowned_of_votes stands most votes inv.election inv.chain (inv.promise strict)

end

end Inv

variable {other : P}

omit [DecidableEq P] in
theorem Inv.one_leader (before : Inv setting guards state) (later : Inv setting guards after)
    (extended : Extends state after) (first : state.role peer = .leading)
    (second : after.role other = .leading) (same : state.term peer = after.term other) :
    peer = other := by
  have owned := extended.owner _ _ (before.election.leading peer first).1
  rw [same,(later.election.leading other second).1] at owned
  exact (Option.some.inj owned).symm

section

variable (inv : Inv setting guards state) (strict : guards.Strict)
include inv strict

omit [DecidableEq P] in
theorem Inv.commit_chosen
    (within : front ++ [entry] <+: state.log peer) (below : front.length + 1 ≤ state.commit peer) :
    ∃ term ≤ state.term peer, Chosen state.toPromises term (front.length + 1) ∧
      (state.line term).take (front.length + 1) = front ++ [entry] := by
  rcases (inv.marks strict).commit peer with zero | ⟨term,bounded,chosen,held⟩
  · omega
  · have fits := (inv.promise strict).chosen_le chosen
    refine ⟨term,bounded,chosen.of_le below,?_⟩
    have lower : (state.line term).take (front.length + 1) <+: state.log peer :=
      (take_prefix_take_left below).trans held
    refine prefix_eq_of_length_eq lower within ?_
    simp only [length_take,length_append,length_singleton]
    omega

/-- What is committed at an index is one entry, whichever line holds it. -/
theorem Inv.chosen_entry_agree {apart : α} {term later : Nat} {otherFront : List α}
    (within : front ++ [entry] <+: state.line term) (counted : front.length + 1 = index)
    (chosen : Chosen state.toPromises term index)
    (otherWithin : otherFront ++ [apart] <+: state.line later)
    (otherCounted : otherFront.length + 1 = index)
    (otherChosen : Chosen state.toPromises later index) : entry = apart := by
  have agree := chosen_agree inv.election inv.chain (inv.promise strict) chosen otherChosen
  have left : front ++ [entry] <+: (state.line term).take index :=
    prefix_take_iff.mpr ⟨within,by simp [counted]⟩
  have right : otherFront ++ [apart] <+: (state.line term).take index := by
    rw [agree]
    exact prefix_take_iff.mpr ⟨otherWithin,by simp [otherCounted]⟩
  have whole := prefix_eq_of_length_eq left right (by simp; omega)
  exact singleton_inj.mp (append_inj' whole rfl).2

/-- An entry handed over is the committed one that the log holds. -/
theorem Inv.handed_held {apart : α} (given : state.handed other index apart)
    (within : front ++ [entry] <+: state.log peer) (counted : front.length + 1 = index)
    (below : index ≤ state.commit peer) : apart = entry := by
  subst counted
  obtain ⟨_,_,otherWithin,otherCounted,otherChosen⟩ := (inv.marks strict).handed _ _ _ given
  obtain ⟨_,_,chosen,held⟩ := inv.commit_chosen strict within below
  exact inv.chosen_entry_agree strict otherWithin otherCounted otherChosen
    (held ▸ List.take_prefix _ _) rfl chosen

theorem Inv.known_step (whole : guards.whole) (moved : Step setting guards peer state after)
    (known : Known state.toLogs state.toPromises (state.term other) index (state.log other)) :
    Known after.toLogs after.toPromises (after.term other) index (after.log other) := by
  have promise := inv.promise strict
  have extended := moved.extends inv.election
  cases moved with
  | bump | resign | stand | cast | elect | ack | decide =>
    exact known.grow promise extended (extended.term other) (prefix_refl _)
  | append =>
    exact known.grow promise extended (extended.term other) (prefix_update_snoc _ _ _ other)
  | accept count stands owned =>
    obtain ⟨_,owner⟩ := Option.ne_none_iff_exists'.mp owned
    by_cases same : other = peer
    · subst same
      simp only [update_self]
      exact MarkInv.known_overwrite inv.election inv.chain promise owner known
    · simp only [update_of_ne same]
      exact known
  | install count stands shipped => exact absurd shipped (inv.floors.unshipped whole _ _)
  | permit | learn | tell | ship | hand | apply | fold | recover => exact known

theorem Inv.known_evolves (whole : guards.whole) (evolved : Evolves setting guards state after)
    (known : Known state.toLogs state.toPromises (state.term other) index (state.log other)) :
    Known after.toLogs after.toPromises (after.term other) index (after.log other) := by
  induction evolved with
  | refl => exact known
  | tail before moved ih =>
    obtain ⟨_,moved⟩ := moved
    exact (inv.evolves before).1.known_step strict whole moved ih

end

theorem Inv.committed_kept {first : State P α} (early : Inv setting guards first)
    (inv : Inv setting guards state) (extended : Extends first state) (strict : guards.Strict)
    (whole : guards.whole) (evolved : Evolves setting guards state after)
    (within : front ++ [entry] <+: first.log peer) (below : front.length + 1 ≤ first.commit peer)
    {otherFront : List α} {held : α} (otherWithin : otherFront ++ [held] <+: state.log other)
    (counted : otherFront.length = front.length) (same : setting.termOf held = setting.termOf entry)
    (reached : first.term peer ≤ state.term other) : front ++ [entry] <+: after.log other := by
  obtain ⟨term,bounded,chosen,onLine⟩ := early.commit_chosen strict within below
  have fits := (early.promise strict).chosen_le chosen
  have chosenNow := chosen.grow extended
  have lineNow : (state.line term).take (front.length + 1) = front ++ [entry] := by
    rw [take_eq_of_isPrefix (extended.line term) fits,onLine]
  have shared : otherFront ++ [held] = front ++ [entry] := by
    have left := inv.chain.rooted other otherFront held otherWithin
    have right := (early.chain.rooted peer front entry within).trans (extended.line _)
    rw [same] at left
    exact prefix_eq_of_length_eq left right (by simp [counted])
  obtain ⟨invLast,grown⟩ := inv.evolves evolved
  have known := inv.known_evolves strict whole evolved
    (.inr ⟨term,bounded.trans reached,chosenNow,by
      unfold Holds
      rw [lineNow,← shared]
      exact otherWithin⟩)
  rcases known with zero | ⟨later,_,chosenLater,kept⟩
  · omega
  · have agree := chosen_agree invLast.election invLast.chain (invLast.promise strict)
      (chosenNow.grow grown) chosenLater
    unfold Holds at kept
    rw [← agree,take_eq_of_isPrefix (grown.line term) ((inv.promise strict).chosen_le chosenNow),
      lineNow] at kept
    exact kept

theorem Inv.base_holds (before : Inv setting guards state) (later : Inv setting guards after)
    (extended : Extends state after) (strict : guards.Strict)
    (within : front ++ [entry] <+: state.log peer) (below : front.length + 1 ≤ state.commit peer)
    {term : Nat} (owned : after.owner term = some other) (follows : state.term peer < term) :
    front ++ [entry] <+: after.base term := by
  obtain ⟨old,_,chosen,same⟩ := before.commit_chosen strict within below
  have fits := (before.promise strict).chosen_le chosen
  obtain ⟨reached,length,committed,upTo⟩ := chosen.grow extended
  have held := complete later.election later.chain (later.promise strict) _ old term other
    reached length (by omega) (Nat.le_refl _) owned committed
  have grown := take_eq_of_isPrefix (extended.line old) fits
  rw [← same,← grown]
  exact (take_prefix_take_left upTo).trans held

end Astrs.Consensus
