/-
Leader completeness with voters that may change one at a time.

An acknowledged front of a line stays in the acknowledging peer's log, unless a later
winner was already elected without it.  From that, by induction on terms, no winner is
ever elected without an earlier commit.
-/

import Astrs.Consensus.Chain
import Mathlib.Data.Nat.Find

namespace Astrs.Consensus

open List


variable {P α : Type}

def Holds (logs : Logs P α) (term index : Nat) (log : List α) : Prop :=
  (logs.line term).take index <+: log

def Broken (offices : Offices P α) (logs : Logs P α) (term index bound : Nat) : Prop :=
  ∃ later, term < later ∧ later ≤ bound ∧ (∃ winner, offices.owner later = some winner) ∧
    ¬ Holds logs term index (offices.base later)

structure PromiseInv (setting : Setting P α) (offices : Offices P α) (logs : Logs P α)
    (promises : Promises P) : Prop where
  acked : ∀ voter term index, promises.acked voter term index →
    term ≤ offices.term voter ∧ index ≤ (logs.line term).length ∧
      ∀ upTo ≤ index, Holds logs term upTo (logs.log voter) ∨
        Broken offices logs term upTo (offices.term voter)
  ballots : ∀ voter later candidate log, offices.vote voter later = some (candidate,log) →
    ∀ term index upTo, promises.acked voter term index → upTo ≤ index → term < later →
      Holds logs term upTo log ∨ Broken offices logs term upTo later
  quorums : ∀ later winner, offices.owner later = some winner →
    ∃ quorum, Majority quorum (setting.configuration (offices.base later)) ∧
      ∀ voter ∈ quorum, ∃ log, offices.vote voter later = some (winner,log) ∧
        ∀ term index upTo, promises.acked voter term index → upTo ≤ index → term < later →
          Holds logs term upTo log ∨ Broken offices logs term upTo (later - 1)
  commits : ∀ term index length, promises.commits term index length →
    ∃ front last, front ++ [last] <+: logs.line term ∧ front.length + 1 = index ∧
      setting.termOf last = term ∧ index ≤ length ∧ length ≤ (logs.line term).length ∧
      ∃ quorum, Majority quorum (setting.configuration ((logs.line term).take length)) ∧
        ∀ voter ∈ quorum, ∃ upTo, index ≤ upTo ∧ promises.acked voter term upTo
  changes : ∀ term front change voters, front ++ [change] <+: logs.line term →
    setting.termOf change = term → setting.votersOf change = some voters →
      Overlapping (setting.configuration front) voters ∧
        ∃ index length, promises.commits term index length ∧ length ≤ front.length ∧
          ∀ before earlier, before ++ [earlier] <+: front → setting.votersOf earlier ≠ none →
            before.length + 1 ≤ index

abbrev Pledges (setting : Setting P α) (state : State P α) : Prop :=
  PromiseInv setting state.toOffices state.toLogs state.toPromises

variable {guards : Guards} {term index length bound : Nat}

section Commits

variable {setting : Setting P α} {state : State P α}

namespace PromiseInv

section

variable (promise : Pledges setting state) (committed : state.commits term index length)
include promise committed

theorem commit_le : 0 < index ∧ index ≤ length ∧ length ≤ (state.line term).length := by
  obtain ⟨_,_⟩ := promise.commits term index length committed
  omega

theorem commit_take : ∃ front last, (state.line term).take index = front ++ [last] ∧
      front.length + 1 = index ∧ setting.termOf last = term := by
  obtain ⟨front,last,within,counted,ownTerm,_⟩ := promise.commits term index length committed
  refine ⟨front,last,?_,counted,ownTerm⟩
  have length : (front ++ [last]).length = index := by
    simp [counted]
  rw [← length]
  exact (prefix_iff_eq_take.mp within).symm

end

theorem commit_owner (election : Elections setting state) (promise : Pledges setting state)
    (committed : state.commits term index length) : ∃ winner, state.owner term = some winner := by
  obtain ⟨_,_,within,_⟩ := promise.commits term index length committed
  exact election.owner_of_mem_line (mem_of_prefix_snoc within)

theorem commit_reached (election : Elections setting state) (chain : Chains setting guards state)
    (promise : Pledges setting state) (committed : state.commits term index length) {log : List α}
    (rooted : setting.Rooted state.line log) (held : Holds state.toLogs term index log) :
    term ≤ setting.lastTerm log ∧ index ≤ log.length := by
  obtain ⟨_,_,same,_,ownTerm⟩ := promise.commit_take committed
  unfold Holds at held
  rw [same] at held
  constructor
  · rw [← ownTerm]
    exact (chain.ascending election rooted).le_lastTerm setting (mem_of_prefix_snoc held)
  · have shorter := held.length_le
    simp only [length_append,length_singleton] at shorter
    omega

end PromiseInv

def Complete (state : State P α) (bound : Nat) : Prop :=
  ∀ term later winner index length, term < later → later ≤ bound →
    state.owner later = some winner → state.commits term index length →
      Holds state.toLogs term index (state.base later)

theorem Complete.unbroken (complete : Complete state bound)
    (committed : state.commits term index length) :
    ¬ Broken state.toOffices state.toLogs term index bound := by
  rintro ⟨later,after,within,⟨winner,owned⟩,missing⟩
  exact missing (complete term later winner index length after within owned committed)

/-- A log that carried an election of a term: rooted, older than the term, and
backed by a majority whose ballots hold what they had acknowledged, as far as
winners up to the bound do. -/
structure Winner (setting : Setting P α) (state : State P α) (later : Nat) (base : List α)
    (bound : Nat) : Prop where
  rooted : setting.Rooted state.line base
  below : ∀ entry ∈ base, setting.termOf entry < later
  quorum : ∃ quorum, Majority quorum (setting.configuration base) ∧
    ∀ voter ∈ quorum, ∃ log, setting.Rooted state.line log ∧ setting.UpToDate base log ∧
      ∀ term index upTo, state.acked voter term index → upTo ≤ index → term < later →
        Holds state.toLogs term upTo log ∨ Broken state.toOffices state.toLogs term upTo bound

/-- The ballot that backs both a winner and a commit holds the commit, so the winner's log ends no
earlier. -/
theorem Winner.reaches (election : Elections setting state) (chain : Chains setting guards state)
    (promise : Pledges setting state) {later : Nat} {base : List α}
    (winner : Winner setting state later base bound) (complete : Complete state bound)
    (before : term < later) (committed : state.commits term index length)
    (overlapping : Overlapping (setting.configuration ((state.line term).take length))
      (setting.configuration base)) :
    term < setting.lastTerm base ∨ term ≤ setting.lastTerm base ∧ index ≤ base.length := by
  obtain ⟨_,_,_,_,_,_,_,quorum,most,acks⟩ := promise.commits term index length committed
  obtain ⟨others,otherMost,ballots⟩ := winner.quorum
  obtain ⟨voter,inside,alsoInside⟩ := overlapping quorum others most otherMost
  obtain ⟨upTo,reached,acked⟩ := acks voter inside
  obtain ⟨log,rooted,upToDate,kept⟩ := ballots voter alsoInside
  have held := (kept term upTo index acked reached before).resolve_right
    (complete.unbroken committed)
  have reach := promise.commit_reached election chain committed rooted held
  rcases upToDate with older | ⟨_,shorter⟩
  · exact .inl (by omega)
  · exact .inr (by omega)

/-! ### Configurations of complete logs -/

/-- The newest voter change of a log, with the commit of its own term that it
was made on: every earlier change lies at or below that commit. -/
structure NewestChange (setting : Setting P α) (state : State P α) (log front : List α)
    (change : α) (voters : Finset P) (index length : Nat) : Prop where
  split : ∃ back, log = front ++ [change] ++ back ∧ setting.Unchanging back
  set : setting.votersOf change = some voters
  onLine : front ++ [change] <+: state.line (setting.termOf change)
  overlapping : Overlapping (setting.configuration front) voters
  committed : state.commits (setting.termOf change) index length
  inside : length ≤ front.length
  earlier : ∀ before older, before ++ [older] <+: front → setting.votersOf older ≠ none →
    before.length + 1 ≤ index

theorem PromiseInv.newest_change (promise : Pledges setting state) {log : List α}
    (rooted : setting.Rooted state.line log) :
    setting.Unchanging log ∨ ∃ front change voters index length,
      NewestChange setting state log front change voters index length := by
  rcases setting.unchanging_or_newest_change log with
    unchanging | ⟨front,change,back,voters,split,set,after⟩
  · exact .inl unchanging
  · have onLine : front ++ [change] <+: state.line (setting.termOf change) :=
      rooted front change (by rw [split]; exact prefix_append _ _)
    obtain ⟨overlapping,index,length,committed,inside,earlier⟩ :=
      promise.changes _ front change voters onLine rfl set
    exact .inr ⟨front,change,voters,index,length,
      ⟨back,split,after⟩,set,onLine,overlapping,committed,inside,earlier⟩

namespace NewestChange

variable {log front other otherFront : List α} {change otherChange : α}
  {voters otherVoters : Finset P} {otherIndex otherLength : Nat}

section

variable (newest : NewestChange setting state log front change voters index length)
include newest

theorem configuration_eq : setting.configuration log = voters := by
  obtain ⟨_,split,after⟩ := newest.split
  rw [split,setting.configuration_append_unchanging _ after]
  exact setting.configuration_snoc_change front newest.set

theorem prefix_log : front ++ [change] <+: log := by
  obtain ⟨_,split,_⟩ := newest.split
  rw [split]
  exact prefix_append _ _

theorem line_take (promise : Pledges setting state) :
    (state.line (setting.termOf change)).take index = front.take index ∧ index ≤ front.length := by
  have bounds := promise.commit_le newest.committed
  have fits : index ≤ front.length := by
    have := newest.inside
    omega
  exact ⟨take_eq_of_isPrefix ((prefix_append _ _).trans newest.onLine) fits,fits⟩

theorem configuration_of_unchanging (promise : Pledges setting state)
    (unchanging : setting.Unchanging other)
    (held : Holds state.toLogs (setting.termOf change) index other) :
    setting.configuration front = setting.configuration other := by
  obtain ⟨same,_⟩ := newest.line_take promise
  unfold Holds at held
  rw [same] at held
  have unset : setting.Unchanging front := by
    intro entry mem
    by_contra changes
    obtain ⟨before,within⟩ := exists_snoc_prefix_of_mem mem
    have early := newest.earlier before entry within changes
    have covered : before ++ [entry] <+: front.take index :=
      prefix_take_iff.mpr ⟨within,by simpa using early⟩
    exact changes (unchanging entry (mem_of_prefix_snoc (covered.trans held)))
  rw [setting.configuration_of_unchanging unset,setting.configuration_of_unchanging unchanging]

variable (otherNewest : NewestChange setting state other otherFront otherChange otherVoters
  otherIndex otherLength)
include otherNewest

/-- When the newest change of one log lies below the commit the other's newest
change was made on, the other was made on top of it. -/
theorem configuration_of_covered (promise : Pledges setting state)
    (held : Holds state.toLogs (setting.termOf otherChange) otherIndex log)
    (covered : front.length < otherIndex) : setting.configuration otherFront = voters := by
  obtain ⟨same,_⟩ := otherNewest.line_take promise
  obtain ⟨_,split,after⟩ := newest.split
  unfold Holds at held
  rw [same] at held
  have within : front ++ [change] <+: otherFront.take otherIndex := by
    refine prefix_of_prefix_length_le newest.prefix_log held ?_
    simp only [length_append,length_singleton,length_take]
    omega
  obtain ⟨added,grown⟩ := within.trans ( take_prefix _ _)
  have unset : setting.Unchanging added := by
    intro entry mem
    by_contra changes
    obtain ⟨before,inside⟩ := exists_snoc_prefix_of_mem mem
    have spot : (front ++ [change] ++ before) ++ [entry] <+: otherFront := by
      rw [← grown,append_assoc,prefix_append_right_inj]
      exact inside
    have early := otherNewest.earlier _ entry spot changes
    have present : (front ++ [change] ++ before) ++ [entry] <+: log := by
      refine (prefix_take_iff.mpr ⟨spot,?_⟩).trans held
      rw [length_append]
      exact early
    rw [split,append_assoc,prefix_append_right_inj] at present
    exact changes (after entry (mem_of_prefix_snoc present))
  rw [← grown,setting.configuration_append_unchanging _ unset]
  exact setting.configuration_snoc_change front newest.set

theorem term_le (promise : Pledges setting state) (ascending : setting.Ascending log)
    (held : Holds state.toLogs (setting.termOf otherChange) otherIndex log)
    (uncovered : otherIndex ≤ front.length) :
    setting.termOf otherChange ≤ setting.termOf change := by
  obtain ⟨before,last,same,_,ownTerm⟩ := promise.commit_take otherNewest.committed
  unfold Holds at held
  rw [same] at held
  have within : before ++ [last] <+: front := by
    refine prefix_of_prefix_length_le held ((prefix_append _ _).trans newest.prefix_log) ?_
    simp only [length_append,length_singleton]
    omega
  have ordered := (ascending.of_isPrefix setting newest.prefix_log).le_lastTerm setting
    (mem_append_left [change] (mem_of_prefix_snoc within))
  rw [Setting.lastTerm_snoc,ownTerm] at ordered
  exact ordered

/-- Two changes of one term, neither below the other's commit, are the same. -/
theorem same_of_term_eq (same : setting.termOf change = setting.termOf otherChange)
    (uncovered : otherIndex ≤ front.length) (otherUncovered : index ≤ otherFront.length) :
    voters = otherVoters := by
  have onLine := newest.onLine
  rw [same] at onLine
  have changes : setting.votersOf change ≠ none := by simp [newest.set]
  have otherChanges : setting.votersOf otherChange ≠ none := by simp [otherNewest.set]
  rcases Nat.lt_trichotomy front.length otherFront.length with less | equal | more
  · have within : front ++ [change] <+: otherFront := by
      refine prefix_of_prefix_length_le onLine ((prefix_append _ _).trans otherNewest.onLine) ?_
      rw [length_append]
      exact less
    have := otherNewest.earlier front change within changes
    omega
  · have agree := prefix_eq_of_length_eq onLine otherNewest.onLine (by simp [equal])
    obtain ⟨_,sameChange⟩ := append_inj' agree rfl
    have set := newest.set
    rw [singleton_inj.mp sameChange,otherNewest.set] at set
    exact (Option.some.inj set).symm
  · have within : otherFront ++ [otherChange] <+: front := by
      refine prefix_of_prefix_length_le otherNewest.onLine ((prefix_append _ _).trans onLine) ?_
      rw [length_append]
      exact more
    have := newest.earlier otherFront otherChange within otherChanges
    omega

end

end NewestChange

theorem overlapping_of_complete [DecidableEq P] (election : Elections setting state)
    (chain : Chains setting guards state) (promise : Pledges setting state) (bound : Nat)
    {left right : List α} (leftRooted : setting.Rooted state.line left)
    (rightRooted : setting.Rooted state.line right)
    (leftBelow : ∀ entry ∈ left, setting.termOf entry < bound)
    (rightBelow : ∀ entry ∈ right, setting.termOf entry < bound)
    (leftHolds : ∀ term index length, term < bound → state.commits term index length →
      Holds state.toLogs term index left)
    (rightHolds : ∀ term index length, term < bound → state.commits term index length →
      Holds state.toLogs term index right) :
    Overlapping (setting.configuration left) (setting.configuration right) := by
  have termBelow : ∀ {log front : List α} {change : α} {voters : Finset P} {index length : Nat},
      (∀ entry ∈ log, setting.termOf entry < bound) →
        NewestChange setting state log front change voters index length →
          setting.termOf change < bound :=
    fun below newest => below _ (mem_of_prefix_snoc newest.prefix_log)
  rcases promise.newest_change leftRooted with
    leftSame | ⟨front,change,voters,index,length,newest⟩
  · rcases promise.newest_change rightRooted with
      rightSame | ⟨front,change,voters,index,length,newest⟩
    · rw [setting.configuration_of_unchanging leftSame,
        setting.configuration_of_unchanging rightSame]
      exact Overlapping.refl _
    · have held := leftHolds _ _ _ (termBelow rightBelow newest) newest.committed
      rw [newest.configuration_eq,← newest.configuration_of_unchanging promise leftSame held]
      exact newest.overlapping
  · have rightHeld := rightHolds _ _ _ (termBelow leftBelow newest) newest.committed
    rcases promise.newest_change rightRooted with
      rightSame | ⟨otherFront,otherChange,otherVoters,otherIndex,otherLength,otherNewest⟩
    · rw [newest.configuration_eq,← newest.configuration_of_unchanging promise rightSame rightHeld]
      exact newest.overlapping.symm
    · have leftHeld := leftHolds _ _ _ (termBelow rightBelow otherNewest) otherNewest.committed
      rw [newest.configuration_eq,otherNewest.configuration_eq]
      by_cases covered : front.length < otherIndex
      · rw [← newest.configuration_of_covered otherNewest promise leftHeld covered]
        exact otherNewest.overlapping
      · by_cases otherCovered : otherFront.length < index
        · rw [← otherNewest.configuration_of_covered newest promise rightHeld otherCovered]
          exact newest.overlapping.symm
        · have uncovered := Nat.le_of_not_lt covered
          have otherUncovered := Nat.le_of_not_lt otherCovered
          have later := newest.term_le otherNewest promise
            (chain.ascending election leftRooted) leftHeld uncovered
          have earlier := otherNewest.term_le newest promise
            (chain.ascending election rightRooted) rightHeld otherUncovered
          rw [newest.same_of_term_eq otherNewest (Nat.le_antisymm earlier later) uncovered
            otherUncovered]
          exact Overlapping.refl _

end Commits

/-! ### Leader completeness -/

section Completeness

variable {setting : Setting P α} {state : State P α}

theorem exists_least (holds : Nat → Prop) (found : ∃ number, holds number) :
    ∃ number, holds number ∧ ∀ other, holds other → number ≤ other := by
  classical
  exact ⟨Nat.find found,Nat.find_spec found,fun _ other => Nat.find_min' found other⟩

variable {later : Nat} {base : List α}

private theorem Winner.holds_of_later (election : Elections setting state)
    (chain : Chains setting guards state) (winner : Winner setting state later base bound)
    (complete : Complete state bound) (within : later ≤ bound + 1)
    (committed : state.commits term index length) (after : term < setting.lastTerm base) :
    Holds state.toLogs term index base := by
  have nonempty : base ≠ [] := by
    intro empty
    rw [empty] at after
    exact Nat.not_lt_zero _ after
  obtain ⟨_,last,same⟩ : ∃ front last, base = front ++ [last] :=
    ⟨_,_,(List.dropLast_append_getLast nonempty).symm⟩
  have onLine := winner.rooted.prefix_line setting nonempty
  have lastMember : last ∈ base := by
    rw [same]
    exact mem_append_right _ mem_cons_self
  have lastTerm : setting.lastTerm base = setting.termOf last := by
    rw [same,Setting.lastTerm_snoc]
  obtain ⟨owner,owned⟩ := election.owner_of_mem_line (onLine.subset lastMember)
  have bounded : setting.lastTerm base ≤ bound := by
    have := winner.below last lastMember
    omega
  have inherited := (complete term _ owner index length after bounded owned committed).trans
    (chain.base_prefix owned)
  rcases prefix_or_prefix_of_prefix inherited onLine with held | shorter
  · exact held
  · have old := chain.line_le election (( take_prefix _ _).subset (shorter.subset lastMember))
    omega

theorem Winner.of_owner (election : Elections setting state) (chain : Chains setting guards state)
    (promise : Pledges setting state) {peer : P}
    (owned : state.owner later = some peer) :
    Winner setting state later (state.base later) (later - 1) := by
  refine ⟨chain.rootedBase later peer owned,chain.base_below election owned,?_⟩
  obtain ⟨quorum,most,votes⟩ := promise.quorums later peer owned
  refine ⟨quorum,most,fun voter inside => ?_⟩
  obtain ⟨log,found,kept⟩ := votes voter inside
  obtain ⟨_,stood,upToDate,_⟩ := election.ballot voter later peer log found
  rw [(election.won later peer owned).1] at stood
  cases stood
  exact ⟨log,chain.rootedBallot voter later peer log found,upToDate,kept⟩

variable [DecidableEq P]

section

variable (election : Elections setting state) (chain : Chains setting guards state)
  (promise : Pledges setting state)
include election chain promise

section

variable (winner : Winner setting state later base bound) (complete : Complete state bound)
include winner complete

/-- A winner whose log ends in the commit's own term has at most one voter
change between its log and the first commit past it. -/
private theorem Winner.holds_of_same (before : term < later)
    (committed : state.commits term index length) (equal : setting.lastTerm base = term) :
    Holds state.toLogs term index base := by
  have positive : 0 < term := by
    obtain ⟨_,owned⟩ := promise.commit_owner election committed
    exact (election.owner_positive owned).1
  have nonempty : base ≠ [] := by
    intro empty
    rw [empty] at equal
    exact absurd equal (Nat.ne_of_lt positive)
  have onLine := winner.rooted.prefix_line setting nonempty
  rw [equal] at onLine
  by_contra missing
  have short : base.length < index := by
    by_contra long
    refine missing (prefix_of_prefix_length_le ( take_prefix _ _) onLine ?_)
    rw [length_take]
    omega
  obtain ⟨least,⟨reached,_,first⟩,minimal⟩ := exists_least
    (fun length => ∃ reached, base.length < reached ∧ state.commits term reached length)
    ⟨length,index,short,committed⟩
  have bounds := promise.commit_le first
  have within : base <+: (state.line term).take least := prefix_take_iff.mpr ⟨onLine,by omega⟩
  obtain ⟨added,split⟩ := within
  have overlapping : Overlapping (setting.configuration ((state.line term).take least))
      (setting.configuration base) := by
    rw [← split]
    rcases setting.unchanging_or_newest_change added with
      unchanging | ⟨front,change,back,voters,rest,set,unset⟩
    · rw [setting.configuration_append_unchanging _ unchanging]
      exact Overlapping.refl _
    · have spot : (base ++ front) ++ [change] <+: (state.line term).take least := by
        rw [← split,rest]
        exact ⟨back,by simp⟩
      have placed := spot.trans ( take_prefix _ _)
      have ownTerm : setting.termOf change = term := by
        refine Nat.le_antisymm (chain.line_le election (mem_of_prefix_snoc placed)) ?_
        have ordered := ((chain.ascending_line election term).of_isPrefix setting placed).le_lastTerm
          setting (mem_append_left _ (mem_append_left _ (List.getLast_mem nonempty)))
        rw [Setting.lastTerm_snoc] at ordered
        rw [← List.dropLast_append_getLast nonempty,Setting.lastTerm_snoc] at equal
        omega
      obtain ⟨overlap,made,madeLength,madeAt,early,earlier⟩ :=
        promise.changes term _ change voters placed ownTerm set
      have alone : setting.Unchanging front := by
        intro entry mem
        by_contra changes
        obtain ⟨before,inside⟩ := exists_snoc_prefix_of_mem mem
        have low := earlier (base ++ before) entry
          (by rw [append_assoc,prefix_append_right_inj]; exact inside) changes
        rw [length_append] at low
        have least_le := minimal madeLength ⟨made,by omega,madeAt⟩
        have short := spot.length_le
        simp only [length_append,length_take,length_singleton] at short early
        omega
      rw [setting.configuration_append_unchanging base alone] at overlap
      rw [rest,← append_assoc,← append_assoc,
        setting.configuration_append_unchanging _ unset,setting.configuration_snoc_change _ set]
      exact overlap.symm
  have reach := winner.reaches election chain promise complete before first overlapping
  omega

private theorem Winner.not_older (within : later ≤ bound + 1)
    (before : term < later) (committed : state.commits term index length)
    (earlier : ∀ older index length, older < term → state.commits older index length →
      Holds state.toLogs older index base) : term ≤ setting.lastTerm base := by
  by_contra older
  have ends : setting.lastTerm base < term := Nat.lt_of_not_le older
  obtain ⟨owner,owned⟩ := promise.commit_owner election committed
  obtain ⟨least,⟨reached,first⟩,minimal⟩ := exists_least
    (fun length => ∃ reached, state.commits term reached length)
    ⟨length,index,committed⟩
  have bounds := promise.commit_le first
  obtain ⟨front,last,taken,_⟩ := promise.commit_take first
  have basePlaced : (state.base term).length ≤ front.length := by
    have placed : front ++ [last] <+: state.line term := by
      rw [← taken]
      exact take_prefix _ _
    rcases chain.line_cases election placed with ⟨_,less⟩ | ⟨past,_⟩
    · omega
    · exact past
  have covered : state.base term <+: (state.line term).take least :=
    prefix_take_iff.mpr ⟨chain.base_prefix owned,by omega⟩
  obtain ⟨added,split⟩ := covered
  have unset : setting.Unchanging added := by
    intro entry mem
    by_contra changes
    obtain ⟨voters,set⟩ := Option.ne_none_iff_exists'.mp changes
    obtain ⟨middle,inside⟩ := exists_snoc_prefix_of_mem mem
    have spot : (state.base term ++ middle) ++ [entry] <+: (state.line term).take least := by
      rw [← split,append_assoc,prefix_append_right_inj]
      exact inside
    have placed := spot.trans ( take_prefix _ _)
    have own : setting.termOf entry = term := by
      rcases chain.line_cases election placed with ⟨short,_⟩ | ⟨_,own⟩
      · have := short.length_le
        simp only [length_append,length_singleton] at this
        omega
      · exact own
    obtain ⟨_,made,madeLength,madeAt,early,_⟩ := promise.changes term _ entry voters placed own set
    have least_le := minimal madeLength ⟨made,madeAt⟩
    have short := spot.length_le
    simp only [length_append,length_take,length_singleton] at short early
    omega
  have overlapping : Overlapping (setting.configuration ((state.line term).take least))
      (setting.configuration base) := by
    rw [← split,setting.configuration_append_unchanging _ unset]
    refine overlapping_of_complete election chain promise term
      (chain.rootedBase term owner owned) winner.rooted (chain.base_below election owned)
      (fun entry mem => ?_) ?_ earlier
    · exact ((chain.ascending election winner.rooted).le_lastTerm setting mem).trans_lt ends
    · intro old index length less made
      exact complete old term owner index length less (by omega) owned made
  have reach := winner.reaches election chain promise complete before first overlapping
  omega

theorem Winner.holds (within : later ≤ bound + 1) :
    ∀ term index length, term < later → state.commits term index length →
      Holds state.toLogs term index base := by
  intro term
  induction term using Nat.strong_induction_on with
  | _ term earlier =>
    intro index length before committed
    have reached := winner.not_older election chain promise complete within before committed
      (fun older index length less made => earlier older less index length (by omega) made)
    rcases Nat.lt_or_eq_of_le reached with after | equal
    · exact winner.holds_of_later election chain complete within committed after
    · exact winner.holds_of_same election chain promise complete before committed equal.symm

end

/-- Leader completeness: every winner holds every commit of every earlier term. -/
theorem complete (bound : Nat) : Complete state bound := by
  induction bound with
  | zero =>
    intro _ _ _ _ _ _ _
    omega
  | succ bound ih =>
    intro term later winner index length before within owned committed
    rcases Nat.lt_or_eq_of_le within with less | same
    · exact ih term later winner index length before (by omega) owned committed
    · subst same
      have elected := Winner.of_owner election chain promise owned
      exact elected.holds election chain promise ih (Nat.le_refl _) term index length before
        committed

end

section Votes

variable {peer : P} {quorum : Finset P} (standing : state.role peer = .candidate)
  (most : Majority quorum (setting.configuration (state.log peer)))
  (votes : ∀ voter ∈ quorum, ∃ log, state.vote voter (state.term peer) = some (peer,log))
  (election : Elections setting state)
include standing most votes election

omit [DecidableEq P] in
private theorem unowned_of_overlapping
    (overlapping : ∀ owner, state.owner (state.term peer) = some owner →
      Overlapping (setting.configuration (state.log peer))
        (setting.configuration (state.base (state.term peer)))) :
    state.owner (state.term peer) = none := by
  cases owned : state.owner (state.term peer) with
  | none => rfl
  | some owner =>
    obtain ⟨_,others,otherMost,otherVotes⟩ := election.won _ owner owned
    obtain ⟨voter,inside,alsoInside⟩ := overlapping owner owned quorum others most otherMost
    obtain ⟨_,found⟩ := votes voter inside
    obtain ⟨_,otherFound⟩ := otherVotes voter alsoInside
    rw [← ElectionInv.same_candidate found otherFound] at owned
    exact absurd owned (election.candidate peer standing).2

variable (chain : Chains setting guards state)
include chain

/-- A candidate whose ballots are in leads no term that already has a leader. -/
theorem unowned_of_votes (promise : Pledges setting state) :
    state.owner (state.term peer) = none := by
  refine unowned_of_overlapping standing most votes election fun owner owned => ?_
  have stood := (election.candidate peer standing).1
  have complete := complete election chain promise (state.term peer)
  have below := chain.below peer _ _ stood
  have candidate : Winner setting state (state.term peer) (state.log peer) (state.term peer) := by
    refine ⟨chain.rooted peer,below,quorum,most,fun voter inside => ?_⟩
    obtain ⟨log,found⟩ := votes voter inside
    obtain ⟨_,campaign,upToDate,_⟩ := election.ballot voter _ peer log found
    rw [stood] at campaign
    cases campaign
    exact ⟨log,chain.rootedBallot voter _ peer log found,upToDate,
      promise.ballots voter _ peer log found⟩
  exact overlapping_of_complete election chain promise _ (chain.rooted peer)
    (chain.rootedBase _ owner owned) below (chain.base_below election owned)
    (candidate.holds election chain promise complete (Nat.le_succ _))
    (fun term index length less committed =>
      complete term _ owner index length less (Nat.le_refl _) owned committed)

/-- With fixed voters the same holds whatever was acknowledged. -/
theorem unowned_of_fixed (fixed : guards.fixed) : state.owner (state.term peer) = none := by
  refine unowned_of_overlapping standing most votes election fun owner owned => ?_
  rw [setting.configuration_of_unchanging (chain.unchanging_of_rooted fixed (chain.rooted peer)),
    setting.configuration_of_unchanging
      (chain.unchanging_of_rooted fixed (chain.rootedBase _ owner owned))]
  exact Overlapping.refl _

end Votes

end Completeness

end Astrs.Consensus
