/-
Passes over a list of keys, repeated until a pass changes nothing.

When every step lowers a measure, enough passes end in a state that no step changes.
-/

import Mathlib.Order.WellFoundedSet

namespace Astrs.Base.Sweep

variable {σ κ : Type}

/-- One key of a pass; the flag says whether anything has changed. -/
def visit (step : σ → κ → Option σ) (state : σ × Bool) (key : κ) : σ × Bool :=
  match step state.1 key with
  | some next => (next,true)
  | none => state

def pass (step : σ → κ → Option σ) (keys : List κ) (state : σ) : σ × Bool :=
  keys.foldl (visit step) (state,false)

/-- At most so many passes, the last one being the first that changes nothing. -/
def passes (step : σ → κ → Option σ) (keys : List κ) : Nat → σ → σ
  | 0,state => state
  | limit + 1,state =>
    if (pass step keys state).2 then passes step keys limit (pass step keys state).1
    else (pass step keys state).1

section Rules

variable {step : σ → κ → Option σ} {keys : List κ}

theorem foldl_visit_induct {motive : σ → Prop} (closed : ∀ state key next, key ∈ keys →
      motive state → step state key = some next → motive next)
    {state : σ × Bool} (start : motive state.1) : motive (keys.foldl (visit step) state).1 := by
  induction keys generalizing state with
  | nil => exact start
  | cons key keys ih =>
    have later := fun state other next (mem : other ∈ keys) =>
      closed state other next (List.mem_cons_of_mem key mem)
    apply ih later
    unfold visit
    split
    · rename_i next stepped
      exact closed _ key next List.mem_cons_self start stepped
    · exact start

section

variable {motive : σ → Prop} {state : σ}
  (closed : ∀ state key next, key ∈ keys → motive state → step state key = some next → motive next)
include closed

theorem pass_induct (start : motive state) : motive (pass step keys state).1 :=
  @foldl_visit_induct _ _ step keys motive closed (state,false) start

theorem passes_induct (limit : Nat) (start : motive state) :
    motive (passes step keys limit state) := by
  induction limit generalizing state with
  | zero => exact start
  | succ limit ih =>
    unfold passes
    split
    · exact ih (pass_induct closed start)
    · exact pass_induct closed start

end

theorem foldl_visit_flag (state : σ × Bool) (changed : state.2 = true) :
    (keys.foldl (visit step) state).2 = true := by
  induction keys generalizing state with
  | nil => exact changed
  | cons key _ ih =>
    apply ih
    unfold visit
    split
    · rfl
    · exact changed

theorem pass_unchanged {state : σ} (unchanged : (pass step keys state).2 = false) :
    (pass step keys state).1 = state ∧ ∀ key ∈ keys, step state key = none := by
  unfold pass at unchanged ⊢
  induction keys with
  | nil => exact ⟨rfl,fun key mem => nomatch mem⟩
  | cons key keys ih =>
    rw [List.foldl_cons] at unchanged ⊢
    cases stepped : step state key with
    | some next =>
      have visited : visit step (state,false) key = (next,true) := by
        unfold visit
        rw [stepped]
      rw [visited,foldl_visit_flag _ rfl] at unchanged
      cases unchanged
    | none =>
      have visited : visit step (state,false) key = (state,false) := by
        unfold visit
        rw [stepped]
      rw [visited] at unchanged ⊢
      obtain ⟨same,still⟩ := ih unchanged
      refine ⟨same,fun other mem => ?_⟩
      rw [List.mem_cons] at mem
      cases mem with
      | inl first =>
        rw [first]
        exact stepped
      | inr later => exact still other later

section

variable {measure : σ → Nat}
  (lower : ∀ state key next, key ∈ keys → step state key = some next → measure next < measure state)
include lower

theorem foldl_visit_measure (state : σ × Bool) :
    measure (keys.foldl (visit step) state).1 ≤ measure state.1 ∧
      (state.2 = false → (keys.foldl (visit step) state).2 = true →
        measure (keys.foldl (visit step) state).1 < measure state.1) := by
  induction keys generalizing state with
  | nil =>
    refine ⟨le_refl _,fun unset set => ?_⟩
    rw [List.foldl_nil,unset] at set
    cases set
  | cons key keys ih =>
    have later := fun state other next (mem : other ∈ keys) =>
      lower state other next (List.mem_cons_of_mem key mem)
    rw [List.foldl_cons]
    cases stepped : step state.1 key with
    | some next =>
      have visited : visit step state key = (next,true) := by
        unfold visit
        rw [stepped]
      have less := lower state.1 key next List.mem_cons_self stepped
      have rest : measure (keys.foldl (visit step) (next,true)).1 ≤ measure next :=
        (ih later (next,true)).1
      rw [visited]
      exact ⟨by omega,fun _ _ => by omega⟩
    | none =>
      have visited : visit step state key = state := by
        unfold visit
        rw [stepped]
      rw [visited]
      exact ih later state

/-- With a measure below the number of passes, the passes end where no step changes anything. -/
theorem passes_stable {limit : Nat} {state : σ} (enough : measure state < limit) :
    ∀ key ∈ keys, step (passes step keys limit state) key = none := by
  induction limit generalizing state with
  | zero => omega
  | succ limit ih =>
    unfold passes
    split
    · rename_i changed
      apply ih
      have less := (foldl_visit_measure lower (state,false)).2 rfl changed
      change measure (pass step keys state).1 < measure state at less
      omega
    · rename_i unchanged
      obtain ⟨same,still⟩ := pass_unchanged (Bool.eq_false_iff.mpr unchanged)
      rw [same]
      exact still

end

end Rules

theorem countP_lt_of_lost {before after : κ → Bool} {keys : List κ}
    (kept : ∀ key, after key = true → before key = true) {lost : κ} (mem : lost ∈ keys)
    (held : before lost = true) (gone : after lost = false) :
    keys.countP after < keys.countP before := by
  induction keys with
  | nil => cases mem
  | cons head tail ih =>
    have fewer : tail.countP after ≤ tail.countP before :=
      List.countP_mono_left fun key _ => kept key
    rw [List.countP_cons,List.countP_cons]
    rw [List.mem_cons] at mem
    cases mem with
    | inl same =>
      rw [← same,held,gone]
      simp only [Bool.false_eq_true,if_false,if_true]
      omega
    | inr later =>
      have less := ih later
      by_cases still : after head = true
      · rw [if_pos still,if_pos (kept head still)]
        omega
      · rw [if_neg still]
        omega

/-- Among finitely many members off every circle one depends on no other. -/
theorem exists_first {edge : κ → κ → Prop} {members : Set κ} (finite : members.Finite)
    (nonempty : members.Nonempty)
    (acyclic : ∀ mem ∈ members, ¬ Relation.TransGen edge mem mem) :
    ∃ first ∈ members, ∀ mem ∈ members, ¬ edge mem first := by
  let before : κ → κ → Prop := fun left right =>
    Relation.TransGen edge left right ∧ ¬ Relation.TransGen edge right right
  have order : IsStrictOrder κ before :=
    { irrefl := fun _ both => both.2 both.1
      trans := fun _ _ _ left right => ⟨left.1.trans right.1,right.2⟩ }
  have founded : members.WellFoundedOn before := finite.wellFoundedOn
  by_contra every
  push Not at every
  have absent : ∀ mem ∈ members, False := by
    intro mem inside
    apply founded.induction inside
    intro first inside ih
    obtain ⟨past,mem,leads⟩ := every first inside
    exact ih past mem ⟨.single leads,acyclic first inside⟩
  obtain ⟨mem,inside⟩ := nonempty
  exact absent mem inside

section Acyclic

variable {edge : κ → κ → Prop} {members : Set κ}

section

variable (finite : members.Finite)
  (closed : ∀ {past later}, edge past later → later ∈ members → past ∈ members)
  (acyclic : ∀ mem ∈ members, ¬ Relation.TransGen edge mem mem)
include finite closed acyclic

/-- What passes from all predecessors to a member holds of every member. -/
theorem acyclic_induct {motive : κ → Prop}
    (step : ∀ later ∈ members, (∀ past, edge past later → motive past) → motive later) :
    ∀ mem ∈ members, motive mem := by
  by_contra fails
  push Not at fails
  obtain ⟨bad,inside,wrong⟩ := fails
  let failing : Set κ := {mem | mem ∈ members ∧ ¬ motive mem}
  obtain ⟨first,⟨firstInside,firstWrong⟩,alone⟩ := exists_first
    (finite.subset fun mem (fails : mem ∈ failing) => fails.1) ⟨bad,inside,wrong⟩
    (fun mem fails => acyclic mem fails.1)
  apply firstWrong
  apply step first firstInside
  intro past leads
  by_contra earlierWrong
  exact alone past ⟨closed leads firstInside,earlierWrong⟩ leads

/-- Equations that give each member from its predecessors have a solution. -/
theorem exists_solution {β : Type} [Inhabited β] (rule : κ → (κ → β) → β)
    (uses : ∀ key left right, (∀ past, edge past key → left past = right past) →
      rule key left = rule key right) :
    ∃ solution : κ → β, ∀ mem ∈ members, solution mem = rule mem solution := by
  classical
  let below : κ → κ → Prop := fun past later => edge past later ∧ later ∈ members
  have accessible : ∀ mem ∈ members, Acc below mem := by
    apply @acyclic_induct κ edge members finite closed acyclic (Acc below)
    intro later _ before
    exact Acc.intro later fun past leads => before past leads.1
  have founded : WellFounded below := by
    apply WellFounded.intro
    intro later
    by_cases inside : later ∈ members
    · exact accessible later inside
    · exact Acc.intro later fun past leads => absurd leads.2 inside
  let solution : κ → β := founded.fix fun later before =>
    rule later fun past => if leads : below past later then before past leads else default
  refine ⟨solution,fun mem inside => ?_⟩
  change founded.fix _ mem = _
  rw [founded.fix_eq]
  apply uses
  intro _ leads
  rw [dif_pos ⟨leads,inside⟩]

end

end Acyclic

end Astrs.Base.Sweep
