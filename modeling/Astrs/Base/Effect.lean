/-
Preconditions and postconditions for programs that update a state and may stop.

A stopped program keeps the state it had reached, so every rule carries a second
postcondition for the state an error leaves behind.
-/

import Mathlib.Data.List.Forall2

namespace Astrs.Base

variable {ε σ α β : Type}

def Ensures (program : EStateM ε σ α) (start : σ) (post : α → σ → Prop) (fail : σ → Prop) : Prop :=
  match program start with
  | .ok value final => post value final
  | .error _ final => fail final

def leaves (program : EStateM ε σ α) (start : σ) : σ :=
  match program start with
  | .ok _ final => final
  | .error _ final => final

variable {program : EStateM ε σ α} {start : σ} {post stronger : α → σ → Prop} {fail : σ → Prop}
  {result : β} {f : α → Except ε β} {sources : List α} {results : List β}

@[simp] theorem wp_pure (value : α) :
    Ensures (pure value : EStateM ε σ α) start post fail ↔ post value start := Iff.rfl

@[simp] theorem wp_get {post : σ → σ → Prop} :
    Ensures (get : EStateM ε σ σ) start post fail ↔ post start start := Iff.rfl

@[simp] theorem wp_modify {post : PUnit → σ → Prop} (change : σ → σ) :
    Ensures (modify change : EStateM ε σ PUnit) start post fail ↔ post ⟨⟩ (change start) := Iff.rfl

@[simp] theorem wp_throw (fault : ε) :
    Ensures (throw fault : EStateM ε σ α) start post fail ↔ fail start := Iff.rfl

@[simp] theorem wp_bind {post : β → σ → Prop} (first : EStateM ε σ α)
    (next : α → EStateM ε σ β) : Ensures (first >>= next) start post fail ↔
      Ensures first start (fun value middle => Ensures (next value) middle post fail) fail := by
  unfold Ensures
  change (match EStateM.bind first next start with
    | .ok value final => post value final
    | .error _ final => fail final) ↔ _
  unfold EStateM.bind
  cases first start <;> rfl

@[simp] theorem wp_ite (test : Prop) [Decidable test] (first second : EStateM ε σ α) :
    Ensures (if test then first else second) start post fail ↔
      (test → Ensures first start post fail) ∧
        (¬ test → Ensures second start post fail) := by
  by_cases holds : test <;> simp [holds]

theorem Ensures.mono {failStronger : σ → Prop} (holds : Ensures program start stronger failStronger)
    (returned : ∀ value final, stronger value final → post value final)
    (stopped : ∀ final, failStronger final → fail final) : Ensures program start post fail := by
  unfold Ensures at *
  split
  · rename_i value final outcome
    rw [outcome] at holds
    exact returned value final holds
  · rename_i fault final outcome
    rw [outcome] at holds
    exact stopped final holds

theorem Ensures.imp (holds : Ensures program start stronger fail)
    (returned : ∀ value final, stronger value final → post value final) :
    Ensures program start post fail :=
  holds.mono returned fun _ stopped => stopped

/-- The same holds of the state left by a return and by an error. -/
abbrev Always (program : EStateM ε σ α) (start : σ) (holds : σ → Prop) : Prop :=
  Ensures program start (fun _ final => holds final) holds

/-- A fact about both outcomes is a fact about the state left behind. -/
theorem Ensures.leaves {holds : σ → Prop}
    (ensured : Always program start holds) : holds (leaves program start) := by
  unfold Always Ensures at ensured
  unfold Base.leaves
  split at ensured <;> exact ensured

theorem Ensures.forM {items : List α} {body : α → EStateM ε σ PUnit} {invariant : σ → Prop}
    (initial : invariant start) (step : ∀ item ∈ items, ∀ state, invariant state →
      Ensures (body item) state (fun _ final => invariant final) fail) :
    Ensures (items.forM body) start (fun _ final => invariant final) fail := by
  induction items generalizing start with
  | nil => exact initial
  | cons head tail ih =>
    change Ensures (body head >>= fun _ => tail.forM body) start _ fail
    rw [wp_bind]
    refine (step head List.mem_cons_self start initial).imp ?_
    intro _ _ held
    exact ih held (fun item mem => step item (List.mem_cons_of_mem head mem))

def Keeps (program : EStateM ε σ α) (holds : σ → Prop) : Prop :=
  ∀ start, holds start → Ensures program start (fun _ final => holds final) holds

namespace Keeps

variable {holds : σ → Prop}

theorem pure (value : α) : Keeps (pure value : EStateM ε σ α) holds := fun _ held => held

theorem throw (fault : ε) : Keeps (throw fault : EStateM ε σ α) holds := fun _ held => held

theorem get : Keeps (get : EStateM ε σ σ) holds := fun _ held => held

theorem read {next : σ → EStateM ε σ β} (after : ∀ state, holds state → Keeps (next state) holds) :
    Keeps (MonadState.get >>= next) holds := fun start held => after start held start held

theorem modify {change : σ → σ} (kept : ∀ state, holds state → holds (change state)) :
    Keeps (modify change : EStateM ε σ PUnit) holds := kept

theorem bind {first : EStateM ε σ α} {next : α → EStateM ε σ β} (before : Keeps first holds)
    (after : ∀ value, Keeps (next value) holds) : Keeps (first >>= next) holds := by
  intro start held
  rw [wp_bind]
  exact (before start held).imp fun value middle kept => after value middle kept

theorem ite {test : Prop} [Decidable test] {first second : EStateM ε σ α}
    (yes : test → Keeps first holds) (no : ¬ test → Keeps second holds) :
    Keeps (if test then first else second) holds := by
  split
  · exact yes ‹_›
  · exact no ‹_›

theorem forM {items : List α} {body : α → EStateM ε σ PUnit}
    (each : ∀ item ∈ items, Keeps (body item) holds) : Keeps (items.forM body) holds :=
  fun _ held => Ensures.forM held each

theorem leaves (kept : Keeps program holds) (held : holds start) : holds (leaves program start) :=
  (kept start held).leaves

end Keeps

theorem exists_ok {result : Except ε α} (passed : result.toBool = true) :
    ∃ value, result = .ok value := by
  cases result with
  | error => cases passed
  | ok value => exact ⟨value,rfl⟩

def ensure (holds : Bool) (failure : ε) : Except ε Unit :=
  if holds then .ok () else .error failure

@[simp] theorem ensure_bind_ok {holds : Bool} {fault : ε} {rest : Unit → Except ε α} {value : α} :
    ensure holds fault >>= rest = .ok value ↔ holds = true ∧ rest () = .ok value := by
  cases holds with
  | false => exact ⟨nofun,nofun⟩
  | true => exact ⟨fun returned => ⟨rfl,returned⟩,And.right⟩

theorem bind_ok {first : Except ε α} {rest : α → Except ε β}
    (returned : first >>= rest = .ok result) :
    ∃ value, first = .ok value ∧ rest value = .ok result := by
  cases first with
  | error => cases returned
  | ok value => exact ⟨value,rfl,returned⟩

theorem map_ok {f : α → β} {source : Except ε α} (mapped : source.map f = .ok result) :
    ∃ value, source = .ok value ∧ f value = result := by
  cases source with
  | error => cases mapped
  | ok value => exact ⟨value,rfl,Except.ok.inj mapped⟩

theorem mapM_ok (mapped : sources.mapM f = .ok results) :
    List.Forall₂ (fun source result => f source = .ok result) sources results := by
  induction sources generalizing results with
  | nil =>
    cases mapped
    exact .nil
  | cons source rest ih =>
    rw [List.mapM_cons] at mapped
    obtain ⟨_,first,others⟩ := bind_ok mapped
    obtain ⟨_,remaining,done⟩ := bind_ok others
    cases done
    exact .cons first (ih remaining)

theorem mem_of_mapM_ok (mapped : sources.mapM f = .ok results) (mem : result ∈ results) :
    ∃ source ∈ sources, f source = .ok result := by
  have pairs := mapM_ok mapped
  clear mapped
  induction pairs with
  | nil => exact absurd mem List.not_mem_nil
  | @cons source first sources results here _ ih =>
    rcases List.mem_cons.mp mem with same | later
    · exact ⟨source,List.mem_cons_self,same ▸ here⟩
    · obtain ⟨other,present,found⟩ := ih later
      exact ⟨other,List.mem_cons_of_mem source present,found⟩

end Astrs.Base
