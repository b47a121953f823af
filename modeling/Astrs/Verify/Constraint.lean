/-
Constraint systems: quantifier-free formulas over integer and boolean variables.

Integers are unbounded, as they are to the solver.  Labels and explanations are left out.
-/

import Mathlib.Data.List.Basic

namespace Astrs.Verify

open List

abbrev Text := List Char

inductive VarSort where
  | int
  | bool
  deriving DecidableEq

abbrev VarId := Text

structure VarDecl where
  name : Text
  sort : VarSort
  deriving DecidableEq

/-- A sum of multiples of variables and a constant. -/
structure Term where
  linear : List (VarId × Int)
  constant : Int
  deriving DecidableEq

namespace Term

def ofInt (value : Int) : Term := { linear := [], constant := value }

def var (id : VarId) : Term := { linear := [(id,1)], constant := 0 }

def plusConstant (term : Term) (value : Int) : Term :=
  { term with constant := term.constant + value }

/-- The value of the variable part, added to `total`. -/
def evaluateFrom (valueOf : VarId → Option Int) (total : Int) : List (VarId × Int) → Option Int
  | [] => some total
  | (id,coefficient) :: rest => do
    let value ← valueOf id
    evaluateFrom valueOf (total + value * coefficient) rest

def evaluate (valueOf : VarId → Option Int) (term : Term) : Option Int :=
  evaluateFrom valueOf term.constant term.linear

end Term

/-! ### Formulas -/

inductive Compare where
  | eq
  | ne
  | lt
  | le
  | gt
  | ge
  deriving DecidableEq

def Compare.holds : Compare → Int → Int → Bool
  | .eq,left,right => decide (left = right)
  | .ne,left,right => decide (left ≠ right)
  | .lt,left,right => decide (left < right)
  | .le,left,right => decide (left ≤ right)
  | .gt,left,right => decide (right < left)
  | .ge,left,right => decide (right ≤ left)

inductive Formula where
  | constTrue
  | constFalse
  | bool (id : VarId)
  | negation (inner : Formula)
  | and (parts : List Formula)
  | or (parts : List Formula)
  | implication (antecedent consequent : Formula)
  | comparison (op : Compare) (left right : Term)

namespace Formula

def boolVar (id : VarId) : Formula := .bool id

def not : Formula → Formula
  | .constTrue => .constFalse
  | .constFalse => .constTrue
  | .negation inner => inner
  | other => .negation other

def keptByAll : List Formula → Option (List Formula)
  | [] => some []
  | .constTrue :: rest => keptByAll rest
  | .constFalse :: _ => none
  | part :: rest => (keptByAll rest).map (part :: ·)

def all (parts : List Formula) : Formula :=
  match keptByAll parts with
  | none => .constFalse
  | some [] => .constTrue
  | some [part] => part
  | some kept => .and kept

def keptByAny : List Formula → Option (List Formula)
  | [] => some []
  | .constFalse :: rest => keptByAny rest
  | .constTrue :: _ => none
  | part :: rest => (keptByAny rest).map (part :: ·)

def any (parts : List Formula) : Formula :=
  match keptByAny parts with
  | none => .constTrue
  | some [] => .constFalse
  | some [part] => part
  | some kept => .or kept

def implies (antecedent consequent : Formula) : Formula :=
  match antecedent, consequent with
  | .constFalse,_ => .constTrue
  | _,.constTrue => .constTrue
  | .constTrue,consequent => consequent
  | antecedent,consequent => .implication antecedent consequent

def eq (left right : Term) : Formula := .comparison .eq left right

def lt (left right : Term) : Formula := .comparison .lt left right

def ge (left right : Term) : Formula := .comparison .ge left right

def gt (left right : Term) : Formula := .comparison .gt left right

mutual

/-- The truth of a formula, when the assignment covers what decides it. -/
def evaluate (valueOf : VarId → Option Int) : Formula → Option Bool
  | .constTrue => some true
  | .constFalse => some false
  | .bool id => (valueOf id).map fun value => decide (value ≠ 0)
  | .negation inner => (evaluate valueOf inner).map fun value => !value
  | .and parts => evaluateAll valueOf parts
  | .or parts => evaluateAny valueOf parts
  | .implication antecedent consequent =>
    match evaluate valueOf antecedent with
    | none => none
    | some false => some true
    | some true => evaluate valueOf consequent
  | .comparison op left right => do
    let left ← left.evaluate valueOf
    let right ← right.evaluate valueOf
    return op.holds left right

def evaluateAll (valueOf : VarId → Option Int) : List Formula → Option Bool
  | [] => some true
  | part :: rest => do
    let here ← evaluate valueOf part
    let others ← evaluateAll valueOf rest
    return here && others

def evaluateAny (valueOf : VarId → Option Int) : List Formula → Option Bool
  | [] => some false
  | part :: rest => do
    let here ← evaluate valueOf part
    let others ← evaluateAny valueOf rest
    return here || others

end

end Formula

structure ConstraintSystem where
  registry : List VarDecl
  assertions : List Formula

namespace ConstraintSystem

def new : ConstraintSystem := { registry := [], assertions := [] }

def declare (system : ConstraintSystem) (name : Text) (sort : VarSort) : ConstraintSystem :=
  if system.registry.any fun declared => decide (declared.name = name) then system
  else { system with registry := system.registry ++ [{ name := name, sort := sort }] }

def boolVar (system : ConstraintSystem) (name : Text) : VarId × ConstraintSystem :=
  (name,system.declare name .bool)

def intVar (system : ConstraintSystem) (name : Text) : VarId × ConstraintSystem :=
  (name,system.declare name .int)

/-- Adds an assertion, unless it says nothing. -/
def assert (system : ConstraintSystem) : Formula → ConstraintSystem
  | .constTrue => system
  | formula => { system with assertions := system.assertions ++ [formula] }

end ConstraintSystem

def Formula.Holds (assignment : VarId → Int) (formula : Formula) : Prop :=
  formula.evaluate (fun id => some (assignment id)) = some true

def ConstraintSystem.Satisfies (assignment : VarId → Int) (system : ConstraintSystem) : Prop :=
  ∀ formula ∈ system.assertions, formula.Holds assignment

def ConstraintSystem.IsSatisfiable (system : ConstraintSystem) : Prop :=
  ∃ assignment, system.Satisfies assignment

namespace Formula

variable (point : VarId → Int)

theorem evaluateFrom_total (total : Int) (linear : List (VarId × Int)) :
    ∃ value, Term.evaluateFrom (fun id => some (point id)) total linear = some value := by
  induction linear generalizing total with
  | nil => exact ⟨total,rfl⟩
  | cons entry _ ih => exact ih _

mutual

theorem evaluate_total :
    (formula : Formula) → ∃ truth, formula.evaluate (fun id => some (point id)) = some truth
  | .constTrue => ⟨true,rfl⟩
  | .constFalse => ⟨false,rfl⟩
  | .bool id => ⟨_,rfl⟩
  | .negation inner => by
    obtain ⟨truth,decided⟩ := evaluate_total inner
    exact ⟨!truth,by rw [evaluate,decided,Option.map_some]⟩
  | .and parts => by
    obtain ⟨truth,decided⟩ := evaluateAll_total parts
    exact ⟨truth,by rw [evaluate,decided]⟩
  | .or parts => by
    obtain ⟨truth,decided⟩ := evaluateAny_total parts
    exact ⟨truth,by rw [evaluate,decided]⟩
  | .implication antecedent consequent => by
    obtain ⟨first,decided⟩ := evaluate_total antecedent
    obtain ⟨second,follows⟩ := evaluate_total consequent
    cases first with
    | false => exact ⟨true,by rw [evaluate,decided]⟩
    | true => exact ⟨second,by rw [evaluate,decided]; exact follows⟩
  | .comparison op left right => by
    obtain ⟨first,leftValue⟩ := evaluateFrom_total point left.constant left.linear
    obtain ⟨second,rightValue⟩ := evaluateFrom_total point right.constant right.linear
    refine ⟨op.holds first second,?_⟩
    unfold evaluate Term.evaluate
    rw [leftValue,rightValue]
    rfl

theorem evaluateAll_total :
    (parts : List Formula) → ∃ truth, evaluateAll (fun id => some (point id)) parts = some truth
  | [] => ⟨true,rfl⟩
  | part :: rest => by
    obtain ⟨here,decided⟩ := evaluate_total part
    obtain ⟨others,remaining⟩ := evaluateAll_total rest
    refine ⟨here && others,?_⟩
    unfold evaluateAll
    rw [decided,remaining]
    rfl

theorem evaluateAny_total :
    (parts : List Formula) → ∃ truth, evaluateAny (fun id => some (point id)) parts = some truth
  | [] => ⟨false,rfl⟩
  | part :: rest => by
    obtain ⟨here,decided⟩ := evaluate_total part
    obtain ⟨others,remaining⟩ := evaluateAny_total rest
    refine ⟨here || others,?_⟩
    unfold evaluateAny
    rw [decided,remaining]
    rfl

end

variable {point}

@[simp] theorem holds_constTrue : Holds point .constTrue := rfl

@[simp] theorem holds_constFalse : ¬ Holds point .constFalse := by
  exact nofun

variable {id : VarId}

@[simp] theorem holds_bool : Holds point (.bool id) ↔ point id ≠ 0 := by
  unfold Holds evaluate
  simp

@[simp] theorem holds_negation {inner : Formula} :
    Holds point (.negation inner) ↔ ¬ inner.Holds point := by
  obtain ⟨truth,decided⟩ := evaluate_total point inner
  unfold Holds
  rw [evaluate,decided]
  cases truth <;> simp

variable {parts : List Formula}

theorem evaluateAll_iff : evaluateAll (fun id => some (point id)) parts = some true ↔
      ∀ part ∈ parts, part.Holds point := by
  induction parts with
  | nil => simp [evaluateAll]
  | cons part rest ih =>
    obtain ⟨here,decided⟩ := evaluate_total point part
    obtain ⟨others,remaining⟩ := evaluateAll_total point rest
    rw [forall_mem_cons,← ih,Holds,evaluateAll,decided,remaining]
    cases here <;> cases others <;> simp

theorem evaluateAny_iff : evaluateAny (fun id => some (point id)) parts = some true ↔
      ∃ part ∈ parts, part.Holds point := by
  induction parts with
  | nil => simp [evaluateAny]
  | cons part rest ih =>
    obtain ⟨here,decided⟩ := evaluate_total point part
    obtain ⟨others,remaining⟩ := evaluateAny_total point rest
    rw [exists_mem_cons_iff,← ih,Holds,evaluateAny,decided,remaining]
    cases here <;> cases others <;> simp

@[simp] theorem holds_and : Holds point (.and parts) ↔ ∀ part ∈ parts, part.Holds point :=
  evaluateAll_iff

@[simp] theorem holds_or : Holds point (.or parts) ↔ ∃ part ∈ parts, part.Holds point :=
  evaluateAny_iff

variable {antecedent consequent : Formula} {number : Int}

@[simp] theorem holds_implication : Holds point (.implication antecedent consequent) ↔
      (antecedent.Holds point → consequent.Holds point) := by
  obtain ⟨first,decided⟩ := evaluate_total point antecedent
  unfold Holds
  rw [evaluate,decided]
  cases first <;> simp

/-! ### What the builders mean -/

@[simp] theorem holds_boolVar : (boolVar id).Holds point ↔ point id ≠ 0 := holds_bool

@[simp] theorem holds_not {formula : Formula} :
    formula.not.Holds point ↔ ¬ formula.Holds point := by
  cases formula <;> simp [not]

theorem forall_holds_iff_keptByAll : (∀ part ∈ parts, part.Holds point) ↔
    ∃ kept, keptByAll parts = some kept ∧ ∀ part ∈ kept, part.Holds point := by
  fun_induction keptByAll parts with
  | case1 => simp
  | case2 rest ih => simpa using ih
  | case3 rest => simp
  | case4 part rest _ _ ih =>
    rw [forall_mem_cons,ih]
    cases keptByAll rest <;> simp

@[simp] theorem holds_all : (all parts).Holds point ↔ ∀ part ∈ parts, part.Holds point := by
  rw [forall_holds_iff_keptByAll]
  unfold all
  split
  all_goals
    rename_i keeps
    simp [keeps]

theorem exists_holds_iff_keptByAny : (∃ part ∈ parts, part.Holds point) ↔
    ∀ kept, keptByAny parts = some kept → ∃ part ∈ kept, part.Holds point := by
  fun_induction keptByAny parts with
  | case1 => simp
  | case2 rest ih => simpa using ih
  | case3 rest => simp
  | case4 part rest _ _ ih =>
    rw [exists_mem_cons_iff,ih]
    cases keptByAny rest <;> simp

@[simp] theorem holds_any : (any parts).Holds point ↔ ∃ part ∈ parts, part.Holds point := by
  rw [exists_holds_iff_keptByAny]
  unfold any
  split
  all_goals
    rename_i keeps
    simp [keeps]

@[simp] theorem holds_implies : (antecedent.implies consequent).Holds point ↔
      (antecedent.Holds point → consequent.Holds point) := by
  unfold implies
  split <;> simp

/-- A variable compared with a number. -/
@[simp] theorem holds_eq_var {value : Int} :
    (eq (Term.var id) (Term.ofInt value)).Holds point ↔ point id = value := by
  unfold eq Holds evaluate Term.var Term.ofInt Term.evaluate
  simp [Term.evaluateFrom,Compare.holds]

@[simp] theorem holds_lt_var {value : Int} :
    (lt (Term.var id) (Term.ofInt value)).Holds point ↔ point id < value := by
  unfold lt Holds evaluate Term.var Term.ofInt Term.evaluate
  simp [Term.evaluateFrom,Compare.holds]

def value (assignment : VarId → Int) (term : Term) : Int :=
  (term.evaluate fun id => some (assignment id)).getD 0

theorem evaluate_eq_value (point : VarId → Int) (term : Term) :
    term.evaluate (fun id => some (point id)) = some (value point term) := by
  obtain ⟨_,evaluated⟩ := evaluateFrom_total point term.constant term.linear
  unfold value Term.evaluate
  rw [evaluated]
  rfl

@[simp] theorem value_var : value point (Term.var id) = point id := by
  unfold value Term.evaluate Term.var
  simp [Term.evaluateFrom]

@[simp] theorem value_ofInt : value point (Term.ofInt number) = number := rfl

@[simp] theorem value_plusConstant :
    value point ((Term.var id).plusConstant number) = point id + number := by
  unfold value Term.evaluate Term.plusConstant Term.var
  simp [Term.evaluateFrom,Int.add_comm]

variable {left right : Term}

theorem holds_comparison {op : Compare} : Holds point (.comparison op left right) ↔
      op.holds (value point left) (value point right) = true := by
  unfold Holds evaluate
  rw [evaluate_eq_value,evaluate_eq_value]
  simp

theorem holds_eq : (eq left right).Holds point ↔ value point left = value point right := by
  unfold eq
  rw [holds_comparison]
  exact decide_eq_true_iff

theorem holds_ge : (ge left right).Holds point ↔ value point right ≤ value point left := by
  unfold ge
  rw [holds_comparison]
  exact decide_eq_true_iff

theorem holds_gt : (gt left right).Holds point ↔ value point right < value point left := by
  unfold gt
  rw [holds_comparison]
  exact decide_eq_true_iff

end Formula

namespace ConstraintSystem

variable {point : VarId → Int} {system : ConstraintSystem}

@[simp] theorem satisfies_new : new.Satisfies point := by
  exact forall_mem_nil _

@[simp] theorem satisfies_declare {name : Text} {sort : VarSort} :
    (system.declare name sort).Satisfies point ↔ system.Satisfies point := by
  unfold declare
  split <;> rfl

@[simp] theorem satisfies_assert {formula : Formula} :
    (system.assert formula).Satisfies point ↔
      system.Satisfies point ∧ formula.Holds point := by
  unfold assert
  split
  · simp
  · unfold Satisfies
    simp only [mem_append,mem_singleton,or_imp,forall_and,forall_eq]

end ConstraintSystem

section Loops

variable {σ α : Type} {step : σ → α → σ} {fact : σ → Prop} {part : α → Prop}

/-- A loop whose every step adds a conjunct. -/
theorem foldl_and_iff
    (steps : ∀ state item, fact (step state item) ↔ fact state ∧ part item) (items : List α)
    (start : σ) : fact (items.foldl step start) ↔ fact start ∧ ∀ item ∈ items, part item := by
  induction items generalizing start with
  | nil => simp
  | cons item rest ih => rw [foldl_cons,ih,steps,forall_mem_cons,and_assoc]

theorem foldl_unchanged (step : σ → α → σ) (fact : σ → Prop)
    (steps : ∀ state item, fact (step state item) ↔ fact state) (items : List α) (start : σ) :
    fact (items.foldl step start) ↔ fact start := by
  induction items generalizing start with
  | nil => rfl
  | cons item rest ih => rw [foldl_cons,ih,steps]

/-- A loop whose every step adds a disjunct. -/
theorem foldl_or_iff
    (steps : ∀ state item, fact (step state item) ↔ fact state ∨ part item) (items : List α)
    (start : σ) : fact (items.foldl step start) ↔ fact start ∨ ∃ item ∈ items, part item := by
  induction items generalizing start with
  | nil => simp
  | cons item rest ih => rw [foldl_cons,ih,steps,exists_mem_cons_iff,or_assoc]

/-- A loop that can fail and whose every step adds a conjunct. -/
theorem foldlM_and_iff {step : σ → α → Option σ}
    {items : List α} (steps : ∀ state item next, item ∈ items → step state item = some next →
      (fact next ↔ fact state ∧ part item)) {start final : σ}
    (ended : items.foldlM step start = some final) :
    fact final ↔ fact start ∧ ∀ item ∈ items, part item := by
  induction items generalizing start with
  | nil =>
    cases ended
    simp
  | cons item rest ih =>
    obtain ⟨next,stepped,remaining⟩ := Option.bind_eq_some_iff.mp ended
    have later := fun state other next (member : other ∈ rest) =>
      steps state other next (mem_cons_of_mem item member)
    rw [ih later remaining,steps start item next mem_cons_self stepped,forall_mem_cons,and_assoc]

end Loops

end Astrs.Verify
