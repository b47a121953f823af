/-
Shrinking a starving set.

Channels are excluded one at a time, and the solver may answer each query with any model
that satisfies it.
-/

import Astrs.Verify.Deadlock

namespace Astrs.Verify

open Astrs.Base List Formula OrderedMap

/-- The answer to the system with some variables negated, if it has a model. -/
abbrev Solver := List VarId → Option (VarId → Int)

/-- The channels that the sweep asks about, and the model that it ends with. -/
def minimizeFrom (solve : Solver) (excluded : List VarId) (best : VarId → Int) :
    List VarId → List VarId × (VarId → Int)
  | [] => ([],best)
  | id :: rest =>
    if best id = 0 then minimizeFrom solve excluded best rest
    else
      let swept := match solve (excluded ++ [id]) with
        | some narrowed => minimizeFrom solve (excluded ++ [id]) narrowed rest
        | none => minimizeFrom solve excluded best rest
      (id :: swept.1,swept.2)

namespace Encoding

def vars (encoding : Encoding) : List VarId := encoding.starved.entries.map Prod.snd

def asked (encoding : Encoding) (solve : Solver) (assignment : VarId → Int) : List VarId :=
  (minimizeFrom solve [] assignment encoding.vars).1

structure SolvedBy (encoding : Encoding) (solve : Solver) : Prop where
  sat : ∀ excluded ⊆ encoding.vars, ∀ narrowed, solve excluded = some narrowed →
    encoding.system.Satisfies narrowed ∧ ∀ id ∈ excluded, (boolVar id).not.Holds narrowed
  unsat : ∀ excluded ⊆ encoding.vars, solve excluded = none → ∀ point,
    encoding.system.Satisfies point → ¬ ∀ id ∈ excluded, (boolVar id).not.Holds point

variable {encoding : Encoding} {solve : Solver}

theorem SolvedBy.narrows (solved : encoding.SolvedBy solve) {excluded : List VarId}
    {narrowed : VarId → Int} (within : excluded ⊆ encoding.vars)
    (answered : solve excluded = some narrowed) :
    encoding.system.Satisfies narrowed ∧ ∀ id ∈ excluded, narrowed id = 0 := by
  obtain ⟨satisfies,excludes⟩ := solved.sat _ within _ answered
  simp only [holds_not,holds_boolVar,not_not] at excludes
  exact ⟨satisfies,excludes⟩

theorem SolvedBy.needs (solved : encoding.SolvedBy solve) {excluded : List VarId} {id : VarId}
    (within : excluded ++ [id] ⊆ encoding.vars) (answered : solve (excluded ++ [id]) = none)
    {point : VarId → Int} (satisfies : encoding.system.Satisfies point)
    (without : ∀ other ∈ excluded, point other = 0) : point id ≠ 0 := by
  intro dropped
  have unsat := solved.unsat _ within answered point satisfies
  simp only [holds_not,holds_boolVar,not_not] at unsat
  apply unsat
  rw [forall_mem_append,forall_mem_singleton]
  exact ⟨without,dropped⟩

/-- What is excluded stays so, and what was asked about and is still marked cannot be dropped. -/
theorem SolvedBy.swept (solved : encoding.SolvedBy solve) {excluded rest : List VarId}
    {best : VarId → Int} (within : excluded ++ rest ⊆ encoding.vars)
    (zero : ∀ id ∈ excluded, best id = 0) :
    let swept := minimizeFrom solve excluded best rest
    (∀ id ∈ excluded, swept.2 id = 0) ∧
      ∀ id ∈ swept.1, swept.2 id ≠ 0 → ∀ point, encoding.system.Satisfies point →
        (∀ other ∈ encoding.vars, swept.2 other = 0 → point other = 0) → point id ≠ 0 := by
  induction rest generalizing excluded best with
  | nil => exact ⟨zero,forall_mem_nil _⟩
  | cons id rest ih =>
    rw [append_cons] at within
    have skipped : excluded ++ rest ⊆ encoding.vars := fun other mem => within (by
      rcases mem_append.mp mem with old | later
      · exact mem_append_left _ (mem_append_left _ old)
      · exact mem_append_right _ later)
    have query : excluded ++ [id] ⊆ encoding.vars := fun other mem => within (mem_append_left _ mem)
    unfold minimizeFrom
    split
    · exact ih skipped zero
    · dsimp only
      split
      · rename_i narrowed answered
        obtain ⟨gone,needed⟩ := ih within (solved.narrows query answered).2
        refine ⟨fun other mem => gone other (mem_append_left _ mem),forall_mem_cons.mpr ⟨?_,needed⟩⟩
        exact fun marked => absurd (gone id (mem_append_right _ mem_cons_self)) marked
      · rename_i answered
        obtain ⟨gone,needed⟩ := ih skipped zero
        refine ⟨gone,forall_mem_cons.mpr ⟨fun _ point satisfies outside => ?_,needed⟩⟩
        exact solved.needs query answered satisfies fun other mem =>
          outside other (query (mem_append_left _ mem)) (gone other mem)

def into (node : NodeId) : EdgeKey := { consumer := node, input := ['i'] }

def fed (consumer producer : NodeId) : EdgeKey × Edge :=
  (into consumer,⟨.nodeOutput producer ['o'],{ size := 1, policy := .dropOldest }⟩)

def starving (nodes : List NodeId) (id : VarId) : Int :=
  if id ∈ nodes.map fun node => starvedName (into node) then 1 else 0

end Encoding

end Astrs.Verify
