/-
The restart budget of one node.

Instants and durations are counted in nanoseconds, the times of a configuration in
milliseconds.  The instant of the last restart, which no decision reads, is left out.
-/

import Mathlib.Data.List.TakeWhile
import Astrs.Daemon.Generations

namespace Astrs.Daemon

open List

def u32Max : Nat := 4294967295

inductive RestartPolicy
  | never
  | onFailure
  | always
  deriving DecidableEq

def RestartPolicy.shouldRestart : RestartPolicy → Bool → Bool
  | .never,_ => false
  | .onFailure,success => !success
  | .always,_ => true

/-- `other` stands for every cause that is a failure without more. -/
inductive NodeExitCause
  | success
  | exitCode (code : Int)
  | restartBudgetExhausted (restarts window : Nat)
  | other
  deriving DecidableEq

def NodeExitCause.isSuccess : NodeExitCause → Bool
  | .success => true
  | .exitCode code => decide (code = 0)
  | _ => false

structure RestartConfig where
  policy : RestartPolicy
  maxRestarts : Option Nat
  restartDelay : Nat
  maxRestartDelay : Nat
  restartWindow : Nat
  deriving DecidableEq

def toDuration (millis : Nat) : Nat := millis * 1000000

def backoffFactor (restartsSoFar : Nat) : Nat :=
  if restartsSoFar < 64 then 1 <<< restartsSoFar else u64Max

theorem backoffFactor_mono {fewer more : Nat} (ordered : fewer ≤ more) :
    backoffFactor fewer ≤ backoffFactor more := by
  unfold backoffFactor
  rw [Nat.one_shiftLeft,Nat.one_shiftLeft]
  by_cases small : more < 64
  · rw [if_pos small,if_pos (Nat.lt_of_le_of_lt ordered small)]
    exact Nat.pow_le_pow_right Nat.two_pos ordered
  · rw [if_neg small]
    split
    · rename_i below
      exact Nat.le_trans (Nat.pow_le_pow_right Nat.two_pos (Nat.le_of_lt_succ below)) (by decide)
    · exact Nat.le_refl _

namespace RestartConfig

variable (config : RestartConfig)

def backoffFor (restartsSoFar : Nat) : Nat :=
  let delay := config.restartDelay * backoffFactor restartsSoFar
  min (if delay ≤ u64Max then delay else config.maxRestartDelay) config.maxRestartDelay

def budgetExhausted (restartsInWindow : Nat) : Bool :=
  match config.maxRestarts with
  | some limit => decide (limit ≤ restartsInWindow)
  | none => false

theorem backoffFor_le (restarts : Nat) : config.backoffFor restarts ≤ config.maxRestartDelay :=
  Nat.min_le_right _ _

theorem backoffFor_mono {fewer more : Nat} (ordered : fewer ≤ more) :
    config.backoffFor fewer ≤ config.backoffFor more := by
  have delays := Nat.mul_le_mul_left config.restartDelay (backoffFactor_mono ordered)
  unfold backoffFor
  dsimp only
  by_cases fits : config.restartDelay * backoffFactor more ≤ u64Max
  · rw [if_pos fits,if_pos (Nat.le_trans delays fits)]
    omega
  · rw [if_neg fits,Nat.min_self]
    exact Nat.min_le_right _ _

end RestartConfig

/-- The recent restarts, the oldest first, and how many there ever were. -/
structure RestartHistory where
  window : Nat
  recent : List Nat
  total : Nat
  deriving DecidableEq

namespace RestartHistory

variable (history : RestartHistory) (now : Nat)

def prune : RestartHistory :=
  { history with
    recent := history.recent.dropWhile fun oldest => decide (history.window ≤ now - oldest) }

def record : RestartHistory :=
  { history with
    recent := history.recent ++ [now], total := min (history.total + 1) u32Max }.prune now

def inWindow : Nat × RestartHistory :=
  (min (history.prune now).recent.length u32Max,history.prune now)

end RestartHistory

inductive RestartDecision
  | restart (delay : Nat)
  | stop (cause : NodeExitCause)
  deriving DecidableEq

def decideRestart (config : RestartConfig) (cause : NodeExitCause) (history : RestartHistory)
    (daemonInitiated : Bool) (now : Nat) : RestartDecision × RestartHistory :=
  if daemonInitiated then (.stop cause,history)
  else if config.policy.shouldRestart cause.isSuccess = false then (.stop cause,history)
  else
    let (restarts,history) := history.inWindow now
    if config.budgetExhausted restarts then
      (.stop (.restartBudgetExhausted restarts config.restartWindow),history)
    else (.restart (toDuration (config.backoffFor history.total)),history.record now)

/-- A node with its specification's restart part, the instant of its last event, all restarts
decided for it, and the delays of those since the specification was last replaced. -/
structure Supervised where
  config : RestartConfig
  history : RestartHistory
  now : Nat
  restarts : List Nat
  delays : List Nat
  deriving DecidableEq

/-- An exit, some time after the event before it, or a new specification. -/
inductive Supervision
  | exit (later : Nat) (cause : NodeExitCause) (daemonInitiated : Bool)
  | replaceSpec (config : RestartConfig)

namespace Supervised

def start (config : RestartConfig) (now : Nat) : Supervised :=
  { config := config
    history := { window := toDuration config.restartWindow, recent := [], total := 0 }
    now := now
    restarts := []
    delays := [] }

def step (node : Supervised) : Supervision → Supervised
  | .exit later cause daemonInitiated =>
    let now := node.now + later
    match decideRestart node.config cause node.history daemonInitiated now with
    | (.restart delay,history) =>
      { node with
        history := history
        now := now
        restarts := node.restarts ++ [now]
        delays := node.delays ++ [delay] }
    | (.stop _,history) => { node with history := history, now := now }
  | .replaceSpec config =>
    { node with
      config := config
      history := { node.history with window := toDuration config.restartWindow }
      delays := [] }

def run (node : Supervised) (events : List Supervision) : Supervised := events.foldl step node

/-- A new specification keeps the number of restarts and does not lengthen the window. -/
def Shortens (node : Supervised) : Supervision → Prop
  | .exit .. => True
  | .replaceSpec config => config.maxRestarts = node.config.maxRestarts ∧
      config.restartWindow ≤ node.config.restartWindow

def ShortensRun (node : Supervised) : List Supervision → Prop
  | [] => True
  | event :: events => node.Shortens event ∧ ShortensRun (node.step event) events

end Supervised

/-- The restarts are the recent ones and others that have left the window. -/
def RestartHistory.Accounts (history : RestartHistory) (now : Nat) (restarts : List Nat) : Prop :=
  ∃ forgotten, restarts = forgotten ++ history.recent ∧
    ∀ restart ∈ forgotten, history.window ≤ now - restart

namespace RestartHistory.Accounts

variable {history : RestartHistory} {before now : Nat} {restarts : List Nat}
  (accounts : history.Accounts before restarts) (later : before ≤ now)
include accounts later

theorem relax {window : Nat} (shorter : window ≤ history.window) :
    RestartHistory.Accounts { history with window := window } now restarts := by
  obtain ⟨forgotten,whole,left⟩ := accounts
  refine ⟨forgotten,whole,fun restart mem => ?_⟩
  have gone := left restart mem
  dsimp only
  omega

theorem prune : (history.prune now).Accounts now restarts := by
  obtain ⟨forgotten,rfl,left⟩ := accounts.relax later (Nat.le_refl history.window)
  refine ⟨forgotten ++ history.recent.takeWhile fun oldest =>
    decide (history.window ≤ now - oldest),?_,forall_mem_append.mpr ⟨left,?_⟩⟩
  · rw [append_assoc]
    exact congrArg (forgotten ++ ·) takeWhile_append_dropWhile.symm
  · intro restart mem
    have aged := mem_takeWhile_imp mem
    exact of_decide_eq_true aged

end RestartHistory.Accounts

/-- What a decision does to the history: nothing but pruning, or a restart within budget. -/
theorem decideRestart_cases (config : RestartConfig) (cause : NodeExitCause)
    (history : RestartHistory) (daemonInitiated : Bool) (now : Nat) :
    (∃ final after, decideRestart config cause history daemonInitiated now = (.stop final,after) ∧
      (after = history ∨ after = history.prune now)) ∨
    config.budgetExhausted (min (history.prune now).recent.length u32Max) = false ∧
      decideRestart config cause history daemonInitiated now =
        (.restart (toDuration (config.backoffFor history.total)),(history.prune now).record now) := by
  unfold decideRestart
  split
  · exact .inl ⟨_,_,rfl,.inl rfl⟩
  · split
    · exact .inl ⟨_,_,rfl,.inl rfl⟩
    · dsimp only [RestartHistory.inWindow]
      split
      · exact .inl ⟨_,_,rfl,.inr rfl⟩
      · rename_i left
        exact .inr ⟨Bool.eq_false_iff.mpr left,rfl⟩

structure Budgeted (limit : Nat) (node : Supervised) : Prop where
  limited : node.config.maxRestarts = some limit
  window : node.history.window = toDuration node.config.restartWindow
  accounts : node.history.Accounts node.now node.restarts
  few : node.history.recent.length ≤ limit
  rising : node.delays.Pairwise (· ≤ ·)
  below : ∀ delay ∈ node.delays, delay ≤ toDuration (node.config.backoffFor node.history.total)
  total : node.history.total ≤ u32Max

variable {limit : Nat} {node : Supervised}

theorem Budgeted.step (budgeted : Budgeted limit node) (bounded : limit ≤ u32Max)
    {event : Supervision} (shortens : node.Shortens event) : Budgeted limit (node.step event) := by
  cases event with
  | replaceSpec config =>
    obtain ⟨same,shorter⟩ := shortens
    refine ⟨same.trans budgeted.limited,rfl,?_,budgeted.few,.nil,forall_mem_nil _,budgeted.total⟩
    apply budgeted.accounts.relax (Nat.le_refl _)
    rw [budgeted.window]
    exact Nat.mul_le_mul_right _ shorter
  | exit later cause daemonInitiated =>
    have pruned := budgeted.accounts.prune (Nat.le_add_right node.now later)
    have fewer : (node.history.prune (node.now + later)).recent.length ≤
        node.history.recent.length := (dropWhile_sublist _).length_le
    rcases decideRestart_cases node.config cause node.history daemonInitiated (node.now + later) with
      ⟨final,after,decided,kept⟩ | ⟨room,decided⟩
    · dsimp only [Supervised.step]
      rw [decided]
      rcases kept with rfl | rfl
      · exact { budgeted with
          accounts := budgeted.accounts.relax (Nat.le_add_right _ _) (Nat.le_refl _) }
      · exact { budgeted with
          accounts := pruned
          few := Nat.le_trans fewer budgeted.few }
    · dsimp only [Supervised.step]
      rw [decided]
      unfold RestartConfig.budgetExhausted at room
      rw [budgeted.limited] at room
      have room := of_decide_eq_false room
      have next : node.history.total ≤ min (node.history.total + 1) u32Max :=
        Nat.le_min.mpr ⟨Nat.le_succ _,budgeted.total⟩
      have grown := Nat.mul_le_mul_right 1000000 (node.config.backoffFor_mono next)
      refine ⟨budgeted.limited,budgeted.window,?_,?_,?_,?_,Nat.min_le_right _ _⟩
      · obtain ⟨forgotten,whole,left⟩ := pruned
        refine RestartHistory.Accounts.prune ⟨forgotten,?_,left⟩ (Nat.le_refl _)
        rw [whole,append_assoc]
      · refine Nat.le_trans (dropWhile_sublist _).length_le ?_
        rw [length_append,length_singleton]
        have few := budgeted.few
        omega
      · refine pairwise_append.mpr ⟨budgeted.rising,pairwise_singleton _ _,?_⟩
        intro delay mem _ last
        rw [mem_singleton.mp last]
        exact budgeted.below delay mem
      · rw [forall_mem_append,forall_mem_singleton]
        exact ⟨fun delay mem => Nat.le_trans (budgeted.below delay mem) grown,grown⟩

theorem Budgeted.run (budgeted : Budgeted limit node) (bounded : limit ≤ u32Max)
    {events : List Supervision} (shortens : node.ShortensRun events) :
    Budgeted limit (node.run events) := by
  induction events generalizing node with
  | nil => exact budgeted
  | cons event events ih => exact ih (budgeted.step bounded shortens.1) shortens.2

/-- No window that ends now or later holds more restarts than the limit, and the delays rise up
to the largest one. -/
def Supervised.WithinBudget (node : Supervised) (limit : Nat) : Prop :=
  (∀ instant, node.now ≤ instant → (node.restarts.filter fun restart =>
      decide (instant - restart < toDuration node.config.restartWindow)).length ≤ limit) ∧
    node.delays.Pairwise (· ≤ ·) ∧
    ∀ delay ∈ node.delays, delay ≤ toDuration node.config.maxRestartDelay

/-- The budget holds in every run in which no new specification lengthens the window. -/
theorem restart_budget_holds (config : RestartConfig) (limit now : Nat)
    (limited : config.maxRestarts = some limit) (bounded : limit ≤ u32Max)
    (events : List Supervision) (shortens : (Supervised.start config now).ShortensRun events) :
    ((Supervised.start config now).run events).WithinBudget limit := by
  have started : Budgeted limit (Supervised.start config now) :=
    ⟨limited,rfl,⟨[],rfl,forall_mem_nil _⟩,Nat.zero_le _,.nil,forall_mem_nil _,
      Nat.zero_le _⟩
  have budgeted := started.run bounded shortens
  generalize (Supervised.start config now).run events = node at budgeted ⊢
  refine ⟨fun instant later => ?_,budgeted.rising,fun delay mem => ?_⟩
  · obtain ⟨forgotten,whole,left⟩ := budgeted.accounts
    have none : forgotten.filter (fun restart =>
        decide (instant - restart < toDuration node.config.restartWindow)) = [] := by
      refine filter_eq_nil_iff.mpr fun restart mem => ?_
      rw [decide_eq_true_eq,← budgeted.window]
      have gone := left restart mem
      omega
    rw [whole,filter_append,none,nil_append]
    exact Nat.le_trans (length_filter_le _ _) budgeted.few
  · exact Nat.le_trans (budgeted.below delay mem)
      (Nat.mul_le_mul_right _ (node.config.backoffFor_le _))

def crashing : RestartConfig :=
  { policy := .always
    maxRestarts := some 1
    restartDelay := 100
    maxRestartDelay := 30000
    restartWindow := 10 }

/-- Of two crashes in a window that a new specification has shortened the second finds the
budget used up. -/
theorem one_restart_in_window : ((Supervised.start crashing 0).run [.exit 5 .other false,
    .replaceSpec { crashing with restartWindow := 8 },.exit 7000000 .other false]).WithinBudget 1 :=
  restart_budget_holds crashing 1 0 rfl (by decide) _
    ⟨trivial,⟨by decide,by decide⟩,trivial,trivial⟩

/-- A window that is shortened and lengthened again has forgotten a restart inside it. -/
theorem lengthened_window_forgets : ¬ ((Supervised.start crashing 0).run [.exit 0 .other false,
    .replaceSpec { crashing with restartWindow := 1 },.exit 5000000 .other false,
    .replaceSpec crashing]).WithinBudget 1 := by
  intro within
  exact absurd (within.1 5000000 (by decide +kernel)) (by decide +kernel)

end Astrs.Daemon
