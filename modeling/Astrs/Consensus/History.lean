/-
Logs whose entries carry the term that created them.

A log is a list of entries, oldest first.  `Rooted` says that every prefix of a log that
ends in an entry of term t is a prefix of the one line written in term t.
-/

import Mathlib.Data.Finset.Card

namespace Astrs.Consensus

open List

/-- How entries carry terms and voter sets, and the voters before any entry. -/
structure Setting (P α : Type) where
  termOf : α → Nat
  votersOf : α → Option (Finset P)
  bootstrap : Finset P

variable {P α : Type} (setting : Setting P α)

namespace Setting

def configuration (log : List α) : Finset P :=
  log.foldl (fun current entry => (setting.votersOf entry).getD current) setting.bootstrap

def lastTerm (log : List α) : Nat := ((log.getLast?).map setting.termOf).getD 0

def UpToDate (candidate voter : List α) : Prop :=
  setting.lastTerm voter < setting.lastTerm candidate ∨
    setting.lastTerm voter = setting.lastTerm candidate ∧ voter.length ≤ candidate.length

def Unchanging (log : List α) : Prop := ∀ entry ∈ log, setting.votersOf entry = none

/-- Every prefix that ends in an entry of some term is a prefix of that term's line. -/
def Rooted (line : Nat → List α) (log : List α) : Prop :=
  ∀ front entry, front ++ [entry] <+: log → front ++ [entry] <+: line (setting.termOf entry)

def Ascending (log : List α) : Prop :=
  log.Pairwise fun older newer => setting.termOf older ≤ setting.termOf newer

end Setting

variable {count : Nat} {log goal line : List α} {entry : α}

theorem take_eq_of_isPrefix {shorter longer : List α} (within : shorter <+: longer)
    (fits : count ≤ shorter.length) : longer.take count = shorter.take count := by
  obtain ⟨_,rfl⟩ := within
  exact take_append_of_le_length fits

theorem prefix_eq_of_length_eq {left right : List α} (leftWithin : left <+: log)
    (rightWithin : right <+: log) (same : left.length = right.length) : left = right := by
  exact (prefix_of_prefix_length_le leftWithin rightWithin same.le).eq_of_length same

theorem mem_of_prefix_snoc {front : List α} (within : front ++ [entry] <+: log) : entry ∈ log := by
  exact within.subset (mem_append_right front mem_cons_self)

theorem exists_snoc_prefix_of_mem (mem : entry ∈ log) : ∃ front, front ++ [entry] <+: log := by
  obtain ⟨front,back,rfl⟩ := append_of_mem mem
  exact ⟨front,back,by simp⟩

/-- The log after a target has been written over it: unchanged when it already
holds the target, and the target alone otherwise. -/
noncomputable def overwrite (target log : List α) : List α :=
  open Classical in if target <+: log then log else target

theorem overwrite_of_isPrefix (held : goal <+: log) : overwrite goal log = log := by
  unfold overwrite
  rw [if_pos held]

theorem overwrite_of_not_isPrefix (missing : ¬ goal <+: log) : overwrite goal log = goal := by
  unfold overwrite
  rw [if_neg missing]

theorem prefix_overwrite (goal log : List α) : goal <+: overwrite goal log := by
  by_cases held : goal <+: log
  · rw [overwrite_of_isPrefix held]
    exact held
  · rw [overwrite_of_not_isPrefix held]

theorem kept_by_overwrite {kept : List α} (held : kept <+: log)
    (shared : kept <+: line) : kept <+: overwrite (line.take count) log := by
  by_cases present : line.take count <+: log
  · rw [overwrite_of_isPrefix present]
    exact held
  · rw [overwrite_of_not_isPrefix present]
    rcases prefix_or_prefix_of_prefix shared ( take_prefix count line) with within | covered
    · exact within
    · exact absurd (covered.trans held) present

/-- Installing what agrees only where it shortens nothing is overwriting. -/
theorem take_eq_overwrite (fits : count ≤ line.length)
    (guarded : line.take count <+: log → log.length ≤ count) :
    line.take count = overwrite (line.take count) log := by
  by_cases held : line.take count <+: log
  · rw [overwrite_of_isPrefix held]
    refine held.eq_of_length_le ?_
    rw [length_take]
    have := guarded held
    omega
  · rw [overwrite_of_not_isPrefix held]

namespace Setting

theorem lastTerm_snoc (front : List α) (entry : α) :
    setting.lastTerm (front ++ [entry]) = setting.termOf entry := by
  simp [lastTerm]

variable {shorter longer : List α} {line : Nat → List α}

theorem Ascending.le_lastTerm (ascending : setting.Ascending log)
    (mem : entry ∈ log) : setting.termOf entry ≤ setting.lastTerm log := by
  rcases eq_nil_or_concat log with rfl | ⟨front,last,rfl⟩
  · cases mem
  · rw [concat_eq_append] at *
    rw [lastTerm_snoc]
    rcases mem_append.mp mem with past | final
    · exact (pairwise_append.mp ascending).2.2 entry past last mem_cons_self
    · rw [mem_singleton.mp final]

theorem Ascending.of_isPrefix (ascending : setting.Ascending longer)
    (within : shorter <+: longer) : setting.Ascending shorter := by
  exact ascending.sublist within.sublist

theorem Rooted.of_isPrefix (rooted : setting.Rooted line longer) (within : shorter <+: longer) :
    setting.Rooted line shorter := by
  intro front entry inside
  exact rooted front entry (inside.trans within)

theorem Rooted.mono {wider : Nat → List α} (rooted : setting.Rooted line log)
    (extended : ∀ term, line term <+: wider term) : setting.Rooted wider log := by
  intro front entry inside
  exact (rooted front entry inside).trans (extended _)

theorem Rooted.prefix_line (rooted : setting.Rooted line log)
    (nonempty : log ≠ []) : log <+: line (setting.lastTerm log) := by
  rcases eq_nil_or_concat log with rfl | ⟨front,last,rfl⟩
  · exact absurd rfl nonempty
  · rw [concat_eq_append] at *
    rw [lastTerm_snoc]
    exact rooted front last (prefix_refl _)

theorem Rooted.matching {left right leftFront rightFront : List α}
    {leftEntry rightEntry : α} (leftRooted : setting.Rooted line left)
    (rightRooted : setting.Rooted line right) (leftWithin : leftFront ++ [leftEntry] <+: left)
    (rightWithin : rightFront ++ [rightEntry] <+: right)
    (sameIndex : leftFront.length = rightFront.length)
    (sameTerm : setting.termOf leftEntry = setting.termOf rightEntry) :
    leftFront ++ [leftEntry] = rightFront ++ [rightEntry] := by
  have onLine := rightRooted rightFront rightEntry rightWithin
  rw [← sameTerm] at onLine
  refine prefix_eq_of_length_eq (leftRooted leftFront leftEntry leftWithin) onLine ?_
  simp [sameIndex]

theorem configuration_append_unchanging (front : List α) {back : List α}
    (unchanging : setting.Unchanging back) :
    setting.configuration (front ++ back) = setting.configuration front := by
  induction back using List.reverseRecOn with
  | nil => rw [append_nil]
  | append_singleton past last ih =>
    have unset : setting.votersOf last = none :=
      unchanging last (mem_append_right past mem_cons_self)
    have before := ih (fun entry mem => unchanging entry (mem_append_left _ mem))
    unfold configuration at *
    rw [← append_assoc,foldl_append,before]
    simp [unset]

theorem configuration_snoc_change (front : List α) {voters : Finset P}
    (change : setting.votersOf entry = some voters) :
    setting.configuration (front ++ [entry]) = voters := by
  unfold configuration
  simp [change]

theorem configuration_of_unchanging (unchanging : setting.Unchanging log) :
    setting.configuration log = setting.bootstrap := by
  exact setting.configuration_append_unchanging [] unchanging

theorem unchanging_or_newest_change (log : List α) :
    setting.Unchanging log ∨ ∃ front entry back voters, log = front ++ [entry] ++ back ∧
      setting.votersOf entry = some voters ∧ setting.Unchanging back := by
  induction log using List.reverseRecOn with
  | nil => exact .inl nofun
  | append_singleton past last ih =>
    cases change : setting.votersOf last with
    | some voters =>
      refine .inr ⟨past,last,[],voters,(append_nil _).symm,change,?_⟩
      exact nofun
    | none =>
      rcases ih with unchanging | ⟨front,entry,back,voters,same,set,after⟩
      · refine .inl fun entry mem => ?_
        rcases mem_append.mp mem with before | final
        · exact unchanging entry before
        · rw [mem_singleton.mp final]
          exact change
      · refine .inr ⟨front,entry,back ++ [last],voters,?_,set,fun item mem => ?_⟩
        · rw [same,append_assoc]
        · rcases mem_append.mp mem with before | final
          · exact after item before
          · rw [mem_singleton.mp final]
            exact change

end Setting

end Astrs.Consensus
