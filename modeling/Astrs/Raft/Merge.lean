/-
Merging a batch of entries into a contiguous log.

What follows the part already held is a conflict inside the log or the next index after
it, so neither the truncation nor the append can be refused.
-/

import Astrs.Raft.Steps

namespace Astrs.Raft

open Astrs.Base List MemoryLog Numbered

namespace MemoryLog

variable {log : MemoryLog} {entries : List LogEntry} {index prev : Nat}

theorem termAt_eq (past : log.boundary < index) :
    log.termAt index = (log.entries[index - (log.boundary + 1)]?).map LogEntry.term := by
  have positive : index ≠ 0 := by omega
  have held : log.entry index = log.entries[index - (log.boundary + 1)]? := by
    rw [entry_eq,if_neg (by omega)]
  unfold termAt
  rw [if_neg positive]
  cases kept : log.snapshot with
  | none => rw [held]
  | some snapshot =>
    have apart : snapshot.info.lastIndex ≠ index := by
      simp only [boundary,kept,Option.map_some,Option.getD_some] at past
      omega
    simp only [apart,if_false]
    rw [held]

theorem Contiguous.termAt_isSome_iff (dense : log.Contiguous) (past : log.boundary < index) :
    (∃ term, log.termAt index = some term) ↔ index ≤ log.lastIndex := by
  rw [termAt_eq past,dense.lastIndex_eq]
  constructor
  · rintro ⟨_,found⟩
    obtain ⟨_,held,_⟩ := Option.map_eq_some_iff.mp found
    have := (List.getElem?_eq_some_iff.mp held).1
    omega
  · intro _
    have fits : index - (log.boundary + 1) < log.entries.length := by omega
    exact ⟨_,by rw [List.getElem?_eq_getElem fits]; rfl⟩

section

variable (dense : log.Contiguous) (numbered : Numbered prev entries)
  (low : log.boundary ≤ prev) (high : prev ≤ log.lastIndex)
include dense numbered low high

/-- What the merge point says about a batch that continues inside the log. -/
theorem Contiguous.mergePoint_spec : (mergePoint log entries).1 ≤ entries.length ∧
      prev + (mergePoint log entries).1 ≤ log.lastIndex ∧
      (∀ entry ∈ entries.take (mergePoint log entries).1,
        log.termAt entry.index = some entry.term) ∧
      match (mergePoint log entries).2, entries.drop (mergePoint log entries).1 with
      | true,entry :: _ => entry.index ≤ log.lastIndex ∧ log.termAt entry.index ≠ some entry.term
      | true,[] => False
      | false,_ :: _ => prev + (mergePoint log entries).1 = log.lastIndex
      | false,[] => True := by
  induction entries generalizing prev with
  | nil => simp [mergePoint,high]
  | cons entry rest ih =>
    obtain ⟨_,tail⟩ := cons_iff.mp numbered
    have past : log.boundary < entry.index := by omega
    unfold mergePoint
    cases found : log.termAt entry.index with
    | none =>
      have outside : ¬ entry.index ≤ log.lastIndex := by
        intro inside
        obtain ⟨_,held⟩ := (dense.termAt_isSome_iff past).mpr inside
        rw [found] at held
        cases held
      simp only [take_zero,drop_zero]
      exact ⟨Nat.zero_le _,high,fun item mem => (not_mem_nil mem).elim,by omega⟩
    | some existing =>
      have inside := (dense.termAt_isSome_iff past).mp ⟨existing,found⟩
      by_cases same : existing = entry.term
      · obtain ⟨_,_,matching,stop⟩ := ih tail (by omega) (by omega)
        simp only [same,if_true,take_succ_cons,drop_succ_cons,length_cons]
        refine ⟨by omega,by omega,?_,?_⟩
        · intro item mem
          rcases mem_cons.mp mem with rfl | later
          · rw [found,same]
          · exact matching item later
        · have shifted : prev + ((mergePoint log rest).1 + 1) =
              prev + 1 + (mergePoint log rest).1 := by omega
          rw [shifted]
          exact stop
      · simp only [same,if_false,take_zero,drop_zero]
        refine ⟨Nat.zero_le _,high,fun item mem => (not_mem_nil mem).elim,inside,?_⟩
        rw [found]
        exact fun equal => same (Option.some.inj equal)

/-- A merge keeps a front of the log that reaches the merge point and goes on
with the rest of the batch; only a conflict shortens what is kept. -/
theorem Contiguous.merged_eq : (log.merged entries).entries =
      (if entries.drop (mergePoint log entries).1 = [] then log.entries
        else log.entries.take (prev + (mergePoint log entries).1 - log.boundary)) ++
        entries.drop (mergePoint log entries).1 := by
  obtain ⟨fits,_,_,stop⟩ := dense.mergePoint_spec numbered low high
  have lastIndex := dense.lastIndex_eq
  have rest := numbered.drop fits
  unfold merged
  cases conflict : (mergePoint log entries).2 with
  | true =>
    cases dropped : entries.drop (mergePoint log entries).1 with
    | nil => simp [conflict,dropped] at stop
    | cons entry =>
      rw [dropped] at rest
      have index := (cons_iff.mp rest).1
      have counted : entry.index - log.firstIndex =
          prev + (mergePoint log entries).1 - log.boundary := by
        rw [firstIndex_eq]
        omega
      simp only [conflict,dropped,counted,reduceCtorEq,if_false]
  | false =>
    cases dropped : entries.drop (mergePoint log entries).1 with
    | nil => simp only [conflict,dropped,if_true]
    | cons =>
      simp only [conflict,dropped] at stop
      have whole : log.entries.length ≤
          prev + (mergePoint log entries).1 - log.boundary := by omega
      simp only [conflict,dropped,take_of_length_le whole,reduceCtorEq,if_false]

end

@[simp] theorem merged_boundary (log : MemoryLog) (entries : List LogEntry) :
    (log.merged entries).boundary = log.boundary := rfl

theorem Contiguous.merged (dense : log.Contiguous)
    (numbered : Numbered prev entries) (low : log.boundary ≤ prev)
    (high : prev ≤ log.lastIndex) : (log.merged entries).Contiguous := by
  obtain ⟨fits,_⟩ := dense.mergePoint_spec numbered low high
  have lastIndex := dense.lastIndex_eq
  unfold Contiguous
  rw [dense.merged_eq numbered low high,merged_boundary]
  split
  · rename_i empty
    rw [empty,append_nil]
    exact dense
  · refine append_iff.mpr ⟨take dense _,?_⟩
    have counted : log.boundary +
        (log.entries.take (prev + (mergePoint log entries).1 - log.boundary)).length =
          prev + (mergePoint log entries).1 := by
      rw [length_take]
      omega
    rw [counted]
    exact numbered.drop fits

end MemoryLog

section Replica

variable {M : Type} {node : RaftNode M} {entries : List LogEntry} {prev : Nat}

theorem wp_recomputeMembership (dense : node.log.Contiguous) :
    Ensures recomputeMembership node (fun _ final => ∃ pending, final =
        { node with
          membership := Membership.fromEntries node.baseMembership node.log.entries
          pendingConfig := pending })
      (fun _ => False) := by
  have lastIndex := dense.lastIndex_eq
  unfold recomputeMembership
  simp only [wp_bind,wp_get]
  rw [entriesFrom_ok (by simp)]
  have whole : (node.log.entries.drop (node.log.firstIndex - (node.log.boundary + 1))).take
      (node.log.lastIndex - node.log.firstIndex + 1) = node.log.entries := by
    rw [firstIndex_eq,Nat.sub_self,drop_zero]
    exact take_of_length_le (by omega)
  rw [whole]
  exact ⟨_,rfl⟩

theorem wp_mergeEntries (dense : node.log.Contiguous)
    (numbered : Numbered prev entries) (low : node.log.boundary ≤ prev)
    (high : prev ≤ node.log.lastIndex) :
    Ensures (mergeEntries entries) node (fun _ final => ∃ pending, final =
        { node with
          log := node.log.merged entries
          membership := node.mergedMembership entries
          pendingConfig := pending })
      (fun _ => False) := by
  obtain ⟨fits,_,_,stop⟩ := dense.mergePoint_spec numbered low high
  have whole := dense.merged_eq numbered low high
  have lastIndex := dense.lastIndex_eq
  have rest := numbered.drop fits
  unfold mergeEntries RaftNode.mergedMembership
  simp only [wp_bind,wp_get]
  generalize (mergePoint node.log entries).1 = count at *
  -- The log after the truncation, when there is one, ends right before the rest of the batch.
  have appends : ∀ kept, kept.length = prev + count - node.log.boundary →
      Numbered node.log.boundary kept →
      (node.log.merged entries).entries = kept ++ entries.drop count →
      ({ node.log with entries := kept } : MemoryLog).append (entries.drop count) =
        .ok (node.log.merged entries) := by
    intro kept _ keptNumbered joined
    have keptContiguous : ({ node.log with entries := kept } : MemoryLog).Contiguous := keptNumbered
    have ends : node.log.boundary + kept.length = prev + count := by omega
    have next : Numbered (node.log.boundary + kept.length) (entries.drop count) := by
      rw [ends]
      exact rest
    rw [append_ok (by rw [keptContiguous.lastIndex_eq]; exact next)]
    exact congrArg (fun held => Except.ok { node.log with entries := held }) joined.symm
  have finish : Ensures (if (mergePoint node.log entries).2 ||
        (entries.drop count).any LogEntry.isConfig then
      recomputeMembership else pure () : NodeM M Unit)
      { node with log := node.log.merged entries }
      (fun _ final => ∃ pending, final =
        { node with
          log := node.log.merged entries
          membership := if (mergePoint node.log entries).2 ||
                (entries.drop count).any LogEntry.isConfig then
              Membership.fromEntries node.baseMembership (node.log.merged entries).entries
            else node.membership
          pendingConfig := pending })
      (fun _ => False) := by
    rw [wp_ite]
    constructor
    · intro changed
      refine (wp_recomputeMembership (dense.merged numbered low high)).imp ?_
      rintro _ final ⟨pending,rfl⟩
      refine ⟨pending,?_⟩
      rw [if_pos changed]
      rfl
    · intro unchanged
      refine ⟨node.pendingConfig,?_⟩
      rw [if_neg unchanged]
  rw [wp_ite]
  refine ⟨fun conflict => ?_,fun agrees => ?_⟩
  · cases dropped : entries.drop count with
    | nil =>
      rw [conflict,dropped] at stop
      exact stop.elim
    | cons entry more =>
      rw [dropped] at rest whole appends finish
      have index := (cons_iff.mp rest).1
      have truncated : node.log.truncateFrom entry.index = .ok { node.log with
          entries := node.log.entries.take (prev + count - node.log.boundary) } := by
        have counted : entry.index - node.log.firstIndex = prev + count - node.log.boundary := by
          rw [firstIndex_eq]
          omega
        unfold truncateFrom
        rw [if_neg (by rw [firstIndex_eq]; omega),counted]
      rw [if_neg (by simp)] at whole
      have appended := appends _ (by rw [length_take]; omega) (take dense _) whole
      simp only [wp_bind,ne_eq,reduceCtorEq,not_false_eq_true,if_true]
      rw [wp_updateLog _ truncated,wp_updateLog _ appended]
      exact finish
  · cases dropped : entries.drop count with
    | nil =>
      rw [dropped] at whole finish
      have same : node.log.merged entries = node.log := by
        rw [if_pos rfl,append_nil] at whole
        change ({ node.log with entries := (node.log.merged entries).entries } : MemoryLog) = _
        rw [whole]
      rw [same] at finish ⊢
      exact finish
    | cons entry more =>
      rw [Bool.not_eq_true _ |>.mp agrees,dropped] at stop
      rw [dropped] at whole appends finish
      have counted : node.log.entries.length = prev + count - node.log.boundary := by omega
      rw [if_neg (by simp),take_of_length_le (Nat.le_of_eq counted)] at whole
      have appended := appends node.log.entries counted dense whole
      simp only [wp_bind,ne_eq,reduceCtorEq,not_false_eq_true,if_true]
      rw [wp_updateLog _ appended]
      exact finish

end Replica

end Astrs.Raft
