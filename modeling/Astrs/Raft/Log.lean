/-
Contiguous logs.

The entries of a log are numbered from the snapshot boundary on, which gives the store's
index arithmetic a closed form.
-/

import Astrs.Raft.Store

namespace Astrs.Raft

def Numbered (start : Nat) (entries : List LogEntry) : Prop :=
  ∀ position entry, entries[position]? = some entry → entry.index = start + 1 + position

namespace Numbered

variable {start : Nat} {entries : List LogEntry}

theorem nil (start : Nat) : Numbered start [] := by
  intro _ _ found
  simp at found

variable {entry : LogEntry}

theorem cons_iff :
    Numbered start (entry :: entries) ↔ entry.index = start + 1 ∧ Numbered (start + 1) entries := by
  constructor
  · intro numbered
    refine ⟨numbered 0 entry rfl,fun position item found => ?_⟩
    have := numbered (position + 1) item (by simpa using found)
    omega
  · rintro ⟨first,rest⟩ position item found
    cases position with
    | zero =>
      simp only [List.getElem?_cons_zero,Option.some.injEq] at found
      rw [← found,first]
    | succ position =>
      have := rest position item (by simpa using found)
      omega

theorem append_iff {others : List LogEntry} : Numbered start (entries ++ others) ↔
      Numbered start entries ∧ Numbered (start + entries.length) others := by
  induction entries generalizing start with
  | nil => simp [nil]
  | cons entry rest ih =>
    simp only [List.cons_append,cons_iff,ih,List.length_cons]
    have shifted : start + 1 + rest.length = start + (rest.length + 1) := by omega
    rw [shifted,and_assoc]

theorem take (numbered : Numbered start entries) (count : Nat) :
    Numbered start (entries.take count) := by
  rw [← List.take_append_drop count entries] at numbered
  exact (append_iff.mp numbered).1

theorem drop (numbered : Numbered start entries) {count : Nat} (fits : count ≤ entries.length) :
    Numbered (start + count) (entries.drop count) := by
  rw [← List.take_append_drop count entries] at numbered
  have rest := (append_iff.mp numbered).2
  rw [List.length_take,Nat.min_eq_left fits] at rest
  exact rest

theorem drop_any (count : Nat)
    (numbered : Numbered start entries) : Numbered (start + count) (entries.drop count) := by
  rcases Nat.le_total count entries.length with fits | past
  · exact numbered.drop fits
  · rw [List.drop_eq_nil_of_le past]
    exact Numbered.nil _

theorem mem_bounds (numbered : Numbered start entries)
    (mem : entry ∈ entries) : start < entry.index ∧ entry.index ≤ start + entries.length := by
  obtain ⟨position,inside,found⟩ := List.mem_iff_getElem.mp mem
  have := numbered position entry (by rw [List.getElem?_eq_getElem inside,found])
  omega

theorem filter_eq_drop (numbered : Numbered start entries) (index : Nat) :
    entries.filter (fun entry => decide (index + 1 ≤ entry.index)) =
      entries.drop (index - start) := by
  induction entries generalizing start with
  | nil => simp
  | cons entry rest ih =>
    obtain ⟨_,tail⟩ := cons_iff.mp numbered
    by_cases keep : index + 1 ≤ entry.index
    · have none : index - start = 0 := by omega
      have restNone : index - (start + 1) = 0 := by omega
      rw [List.filter_cons_of_pos (by simpa using keep),ih tail,none,restNone]
      simp
    · have more : index - start = (index - (start + 1)) + 1 := by omega
      rw [List.filter_cons_of_neg (by simpa using keep),ih tail,more,List.drop_succ_cons]

end Numbered

namespace MemoryLog

/-- The index the held entries start after: the snapshot's, or zero. -/
def boundary (log : MemoryLog) : Nat := (log.snapshot.map (·.info.lastIndex)).getD 0

def Contiguous (log : MemoryLog) : Prop := Numbered log.boundary log.entries

variable {log : MemoryLog}

theorem new_contiguous : MemoryLog.new.Contiguous := Numbered.nil _

@[simp] theorem firstIndex_eq (log : MemoryLog) : log.firstIndex = log.boundary + 1 := by
  unfold firstIndex boundary
  cases log.snapshot <;> simp

theorem Contiguous.lastIndex_eq (dense : log.Contiguous) :
    log.lastIndex = log.boundary + log.entries.length := by
  unfold lastIndex
  rcases List.eq_nil_or_concat log.entries with empty | ⟨front,last,same⟩
  · simp [empty,boundary]
  · have numbered : Numbered log.boundary log.entries := dense
    rw [same,List.concat_eq_append] at numbered ⊢
    have placed := (Numbered.append_iff.mp numbered).2
    have index := placed 0 last rfl
    simp [index]
    omega

theorem entry_eq (log : MemoryLog) (index : Nat) : log.entry index =
      if index ≤ log.boundary then none else log.entries[index - (log.boundary + 1)]? := by
  unfold entry position
  by_cases low : index ≤ log.boundary
  · simp [low,Nat.lt_succ_of_le low]
  · have high : ¬ index < log.boundary + 1 := by omega
    simp [low,high]

theorem succ_of_entry {log : MemoryLog} {index : Nat} {entry : LogEntry}
    (found : log.entry index = some entry) : ∃ position, index = position + 1 := by
  cases index with
  | zero =>
    rw [entry_eq,if_pos (Nat.zero_le _)] at found
    cases found
  | succ position => exact ⟨position,rfl⟩

variable {last : Nat} {entries : List LogEntry} {saved : MemoryLog} {snapshot : Snapshot}

/-- An append that continues the numbering succeeds. -/
theorem checkContiguous_ok
    (numbered : Numbered last entries) : checkContiguous last entries = .ok () := by
  induction entries generalizing last with
  | nil => rfl
  | cons entry rest ih =>
    obtain ⟨first,tail⟩ := Numbered.cons_iff.mp numbered
    unfold checkContiguous
    rw [if_pos first]
    exact ih tail

theorem numbered_of_checkContiguous
    (passed : checkContiguous last entries = .ok ()) : Numbered last entries := by
  induction entries generalizing last with
  | nil => exact Numbered.nil last
  | cons entry rest ih =>
    unfold checkContiguous at passed
    split at passed
    · rename_i next
      exact Numbered.cons_iff.mpr ⟨next,ih passed⟩
    · cases passed

theorem append_ok (numbered : Numbered log.lastIndex entries) :
    log.append entries = .ok { log with entries := log.entries ++ entries } := by
  unfold append
  rw [checkContiguous_ok numbered]

theorem entriesFrom_ok {first maxEntries : Nat} (held : log.boundary < first) :
    log.entriesFrom first maxEntries =
      .ok ((log.entries.drop (first - (log.boundary + 1))).take maxEntries) := by
  unfold entriesFrom
  rw [firstIndex_eq,if_neg (by omega)]

theorem saveSnapshot_eq
    (dense : log.Contiguous) (kept : log.saveSnapshot snapshot = .ok saved) :
    saved = { log with
      entries := log.entries.drop (snapshot.info.lastIndex - log.boundary)
      snapshot := some snapshot } := by
  have dropped := Numbered.filter_eq_drop dense snapshot.info.lastIndex
  unfold saveSnapshot at kept
  rw [dropped] at kept
  split at kept
  · split at kept
    · cases kept
    · cases kept
      rfl
  · cases kept
    rfl

/-- An accepted snapshot is not older than the one held. -/
theorem boundary_le_of_saveSnapshot
    (kept : log.saveSnapshot snapshot = .ok saved) : log.boundary ≤ snapshot.info.lastIndex := by
  unfold saveSnapshot at kept
  unfold boundary
  split at kept
  · rename_i existing held
    split at kept
    · cases kept
    · rename_i newer
      rw [held]
      exact Nat.le_of_not_lt newer
  · rename_i held
    rw [held]
    exact Nat.zero_le _

/-- Where a term is known, the index is zero, the boundary or a held entry's. -/
theorem termAt_cases {index term : Nat} (found : log.termAt index = some term) :
    index = 0 ∧ term = 0 ∨
      (∃ snapshot, log.snapshot = some snapshot ∧ snapshot.info.lastIndex = index ∧
        snapshot.info.lastTerm = term) ∨
      ∃ entry, log.entry index = some entry ∧ entry.term = term := by
  unfold termAt at found
  split at found
  · rename_i zero
    cases found
    exact .inl ⟨zero,rfl⟩
  · split at found
    · rename_i snapshot held
      split at found
      · rename_i same
        cases found
        exact .inr (.inl ⟨snapshot,held,same,rfl⟩)
      · obtain ⟨entry,inside,same⟩ := Option.map_eq_some_iff.mp found
        exact .inr (.inr ⟨entry,inside,same⟩)
    · obtain ⟨entry,inside,same⟩ := Option.map_eq_some_iff.mp found
      exact .inr (.inr ⟨entry,inside,same⟩)

end MemoryLog

end Astrs.Raft
