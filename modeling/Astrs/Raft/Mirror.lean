/-
A compacted log against the whole history it stands for.

A store that mirrors a history holds what lies past its snapshot boundary and the term at
the boundary.
-/

import Astrs.Consensus.Safety
import Astrs.Raft.Local

namespace Astrs.Raft

open Astrs.Base Astrs.Consensus List MemoryLog

def setting (bootstrap : OrderedSet PeerId) : Setting PeerId LogEntry where
  termOf := LogEntry.term
  votersOf := fun entry => entry.config.map fun membership => membership.voters.toFinset
  bootstrap := bootstrap.toFinset

theorem configuration_eq (boot : OrderedSet PeerId) (trail : List LogEntry) :
    (setting boot).configuration trail =
      (Membership.fromEntries ⟨boot⟩ trail).voters.toFinset := by
  induction trail using List.reverseRecOn with
  | nil => rfl
  | append_singleton front entry ih =>
    rw [Membership.fromEntries_append]
    change List.foldl _ _ (front ++ [entry]) = _
    rw [foldl_append]
    change ((setting boot).votersOf entry).getD ((setting boot).configuration front) =
      ((entry.config).getD (Membership.fromEntries ⟨boot⟩ front)).voters.toFinset
    rw [ih]
    change (entry.config.map _).getD _ = _
    cases entry.config <;> rfl

def historyTerm (history : List LogEntry) (index : Nat) : Option Nat :=
  if index = 0 then some 0 else (history[index - 1]?).map LogEntry.term

section HistoryTerm

variable {trail other : List LogEntry} {index count term : Nat}

theorem historyTerm_take (below : index ≤ count) :
    historyTerm (trail.take count) index = historyTerm trail index := by
  unfold historyTerm
  split
  · rfl
  · rw [List.getElem?_take_of_lt (by omega)]

theorem historyTerm_prefix (within : other <+: trail) (fits : index ≤ other.length) :
    historyTerm other index = historyTerm trail index := by
  rw [prefix_iff_eq_take.mp within]
  exact historyTerm_take fits

theorem historyTerm_le (found : historyTerm trail index = some term) : index ≤ trail.length := by
  unfold historyTerm at found
  split at found
  · omega
  · obtain ⟨_,held,_⟩ := Option.map_eq_some_iff.mp found
    have := (List.getElem?_eq_some_iff.mp held).1
    omega

theorem getElem?_of_snoc {front : List LogEntry} {entry : LogEntry}
    (within : front ++ [entry] <+: trail) : trail[front.length]? = some entry := by
  obtain ⟨_,rfl⟩ := within
  simp

theorem snoc_of_getElem? {entry : LogEntry} (held : trail[index]? = some entry) :
    trail.take index ++ [entry] <+: trail ∧ (trail.take index).length = index := by
  have inside := (List.getElem?_eq_some_iff.mp held).1
  constructor
  · have snoc : trail.take index ++ [entry] = trail.take (index + 1) := by
      rw [take_add_one,held]
      rfl
    rw [snoc]
    exact take_prefix _ _
  · rw [length_take]
    omega

theorem historyTerm_snoc (pos : index ≠ 0) (found : historyTerm trail index = some term) :
    ∃ front entry, front ++ [entry] <+: trail ∧ front.length + 1 = index ∧ entry.term = term := by
  unfold historyTerm at found
  rw [if_neg pos] at found
  obtain ⟨entry,held,same⟩ := Option.map_eq_some_iff.mp found
  obtain ⟨within,counted⟩ := snoc_of_getElem? held
  exact ⟨trail.take (index - 1),entry,within,by omega,same⟩

theorem take_eq_of_historyTerm {boot : OrderedSet PeerId} {line : Nat → List LogEntry}
    (rooted : (setting boot).Rooted line trail)
    (otherRooted : (setting boot).Rooted line other)
    (found : historyTerm trail index = some term)
    (otherFound : historyTerm other index = some term) : trail.take index = other.take index := by
  by_cases zero : index = 0
  · rw [zero,take_zero,take_zero]
  · obtain ⟨_,_,within,counted,same⟩ := historyTerm_snoc zero found
    obtain ⟨_,_,otherWithin,otherCounted,otherSame⟩ := historyTerm_snoc zero otherFound
    have equal := rooted.matching (setting boot) otherRooted within otherWithin (by omega)
      (same.trans otherSame.symm)
    have left := prefix_iff_eq_take.mp within
    have right := prefix_iff_eq_take.mp otherWithin
    simp only [length_append,length_singleton,counted,otherCounted] at left right
    rw [← left,← right,equal]

end HistoryTerm

/-- The batch a message carries: the entries of a line right after an index. -/
structure Batch (line : List LogEntry) (prevLogIndex prevLogTerm : Nat)
    (entries : List LogEntry) : Prop where
  fits : prevLogIndex + entries.length ≤ line.length
  taken : entries = (line.drop prevLogIndex).take entries.length
  before : historyTerm line prevLogIndex = some prevLogTerm

variable {prev prevTerm : Nat}

theorem Batch.getElem? {whole entries : List LogEntry} {spot : Nat}
    (batch : Batch whole prev prevTerm entries) (inside : spot < entries.length) :
    entries[spot]? = whole[prev + spot]? := by
  rw [batch.taken,List.getElem?_take_of_lt inside,List.getElem?_drop]

theorem Batch.mono {line longer entries : List LogEntry}
    (batch : Batch line prev prevTerm entries) (within : line <+: longer) :
    Batch longer prev prevTerm entries := by
  have fits := batch.fits
  refine ⟨fits.trans within.length_le,?_,?_⟩
  · obtain ⟨_,rfl⟩ := within
    rw [drop_append_of_le_length (by omega),take_append_of_le_length]
    · exact batch.taken
    · rw [length_drop]
      omega
  · rw [← historyTerm_prefix within (by omega)]
    exact batch.before

/-! ### Mirroring stores -/

structure Mirrors (history : List LogEntry) (floor : Nat) (log : MemoryLog) : Prop where
  boundary : log.boundary = floor
  fits : floor ≤ history.length
  entries : log.entries = history.drop floor
  edge : ∀ snapshot, log.snapshot = some snapshot →
    floor ≠ 0 ∧ historyTerm history floor = some snapshot.info.lastTerm

namespace Mirrors

variable {trail : List LogEntry} {floor index term : Nat} {log : MemoryLog}

theorem empty : Mirrors [] 0 new := ⟨rfl,Nat.le_refl 0,rfl,nofun⟩

section

variable (mirrors : Mirrors trail floor log)
include mirrors

theorem hardState (state : HardState) : Mirrors trail floor { log with hardState := state } :=
  { mirrors with }

theorem floor_of_none (none : log.snapshot = none) : floor = 0 := by
  rw [← mirrors.boundary]
  simp [MemoryLog.boundary,none]

theorem floor_of_some {snapshot : Snapshot} (held : log.snapshot = some snapshot) :
    snapshot.info.lastIndex = floor := by
  rw [← mirrors.boundary]
  simp [MemoryLog.boundary,held]

theorem lastIndex (dense : log.Contiguous) : log.lastIndex = trail.length := by
  rw [dense.lastIndex_eq,mirrors.boundary,mirrors.entries,length_drop]
  have := mirrors.fits
  omega

theorem entry (past : floor ≤ index) : log.entry (index + 1) = trail[index]? := by
  rw [entry_eq,mirrors.boundary,if_neg (by omega),mirrors.entries,List.getElem?_drop]
  congr 1
  omega

theorem entry_some {entry : LogEntry} (found : log.entry (index + 1) = some entry) :
    floor ≤ index ∧ trail[index]? = some entry := by
  by_cases past : floor ≤ index
  · rw [mirrors.entry past] at found
    exact ⟨past,found⟩
  · rw [entry_eq,mirrors.boundary,if_pos (by omega)] at found
    cases found

theorem termAt (past : floor ≤ index) : log.termAt index = historyTerm trail index := by
  have boundary := mirrors.boundary
  rcases Nat.lt_or_eq_of_le past with inside | edge
  · rw [termAt_eq (by omega),boundary,mirrors.entries,List.getElem?_drop]
    unfold historyTerm
    rw [if_neg (by omega)]
    congr 2
    omega
  · unfold MemoryLog.termAt
    split
    · rename_i zero
      simp [historyTerm,zero]
    · rename_i pos
      cases held : log.snapshot with
      | none => exact absurd (edge.symm.trans (mirrors.floor_of_none held)) pos
      | some snapshot =>
        have known := (mirrors.edge snapshot held).2
        rw [edge] at known
        simp only [(mirrors.floor_of_some held).trans edge,if_true]
        exact known.symm

/-- Whatever term the store answers is the history's. -/
theorem termAt_some (found : log.termAt index = some term) :
    historyTerm trail index = some term ∧ (index = 0 ∨ floor ≤ index) := by
  by_cases zero : index = 0
  · subst zero
    refine ⟨?_,.inl rfl⟩
    rw [← found]
    rfl
  · have past := boundary_le_of_termAt zero found
    rw [mirrors.boundary] at past
    rw [← mirrors.termAt past]
    exact ⟨found,.inr past⟩

theorem lastTerm (boot : OrderedSet PeerId) : log.lastTerm = (setting boot).lastTerm trail := by
  have fits := mirrors.fits
  unfold MemoryLog.lastTerm Setting.lastTerm
  rw [mirrors.entries]
  rcases Nat.lt_or_eq_of_le fits with inside | whole
  · rw [List.getLast?_drop,if_neg (by omega)]
    cases last : trail.getLast? with
    | none =>
      rw [List.getLast?_eq_none_iff] at last
      rw [last] at inside
      simp at inside
    | some => rfl
  · rw [drop_eq_nil_of_le (by omega)]
    cases held : log.snapshot with
    | none =>
      have none : trail = [] :=
        length_eq_zero_iff.mp (whole.symm.trans (mirrors.floor_of_none held))
      rw [none]
      rfl
    | some snapshot =>
      obtain ⟨pos,known⟩ := mirrors.edge snapshot held
      obtain ⟨_,_,within,_,same⟩ := historyTerm_snoc pos known
      have equal := within.eq_of_length (by simp; omega)
      rw [← equal]
      simp [setting,same]

theorem append (entry : LogEntry) :
    Mirrors (trail ++ [entry]) floor { log with entries := log.entries ++ [entry] } := by
  refine ⟨mirrors.boundary,?_,?_,fun snapshot held => ?_⟩
  · have := mirrors.fits
    simp
    omega
  · change log.entries ++ [entry] = _
    rw [mirrors.entries,drop_append_of_le_length mirrors.fits]
  · obtain ⟨pos,known⟩ := mirrors.edge snapshot held
    refine ⟨pos,?_⟩
    rw [← historyTerm_prefix (prefix_append trail [entry]) mirrors.fits]
    exact known

end

variable {snapshot : Snapshot}

theorem installed {line : List LogEntry} (log : MemoryLog) (pos : snapshot.info.lastIndex ≠ 0)
    (known : historyTerm line snapshot.info.lastIndex = some snapshot.info.lastTerm) :
    Mirrors (line.take snapshot.info.lastIndex) snapshot.info.lastIndex
      (log.installSnapshot snapshot) := by
  have fits := historyTerm_le known
  refine ⟨rfl,?_,?_,fun held same => ?_⟩
  · rw [length_take]
    omega
  · change [] = _
    rw [drop_eq_nil_of_le (by rw [length_take]; omega)]
  · cases same
    exact ⟨pos,by rw [historyTerm_take (Nat.le_refl _)]; exact known⟩

/-- Compacting moves the floor up along the same history. -/
theorem captured (mirrors : Mirrors trail floor log)
    (pos : snapshot.info.lastIndex ≠ 0) (past : floor ≤ snapshot.info.lastIndex)
    (known : historyTerm trail snapshot.info.lastIndex = some snapshot.info.lastTerm) :
    Mirrors trail snapshot.info.lastIndex
      { log with
        entries := log.entries.drop (snapshot.info.lastIndex - log.boundary)
        snapshot := some snapshot } := by
  refine ⟨rfl,historyTerm_le known,?_,fun held same => ?_⟩
  · change log.entries.drop _ = _
    rw [mirrors.entries,mirrors.boundary,drop_drop]
    congr 1
    omega
  · cases same
    exact ⟨pos,known⟩

/-! ### Merging -/

section Merge

variable {boot : OrderedSet PeerId} {lines : Nat → List LogEntry} {line entries : List LogEntry}

section

variable (mirrors : Mirrors trail floor log) (dense : log.Contiguous)
  (rooted : (setting boot).Rooted lines trail)
  (lineRooted : (setting boot).Rooted lines line)
  (batch : Batch line prev prevTerm entries) (numbered : Numbered prev entries)
  (low : floor ≤ prev) (high : prev ≤ trail.length)
  (agrees : (log.termAt prev).getD 0 = prevTerm)
include mirrors dense rooted lineRooted batch numbered low high agrees

theorem take_mergePoint : trail.take (prev + (mergePoint log entries).1) =
      line.take (prev + (mergePoint log entries).1) := by
  obtain ⟨_,_,matching,_⟩ := dense.mergePoint_spec numbered
    (by rw [mirrors.boundary]; exact low) (by rw [mirrors.lastIndex dense]; exact high)
  rcases Nat.eq_zero_or_pos (mergePoint log entries).1 with none | some
  · rw [none,Nat.add_zero]
    refine take_eq_of_historyTerm rooted lineRooted ?_ batch.before
    have known : ∃ term, historyTerm trail prev = some term := by
      unfold historyTerm
      split
      · exact ⟨0,rfl⟩
      · exact ⟨_,by rw [List.getElem?_eq_getElem (by omega)]; rfl⟩
    obtain ⟨_,held⟩ := known
    rw [mirrors.termAt low,held] at agrees
    rw [held]
    exact congrArg Option.some agrees
  · obtain ⟨last,found⟩ : ∃ last, entries[(mergePoint log entries).1 - 1]? = Option.some last :=
      ⟨_,List.getElem?_eq_getElem (by omega)⟩
    have member : last ∈ entries.take (mergePoint log entries).1 := by
      refine mem_of_getElem? (i := (mergePoint log entries).1 - 1) ?_
      rw [List.getElem?_take_of_lt (by omega)]
      exact found
    have index : last.index = prev + (mergePoint log entries).1 := by
      have := numbered _ last found
      omega
    have held := (mirrors.termAt_some (matching last member)).1
    rw [index] at held
    refine take_eq_of_historyTerm rooted lineRooted held ?_
    have onLine := batch.getElem? (show (mergePoint log entries).1 - 1 < entries.length by omega)
    unfold historyTerm
    have shift : prev + ((mergePoint log entries).1 - 1) =
        prev + (mergePoint log entries).1 - 1 := by omega
    rw [if_neg (by omega),← shift,← onLine,found]
    rfl

/-- Nothing up to the batch's predecessor is rewritten. -/
theorem take_overwrite (below : index ≤ prev) :
    (overwrite (line.take (prev + entries.length)) trail).take index =
      trail.take index := by
  have shared := mirrors.take_mergePoint dense rooted lineRooted batch numbered low high agrees
  by_cases held : line.take (prev + entries.length) <+: trail
  · rw [overwrite_of_isPrefix held]
  · have front := congrArg (List.take index) shared
    rw [take_take,take_take,Nat.min_eq_left (by omega)] at front
    rw [overwrite_of_not_isPrefix held,take_take,Nat.min_eq_left (by omega)]
    exact front.symm

theorem merged : Mirrors (overwrite (line.take (prev + entries.length)) trail) floor
      (log.merged entries) := by
  have boundary := mirrors.boundary
  have lastIndex := mirrors.lastIndex dense
  have shared := mirrors.take_mergePoint dense rooted lineRooted batch numbered low high agrees
  obtain ⟨_,_,_,stop⟩ := dense.mergePoint_spec numbered
    (by rw [boundary]; exact low) (by rw [lastIndex]; exact high)
  have whole := dense.merged_eq numbered (by rw [boundary]; exact low)
    (by rw [lastIndex]; exact high)
  generalize point : (mergePoint log entries).1 = count at *
  have lineFits := batch.fits
  by_cases complete : entries.drop count = []
  · -- All of the batch is held already.
    have all : count = entries.length := by
      have := drop_eq_nil_iff.mp complete
      omega
    have held : line.take (prev + entries.length) <+: trail := by
      rw [← all,← shared]
      exact take_prefix _ _
    rw [overwrite_of_isPrefix held]
    rw [if_pos complete,complete,append_nil] at whole
    exact ⟨boundary,mirrors.fits,whole.trans mirrors.entries,mirrors.edge⟩
  · have some : count < entries.length := by
      have := mt drop_eq_nil_iff.mpr complete
      omega
    have missing : ¬ line.take (prev + entries.length) <+: trail := by
      intro held
      cases rest : entries.drop count with
      | nil => exact complete rest
      | cons entry =>
        rw [rest] at stop
        have first : entries[count]? = Option.some entry := by
          have := congrArg List.head? rest
          rwa [List.head?_drop] at this
        have index : entry.index = prev + count + 1 := by
          have := numbered count entry first
          omega
        have onLine := batch.getElem? some
        rw [first] at onLine
        have inHistory : trail[prev + count]? = Option.some entry := by
          obtain ⟨_,same⟩ := held
          rw [← same,List.getElem?_append_left (by rw [length_take]; omega),
            List.getElem?_take_of_lt (by omega),← onLine]
        cases conflict : (mergePoint log entries).2 with
        | true =>
          rw [conflict] at stop
          refine stop.2 ?_
          rw [index,mirrors.termAt (by omega)]
          unfold historyTerm
          rw [if_neg (by omega),Nat.add_sub_cancel,inHistory]
          rfl
        | false =>
          rw [conflict] at stop
          have := (List.getElem?_eq_some_iff.mp inHistory).1
          omega
    rw [overwrite_of_not_isPrefix missing]
    rw [if_neg complete,boundary,mirrors.entries,← drop_take,shared] at whole
    refine ⟨boundary,?_,?_,fun snapshot held => ?_⟩
    · rw [length_take]
      omega
    · have joined : line.take (prev + count) ++ entries.drop count =
          line.take (prev + entries.length) := by
        have split : prev + entries.length =
            prev + count + (entries.length - count) := by omega
        have rest : entries.drop count =
            (line.drop (prev + count)).take (entries.length - count) := by
          have taken := congrArg (List.drop count) batch.taken
          rw [drop_take,drop_drop] at taken
          exact taken
        rw [rest,split]
        exact take_add.symm
      rw [whole,← joined,drop_append_of_le_length]
      rw [length_take]
      omega
    · obtain ⟨pos,known⟩ := mirrors.edge snapshot held
      refine ⟨pos,?_⟩
      rw [historyTerm_take (by omega),
        ← historyTerm_take (show floor ≤ prev + count by omega),← shared,historyTerm_take (by omega)]
      exact known

end

end Merge

end Mirrors

end Astrs.Raft
