/-
Recordings: rotation into segment files, merging, and replay in timestamp order.

A row of a file's index stands with the entry that is read at its offset.  Headers and
entries are as long as the codec makes them, and the ages of files are arbitrary.
-/

import Mathlib.Data.Prod.Lex
import Mathlib.Data.String.Basic
import Astrs.Base.Stable
import Astrs.Time.Hlc

namespace Astrs.Recording

open List Astrs.Base Astrs.Time

/-- A recorded message; the metadata beside the timestamp is of any type. -/
structure Entry (μ : Type) where
  node : String
  output : String
  hlc : HlcTimestamp
  metadata : μ
  payload : List Nat

variable {μ : Type}

/-- What entries are sorted by before their position. -/
def Entry.key (entry : Entry μ) : Nat ×ₗ Nat ×ₗ String ×ₗ String :=
  toLex (entry.hlc.physicalNs.val,toLex (entry.hlc.logical.val,toLex (entry.node,entry.output)))

/-- A file: its size so far and the entries of its index, in the order of writing. -/
structure ArecFile (μ : Type) where
  size : Nat
  index : List (Entry μ)

def hlcOrder (index : List (Entry μ)) : List (Entry μ × Nat) :=
  index.zipIdx.insertionSort fun left right =>
    toLex (left.1.key,left.2) ≤ toLex (right.1.key,right.2)

def ArecFile.iterAll (file : ArecFile μ) : List (Entry μ) :=
  (hlcOrder file.index).map Prod.fst

structure RotationPolicy where
  maxBytes : Option Nat
  maxDuration : Option Nat

def RotationPolicy.never : RotationPolicy := ⟨none,none⟩

def RotationPolicy.isExceeded (policy : RotationPolicy) (size age : Nat) : Bool :=
  policy.maxBytes.any (fun max => decide (max < size)) ||
    policy.maxDuration.any fun max => decide (max < age)

structure WriterOptions (μ : Type) where
  headerLen : Nat
  frameLen : Entry μ → Nat
  rotation : RotationPolicy

def WriterOptions.withRotation (options : WriterOptions μ) (rotation : RotationPolicy) :
    WriterOptions μ :=
  { options with rotation := rotation }

structure Writer (μ : Type) where
  options : WriterOptions μ
  completed : List (ArecFile μ)
  current : ArecFile μ

namespace Writer

def create (options : WriterOptions μ) : Writer μ :=
  { options := options, completed := [], current := ⟨options.headerLen,[]⟩ }

/-- `age` is how long the current file has been open. -/
def append (writer : Writer μ) (age : Nat) (entry : Entry μ) : Writer μ :=
  let current : ArecFile μ :=
    { size := writer.current.size + writer.options.frameLen entry
      index := writer.current.index ++ [entry] }
  if writer.options.rotation.isExceeded current.size age then
    { writer with
      completed := writer.completed ++ [current]
      current := ⟨writer.options.headerLen,[]⟩ }
  else { writer with current := current }

def finish (writer : Writer μ) : List (ArecFile μ) := writer.completed ++ [writer.current]

/-- Appends entries one by one and counts them; `age` gives the age of the current file at each
append. -/
def appendAll (writer : Writer μ) (age : Nat → Nat) (entries : List (Entry μ)) : Nat × Writer μ :=
  entries.foldl (fun state entry => (state.1 + 1,state.2.append (age state.1) entry)) (0,writer)

end Writer

structure MergeKey (μ : Type) where
  source : Nat
  position : Nat
  entry : Entry μ

def mergeKeys (sources : List (ArecFile μ)) : List (MergeKey μ) :=
  sources.zipIdx.flatMap fun source =>
    source.1.index.zipIdx.map fun row => ⟨source.2,row.2,row.1⟩

def mergeOrder (keys : List (MergeKey μ)) : List (MergeKey μ) :=
  keys.insertionSort fun left right =>
    toLex (left.entry.key,toLex (left.source,left.position)) ≤
      toLex (right.entry.key,toLex (right.source,right.position))

def merge (sources : List (ArecFile μ)) (age : Nat → Nat) (target : Writer μ) : Nat × Writer μ :=
  target.appendAll age ((mergeOrder (mergeKeys sources)).map MergeKey.entry)

/-! ### One order for all tie-breaks -/

def sorted (entries : List (Entry μ)) : List (Entry μ) :=
  entries.insertionSort fun left right => left.key ≤ right.key

theorem map_sorted_ties {α τ : Type} [LinearOrder τ] (entry : α → Entry μ) (tie : α → τ)
    {slots : List α} (rising : slots.Pairwise fun slot later => tie slot < tie later) :
    (slots.insertionSort fun left right =>
        toLex ((entry left).key,tie left) ≤ toLex ((entry right).key,tie right)).map entry =
      sorted (slots.map entry) := by
  apply map_insertionSort_of_pairwise
  refine rising.imp fun before => ?_
  rw [Prod.Lex.toLex_le_toLex,and_iff_left before.le]
  exact le_iff_lt_or_eq.symm

theorem rising_zipIdx {α : Type} (values : List α) :
    values.zipIdx.Pairwise fun value later => value.2 < later.2 := by
  rw [← pairwise_map,zipIdx_map_snd]
  exact pairwise_lt_range' 1

theorem ArecFile.iterAll_eq (file : ArecFile μ) : file.iterAll = sorted file.index := by
  have replayed := map_sorted_ties Prod.fst Prod.snd (rising_zipIdx file.index)
  rwa [zipIdx_map_fst] at replayed

theorem map_entry_mergeKeys (sources : List (ArecFile μ)) :
    (mergeKeys sources).map MergeKey.entry = sources.flatMap ArecFile.index := by
  have rows (source : ArecFile μ × Nat) : (source.1.index.zipIdx.map fun row =>
      (⟨source.2,row.2,row.1⟩ : MergeKey μ)).map MergeKey.entry = source.1.index := by
    rw [map_map]
    exact zipIdx_map_fst 0 _
  unfold mergeKeys
  simp only [map_flatMap,rows]
  rw [← flatMap_map Prod.fst,zipIdx_map_fst]

theorem rising_mergeKeys (sources : List (ArecFile μ)) :
    (mergeKeys sources).Pairwise fun key later =>
      toLex (key.source,key.position) < toLex (later.source,later.position) := by
  refine pairwise_flatMap.mpr ⟨?_,?_⟩
  · intro source _
    refine pairwise_map.mpr ((rising_zipIdx _).imp fun before => ?_)
    exact Prod.Lex.toLex_lt_toLex.mpr (.inr ⟨rfl,before⟩)
  · refine (rising_zipIdx sources).imp fun before key mem later memLater => ?_
    obtain ⟨row,_,rfl⟩ := mem_map.mp mem
    obtain ⟨rowLater,_,rfl⟩ := mem_map.mp memLater
    exact Prod.Lex.toLex_lt_toLex.mpr (.inl before)

/-! ### What is written -/

theorem Writer.flatMap_finish (writer : Writer μ) (age : Nat → Nat) (entries : List (Entry μ)) :
    (writer.appendAll age entries).2.finish.flatMap ArecFile.index =
      writer.finish.flatMap ArecFile.index ++ entries := by
  unfold appendAll
  generalize 0 = written
  induction entries generalizing writer written with
  | nil => exact (append_nil _).symm
  | cons entry entries ih =>
    have step : (writer.append (age written) entry).finish.flatMap ArecFile.index =
        writer.finish.flatMap ArecFile.index ++ [entry] := by
      unfold append finish
      dsimp only
      split
      · simp
      · simp
    rw [foldl_cons,ih,step,append_assoc,singleton_append]

theorem Writer.completed_appendAll {writer : Writer μ} (never : writer.options.rotation = .never)
    (age : Nat → Nat) (entries : List (Entry μ)) :
    (writer.appendAll age entries).2.completed = writer.completed := by
  unfold appendAll
  generalize 0 = written
  induction entries generalizing writer written with
  | nil => rfl
  | cons entry entries ih =>
    have step : writer.append (age written) entry =
        { writer with current := (writer.append (age written) entry).current } := by
      unfold append
      rw [never]
      rfl
    rw [foldl_cons,step]
    refine (ih ?_ _).trans rfl
    exact never

/-- A writer that never rotates leaves one file. -/
theorem finish_never (options : WriterOptions μ) (age : Nat → Nat) (entries : List (Entry μ)) :
    ∃ file : ArecFile μ, file.index = entries ∧
      ((Writer.create (options.withRotation .never)).appendAll age entries).2.finish = [file] := by
  have alone := (Writer.create (options.withRotation .never)).completed_appendAll rfl age entries
  have all := (Writer.create (options.withRotation .never)).flatMap_finish age entries
  rw [Writer.finish,alone] at all ⊢
  exact ⟨_,by simpa [Writer.create,Writer.finish] using all,rfl⟩

/-- The files of a merge into a new writer that does not rotate. -/
def mergeFiles (target : WriterOptions μ) (age : Nat → Nat) (sources : List (ArecFile μ)) :
    List (ArecFile μ) :=
  (merge sources age (.create (target.withRotation .never))).2.finish

theorem mergeFiles_sorted (target : WriterOptions μ) (age : Nat → Nat)
    (sources : List (ArecFile μ)) : ∃ file : ArecFile μ,
      file.index = sorted (sources.flatMap ArecFile.index) ∧
        mergeFiles target age sources = [file] := by
  have joined := map_sorted_ties MergeKey.entry (fun key => toLex (key.source,key.position))
    (rising_mergeKeys sources)
  rw [map_entry_mergeKeys] at joined
  rw [← joined]
  exact finish_never target age _

theorem sorted_append_sorted (front back : List (Entry μ)) :
    sorted (sorted front ++ back) = sorted (front ++ back) :=
  insertionSort_append_insertionSort _ front back

/-- Replaying the merged segments of any rotation is replaying the one file that holds the
same entries, and merging in two steps writes what merging at once writes. -/
theorem replay_unchanged (options target : WriterOptions μ) (entries : List (Entry μ))
    (first second third : Nat → Nat) (left middle right : ArecFile μ) :
    (∃ whole merged,
      ((Writer.create (options.withRotation .never)).appendAll first entries).2.finish = [whole] ∧
      mergeFiles target third ((Writer.create options).appendAll second entries).2.finish =
        [merged] ∧
      whole.index = entries ∧ merged.iterAll = whole.iterAll) ∧
    ∃ pair nested joint, mergeFiles target first [left,middle] = [pair] ∧
      mergeFiles target second [pair,right] = [nested] ∧
      mergeFiles target third [left,middle,right] = [joint] ∧ nested.index = joint.index := by
  constructor
  · obtain ⟨whole,recorded,alone⟩ := finish_never options first entries
    obtain ⟨merged,written,single⟩ :=
      mergeFiles_sorted target third ((Writer.create options).appendAll second entries).2.finish
    refine ⟨whole,merged,alone,single,recorded,?_⟩
    rw [merged.iterAll_eq,whole.iterAll_eq,written,Writer.flatMap_finish,recorded]
    have again := sorted_append_sorted entries []
    rwa [append_nil,append_nil] at again
  · obtain ⟨pair,both,paired⟩ := mergeFiles_sorted target first [left,middle]
    obtain ⟨nested,twice,inside⟩ := mergeFiles_sorted target second [pair,right]
    obtain ⟨joint,once,joined⟩ := mergeFiles_sorted target third [left,middle,right]
    refine ⟨pair,nested,joint,paired,inside,joined,?_⟩
    have steps := sorted_append_sorted (left.index ++ middle.index) right.index
    simpa [twice,both,once] using steps

end Astrs.Recording
