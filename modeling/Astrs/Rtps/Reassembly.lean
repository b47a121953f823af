/-
Reassembly.

What one `DATA_FRAG` does to the sample it belongs to and to the others, and what a
whole sequence of them leaves of the octets already received.
-/

import Astrs.Base.Overlay
import Astrs.Rtps.Fragment

namespace Astrs.Rtps

open Astrs.Base Astrs.Cdr Reassembler

namespace FragmentPlan

/-- A plan whose sizes were accepted. -/
structure Valid (plan : FragmentPlan) : Prop where
  positive : 0 < plan.fragmentSize
  total : plan.totalFragments = (plan.sampleSize + plan.fragmentSize - 1) / plan.fragmentSize

variable {plan : FragmentPlan}

theorem fromDeclared_valid {sampleSize fragmentSize : Nat} {writer : Guid} {seq : Int}
    (planned : fromDeclared sampleSize fragmentSize writer seq = .ok plan) :
    plan.Valid := by
  unfold fromDeclared at planned
  split at planned
  · cases planned
  · split at planned
    · cases planned
    · rename_i positive
      dsimp only at planned
      split at planned
      · cases planned
      · cases planned
        exact ⟨Nat.pos_of_ne_zero positive,rfl⟩

theorem Valid.unique {left right : FragmentPlan} (leftValid : left.Valid) (rightValid : right.Valid)
    (samples : left.sampleSize = right.sampleSize)
    (fragments : left.fragmentSize = right.fragmentSize) : left = right := by
  have totals : left.totalFragments = right.totalFragments := by
    rw [leftValid.total,rightValid.total,samples,fragments]
  cases left
  cases right
  cases samples
  cases fragments
  cases totals
  rfl

theorem Valid.start_lt (valid : plan.Valid) {seq : Nat}
    (first : 1 ≤ seq) (last : seq ≤ plan.totalFragments) :
    (seq - 1) * plan.fragmentSize < plan.sampleSize := by
  have positive := valid.positive
  rw [valid.total,Nat.le_div_iff_mul_le positive] at last
  have whole : seq * plan.fragmentSize =
      (seq - 1) * plan.fragmentSize + plan.fragmentSize := by
    rw [← Nat.succ_mul]
    congr 1
    omega
  omega

theorem Valid.windowOf_eq (valid : plan.Valid) {start count first last : Nat}
    (window : plan.windowOf start count = .ok (first,last)) :
    (1 ≤ start ∧ start ≤ plan.totalFragments ∧ 1 ≤ count) ∧
      first = (start - 1) * plan.fragmentSize ∧
      last = min (first + count * plan.fragmentSize) plan.sampleSize ∧ first < plan.sampleSize := by
  unfold windowOf at window
  dsimp only at window
  split at window
  · cases window
  · rename_i inside
    split at window
    · cases window
    · cases window
      have starts : 1 ≤ start ∧ start ≤ plan.totalFragments ∧ 1 ≤ count := by omega
      exact ⟨starts,rfl,rfl,valid.start_lt starts.1 starts.2.1⟩

end FragmentPlan

variable {assembly : Assembly} {seq : Nat}

namespace Assembly

def octetsOf (assembly : Assembly) (number : Nat) : Bytes :=
  segment assembly.buffer ((number - 1) * assembly.plan.fragmentSize) assembly.plan.fragmentSize

structure Valid (assembly : Assembly) : Prop where
  plan : assembly.plan.Valid
  buffer : assembly.buffer.length = assembly.plan.sampleSize

theorem new_valid {plan : FragmentPlan} (valid : plan.Valid) : (new plan).Valid where
  plan := valid
  buffer := List.length_replicate

theorem copyInto_eq (assembly : Assembly) (first : Nat) (source : Bytes) :
    assembly.copyInto first source = { assembly with
      buffer := overlay assembly.buffer first source } :=
  rfl

theorem mark_frame (assembly : Assembly) (seq : Nat) :
    (assembly.mark seq).plan = assembly.plan ∧
      (assembly.mark seq).buffer = assembly.buffer := by
  unfold mark
  split
  · exact ⟨rfl,rfl⟩
  · split <;> exact ⟨rfl,rfl⟩

theorem markAll_frame (assembly : Assembly) (numbers : List Nat) :
    (assembly.markAll numbers).plan = assembly.plan ∧
      (assembly.markAll numbers).buffer = assembly.buffer := by
  induction numbers generalizing assembly with
  | nil => exact ⟨rfl,rfl⟩
  | cons seq rest ih =>
    obtain ⟨plan,buffer⟩ := ih (assembly.mark seq)
    obtain ⟨planOnce,bufferOnce⟩ := assembly.mark_frame seq
    exact ⟨plan.trans planOnce,buffer.trans bufferOnce⟩

/-- A mark is never taken back. -/
theorem has_mark (held : assembly.has seq = true) (other : Nat) :
    (assembly.mark other).has seq = true := by
  unfold has at held
  split at held
  · cases held
  · rename_i counted
    unfold mark
    split
    · unfold has
      rw [if_neg counted]
      exact held
    · split
      · unfold has
        rw [if_neg counted]
        rw [List.getD_eq_getElem?_getD] at held ⊢
        by_cases same : other - 1 = seq - 1
        · rename_i bit
          rw [← same,bit] at held
          cases held
        · rw [List.getElem?_set_ne same]
          exact held
      · unfold has
        rw [if_neg counted]
        exact held

theorem has_markAll (held : assembly.has seq = true) (others : List Nat) :
    (assembly.markAll others).has seq = true := by
  induction others generalizing assembly with
  | nil => exact held
  | cons other rest ih => exact ih (has_mark held other)

theorem has_counted (held : assembly.has seq = true) :
    1 ≤ seq ∧ seq ≤ assembly.plan.totalFragments := by
  unfold has at held
  split at held
  · cases held
  · omega

theorem Valid.octetsOf_copyInto (valid : assembly.Valid) {start count first last : Nat}
    {source : Bytes} (window : assembly.plan.windowOf start count = .ok (first,last))
    (length : source.length = last - first) (counted : 1 ≤ seq)
    (within : seq ≤ assembly.plan.totalFragments) :
    (assembly.copyInto first source).octetsOf seq =
      if start ≤ seq ∧ seq < start + count then
        segment source ((seq - start) * assembly.plan.fragmentSize) assembly.plan.fragmentSize
      else assembly.octetsOf seq := by
  obtain ⟨⟨_,_,_⟩,firstEq,_⟩ := valid.plan.windowOf_eq window
  have begins := valid.plan.start_lt counted within
  have buffer := valid.buffer
  rw [copyInto_eq]
  unfold octetsOf
  dsimp only
  split
  · rename_i covered
    obtain ⟨steps,rfl⟩ := Nat.exists_eq_add_of_le covered.1
    have fewer : steps + 1 ≤ count := by omega
    have reach := Nat.mul_le_mul_right assembly.plan.fragmentSize fewer
    rw [Nat.succ_mul] at reach
    have offset : (start + steps - 1) * assembly.plan.fragmentSize =
        first + steps * assembly.plan.fragmentSize := by
      rw [firstEq,← Nat.add_mul]
      congr 1
      omega
    rw [offset] at begins ⊢
    rw [Nat.add_sub_cancel_left]
    apply segment_overlay_inside
    · omega
    · omega
    · omega
  · rename_i apart
    by_cases before : seq < start
    · have reach := Nat.mul_le_mul_right assembly.plan.fragmentSize (show seq ≤ start - 1 by omega)
      have whole : seq * assembly.plan.fragmentSize =
          (seq - 1) * assembly.plan.fragmentSize + assembly.plan.fragmentSize := by
        rw [← Nat.succ_mul]
        congr 1
        omega
      apply segment_overlay_before
      · omega
      · omega
    · have reach := Nat.mul_le_mul_right assembly.plan.fragmentSize
        (show start - 1 + count ≤ seq - 1 by omega)
      rw [Nat.add_mul] at reach
      apply segment_overlay_after
      · omega
      · omega

end Assembly

/-! ### One fragment -/

def DataFrag.numbers (fragment : DataFrag) : List Nat :=
  (List.range fragment.fragmentsInSubmessage).map (fragment.fragmentStartingNum + ·)

variable {fragment : DataFrag} {first last : Nat}

theorem DataFrag.mem_numbers : seq ∈ fragment.numbers ↔ fragment.fragmentStartingNum ≤ seq ∧
      seq < fragment.fragmentStartingNum + fragment.fragmentsInSubmessage := by
  unfold DataFrag.numbers
  rw [List.mem_map]
  constructor
  · rintro ⟨_,within,_⟩
    have below := List.mem_range.mp within
    omega
  · rintro ⟨_,_⟩
    exact ⟨seq - fragment.fragmentStartingNum,List.mem_range.mpr (by omega),by omega⟩

/-- The assembly with the octets of a run of fragments in place and their marks set. -/
def Assembly.absorb (assembly : Assembly) (fragment : DataFrag) (first last : Nat) : Assembly :=
  (assembly.copyInto first (fragment.payload.take (last - first))).markAll fragment.numbers

theorem Assembly.Valid.absorb (valid : assembly.Valid)
    (window : assembly.plan.windowOf fragment.fragmentStartingNum
      fragment.fragmentsInSubmessage = .ok (first,last))
    (enough : last - first ≤ fragment.payload.length) :
    (assembly.absorb fragment first last).Valid := by
  obtain ⟨_,_⟩ := valid.plan.windowOf_eq window
  obtain ⟨plan,buffer⟩ :=
    (assembly.copyInto first (fragment.payload.take (last - first))).markAll_frame fragment.numbers
  refine ⟨?_,?_⟩
  · unfold Assembly.absorb
    rw [plan]
    exact valid.plan
  · unfold Assembly.absorb
    rw [buffer,plan,copyInto_eq]
    have buffered := valid.buffer
    rw [length_overlay (by rw [List.length_take]; omega)]
    exact buffered

variable {table : Reassembler}

namespace Reassembler

@[simp] theorem assembly_store (table : Reassembler) (writer other : Guid)
    (seq otherNumber : Int) (assembly : Assembly) :
    (table.store writer seq assembly).assembly other otherNumber =
      if writer = other ∧ seq = otherNumber then some assembly
      else table.assembly other otherNumber := by
  unfold store Reassembler.assembly
  rw [OrderedMap.get_insert]
  congr 1
  rw [toLex_inj,Prod.mk.injEq]

@[simp] theorem assembly_discard (table : Reassembler) (writer other : Guid)
    (seq otherNumber : Int) :
    (table.discard writer seq).assembly other otherNumber =
      if writer = other ∧ seq = otherNumber then none
      else table.assembly other otherNumber := by
  unfold discard Reassembler.assembly
  rw [OrderedMap.get_remove]
  congr 1
  rw [toLex_inj,Prod.mk.injEq]

variable {writer : Guid}

section

variable (held : table.assembly writer fragment.writerSn = some assembly)
  (valid : assembly.Valid)
include held valid

/-- A fragment of a sample in flight is refused and changes nothing, or is absorbed;
octets that contradict a run received as a whole are refused. -/
theorem fill_cases :
    (∃ fault, table.fill writer fragment assembly.plan = (.error fault,table)) ∨
      ∃ first last,
        assembly.plan.windowOf fragment.fragmentStartingNum fragment.fragmentsInSubmessage =
          .ok (first,last) ∧
        last - first ≤ fragment.payload.length ∧
        (fragment.numbers.all assembly.has = true →
          segment assembly.buffer first (last - first) = fragment.payload.take (last - first)) ∧
        table.fill writer fragment assembly.plan =
          if (assembly.absorb fragment first last).isComplete then
            (.ok (some (assembly.absorb fragment first last).buffer),
              table.discard writer fragment.writerSn)
          else
            (.ok none,
              table.store writer fragment.writerSn (assembly.absorb fragment first last)) := by
  unfold fill
  dsimp only
  cases window : assembly.plan.windowOf fragment.fragmentStartingNum
      fragment.fragmentsInSubmessage with
  | error fault => exact .inl ⟨_,rfl⟩
  | ok bounds =>
    obtain ⟨first,last⟩ := bounds
    obtain ⟨_,_⟩ := valid.plan.windowOf_eq window
    have fits : last ≤ assembly.buffer.length := by
      rw [valid.buffer]
      omega
    dsimp only
    split
    · exact .inl ⟨_,rfl⟩
    · rename_i enough
      rw [held]
      dsimp only
      split
      · exact .inl ⟨_,rfl⟩
      · rename_i agrees
        refine .inr ⟨first,last,rfl,by omega,?_,?_⟩
        · intro all
          by_contra differs
          refine agrees ⟨fits,all,?_⟩
          rw [List.drop_take]
          exact differs
        · rfl

end

/-- Making room drops assemblies and changes none. -/
theorem assembly_evictIfNeeded (table : Reassembler) (writer other : Guid) (seq : Int) :
    (table.evictIfNeeded writer).assembly other seq = table.assembly other seq ∨
      (table.evictIfNeeded writer).assembly other seq = none := by
  unfold evictIfNeeded
  dsimp only
  split
  · exact .inl rfl
  · split
    · exact .inl rfl
    · rw [assembly_discard]
      split
      · exact .inr rfl
      · exact .inl rfl

def Valid (reassembler : Reassembler) : Prop :=
  ∀ writer number assembly, reassembler.assembly writer number = some assembly → assembly.Valid

theorem new_allValid : new.Valid := by
  exact nofun

section

variable (valid : table.Valid)
include valid

theorem Valid.store (fresh : assembly.Valid) (writer : Guid) (seq : Int) :
    (table.store writer seq assembly).Valid := by
  intro other otherNumber held found
  rw [assembly_store] at found
  split at found
  · cases found
    exact fresh
  · exact valid other otherNumber held found

theorem Valid.discard (writer : Guid) (seq : Int) : (table.discard writer seq).Valid := by
  intro other otherNumber held found
  rw [assembly_discard] at found
  split at found
  · cases found
  · exact valid other otherNumber held found

theorem Valid.evictIfNeeded (writer : Guid) : (table.evictIfNeeded writer).Valid := by
  intro other seq held found
  rcases table.assembly_evictIfNeeded writer other seq with same | none
  · rw [same] at found
    exact valid other seq held found
  · rw [none] at found
    cases found

theorem Valid.filled (held : table.assembly writer fragment.writerSn = some assembly) :
    (∃ fault, table.fill writer fragment assembly.plan = (.error fault,table)) ∨
      (∃ payload, table.fill writer fragment assembly.plan =
        (.ok (some payload),table.discard writer fragment.writerSn)) ∨
      ∃ next : Assembly, next.Valid ∧ table.fill writer fragment assembly.plan =
        (.ok none,table.store writer fragment.writerSn next) := by
  have assemblyValid := valid writer fragment.writerSn assembly held
  rcases fill_cases held assemblyValid with
    refused | ⟨first,last,window,enough,_,filled⟩
  · exact .inl refused
  · rw [filled]
    split
    · exact .inr (.inl ⟨_,rfl⟩)
    · exact .inr (.inr ⟨_,assemblyValid.absorb window enough,rfl⟩)

/-- A fragment is refused for its sizes, or filled into the assembly of its sample.  A sample
not in flight starts one, for which the oldest one of the writer may have to go. -/
theorem Valid.accept_eq (writer : Guid) (fragment : DataFrag) :
    (∃ fault, table.accept writer fragment = (.error fault,table)) ∨
      ∃ start assembly, start.Valid ∧ start.assembly writer fragment.writerSn = some assembly ∧
        table.accept writer fragment = start.fill writer fragment assembly.plan ∧
        (table.assembly writer fragment.writerSn ≠ none → start = table) ∧
        ∀ other seq, ¬ (writer = other ∧ fragment.writerSn = seq) →
          start.assembly other seq = table.assembly other seq ∨ start.assembly other seq = none := by
  unfold accept
  dsimp only
  cases planned : FragmentPlan.fromDeclared fragment.sampleSize fragment.fragmentSize writer
      fragment.writerSn with
  | error fault => exact .inl ⟨_,rfl⟩
  | ok plan =>
    have planValid := FragmentPlan.fromDeclared_valid planned
    cases held : table.assembly writer fragment.writerSn with
    | some existing =>
      dsimp only
      split
      · exact .inl ⟨_,rfl⟩
      · rename_i samples
        split
        · exact .inl ⟨_,rfl⟩
        · rename_i sizes
          refine .inr ⟨table,existing,valid,held,?_,fun _ => rfl,fun _ _ _ => .inl rfl⟩
          rw [(valid _ _ _ held).plan.unique planValid (not_not.mp samples) (not_not.mp sizes)]
    | none =>
      refine .inr ⟨_,Assembly.new plan,(valid.evictIfNeeded writer).store
        (Assembly.new_valid planValid) writer fragment.writerSn,?_,rfl,fun absent => absurd rfl absent,
        fun other seq apart => ?_⟩
      · rw [assembly_store,if_pos ⟨rfl,rfl⟩]
      · rw [assembly_store,if_neg apart]
        exact table.assembly_evictIfNeeded writer other seq

/-- A fragment is refused, completes its sample or is kept, and another assembly may have to
go for it. -/
theorem Valid.accept_cases (writer : Guid) (fragment : DataFrag) :
    ∃ start : Reassembler, start.Valid ∧
      (∀ other seq, ¬ (writer = other ∧ fragment.writerSn = seq) →
        start.assembly other seq = table.assembly other seq ∨ start.assembly other seq = none) ∧
      ((∃ fault, table.accept writer fragment = (.error fault,start)) ∨
        (∃ payload, table.accept writer fragment =
          (.ok (some payload),start.discard writer fragment.writerSn)) ∨
        ∃ next : Assembly, next.Valid ∧ table.accept writer fragment =
          (.ok none,start.store writer fragment.writerSn next)) := by
  rcases valid.accept_eq writer fragment with refused | ⟨start,_,started,held,filled,_,others⟩
  · exact ⟨table,valid,fun _ _ _ => .inl rfl,.inl refused⟩
  · refine ⟨start,started,others,?_⟩
    rw [filled]
    exact started.filled held

theorem Valid.accept (writer : Guid) (fragment : DataFrag) :
    (table.accept writer fragment).2.Valid := by
  obtain ⟨_,started,_,⟨_,done⟩ | ⟨_,done⟩ | ⟨_,next,done⟩⟩ := valid.accept_cases writer fragment
  · rw [done]
    exact started
  · rw [done]
    exact started.discard writer fragment.writerSn
  · rw [done]
    exact started.store next writer fragment.writerSn

/-- A fragment of another sample leaves an assembly alone or drops it. -/
theorem accept_other {other : Guid} {seq : Int}
    (apart : ¬ (writer = other ∧ fragment.writerSn = seq)) :
    (table.accept writer fragment).2.assembly other seq =
        table.assembly other seq ∨
      (table.accept writer fragment).2.assembly other seq = none := by
  obtain ⟨_,_,others,⟨_,done⟩ | ⟨_,done⟩ | ⟨_,_,done⟩⟩ := valid.accept_cases writer fragment
  · rw [done]
    exact others other seq apart
  · rw [done,assembly_discard,if_neg apart]
    exact others other seq apart
  · rw [done,assembly_store,if_neg apart]
    exact others other seq apart

/-- A sample that is handed out is no longer in flight. -/
theorem Valid.accept_whole {payload : Bytes}
    (handed : (table.accept writer fragment).1 = .ok (some payload)) :
    (table.accept writer fragment).2.assembly writer fragment.writerSn = none := by
  obtain ⟨_,_,_,⟨_,done⟩ | ⟨_,done⟩ | ⟨_,_,done⟩⟩ := valid.accept_cases writer fragment
  · rw [done] at handed
    cases handed
  · rw [done,assembly_discard,if_pos ⟨rfl,rfl⟩]
  · rw [done] at handed
    cases handed

end

end Reassembler

/-! ### Sequences of fragments -/

def Assembly.repeatedBy (assembly : Assembly) (fragment : DataFrag) (number : Nat) : Bool :=
  segment fragment.payload ((number - fragment.fragmentStartingNum) * assembly.plan.fragmentSize)
      (assembly.octetsOf number).length == assembly.octetsOf number

/-- All the fragments carried have been received, or the octets of those that have
are repeated. -/
def Assembly.accords (assembly : Assembly) (fragment : DataFrag) : Bool :=
  fragment.numbers.all assembly.has || fragment.numbers.all fun number =>
      !assembly.has number || assembly.repeatedBy fragment number

theorem Assembly.Valid.octetsOf_absorb (valid : assembly.Valid)
    (window : assembly.plan.windowOf fragment.fragmentStartingNum
      fragment.fragmentsInSubmessage = .ok (first,last))
    (enough : last - first ≤ fragment.payload.length)
    (whole : fragment.numbers.all assembly.has = true →
      segment assembly.buffer first (last - first) = fragment.payload.take (last - first))
    (accords : assembly.accords fragment = true) (held : assembly.has seq = true) :
    (assembly.absorb fragment first last).octetsOf seq = assembly.octetsOf seq := by
  obtain ⟨counted,within⟩ := Assembly.has_counted held
  obtain ⟨⟨_,_,_⟩,firstEq,_⟩ := valid.plan.windowOf_eq window
  obtain ⟨plan,buffer⟩ :=
    (assembly.copyInto first (fragment.payload.take (last - first))).markAll_frame fragment.numbers
  have copied := valid.octetsOf_copyInto window
    (show (fragment.payload.take (last - first)).length = last - first by
      rw [List.length_take]
      omega) counted within
  have same : (assembly.absorb fragment first last).octetsOf seq =
      (assembly.copyInto first (fragment.payload.take (last - first))).octetsOf seq := by
    unfold Assembly.absorb Assembly.octetsOf
    rw [plan,buffer]
  rw [same,copied]
  split
  · rename_i covered
    obtain ⟨steps,rfl⟩ := Nat.exists_eq_add_of_le covered.1
    have reach := Nat.mul_le_mul_right assembly.plan.fragmentSize (show steps + 1 ≤
      fragment.fragmentsInSubmessage by omega)
    rw [Nat.succ_mul] at reach
    have offset : (fragment.fragmentStartingNum + steps - 1) * assembly.plan.fragmentSize =
        first + steps * assembly.plan.fragmentSize := by
      rw [firstEq,← Nat.add_mul]
      congr 1
      omega
    have buffered := valid.buffer
    have member : fragment.fragmentStartingNum + steps ∈ fragment.numbers :=
      DataFrag.mem_numbers.mpr ⟨covered.1,covered.2⟩
    rw [Nat.add_sub_cancel_left]
    rcases Bool.or_eq_true_iff.mp accords with all | agrees
    · rw [← whole all,segment_segment]
      unfold Assembly.octetsOf
      rw [offset]
      apply segment_congr
      omega
    · have repeated := List.all_eq_true.mp agrees _ member
      rw [held,Bool.not_true,Bool.false_or] at repeated
      have equal := eq_of_beq repeated
      have length : (assembly.octetsOf (fragment.fragmentStartingNum + steps)).length =
          min assembly.plan.fragmentSize (last - first - steps * assembly.plan.fragmentSize) := by
        unfold Assembly.octetsOf
        rw [length_segment,offset]
        omega
      rw [Nat.add_sub_cancel_left,length] at equal
      rw [segment_take]
      exact equal
  · rfl

namespace Reassembler

def feed (reassembler : Reassembler) (steps : List (Guid × DataFrag)) : Reassembler :=
  steps.foldl (fun held step => (held.accept step.1 step.2).2) reassembler

/-- The sample stays in flight: it is neither completed nor dropped. -/
def staysInFlight (writer : Guid) (number : Int) : List (Guid × DataFrag) → Reassembler → Bool
  | [],_ => true
  | step :: rest,reassembler =>
    let next := (reassembler.accept step.1 step.2).2
    (next.assembly writer number).isSome && staysInFlight writer number rest next

def accordant (writer : Guid) (number : Int) : List (Guid × DataFrag) → Reassembler → Bool
  | [],_ => true
  | step :: rest,reassembler =>
    (decide (¬ (step.1 = writer ∧ step.2.writerSn = number)) ||
      (reassembler.assembly writer number).all fun assembly => assembly.accords step.2) &&
        accordant writer number rest (reassembler.accept step.1 step.2).2

theorem Valid.feed (valid : table.Valid)
    (steps : List (Guid × DataFrag)) : (table.feed steps).Valid := by
  induction steps generalizing table with
  | nil => exact valid
  | cons step rest ih => exact ih (valid.accept step.1 step.2)

theorem Valid.accept_keeps (valid : table.Valid)
    {writer other : Guid} {seq : Int} {before after : Assembly}
    (held : table.assembly writer seq = some before)
    (kept : (table.accept other fragment).2.assembly writer seq = some after)
    (accords : other = writer → fragment.writerSn = seq → before.accords fragment = true)
    {piece : Nat} (marked : before.has piece = true) :
    after.has piece = true ∧ after.octetsOf piece = before.octetsOf piece := by
  by_cases own : other = writer ∧ fragment.writerSn = seq
  · obtain ⟨rfl,rfl⟩ := own
    have beforeValid := valid _ _ _ held
    rcases valid.accept_eq other fragment with
      ⟨_,refused⟩ | ⟨_,_,_,found,filled,same,_⟩
    · rw [refused,held] at kept
      cases kept
      exact ⟨marked,rfl⟩
    · cases same (by rw [held]; nofun)
      cases found.symm.trans held
      rw [filled] at kept
      rcases fill_cases held beforeValid with
        ⟨fault,refused⟩ | ⟨first,last,window,enough,whole,absorbed⟩
      · rw [refused,held] at kept
        cases kept
        exact ⟨marked,rfl⟩
      · rw [absorbed] at kept
        split at kept
        · rw [assembly_discard,if_pos ⟨rfl,rfl⟩] at kept
          cases kept
        · rw [assembly_store,if_pos ⟨rfl,rfl⟩] at kept
          cases kept
          refine ⟨?_,beforeValid.octetsOf_absorb window enough whole (accords rfl rfl) marked⟩
          have copied : (before.copyInto first
              (fragment.payload.take (last - first))).has piece = true := marked
          exact Assembly.has_markAll copied fragment.numbers
  · rcases accept_other valid own with same | none
    · rw [same,held] at kept
      cases kept
      exact ⟨marked,rfl⟩
    · rw [none] at kept
      cases kept

end Reassembler

/-- From any state that fragments have led to, the octets of a fragment marked received
stay as they are while the sample is in flight and the fragments that arrive accord with
what has been received of it. -/
theorem received_octets_kept (earlier later : List (Guid × DataFrag)) (writer : Guid)
    (number : Int) (before : Assembly) (piece : Nat)
    (held : (Reassembler.new.feed earlier).assembly writer number = some before)
    (marked : before.has piece = true)
    (inFlight : Reassembler.staysInFlight writer number later (Reassembler.new.feed earlier) = true)
    (accordant : Reassembler.accordant writer number later (Reassembler.new.feed earlier) = true) :
    ∃ after, ((Reassembler.new.feed earlier).feed later).assembly writer number = some after ∧
      after.has piece = true ∧ after.octetsOf piece = before.octetsOf piece := by
  have valid := new_allValid.feed earlier
  generalize new.feed earlier = reassembler at *
  induction later generalizing reassembler before with
  | nil => exact ⟨before,held,marked,rfl⟩
  | cons step rest ih =>
    obtain ⟨here,later⟩ := Bool.and_eq_true_iff.mp inFlight
    obtain ⟨accords,accordantLater⟩ := Bool.and_eq_true_iff.mp accordant
    obtain ⟨next,kept⟩ := Option.isSome_iff_exists.mp here
    have repeated : step.1 = writer → step.2.writerSn = number → before.accords step.2 = true := by
      intro same sameNumber
      rw [held] at accords
      rcases Bool.or_eq_true_iff.mp accords with apart | all
      · exact absurd ⟨same,sameNumber⟩ (of_decide_eq_true apart)
      · exact all
    obtain ⟨markedNext,octets⟩ := valid.accept_keeps held kept repeated marked
    obtain ⟨after,found,markedAfter,same⟩ :=
      ih next markedNext _ kept later accordantLater (valid.accept step.1 step.2)
    exact ⟨after,found,markedAfter,same.trans octets⟩

def octetFragment (start : Nat) (payload : Bytes) : Guid × DataFrag := (⟨1,2⟩,
    { readerId := 0
      writerId := 2
      writerSn := 1
      fragmentStartingNum := start
      fragmentsInSubmessage := payload.length
      fragmentSize := 1
      sampleSize := 3
      payload := payload })

theorem received_octets_kept_repeat : ∃ after, ((Reassembler.new.feed [octetFragment 1 [7]]).feed
        [octetFragment 1 [7,8]]).assembly ⟨1,2⟩ 1 = some after ∧
      after.has 1 = true ∧ after.octetsOf 1 = [7] := by
  have held : (new.feed [octetFragment 1 [7]]).assembly ⟨1,2⟩ 1 =
      some ((Assembly.new ⟨3,1,3⟩).absorb (octetFragment 1 [7]).2 0 1) := by decide
  exact received_octets_kept [octetFragment 1 [7]] [octetFragment 1 [7,8]] ⟨1,2⟩ 1 _ 1 held
    (by decide) (by decide) (by decide)

/-- A forged run of two fragments replaces the octet of the first one, which had been
received, because the second had not. -/
theorem received_octets_rewritten :
    ((Reassembler.new.feed [octetFragment 1 [7]]).assembly ⟨1,2⟩ 1).map
        (fun assembly => (assembly.has 1,assembly.octetsOf 1)) = some (true,[7]) ∧
      ((Reassembler.new.feed [octetFragment 1 [7],octetFragment 1 [9,9]]).assembly ⟨1,2⟩ 1).map
        (fun assembly => (assembly.has 1,assembly.octetsOf 1)) = some (true,[9]) := by
  decide

/-! ### Rejected fragments -/

/-- The declared sizes are ones a sample can be reassembled with. -/
def DataFrag.Plannable (fragment : DataFrag) : Prop :=
  fragment.sampleSize ≤ maxReassemblySample ∧ fragment.fragmentSize ≠ 0 ∧
    (fragment.sampleSize + fragment.fragmentSize - 1) / fragment.fragmentSize ≤ maxFragments

theorem fromDeclared_plannable (fragment : DataFrag) (writer : Guid) (seq : Int) :
    (∃ plan, FragmentPlan.fromDeclared fragment.sampleSize fragment.fragmentSize writer seq =
      .ok plan) ↔ fragment.Plannable := by
  unfold FragmentPlan.fromDeclared DataFrag.Plannable
  dsimp only
  split
  · exact iff_of_false nofun (by omega)
  · split
    · exact iff_of_false nofun (by omega)
    · split
      · exact iff_of_false nofun (by omega)
      · exact iff_of_true ⟨_,rfl⟩ (by omega)

theorem Reassembler.fill_error {writer : Guid} {plan : FragmentPlan} {fault : BehaviorError}
    (rejected : (table.fill writer fragment plan).1 = .error fault) :
    (table.fill writer fragment plan).2 = table := by
  suffices done : (∃ filled, (table.fill writer fragment plan).1 = .ok filled) ∨
      (table.fill writer fragment plan).2 = table by
    refine done.resolve_left ?_
    rintro ⟨_,filled⟩
    rw [rejected] at filled
    cases filled
  unfold fill
  dsimp only
  split
  · exact .inr rfl
  · split
    · exact .inr rfl
    · split
      · exact .inr rfl
      · split
        · exact .inr rfl
        · generalize Assembly.markAll _ _ = marked
          left
          split
          · exact ⟨_,rfl⟩
          · exact ⟨_,rfl⟩

/-- A rejected fragment changes nothing exactly when its sample was in flight already or
its sizes are refused. -/
theorem rejected_fragment_inert_iff (reassembler : Reassembler) (writer : Guid)
    (fragment : DataFrag) (failure : BehaviorError)
    (rejected : (reassembler.accept writer fragment).1 = .error failure) :
    (reassembler.accept writer fragment).2 = reassembler ↔
      (reassembler.assembly writer fragment.writerSn).isSome = true ∨ ¬ fragment.Plannable := by
  have plannable := fromDeclared_plannable fragment writer fragment.writerSn
  unfold accept at rejected ⊢
  dsimp only at rejected ⊢
  cases planned : FragmentPlan.fromDeclared fragment.sampleSize fragment.fragmentSize writer
      fragment.writerSn with
  | error =>
    rw [planned] at plannable
    exact iff_of_true rfl (.inr fun fits => nomatch plannable.mpr fits)
  | ok plan =>
    rw [planned] at rejected plannable
    cases held : reassembler.assembly writer fragment.writerSn with
    | some existing =>
      rw [held] at rejected
      refine iff_of_true ?_ (.inl rfl)
      dsimp only at rejected ⊢
      by_cases resized : existing.plan.sampleSize ≠ plan.sampleSize
      · rw [if_pos resized]
      · rw [if_neg resized] at rejected ⊢
        by_cases recut : existing.plan.fragmentSize ≠ plan.fragmentSize
        · rw [if_pos recut]
        · rw [if_neg recut] at rejected ⊢
          exact fill_error rejected
    | none =>
      rw [held] at rejected
      refine iff_of_false ?_ (not_or.mpr ⟨nofun,not_not.mpr (plannable.mp ⟨plan,rfl⟩)⟩)
      intro same
      have stored := (fill_error rejected).symm.trans same
      rw [← stored,assembly_store,if_pos ⟨rfl,rfl⟩] at held
      cases held

theorem contradicted_fragment_inert :
    ((Reassembler.new.feed [octetFragment 1 [7]]).accept ⟨1,2⟩ (octetFragment 1 [9]).2).2 =
      Reassembler.new.feed [octetFragment 1 [7]] :=
  (rejected_fragment_inert_iff _ _ _ (.reassembly ⟨1,2⟩ 1 (.contradiction 1)) (by decide)).mpr
    (.inl (by decide))

/-- The first fragment of a second sample arrives short: it is rejected, and where one
sample at a time is held the one in flight is lost to it. -/
theorem short_fragment_evicts :
    let before := { new with perWriterLimit := 1 }.feed [octetFragment 1 [7]]
    let short := { (octetFragment 1 []).2 with writerSn := 2, fragmentsInSubmessage := 1 }
    (before.accept ⟨1,2⟩ short).1 = .error (.wire (.truncated 1 0 "DATA_FRAG serializedPayload")) ∧
      before.inFlight ⟨1,2⟩ = [1] ∧ (before.accept ⟨1,2⟩ short).2.inFlight ⟨1,2⟩ = [2] := by
  decide

end Astrs.Rtps
