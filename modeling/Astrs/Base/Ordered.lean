/-
Ordered sets and maps as strictly increasing lists.

The list order is the iteration order, so a fold over a set or a map visits the
keys as an ordered tree does.  The order proof travels with the list: two sets
with the same elements are the same list.
-/

import Mathlib.Data.Finset.Card

namespace Astrs.Base

open List

/-- A set kept as its strictly increasing list of elements. -/
structure OrderedSet (κ : Type) [LinearOrder κ] where
  elems : List κ
  sorted : elems.Pairwise (· < ·)

namespace OrderedSet

variable {κ : Type} [LinearOrder κ]

instance : DecidableEq (OrderedSet κ) := fun left right =>
  decidable_of_iff (left.elems = right.elems) (by
    constructor
    · intro same
      cases left
      cases right
      cases same
      rfl
    · intro same
      rw [same])

def empty : OrderedSet κ := ⟨[],.nil⟩

def contains (set : OrderedSet κ) (key : κ) : Bool := set.elems.contains key

variable (set : OrderedSet κ)

def len : Nat := set.elems.length

def isEmpty (set : OrderedSet κ) : Bool := set.elems.isEmpty

def insertList (key : κ) : List κ → List κ
  | [] => [key]
  | head :: tail =>
    if key < head then key :: head :: tail
    else if head < key then head :: insertList key tail
    else head :: tail

theorem mem_insertList (key item : κ) (items : List κ) :
    item ∈ insertList key items ↔ item = key ∨ item ∈ items := by
  induction items with
  | nil => simp [insertList]
  | cons head tail ih =>
    unfold insertList
    split
    · simp
    · split
      · simp only [mem_cons,ih]
        tauto
      · rename_i notBefore notAfter
        have same : key = head := le_antisymm (not_lt.mp notAfter) (not_lt.mp notBefore)
        simp [same]

theorem insertList_sorted (key : κ) (items : List κ) (sorted : items.Pairwise (· < ·)) :
    (insertList key items).Pairwise (· < ·) := by
  induction items with
  | nil => simp [insertList]
  | cons head tail ih =>
    obtain ⟨beforeTail,tailSorted⟩ := pairwise_cons.mp sorted
    unfold insertList
    split
    · rename_i before
      refine pairwise_cons.mpr ⟨?_,sorted⟩
      exact forall_mem_cons.mpr ⟨before,fun item later => before.trans (beforeTail item later)⟩
    · split
      · rename_i after
        refine pairwise_cons.mpr ⟨?_,ih tailSorted⟩
        intro item mem
        rcases (mem_insertList key item tail).mp mem with same | later
        · rw [same]
          exact after
        · exact beforeTail item later
      · exact sorted

def insert (key : κ) : OrderedSet κ :=
  ⟨insertList key set.elems,insertList_sorted key set.elems set.sorted⟩

def remove (key : κ) : OrderedSet κ :=
  ⟨set.elems.filter (fun item => decide (item ≠ key)),set.sorted.filter _⟩

def retain (test : κ → Bool) : OrderedSet κ := ⟨set.elems.filter test,set.sorted.filter _⟩

def ofList (items : List κ) : OrderedSet κ := items.foldl insert empty

@[simp] theorem elems_empty : (empty : OrderedSet κ).elems = [] := rfl

variable {key item : κ} {items : List κ}

@[simp] theorem mem_insert {set : OrderedSet κ} :
    item ∈ (set.insert key).elems ↔ item = key ∨ item ∈ set.elems :=
  mem_insertList key item set.elems

@[simp] theorem mem_remove {set : OrderedSet κ} :
    item ∈ (set.remove key).elems ↔ item ∈ set.elems ∧ item ≠ key := by
  simp [remove]

@[simp] theorem mem_retain {set : OrderedSet κ} {test : κ → Bool} :
    item ∈ (set.retain test).elems ↔ item ∈ set.elems ∧ test item = true := by
  simp [retain]

theorem length_insertList_le (key : κ) (items : List κ) :
    (insertList key items).length ≤ items.length + 1 := by
  induction items with
  | nil => simp [insertList]
  | cons =>
    unfold insertList
    split
    · simp
    · split
      · simp only [length_cons]
        omega
      · simp

theorem len_insert_le (key : κ) : (set.insert key).len ≤ set.len + 1 :=
  length_insertList_le key set.elems

theorem insertList_past (past : ∀ item ∈ items, item < key) :
    insertList key items = items ++ [key] := by
  induction items with
  | nil => rfl
  | cons head tail ih =>
    have below := past head mem_cons_self
    unfold insertList
    rw [if_neg (not_lt_of_gt below),if_pos below,
      ih fun item mem => past item (mem_cons_of_mem _ mem)]
    rfl

theorem foldl_insert_ascending (ascending : (set.elems ++ items).Pairwise (· < ·)) :
    (items.foldl insert set).elems = set.elems ++ items := by
  induction items generalizing set with
  | nil => simp
  | cons key rest ih =>
    have past : ∀ item ∈ set.elems, item < key := fun item mem =>
      (pairwise_append.mp ascending).2.2 item mem key mem_cons_self
    have placed : (set.insert key).elems = set.elems ++ [key] := insertList_past past
    have longer : ((set.insert key).elems ++ rest).Pairwise (· < ·) := by
      rw [placed,append_assoc]
      exact ascending
    rw [foldl_cons,ih (set.insert key) longer,placed,append_assoc]
    rfl

theorem ofList_elems : ofList set.elems = set := by
  have rebuilt := @foldl_insert_ascending κ _ empty set.elems set.sorted
  cases set with
  | mk elems =>
    unfold ofList
    cases same : List.foldl insert empty elems with
    | mk =>
      rw [same] at rebuilt
      subst rebuilt
      rfl

def toFinset (set : OrderedSet κ) : Finset κ := set.elems.toFinset

theorem nodup : set.elems.Nodup := set.sorted.imp (fun before => ne_of_lt before)

@[simp] theorem mem_toFinset (key : κ) : key ∈ set.toFinset ↔ key ∈ set.elems := by
  simp [toFinset]

theorem card_toFinset : set.toFinset.card = set.len := by
  exact List.toFinset_card_of_nodup set.nodup

theorem contains_iff (key : κ) : set.contains key = true ↔ key ∈ set.elems := by
  simp [contains]

theorem toFinset_insert (key : κ) : (set.insert key).toFinset = Insert.insert key set.toFinset := by
  ext item
  simp [insert,mem_insertList]

theorem toFinset_remove (key : κ) : (set.remove key).toFinset = set.toFinset.erase key := by
  ext item
  simp only [remove,mem_toFinset,mem_filter,decide_eq_true_eq,Finset.mem_erase]
  tauto

theorem len_remove (mem : key ∈ set.elems) : (set.remove key).len + 1 = set.len := by
  rw [← card_toFinset,← card_toFinset,toFinset_remove]
  exact Finset.card_erase_add_one ((mem_toFinset _ key).mpr mem)

end OrderedSet

/-- A map kept as its list of bindings, strictly increasing in the key. -/
structure OrderedMap (κ α : Type) [LinearOrder κ] where
  entries : List (κ × α)
  sorted : (entries.map Prod.fst).Pairwise (· < ·)

namespace OrderedMap

variable {κ α : Type} [LinearOrder κ]

def empty : OrderedMap κ α := ⟨[],.nil⟩

instance [DecidableEq α] : DecidableEq (OrderedMap κ α) := fun left right =>
  decidable_of_iff (left.entries = right.entries) (by
    constructor
    · intro same
      cases left
      cases right
      cases same
      rfl
    · intro same
      rw [same])

variable (map : OrderedMap κ α)

def len : Nat := map.entries.length

def values : List α := map.entries.map Prod.snd

def lookup (key : κ) : List (κ × α) → Option α
  | [] => none
  | (head,value) :: tail => if head = key then some value else lookup key tail

def get (key : κ) : Option α := lookup key map.entries

def insertList (key : κ) (value : α) : List (κ × α) → List (κ × α)
  | [] => [(key,value)]
  | (head,held) :: tail =>
    if key < head then (key,value) :: (head,held) :: tail
    else if head < key then (head,held) :: insertList key value tail
    else (key,value) :: tail

theorem keys_insertList (key : κ) (value : α) (items : List (κ × α)) :
    (insertList key value items).map Prod.fst = OrderedSet.insertList key (items.map Prod.fst) := by
  induction items with
  | nil => rfl
  | cons pair tail ih =>
    obtain ⟨head,_⟩ := pair
    unfold insertList
    rw [map_cons,OrderedSet.insertList]
    split
    · rfl
    · split
      · rw [map_cons,ih]
      · rename_i notBefore notAfter
        have same : key = head := le_antisymm (not_lt.mp notAfter) (not_lt.mp notBefore)
        rw [map_cons,same]

theorem insertList_sorted (key : κ) (value : α) (items : List (κ × α))
    (sorted : (items.map Prod.fst).Pairwise (· < ·)) :
    ((insertList key value items).map Prod.fst).Pairwise (· < ·) := by
  rw [keys_insertList]
  exact OrderedSet.insertList_sorted key _ sorted

def insert (key : κ) (value : α) : OrderedMap κ α :=
  ⟨insertList key value map.entries,insertList_sorted key value map.entries map.sorted⟩

theorem lookup_insertList (key other : κ) (value : α) (items : List (κ × α)) :
    lookup other (insertList key value items) =
      if key = other then some value else lookup other items := by
  induction items with
  | nil => simp [insertList,lookup]
  | cons pair tail ih =>
    obtain ⟨head,_⟩ := pair
    unfold insertList
    split
    · simp [lookup]
    · split
      · rename_i after
        have apart : head ≠ key := ne_of_lt after
        simp only [lookup,ih]
        by_cases atHead : head = other
        · have missed : key ≠ other := fun same => apart (atHead.trans same.symm)
          simp [atHead,missed]
        · simp [atHead]
      · rename_i notBefore notAfter
        have same : key = head := le_antisymm (not_lt.mp notAfter) (not_lt.mp notBefore)
        subst same
        by_cases atKey : key = other <;> simp [lookup,atKey]

@[simp] theorem get_insert (key other : κ) (value : α) :
    (map.insert key value).get other = if key = other then some value else map.get other :=
  lookup_insertList key other value map.entries

theorem insert_some {key other : κ} {value held : α}
    (found : (map.insert key value).get other = some held) :
    (key = other ∧ value = held) ∨ key ≠ other ∧ map.get other = some held := by
  rw [get_insert] at found
  split at found
  · rename_i same
    exact .inl ⟨same,Option.some.inj found⟩
  · rename_i apart
    exact .inr ⟨apart,found⟩

@[simp] theorem get_empty (key : κ) : (empty : OrderedMap κ α).get key = none := rfl

def remove (key : κ) : OrderedMap κ α where
  entries := map.entries.filter (fun binding => decide (binding.1 ≠ key))
  sorted := map.sorted.sublist (List.Sublist.map Prod.fst filter_sublist)

@[simp] theorem get_remove (key other : κ) :
    (map.remove key).get other = if key = other then none else map.get other := by
  change lookup other (map.entries.filter _) = _
  unfold get
  induction map.entries with
  | nil => simp [lookup]
  | cons pair rest ih =>
    by_cases removed : pair.1 = key
    · rw [filter_cons_of_neg (by simpa using removed),ih,lookup]
      by_cases same : key = other
      · simp [same]
      · have differs : pair.1 ≠ other := fun equal => same (removed.symm.trans equal)
        simp [same,differs]
    · rw [filter_cons_of_pos (by simpa using removed),lookup,lookup,ih]
      by_cases same : pair.1 = other
      · have differs : key ≠ other := fun equal => removed (same.trans equal.symm)
        simp [same,differs]
      · simp [same]

/-- Rewrites the binding of one key in place, when there is one. -/
def adjust (key : κ) (change : α → α) : OrderedMap κ α :=
  match map.get key with
  | some value => map.insert key (change value)
  | none => map

theorem get_adjust (key other : κ) (change : α → α) : (map.adjust key change).get other =
      if key = other then (map.get key).map change else map.get other := by
  unfold adjust
  cases found : map.get key with
  | none =>
    by_cases same : key = other
    · subst same
      simp [found]
    · simp [same]
  | some => simp

/-- A loop whose every step overwrites what is read at one key. -/
theorem foldl_reads {σ : Type*} (read : σ → κ → Option α) (value : κ → α) {step : σ → κ → σ}
    (steps : ∀ state key other, read (step state key) other =
      if key = other then some (value key) else read state other)
    (keys : List κ) (start : σ) (key : κ) :
    read (keys.foldl step start) key = if key ∈ keys then some (value key) else read start key := by
  induction keys generalizing start with
  | nil => simp
  | cons head tail ih =>
    rw [foldl_cons,ih,steps]
    by_cases later : key ∈ tail
    · simp [later]
    · by_cases atHead : head = key
      · simp [atHead]
      · simp [later,atHead,Ne.symm atHead]

theorem get_foldl_insert (keys : List κ) (value : κ → α) (map : OrderedMap κ α) (key : κ) :
    (keys.foldl (fun built item => built.insert item (value item)) map).get key =
      if key ∈ keys then some (value key) else map.get key :=
  foldl_reads get value (fun map key other => map.get_insert key other _) keys map key

theorem lookup_eq_some_iff (key : κ) (value : α) (items : List (κ × α))
    (sorted : (items.map Prod.fst).Pairwise (· < ·)) :
    lookup key items = some value ↔ (key,value) ∈ items := by
  induction items with
  | nil => simp [lookup]
  | cons pair tail ih =>
    obtain ⟨head,_⟩ := pair
    obtain ⟨beforeTail,tailSorted⟩ := pairwise_cons.mp sorted
    by_cases atHead : head = key
    · subst atHead
      have absent : (head,value) ∉ tail := fun mem =>
        lt_irrefl head (beforeTail head (mem_map_of_mem mem))
      simp [lookup,absent,eq_comm]
    · have elsewhere : ¬ key = head := fun same => atHead same.symm
      simp [lookup,atHead,elsewhere,ih tailSorted]

variable {map} in
theorem get_eq_some_iff {key : κ} {value : α} :
    map.get key = some value ↔ (key,value) ∈ map.entries :=
  lookup_eq_some_iff key value map.entries map.sorted

/-- Maps that answer alike are the same list of bindings. -/
theorem ext_get {left right : OrderedMap κ α} (same : ∀ key, left.get key = right.get key) :
    left = right := by
  have members : ∀ pair, pair ∈ left.entries ↔ pair ∈ right.entries := by
    rintro ⟨_,_⟩
    rw [← get_eq_some_iff,← get_eq_some_iff,same]
  have distinct : ∀ map : OrderedMap κ α, map.entries.Nodup := fun map =>
    List.Nodup.of_map Prod.fst (map.sorted.imp ne_of_lt)
  have sorted : ∀ map : OrderedMap κ α, map.entries.Pairwise fun first second =>
      first.1 < second.1 := fun map => pairwise_map.mp map.sorted
  have shuffled : left.entries.Perm right.entries :=
    (perm_ext_iff_of_nodup (distinct left) (distinct right)).mpr members
  have equal : left.entries = right.entries :=
    shuffled.eq_of_pairwise (fun first second _ _ less more => absurd less (lt_asymm more))
      (sorted left) (sorted right)
  cases left
  cases right
  cases equal
  rfl

def ofList (bindings : List (κ × α)) : OrderedMap κ α :=
  bindings.foldl (fun map binding => map.insert binding.1 binding.2) empty

variable {bindings : List (κ × α)} {β : Type}

theorem get_foldl_bindings (distinct : (bindings.map Prod.fst).Nodup)
    (map : OrderedMap κ α) (key : κ) (value : α) :
    (bindings.foldl (fun built pair => built.insert pair.1 pair.2) map).get key =
      some value ↔ (key,value) ∈ bindings ∨ (key ∉ bindings.map Prod.fst ∧
        map.get key = some value) := by
  induction bindings generalizing map with
  | nil => simp
  | cons pair bindings ih =>
    obtain ⟨head,_⟩ := pair
    rw [map_cons,nodup_cons] at distinct
    rw [foldl_cons,ih distinct.2,get_insert]
    by_cases atHead : head = key
    · subst atHead
      have absent : (head,value) ∉ bindings := fun mem =>
        distinct.1 (mem_map.mpr ⟨(head,value),mem,rfl⟩)
      have notLater : head ∉ bindings.map Prod.fst := distinct.1
      simp only [mem_cons,Prod.mk.injEq,true_and,absent,or_false,false_or,map_cons,
        notLater,not_false_eq_true,if_true,Option.some.injEq,not_true_eq_false,
        false_and]
      exact eq_comm
    · have elsewhere : ¬ key = head := fun same => atHead same.symm
      simp [atHead,elsewhere]

theorem get_ofList (distinct : (bindings.map Prod.fst).Nodup) (key : κ)
    (value : α) : (ofList bindings).get key = some value ↔ (key,value) ∈ bindings := by
  unfold ofList
  rw [get_foldl_bindings distinct]
  simp

def mapWithKey {β : Type} (change : κ → α → β) : OrderedMap κ β where
  entries := map.entries.map fun binding => (binding.1,change binding.1 binding.2)
  sorted := by
    rw [map_map]
    exact map.sorted

@[simp] theorem get_mapWithKey (change : κ → α → β) (key : κ) :
    (map.mapWithKey change).get key = (map.get key).map (change key) := by
  obtain ⟨entries,sorted⟩ := map
  unfold get mapWithKey
  dsimp only
  clear sorted
  induction entries with
  | nil => rfl
  | cons pair tail ih =>
    rw [map_cons]
    unfold lookup
    split
    · rename_i same
      rw [same,Option.map_some]
    · exact ih

def withValues {β : Type} (values : List β) : OrderedMap κ β where
  entries := List.zipWith (fun binding value => (binding.1,value)) map.entries values
  sorted := by
    refine map.sorted.sublist ?_
    rw [map_zipWith]
    induction map.entries generalizing values with
    | nil => exact nil_sublist _
    | cons binding tail ih =>
      cases values with
      | nil => exact nil_sublist _
      | cons value values => exact (ih values).cons_cons binding.1

theorem keys_withValues (values : List β) (long : values.length = map.values.length) :
    (map.withValues values).entries.map Prod.fst = map.entries.map Prod.fst := by
  unfold withValues OrderedMap.values at *
  rw [map_zipWith]
  generalize map.entries = entries at long
  induction entries generalizing values with
  | nil => rfl
  | cons pair tail ih =>
    cases values with
    | nil => cases long
    | cons value values =>
      rw [List.zipWith_cons_cons,ih values (Nat.succ.inj long),map_cons]

theorem values_withValues (values : List β) (long : values.length = map.values.length) :
    (map.withValues values).values = values := by
  unfold withValues OrderedMap.values at *
  rw [length_map] at long
  rw [map_zipWith]
  generalize map.entries = entries at long
  induction entries generalizing values with
  | nil =>
    rw [length_nil,length_eq_zero_iff] at long
    rw [long]
    rfl
  | cons pair tail ih =>
    cases values with
    | nil => cases long
    | cons value values =>
      rw [List.zipWith_cons_cons,ih values (Nat.succ.inj long)]

theorem get_withValues {related : α → β → Prop} {map : OrderedMap κ α} {values : List β}
    (pairs : List.Forall₂ related map.values values) (key : κ) :
    Option.Rel related (map.get key) ((map.withValues values).get key) := by
  unfold get withValues
  unfold OrderedMap.values at pairs
  dsimp only
  generalize map.entries = entries at pairs
  induction entries generalizing values with
  | nil =>
    cases pairs
    exact .none
  | cons pair tail ih =>
    cases pairs with
    | cons first rest =>
      rw [List.zipWith_cons_cons]
      unfold lookup
      split
      · exact .some first
      · exact ih rest

theorem exists_keys_of_values [DecidableEq κ] (test : α → Bool) :
    ∃ keys : Finset κ, keys.card = (map.values.filter test).length ∧
      ∀ key ∈ keys, ∃ value, map.get key = some value ∧ test value = true := by
  refine ⟨((map.entries.filter (fun pair => test pair.2)).map Prod.fst).toFinset,?_,?_⟩
  · have distinct : ((map.entries.filter (fun pair => test pair.2)).map Prod.fst).Nodup := by
      have pairs : map.entries.Pairwise (fun left right => left.1 < right.1) :=
        pairwise_map.mp map.sorted
      exact pairwise_map.mpr ((pairs.filter _).imp (fun before => ne_of_lt before))
    rw [List.toFinset_card_of_nodup distinct,length_map,values,filter_map,length_map]
    rfl
  · intro _ mem
    obtain ⟨⟨found,value⟩,inside,same⟩ := mem_map.mp (List.mem_toFinset.mp mem)
    obtain ⟨held,passes⟩ := mem_filter.mp inside
    subst same
    exact ⟨value,get_eq_some_iff.mpr held,passes⟩

end OrderedMap

end Astrs.Base
