/-
The configuration in force.

A replica's configuration is always the one its log says.  A snapshot stores the one in
force when it is taken, which is the one as of its last index only when no configuration
entry above that index waits to be applied.
-/

import Astrs.Raft.Runs

namespace Astrs.Raft

open Astrs.Base List Raft.Membership RaftNode MemoryLog

variable {M : Type}

def MemoryLog.InForce (bootstrap : Membership) (log : MemoryLog) (upTo : Nat)
    (membership : Membership) : Prop :=
  (∃ entry ∈ log.entries, entry.index ≤ upTo ∧ entry.config = some membership ∧
      ∀ later ∈ log.entries, later.index ≤ upTo → later.config ≠ none → later.index ≤ entry.index) ∨
    (∀ entry ∈ log.entries, entry.index ≤ upTo → entry.config = none) ∧
      membership = log.baseMembership bootstrap

instance (bootstrap : Membership) (log : MemoryLog) (upTo : Nat) (membership : Membership) :
    Decidable (log.InForce bootstrap upTo membership) :=
  inferInstanceAs (Decidable (_ ∨ _))

theorem exists_newest (batch : List LogEntry) : (∀ entry ∈ batch, entry.config = none) ∨
      ∃ front entry back voters, batch = front ++ entry :: back ∧
        entry.config = some voters ∧ ∀ item ∈ back, item.config = none := by
  induction batch with
  | nil => exact .inl nofun
  | cons first rest ih =>
    rcases ih with none | ⟨front,entry,back,voters,rfl,changes,unchanging⟩
    · cases config : first.config with
      | none => exact .inl (forall_mem_cons.mpr ⟨config,none⟩)
      | some voters => exact .inr ⟨[],first,rest,voters,rfl,config,none⟩
    · exact .inr ⟨first :: front,entry,back,voters,rfl,changes,unchanging⟩

variable {log : MemoryLog} {batch : List LogEntry}

theorem MemoryLog.Contiguous.inForce (dense : log.Contiguous) (boot : Membership)
    {upTo : Nat} (settled : ∀ entry ∈ log.entries, upTo < entry.index → entry.config = none) :
    log.InForce boot upTo
      (fromEntries (log.baseMembership boot) log.entries) := by
  rcases exists_newest log.entries with
    unchanging | ⟨front,entry,back,voters,split,changes,unchanging⟩
  · refine .inr ⟨fun item mem _ => unchanging item mem,?_⟩
    exact fromEntries_of_none unchanging
  · have newest : fromEntries (log.baseMembership boot) log.entries =
        voters := by
      rw [split]
      exact fromEntries_newest changes unchanging
    rw [newest]
    have mem : entry ∈ log.entries := by
      rw [split]
      exact mem_append_right _ mem_cons_self
    refine .inl ⟨entry,mem,?_,changes,fun later inside _ changed => ?_⟩
    · by_contra above
      rw [settled entry mem (Nat.lt_of_not_le above)] at changes
      cases changes
    · have numbered : Numbered log.boundary (front ++ entry :: back) := by
        rw [← split]
        exact dense
      obtain ⟨before,after⟩ := Numbered.append_iff.mp numbered
      have own := (Numbered.cons_iff.mp after).1
      rw [split] at inside
      rcases mem_append.mp inside with older | rest
      · have bounds := before.mem_bounds older
        omega
      · rcases mem_cons.mp rest with rfl | newer
        · exact Nat.le_refl _
        · exact absurd (unchanging later newer) changed

theorem MemoryLog.mem_merged {entry : LogEntry}
    (mem : entry ∈ (log.merged batch).entries) : entry ∈ log.entries ∨ entry ∈ batch := by
  unfold merged at mem
  rcases mem_append.mp mem with kept | appended
  · split at kept
    · exact .inl (mem_of_mem_take kept)
    · exact .inl kept
  · exact .inr (mem_of_mem_drop appended)

theorem MemoryLog.Contiguous.merged_lastIndex_le (dense : log.Contiguous)
    {prev : Nat} (numbered : Numbered prev batch)
    (low : log.boundary ≤ prev) (high : prev ≤ log.lastIndex) :
    (log.merged batch).lastIndex ≤ max log.lastIndex (prev + batch.length) := by
  obtain ⟨_,_⟩ := dense.mergePoint_spec numbered low high
  have lastIndex := dense.lastIndex_eq
  rw [(dense.merged numbered low high).lastIndex_eq,merged_boundary,
    dense.merged_eq numbered low high,length_append,length_drop]
  split
  · rename_i empty
    have none := congrArg List.length empty
    rw [length_drop,length_nil] at none
    omega
  · rw [length_take]
    omega

def Action.brings : Action → List LogEntry
  | .deliver _ envelope =>
    match envelope.message with
    | .appendEntries _ _ _ entries _ => entries
    | _ => []
  | _ => []

def Action.reaches (log : MemoryLog) : Action → Nat
  | .deliver _ envelope =>
    match envelope.message with
    | .appendEntries _ prevLogIndex _ entries _ =>
      max (log.lastIndex + 1) (prevLogIndex + entries.length)
    | _ => log.lastIndex + 1
  | _ => log.lastIndex + 1

theorem Action.lt_reaches (log : MemoryLog) (action : Action) :
    log.lastIndex < action.reaches log := by
  cases action with
  | tick | propose | proposeMembership | takeSnapshot | restart => exact Nat.lt_succ_self _
  | deliver =>
    unfold Action.reaches
    simp only
    split
    · exact Nat.lt_of_lt_of_le (Nat.lt_succ_self _) (Nat.le_max_left _ _)
    · exact Nat.lt_succ_self _

/-- The action may take a snapshot: it asks for one, or automatic compaction may
fall due in it. -/
def RaftNode.mayCompact (node : RaftNode M) : Action → Bool
  | .takeSnapshot _ => true
  | action =>
    decide (node.config.snapshotThreshold ≠ 0) &&
      decide (node.config.snapshotThreshold ≤ action.reaches node.log - node.log.firstIndex)

def RaftNode.unchanging (node : RaftNode M) (action : Action) : Bool := action.keepsMembers &&
    (node.log.entries ++ action.brings).all fun entry =>
      !entry.isConfig || decide (entry.index ≤ node.lastApplied)

/-- Snapshots are taken only while no configuration change is under way. -/
def Cluster.capturesCleanly (cluster : Cluster M) (action : Action) : Bool :=
  match cluster.nodes.get action.peer with
  | some node => !node.mayCompact action || node.unchanging action
  | none => true

/-! ### One operation -/

section Operation

variable {boot : Membership} {action : Action} {start : RaftNode M}

/-- No configuration entry waits to be applied, or no snapshot can fall due, and the
snapshots taken so far store the configuration as of their last index. -/
structure RaftNode.Settles (bootstrap : Membership) (action : Action) (start node : RaftNode M) :
    Prop where
  plain : start.unchanging action = true →
    ∀ entry ∈ node.log.entries, node.lastApplied < entry.index → entry.config = none
  short : start.mayCompact action = false → node.config.snapshotThreshold ≠ 0 →
    node.log.lastIndex - node.log.firstIndex < node.config.snapshotThreshold
  taken : ∀ capture ∈ node.taken, capture.log.InForce bootstrap
    capture.snapshot.info.lastIndex capture.snapshot.info.membership

theorem RaftNode.brought_plain {entry : LogEntry} (unchanging : start.unchanging action = true)
    (mem : entry ∈ start.log.entries ∨ entry ∈ action.brings)
    (above : start.lastApplied < entry.index) : entry.config = none := by
  have passes := all_eq_true.mp (Bool.and_eq_true_iff.mp unchanging).2 entry (mem_append.mpr mem)
  rw [Bool.or_eq_true,decide_eq_true_eq,Bool.not_eq_true'] at passes
  exact Option.not_isSome_iff_eq_none.mp (by
    rw [Bool.not_eq_true]
    exact passes.resolve_right (Nat.not_le_of_lt above))

theorem RaftNode.of_early (early : start.mayCompact action = false) :
    (∀ peer, action ≠ .takeSnapshot peer) ∧ (start.config.snapshotThreshold ≠ 0 →
      action.reaches start.log - start.log.firstIndex < start.config.snapshotThreshold) := by
  cases action with
  | takeSnapshot => cases early
  | tick | propose | proposeMembership | deliver | restart =>
    refine ⟨nofun,fun enabled => ?_⟩
    rw [mayCompact,decide_eq_true enabled,Bool.true_and] at early
    · exact Nat.lt_of_not_le (of_decide_eq_false early)
    · exact nofun

variable [StateMachine M] {before after : Moment M}

theorem NodeStep.settles (moved : NodeStep action start before after)
    (received : Received action start) (kept : start.Kept before.node)
    (base : start.config.initialMembership = boot)
    (clean : start.mayCompact action = false ∨ start.unchanging action = true)
    (settles : start.Settles boot action before.node) : start.Settles boot action after.node := by
  obtain ⟨plain,short,taken⟩ := settles
  have config := kept.config
  have later := (moved.kept received kept).sound.contiguous.lastIndex_eq
  cases moved with
  | quiet | clock | resign | preStand | tally | win | speak | pace | credit | advance
  | hand | drive | spoil => exact ⟨plain,short,taken⟩
  | adopt | stand | grant =>
    rw [saveHardState_eq]
    exact ⟨plain,short,taken⟩
  | append node merged payload leads intact proposed =>
    obtain ⟨_,same,_⟩ := appended_eq node payload
    rw [same] at later ⊢
    refine ⟨fun unchanging entry mem above => ?_,fun early enabled => ?_,taken⟩
    · rcases mem_append.mp mem with old | new
      · exact plain unchanging entry old above
      · cases mem_singleton.mp new
        cases payload with
        | command | noop => rfl
        | config voters =>
          obtain ⟨_,peer,change,asked,_⟩ := proposed voters rfl
          subst asked
          cases (Bool.and_eq_true_iff.mp unchanging).1
    · have below := (of_early early).2 (by rw [← config]; exact enabled)
      have reached := action.lt_reaches start.log
      have length := kept.sound.contiguous.lastIndex_eq
      rw [← config] at below
      simp only [firstIndex_eq] at below ⊢
      rw [later,length_append,length_singleton]
      change node.log.boundary + (node.log.entries.length + 1) - (node.log.boundary + 1) <
        node.config.snapshotThreshold
      change node.log.lastIndex = node.log.boundary + node.log.entries.length at length
      have sameLast : node.log.lastIndex = start.log.lastIndex := by rw [intact.log]; rfl
      have sameBoundary : node.log.boundary = start.log.boundary := by rw [intact.log]; rfl
      change action.reaches start.log - (start.log.boundary + 1) < node.config.snapshotThreshold
        at below
      omega
  | apply =>
    exact ⟨fun unchanging entry mem above => plain unchanging entry mem (Nat.lt_of_succ_lt above),
      short,taken⟩
  | capture node merged lastTerm data log positive found read asked saved =>
    have dense := kept.sound.contiguous
    have late : ¬ start.mayCompact action = false := by
      intro early
      rcases asked with ⟨enabled,due⟩ | ⟨peer,asked⟩
      · have bounds := dense.termAt_bounds positive found
        have := short early enabled
        change node.log.lastIndex - node.log.firstIndex < node.config.snapshotThreshold at this
        change node.log.boundary ≤ node.lastApplied ∧ node.lastApplied ≤ node.log.lastIndex at bounds
        omega
      · exact absurd asked ((of_early early).1 peer)
    refine ⟨fun unchanging entry mem above => ?_,fun early => absurd early late,fun capture mem => ?_⟩
    · rw [saveSnapshot_eq dense saved] at mem
      exact plain unchanging entry (mem_of_mem_drop mem) above
    · rcases mem_append.mp mem with old | new
      · exact taken capture old
      · cases mem_singleton.mp new
        have inForce := dense.inForce boot (plain (clean.resolve_left late))
        rw [← base,← kept.config,← kept.sound.member] at inForce
        rw [← base,← kept.config]
        exact inForce
  | accept node peer note prev prevLogTerm batch leaderCommit voters pending
      delivered message role intact low high =>
      refine ⟨fun unchanging entry mem above => ?_,fun early enabled => ?_,taken⟩
      · change node.lastApplied < entry.index at above
        rw [intact.applied] at above
        refine brought_plain unchanging ?_ above
        rcases mem_merged mem with old | new
        · rw [intact.log] at old
          exact .inl old
        · subst delivered
          refine .inr ?_
          simp only [Action.brings,message]
          exact new
      · have numbered : Numbered prev batch := by
          have mail := (received peer note delivered).1.wellFormed
          rw [message] at mail
          exact mail
        have below := (of_early early).2 (by rw [← config]; exact enabled)
        have reached : max node.log.lastIndex (prev + batch.length) ≤
            action.reaches start.log := by
          have sameLast : node.log.lastIndex = start.log.lastIndex := by rw [intact.log]; rfl
          subst delivered
          simp only [Action.reaches,message]
          omega
        have last : (node.log.merged batch).lastIndex ≤
            max node.log.lastIndex (prev + batch.length) :=
          kept.sound.contiguous.merged_lastIndex_le numbered low high
        have sameFirst : node.log.firstIndex = start.log.firstIndex := by rw [intact.log]; rfl
        rw [← config,← sameFirst] at below
        change (node.log.merged batch).lastIndex - node.log.firstIndex <
          node.config.snapshotThreshold
        change action.reaches start.log - node.log.firstIndex < node.config.snapshotThreshold at below
        omega
  | install node merged peer note snapshot =>
    refine ⟨fun _ => nofun,fun _ enabled => ?_,taken⟩
    rw [firstIndex_eq,later]
    change snapshot.info.lastIndex + 0 - (snapshot.info.lastIndex + 1) < _
    have positive := Nat.pos_of_ne_zero enabled
    omega

end Operation

section Runs

variable {boot : OrderedSet PeerId} {cluster after first last : Cluster M} {action : Action}
  {peer : PeerId}

/-- The configuration of a replica is the one as of the end of its log. -/
theorem Cluster.Sound.inForce (sound : cluster.Sound boot) {node : RaftNode M}
    (found : cluster.nodes.get peer = some node) :
    node.log.InForce ⟨boot⟩ node.log.lastIndex node.membership := by
  have settled := sound.nodes peer node found
  have dense := settled.sound.contiguous
  rw [settled.sound.member,settled.initialMembership]
  refine dense.inForce _ fun entry mem above => ?_
  have bounds := Numbered.mem_bounds dense mem
  rw [dense.lastIndex_eq] at above
  omega

variable [StateMachine M]

theorem Cluster.Sound.captures (sound : cluster.Sound boot)
    (clean : cluster.capturesCleanly action = true) (acted : cluster.act action = some after)
    (earlier : ∀ peer capture, (peer,capture) ∈ cluster.taken → capture.log.InForce ⟨boot⟩
      capture.snapshot.info.lastIndex capture.snapshot.info.membership) :
    ∀ peer capture, (peer,capture) ∈ after.taken → capture.log.InForce ⟨boot⟩
      capture.snapshot.info.lastIndex capture.snapshot.info.membership := by
  obtain ⟨start,final,found,rfl,outcome⟩ := sound.cases acted
  have settled := sound.nodes _ start found
  simp only [Cluster.capturesCleanly,found,Bool.or_eq_true,Bool.not_eq_true'] at clean
  intro peer capture mem
  rcases mem_append.mp mem with old | new
  · exact earlier peer capture old
  obtain ⟨_,inside,same⟩ := mem_map.mp new
  cases same
  cases outcome with
  | ignored same =>
    rw [same,settled.taken] at inside
    cases inside
  | operated finished mail =>
    have received := sound.received mail
    have settles : start.Settles ⟨boot⟩ action start := by
      refine ⟨fun unchanging _ mem above => brought_plain unchanging (.inl mem) above,
        fun early enabled => ?_,?_⟩
      · have below := (of_early early).2 enabled
        have reached := action.lt_reaches start.log
        omega
      · rw [settled.taken]
        exact nofun
    obtain ⟨_,_,captured⟩ := finished.invariant received settled.kept
      (fun moment => start.Settles ⟨boot⟩ action moment.node) settles
      fun _ _ kept held moved =>
        moved.settles received kept settled.initialMembership clean held
    exact captured.taken _ inside
  | restarted restarted =>
    obtain ⟨_,_,_,_,_,built⟩ := restarted
    rw [(new_rebuilt settled.sound.contiguous built).taken] at inside
    cases inside

/-- In any run, every replica's configuration is the one its log says.  While
snapshots are taken only with no configuration change under way, each of them
stores the configuration as of its last index. -/
theorem configuration_in_force (fresh : first.Initial bootstrap)
    (run : Cluster.Run (Permits Cluster.capturesCleanly) first last) :
    (∀ reached, Cluster.Run (fun _ _ => True) first reached →
        ∀ peer node, reached.nodes.get peer = some node →
          node.log.InForce ⟨bootstrap⟩ node.log.lastIndex node.membership) ∧
      ∀ peer capture, (peer,capture) ∈ last.taken → capture.log.InForce ⟨bootstrap⟩
        capture.snapshot.info.lastIndex capture.snapshot.info.membership := by
  refine ⟨fun _ free _ _ found => (Cluster.Sound.run fresh free).inForce found,?_⟩
  induction run with
  | refl =>
    rw [fresh.2.2.1]
    exact nofun
  | step before admitted acted ih =>
    exact (Cluster.Sound.run fresh before).captures admitted acted ih

/-- A snapshot taken once a removal is applied stores the smaller configuration. -/
theorem configuration_in_force_trio : ∃ first last : Cluster Register,
    first.Initial (OrderedSet.ofList [1,2,3]) ∧
      Cluster.Run (Permits Cluster.capturesCleanly) first last ∧
      ∃ capture, (1,capture) ∈ last.taken ∧ capture.snapshot.info.lastIndex = 2 ∧
        capture.snapshot.info.membership = Membership.new [1,2] ∧
        capture.log.InForce ⟨OrderedSet.ofList [1,2,3]⟩ capture.snapshot.info.lastIndex
          capture.snapshot.info.membership := by
  obtain ⟨first,last,fresh,_,run,⟨_,capture⟩,member,rfl,index,members⟩ := exists_sample_run
    Cluster.capturesCleanly [1,2,3]
    (commitFirst ++ [.proposeMembership 1 (.remove 3),
      .deliver 2 ⟨1,2,.appendEntries 1 1 1 [⟨1,2,.config (new [1,2])⟩] 1⟩,
      .deliver 1 ⟨2,1,.appendEntriesResponse 1 true 2 0 0⟩,.takeSnapshot 1])
    (fun last => ∃ taken ∈ last.taken, 1 = taken.1 ∧ taken.2.snapshot.info.lastIndex = 2 ∧
      taken.2.snapshot.info.membership = new [1,2])
    (by decide +kernel)
  exact ⟨first,last,fresh,run,capture,member,index,members,
    (configuration_in_force fresh run).2 1 capture member⟩

/-- A snapshot of index one, taken while the removal of a voter at index two is
not even committed, stores the configuration without that voter. -/
theorem snapshot_configuration_early : ∃ first last : Cluster Register,
    first.Initial (OrderedSet.ofList [1,2,3]) ∧ Cluster.Run (fun _ _ => True) first last ∧
      ∃ capture, (1,capture) ∈ last.taken ∧ capture.snapshot.info.lastIndex = 1 ∧
        capture.snapshot.info.membership = Membership.new [1,2] ∧
        capture.log.InForce ⟨OrderedSet.ofList [1,2,3]⟩ 1 (Membership.new [1,2,3]) ∧
        ¬ capture.log.InForce ⟨OrderedSet.ofList [1,2,3]⟩ 1 (Membership.new [1,2]) := by
  obtain ⟨first,last,fresh,_,run,⟨_,capture⟩,member,rfl,rest⟩ := exists_sample_run
    (fun _ _ => true) [1,2,3] (commitFirst ++ [.proposeMembership 1 (.remove 3),.takeSnapshot 1])
    (fun last => ∃ taken ∈ last.taken, 1 = taken.1 ∧ taken.2.snapshot.info.lastIndex = 1 ∧
      taken.2.snapshot.info.membership = new [1,2] ∧
      taken.2.log.InForce ⟨OrderedSet.ofList [1,2,3]⟩ 1 (new [1,2,3]) ∧
      ¬ taken.2.log.InForce ⟨OrderedSet.ofList [1,2,3]⟩ 1 (new [1,2]))
    (by decide +kernel)
  exact ⟨first,last,fresh,run.mono fun _ _ _ => trivial,capture,member,rest⟩

end Runs

end Astrs.Raft
