/-
Ceell.Core.Lifecycle — the loop of `ceell/core/lifecycle.c` over whole
runs: who learns that a peer is gone.

A tick of `ceell_lifecycle_run` calls `ceell_discovery_expire_peers` and
then `ceell_health_update`. The two are separate steps here, because the
discovery thread runs beside the loop and an announcement can fall between
them. `lifecycleMachine` is the node of `Ceell.Main` with its steps in
that order, and with the history that "reported since it was last heard"
speaks of.

`tickReports_iff_met` settles when every peer that a tick removes has been
reported LOST. The expiry comes first in the tick, so a peer can leave the
discovery table without any update having read it.
-/
import Ceell.Main

namespace Ceell.Core

open Ceell.Lib Ceell.Lib.SlotArray Ceell.Network

/-! ## The loop -/

/-- The node, where the loop is in its tick, and the history. -/
structure LifecycleRun (max : Nat) where
  node : NodeState max
  /-- the uptime of the running tick's expiry and the peers it removed -/
  removed : Option (Int × List NodeId)
  /-- the peers removed by the tick that has just ended -/
  ended : List NodeId
  /-- the callback has reported the peer LOST since it was last heard -/
  reported : NodeId → Bool
  /-- the monitor has held the peer in another state than LOST since then -/
  met : NodeId → Bool

/-- The peers an expiry at `now` removes. -/
def staleIds (k : Kconfig) (now : Int) {max : Nat} (t : PeerTable max) : List NodeId :=
  (t.entries.filter (isStale k now)).map (·.nodeId)

/-- An update reads the peer for the first time, or at an age that is not
LOST. -/
def meets (k : Kconfig) (now : Int) (snapshot : List Peer) (hm : HealthMonitor) (id : NodeId) :
    Bool :=
  snapshot.any fun p =>
    p.nodeId = id ∧ (id ∉ trackedIds hm ∨ computeState k now p.lastSeen ≠ .lost)

/-- Some callback reports the peer LOST. -/
def reportsLost (calls : List HealthCall) (id : NodeId) : Bool :=
  calls.any fun c => c.nodeId = id ∧ c.newState = .lost

/-- One step of the loop or of the discovery thread beside it. An accepted
announcement is the peer being heard. -/
def lifecycleStep (k : Kconfig) (me : Identity) {max : Nat} (s : LifecycleRun max) (a : NodeAct) :
    Option (LifecycleRun max) :=
  match a with
  | .discovery (.announce _ msg) =>
      (nodeStep k me s.node a).map fun n =>
        let heard := Accepts me s.node.disc.table msg.id
        { node := n
          removed := s.removed
          ended := []
          reported := if heard then Function.update s.reported msg.id false else s.reported
          met :=
            if heard then
              Function.update s.met msg.id (ceellHealthGetState s.node.health msg.id ≠ .lost)
            else s.met }
  | .discovery (.expire now) =>
      match s.removed with
      | none =>
          (nodeStep k me s.node a).map fun n =>
            { s with
              node := n
              removed := some (now, staleIds k now s.node.disc.table)
              ended := [] }
      | some _ => none
  | .update now =>
      match s.removed with
      | some (start, ids) =>
          if start ≤ now then
            (nodeStep k me s.node a).map fun n =>
              let calls := (ceellHealthUpdate k now s.node.snapshot s.node.health).2
              { node := n
                removed := none
                ended := ids
                reported := fun id => s.reported id || reportsLost calls id
                met := fun id => s.met id || meets k now s.node.snapshot s.node.health id }
          else none
      | none => none

/-- `ceell_lifecycle_run` from its first tick on. -/
def lifecycleMachine (k : Kconfig) (me : Identity) :
    Machine (LifecycleRun k.discoveryMaxPeers) NodeAct where
  init := ⟨(nodeMachine k me).init, none, [], fun _ => false, fun _ => false⟩
  step := lifecycleStep k me

/-- Every peer the tick removed is LOST at its end, and the callback has
reported it since it was last heard. -/
def TickReported {max : Nat} (s : LifecycleRun max) : Prop :=
  ∀ id ∈ s.ended, ceellHealthGetState s.node.health id = .lost ∧ s.reported id = true

instance {max : Nat} (s : LifecycleRun max) : Decidable (TickReported s) :=
  List.decidableBAll _ s.ended

/-- At the update of a tick, each peer the tick removed has been met since
it was last heard, and if it has announced itself again by then, that was
so long ago that it is LOST all the same. -/
def RemovedMet (k : Kconfig) {max : Nat} (s : LifecycleRun max) : NodeAct → Prop
  | .discovery _ => True
  | .update now => ∀ tick ∈ s.removed, ∀ id ∈ tick.2,
      (s.met id = true ∨ (id ∈ s.node.snapshot.map (·.nodeId) ∧ id ∉ trackedIds s.node.health)) ∧
      ∀ p ∈ s.node.snapshot, p.nodeId = id → computeState k now p.lastSeen = .lost

/-! ## What a tick reports -/

section Tick

variable {k : Kconfig} {now : Int} {hm : HealthMonitor} {snapshot : List Peer} {id : NodeId}

theorem meets_iff :
    meets k now snapshot hm id = true ↔
      ∃ p ∈ snapshot, p.nodeId = id ∧
        (id ∉ trackedIds hm ∨ computeState k now p.lastSeen ≠ .lost) := by
  simp [meets]

/-- Which peers the callbacks of an update report LOST. -/
theorem reportsLost_iff (hr : UpdateReady hm snapshot) :
    reportsLost (ceellHealthUpdate k now snapshot hm).2 id = true ↔
      stateBefore hm id ≠ .lost ∧
        ((∃ p ∈ snapshot, p.nodeId = id ∧ computeState k now p.lastSeen = .lost) ∨
          (id ∈ trackedIds hm ∧ id ∉ snapshot.map (·.nodeId))) := by
  have hdrop := fun c => mem_dropCalls (c := c) k now hr.tracked_nodup hr.snapshot_nodup hr.fits
  rw [(hr.spec k now).2.2]
  simp only [reportsLost, List.any_append, Bool.or_eq_true, List.any_eq_true, decide_eq_true_eq]
  constructor
  · rintro (⟨c, hc, rfl, hlost⟩ | ⟨c, hc, rfl, _⟩)
    · obtain ⟨p, hp, hcall⟩ := List.mem_filterMap.mp hc
      obtain ⟨hne, rfl⟩ := call_of_snapshot.mp hcall
      exact ⟨fun h => hne (hlost.trans h.symm), Or.inl ⟨p, hp, rfl, hlost⟩⟩
    · obtain ⟨id, h, hid, hl, hne, rfl⟩ := (hdrop c).mp hc
      refine ⟨?_, Or.inr ⟨(getState_of_lookup hl).1, hid⟩⟩
      rw [stateBefore_of_lookup hl]
      exact hne
  · rintro ⟨hne, ⟨p, hp, rfl, hlost⟩ | ⟨htracked, hid⟩⟩
    · refine Or.inl ⟨⟨p.nodeId, stateBefore hm p.nodeId, .lost⟩, ?_, rfl, rfl⟩
      refine List.mem_filterMap.mpr ⟨p, hp, call_of_snapshot.mpr ?_⟩
      rw [hlost]
      exact ⟨Ne.symm hne, rfl⟩
    · obtain ⟨h, hl⟩ := Option.isSome_iff_exists.mp (lookup_isSome.mpr htracked)
      rw [stateBefore_of_lookup hl] at hne
      exact Or.inr ⟨⟨id, h.state, .lost⟩, (hdrop _).mpr ⟨id, h, hid, hl, hne, rfl⟩, rfl, rfl⟩

/-- The state an update leaves a peer in is LOST exactly if the snapshot
has it at no other age. -/
theorem lost_update_iff (hr : UpdateReady hm snapshot) :
    ceellHealthGetState (ceellHealthUpdate k now snapshot hm).1 id = .lost ↔
      ∀ p ∈ snapshot, p.nodeId = id → computeState k now p.lastSeen = .lost := by
  constructor
  · rintro h p hp rfl
    rw [← (hr.refreshed hp).2]
    exact h
  · intro h
    by_cases hid : id ∈ snapshot.map (·.nodeId)
    · obtain ⟨p, hp, rfl⟩ := List.mem_map.mp hid
      rw [(hr.refreshed hp).2]
      exact h p hp rfl
    · exact hr.dropped hid

/-- **What links the two histories**: a peer was met since it was last
heard exactly if it was reported LOST since, or is not LOST now. -/
def MetIsReported {max : Nat} (s : LifecycleRun max) : Prop :=
  ∀ id, s.met id = true ↔ s.reported id = true ∨ ceellHealthGetState s.node.health id ≠ .lost

/-- An update keeps the link. -/
theorem met_update_iff {met reported : NodeId → Bool} (hr : UpdateReady hm snapshot)
    (h : met id = true ↔ reported id = true ∨ ceellHealthGetState hm id ≠ .lost) :
    (met id || meets k now snapshot hm id) = true ↔
      (reported id || reportsLost (ceellHealthUpdate k now snapshot hm).2 id) = true ∨
        ceellHealthGetState (ceellHealthUpdate k now snapshot hm).1 id ≠ .lost := by
  have hend : ceellHealthGetState (ceellHealthUpdate k now snapshot hm).1 id ≠ .lost ↔
      ¬ ∀ p ∈ snapshot, p.nodeId = id → computeState k now p.lastSeen = .lost :=
    not_congr (lost_update_iff hr)
  rw [Bool.or_eq_true, Bool.or_eq_true, h, meets_iff, reportsLost_iff hr, hend]
  by_cases hid : id ∈ snapshot.map (·.nodeId)
  · obtain ⟨p, hp, rfl⟩ := List.mem_map.mp hid
    -- the snapshot has the peer once
    have honly : ∀ q ∈ snapshot, q.nodeId = p.nodeId → q = p :=
      fun q hq heq => List.inj_on_of_nodup_map hr.snapshot_nodup hq hp heq
    have hex : ∀ P : Peer → Prop, (∃ q ∈ snapshot, q.nodeId = p.nodeId ∧ P q) ↔ P p := by
      intro P
      constructor
      · rintro ⟨q, hq, heq, hP⟩
        exact honly q hq heq ▸ hP
      · exact fun hP => ⟨p, hp, rfl, hP⟩
    have hall : (∀ q ∈ snapshot, q.nodeId = p.nodeId → computeState k now q.lastSeen = .lost) ↔
        computeState k now p.lastSeen = .lost :=
      ⟨fun h => h p hp rfl, fun h q hq heq => honly q hq heq ▸ h⟩
    rw [hex, hex, hall]
    rcases stateBefore_cases hm p.nodeId with ⟨htracked, hsb⟩ | ⟨hnew, hsb, hgs⟩
    · by_cases hlost : computeState k now p.lastSeen = .lost <;> simp [htracked, hsb, hlost, hid]
    · simp [hnew, hsb, hgs]
      tauto
  · have hnone : ∀ P : Peer → Prop, (∃ q ∈ snapshot, q.nodeId = id ∧ P q) ↔ False := by
      refine fun P => iff_false_intro ?_
      rintro ⟨q, hq, rfl, _⟩
      exact hid (List.mem_map_of_mem hq)
    have hall : (∀ q ∈ snapshot, q.nodeId = id → computeState k now q.lastSeen = .lost) ↔
        True := by
      refine iff_true_intro ?_
      rintro q hq rfl
      exact absurd (List.mem_map_of_mem hq) hid
    rw [hnone, hnone, hall]
    rcases stateBefore_cases hm id with ⟨htracked, hsb⟩ | ⟨hnew, hsb, hgs⟩
    · simp [htracked, hsb, hid]
    · simp [hnew, hgs]

end Tick

/-! ## Runs -/

/-- What holds of the loop in every run. -/
structure LifecycleInv (k : Kconfig) (me : Identity) (nodes : List NodeId)
    (s : LifecycleRun k.discoveryMaxPeers) : Prop where
  node : NodeInv k me s.node
  within : Within nodes s.node
  met : MetIsReported s

section Runs

variable {k : Kconfig} {me : Identity} {nodes : List NodeId}
  {s s' : LifecycleRun k.discoveryMaxPeers}

/-- **What a step can be**: one of the node's, the expiry and the update
only in turn. -/
theorem lifecycleStep_cases {a : NodeAct} (hs : lifecycleStep k me s a = some s') :
    nodeStep k me s.node a = some s'.node ∧
      ((∃ now msg, a = .discovery (.announce now msg) ∧ s'.ended = [] ∧
          ((s'.reported = s.reported ∧ s'.met = s.met) ∨
            (s'.reported = Function.update s.reported msg.id false ∧
              s'.met = Function.update s.met msg.id
                (ceellHealthGetState s.node.health msg.id ≠ .lost)))) ∨
        (∃ now, a = .discovery (.expire now) ∧ s'.ended = [] ∧ s'.reported = s.reported ∧
          s'.met = s.met) ∨
        ∃ now start ids, a = .update now ∧ s.removed = some (start, ids) ∧ s'.ended = ids ∧
          (s'.reported = fun id => s.reported id ||
            reportsLost (ceellHealthUpdate k now s.node.snapshot s.node.health).2 id) ∧
          s'.met = fun id => s.met id || meets k now s.node.snapshot s.node.health id) := by
  match a with
  | .discovery (.announce now msg) =>
    obtain ⟨n, hn, rfl⟩ := Option.map_eq_some_iff.mp hs
    refine ⟨hn, Or.inl ⟨now, msg, rfl, rfl, ?_⟩⟩
    by_cases hacc : Accepts me s.node.disc.table msg.id
    · exact Or.inr ⟨if_pos hacc, if_pos hacc⟩
    · exact Or.inl ⟨if_neg hacc, if_neg hacc⟩
  | .discovery (.expire now) =>
    simp only [lifecycleStep] at hs
    split at hs
    · obtain ⟨n, hn, rfl⟩ := Option.map_eq_some_iff.mp hs
      exact ⟨hn, Or.inr (Or.inl ⟨now, rfl, rfl, rfl, rfl⟩)⟩
    · cases hs
  | .update now =>
    simp only [lifecycleStep] at hs
    split at hs
    · rename_i start ids hrem
      split at hs
      · obtain ⟨n, hn, rfl⟩ := Option.map_eq_some_iff.mp hs
        exact ⟨hn, Or.inr (Or.inr ⟨now, start, ids, rfl, hrem, rfl, rfl, rfl⟩)⟩
      · cases hs
    · cases hs

theorem health_discovery {n n' : NodeState k.discoveryMaxPeers} {a : DiscoveryAct}
    (hs : nodeStep k me n (.discovery a) = some n') : n'.health = n.health := by
  obtain ⟨d, _, rfl⟩ := Option.map_eq_some_iff.mp hs
  rfl

theorem health_update {n n' : NodeState k.discoveryMaxPeers} {now : Int}
    (hs : nodeStep k me n (.update now) = some n') :
    n'.health = (ceellHealthUpdate k now n.snapshot n.health).1 := by
  obtain rfl := Option.some.inj hs
  rfl

theorem LifecycleInv.ready (hi : LifecycleInv k me nodes s)
    (hnodes : nodes.length ≤ k.discoveryMaxPeers) : UpdateReady s.node.health s.node.snapshot :=
  hi.node.ready (fits_of_within hnodes hi.node hi.within)

theorem met_step {a : NodeAct} (hnodes : nodes.length ≤ k.discoveryMaxPeers)
    (hi : LifecycleInv k me nodes s) (hs : lifecycleStep k me s a = some s') :
    MetIsReported s' := by
  intro id
  obtain ⟨hn, ⟨now, msg, rfl, _, hhist⟩ | ⟨now, rfl, _, hr, hm⟩ |
    ⟨now, start, ids, rfl, _, _, hr, hm⟩⟩ := lifecycleStep_cases hs
  · rw [health_discovery hn]
    rcases hhist with ⟨hr, hm⟩ | ⟨hr, hm⟩
    · rw [hr, hm]
      exact hi.met id
    · -- from here on only the monitor's state counts
      rw [hr, hm]
      by_cases hid : id = msg.id
      · subst hid
        simp
      · rw [Function.update_of_ne hid, Function.update_of_ne hid]
        exact hi.met id
  · rw [health_discovery hn, hr, hm]
    exact hi.met id
  · rw [health_update hn, hr, hm]
    exact met_update_iff (hi.ready hnodes) (hi.met id)

theorem lifecycleInv_step {a : NodeAct} (hnodes : nodes.length ≤ k.discoveryMaxPeers)
    (hfrom : a.From me nodes) (hi : LifecycleInv k me nodes s)
    (hs : lifecycleStep k me s a = some s') : LifecycleInv k me nodes s' := by
  have hn := (lifecycleStep_cases hs).1
  exact ⟨nodeInv_step hi.node hn, within_step hnodes hfrom hi.node hi.within hn,
    met_step hnodes hi hs⟩

theorem lifecycleInv_init : LifecycleInv k me nodes (lifecycleMachine k me).init where
  node := nodeInv_init
  within := within_init
  met := by
    intro id
    have hnew : id ∉ trackedIds (nodeMachine k me).init.health := by
      show id ∉ trackedIds (ceellHealthRegisterCb (ceellHealthInit k))
      rw [trackedIds_init]
      exact List.not_mem_nil
    have hlost : ceellHealthGetState (nodeMachine k me).init.health id = .lost :=
      (stateBefore_cases _ id).elim (fun h => absurd h.1 hnew) fun h => h.2.2
    simp [lifecycleMachine, hlost]

/-- The end of a tick has every removed peer reported exactly if it was met. -/
theorem tickReported_step_iff {a : NodeAct} (hnodes : nodes.length ≤ k.discoveryMaxPeers)
    (hi : LifecycleInv k me nodes s) (hs : lifecycleStep k me s a = some s') :
    TickReported s' ↔ RemovedMet k s a := by
  have hmet := met_step hnodes hi hs
  obtain ⟨hn, ⟨now, msg, rfl, hend, _⟩ | ⟨now, rfl, hend, _⟩ |
    ⟨now, start, ids, rfl, hrem, hend, hr, hm⟩⟩ := lifecycleStep_cases hs
  · simp [TickReported, RemovedMet, hend]
  · simp [TickReported, RemovedMet, hend]
  · have hfit := fits_of_within hnodes hi.node hi.within
    have hlost : ∀ id, ceellHealthGetState s'.node.health id = .lost ↔
        ∀ p ∈ s.node.snapshot, p.nodeId = id → computeState k now p.lastSeen = .lost := by
      rw [health_update hn]
      exact fun id => lost_update_iff (hi.ready hnodes)
    unfold TickReported RemovedMet
    rw [hend, hrem]
    simp only [Option.mem_some_iff, forall_eq', ← hlost]
    refine forall₂_congr fun id _ => ?_
    rw [and_comm]
    refine and_congr_left fun hl => ?_
    -- the peer being LOST, reported and met are the same
    have hsame : s'.reported id = true ↔ s'.met id = true := by
      rw [hmet id]
      exact (or_iff_left fun h => h hl).symm
    rw [hsame, hm, Bool.or_eq_true, meets_iff]
    refine or_congr_right ⟨?_, ?_⟩
    · rintro ⟨p, hp, rfl, hnew | hne⟩
      · exact ⟨List.mem_map_of_mem hp, hnew⟩
      · exact absurd ((hlost _).mp hl p hp rfl) hne
    · rintro ⟨hid, hnew⟩
      obtain ⟨p, hp, rfl⟩ := List.mem_map.mp hid
      exact ⟨p, hp, rfl, Or.inl hnew⟩

end Runs

/-- **Over every run** of the loop between at most
`CONFIG_CEELL_DISCOVERY_MAX_PEERS` nodes, announcements falling anywhere:
every peer a tick removes is LOST at the end of the tick and has been
reported so since it was last heard, exactly if at the update of each tick
the peers it removed had been met. -/
theorem tickReports_iff_met (k : Kconfig) (me : Identity) (nodes : List NodeId)
    (hnodes : nodes.length ≤ k.discoveryMaxPeers) (as : List NodeAct)
    (hfrom : ∀ a ∈ as, a.From me nodes) (t : LifecycleRun k.discoveryMaxPeers)
    (hrun : (lifecycleMachine k me).run as = some t) :
    (∀ u ∈ (lifecycleMachine k me).visited (lifecycleMachine k me).init as, TickReported u) ↔
      (lifecycleMachine k me).AllSteps (RemovedMet k) (lifecycleMachine k me).init as :=
  Machine.forall_visited_iff_allSteps (I := LifecycleInv k me nodes)
    (fun _ _ _ ha hi hs => lifecycleInv_step hnodes ha hi hs)
    (fun _ _ _ _ hi _ hs => tickReported_step_iff hnodes hi hs)
    as _ t hfrom lifecycleInv_init (by simp [TickReported, lifecycleMachine]) hrun

/-- Node 1 announces itself once, just after the update of a tick. -/
def unmetPeer : List NodeAct :=
  [.discovery (.expire 0), .update 0, hello 1 1, .discovery (.expire 5002), .update 5002]

/-- The next tick, 5002 ms later, removes it, and nobody is told. -/
theorem unmetPeer_not_reported :
    (∀ a ∈ unmetPeer, a.From ⟨7⟩ [1]) ∧
    ∃ t, (lifecycleMachine {} ⟨7⟩).run unmetPeer = some t ∧ t.ended = [1] ∧ ¬ TickReported t := by
  obtain ⟨t, ht⟩ : ∃ t, (lifecycleMachine {} ⟨7⟩).run unmetPeer = some t :=
    Option.isSome_iff_exists.mp (by decide)
  have hend : ((lifecycleMachine {} ⟨7⟩).run unmetPeer).map (fun t => (t.ended, t.reported 1))
      = some ([1], false) := by decide
  simp only [ht, Option.map_some, Option.some.injEq, Prod.mk.injEq] at hend
  obtain ⟨hended, hnot⟩ := hend
  refine ⟨by decide, t, ht, hended, ?_⟩
  intro h
  have := (h 1 (by simp [hended])).2
  rw [hnot] at this
  cases this

/-- One tick reads nodes 1, 2 and 3, the next removes 1 and 3; node 3 is
heard again in that tick, which lasts so long that it is LOST at its end. -/
def metPeers : List NodeAct :=
  [hello 1 1, hello 1 2, hello 2 3, .discovery (.expire 10), .update 10, hello 5000 2,
   .discovery (.expire 5012), hello 5013 3, .update 11000]

/-- The tick has met what it removes, so it reports both. -/
theorem tickReports_iff_met_metPeers :
    (lifecycleMachine {} ⟨7⟩).AllSteps (RemovedMet {}) (lifecycleMachine {} ⟨7⟩).init metPeers ∧
      (∀ u ∈ (lifecycleMachine {} ⟨7⟩).visited (lifecycleMachine {} ⟨7⟩).init metPeers,
        TickReported u) ∧
      ((lifecycleMachine {} ⟨7⟩).run metPeers).map (fun t =>
          (t.ended, t.node.disc.table.ids, [1, 2, 3].map t.reported)) =
        some ([1, 3], [2, 3], [true, true, true]) := by
  obtain ⟨t, ht⟩ : ∃ t, (lifecycleMachine {} ⟨7⟩).run metPeers = some t :=
    Option.isSome_iff_exists.mp (by decide +kernel)
  have hreported : ∀ u ∈ (lifecycleMachine {} ⟨7⟩).visited (lifecycleMachine {} ⟨7⟩).init
      metPeers, TickReported u := by
    decide +kernel
  have hiff := tickReports_iff_met {} ⟨7⟩ [1, 2, 3] (by decide) metPeers (by decide) t ht
  exact ⟨hiff.mp hreported, hreported, by decide +kernel⟩

end Ceell.Core
