/-
Ceell.Main — discovery, health monitor and safe state as `src/main.c`
wires them, and what the wiring promises over whole runs.

`on_health_change` is the only link between the per-peer states of the
health monitor and the one safe-state flag: it triggers on every edge to
LOST and clears on every edge from LOST to HEALTHY. Over a list of edges
it is a `Lib.latch` (`active_foldl_onHealthChange`).

`nodeMachine` runs the three modules together: announcements and
expiries at non-decreasing uptimes, and health updates in between. Two
things are settled about its runs, each as an exact condition on the
steps:

* `monitored_iff_fits` — every peer an update reads is monitored exactly
  if the health table, which never frees a slot, has room for the new ones;
* `lostIsSafe_iff_noEarlyClear` — LOST peers keep the node in safe state
  exactly if no update clears it for one peer while another is LOST.
-/
import Ceell.Core.HealthMonitor
import Ceell.Core.SafeState
import Ceell.Lib.Latch

namespace Ceell

open Ceell.Lib Ceell.Lib.SlotArray Ceell.Network Ceell.Core

/-! ## The callback -/

/-- `on_health_change`. -/
def onHealthChange (s : SafeState) (c : HealthCall) : SafeState :=
  if c.newState = .lost then (ceellSafeStateTrigger .criticalPeerLost s).1
  else if c.oldState = .lost ∧ c.newState = .healthy then (ceellSafeStateClear s).1
  else s

/-- The edges that set the flag, and those that clear it. -/
def setsSafe (c : HealthCall) : Bool := c.newState = .lost

def clearsSafe (c : HealthCall) : Bool := c.oldState = .lost ∧ c.newState = .healthy

theorem initialized_onHealthChange {s : SafeState} (c : HealthCall) :
    (onHealthChange s c).initialized = s.initialized := by
  unfold onHealthChange
  split
  · exact initialized_trigger _
  · split
    · exact initialized_clear
    · rfl

theorem active_onHealthChange {s : SafeState} (h : s.initialized = true) (c : HealthCall) :
    (onHealthChange s c).active = latchStep setsSafe clearsSafe s.active c := by
  unfold onHealthChange latchStep setsSafe clearsSafe
  by_cases h1 : c.newState = .lost
  · simp [h1, h]
  · by_cases h2 : c.oldState = .lost ∧ c.newState = .healthy <;> simp [h1, h2, h]

/-- The callbacks of an update move the flag as a latch. -/
theorem active_foldl_onHealthChange (calls : List HealthCall) {s : SafeState}
    (h : s.initialized = true) :
    (calls.foldl onHealthChange s).initialized = true ∧
    (calls.foldl onHealthChange s).active = latch setsSafe clearsSafe s.active calls := by
  induction calls generalizing s with
  | nil => exact ⟨h, rfl⟩
  | cons c calls ih =>
    have h' : (onHealthChange s c).initialized = true := by
      rw [initialized_onHealthChange, h]
    rw [List.foldl_cons, latch_cons, ← active_onHealthChange h c]
    exact ih h'

/-! ## The node -/

/-- The three modules' state, and the snapshot the last health update read
with its uptime. -/
structure NodeState (max : Nat) where
  disc : DiscoveryRun max
  health : HealthMonitor
  safe : SafeState
  lastRead : List Peer
  lastUpdate : Int

inductive NodeAct where
  | discovery (a : DiscoveryAct)
  | update (now : Int)

/-- What `ceell_health_update` copies from the discovery table. -/
def NodeState.snapshot {max : Nat} (s : NodeState max) : List Peer :=
  ceellDiscoveryGetPeers s.disc.table max

/-- One call of the discovery module or one `ceell_health_update`, whose
callbacks run before it returns. -/
def nodeStep (k : Kconfig) (me : Identity) {max : Nat} (s : NodeState max) :
    NodeAct → Option (NodeState max)
  | .discovery a => (discoveryStep k me s.disc a).map fun d => { s with disc := d }
  | .update now =>
      let r := ceellHealthUpdate k now s.snapshot s.health
      some { s with
        health := r.1
        safe := r.2.foldl onHealthChange s.safe
        lastRead := s.snapshot
        lastUpdate := now }

/-- The node after steps 5c to 7 of `main`. -/
def nodeMachine (k : Kconfig) (me : Identity) :
    Machine (NodeState k.discoveryMaxPeers) NodeAct where
  init :=
    { disc := (discoveryMachine k me).init
      health := ceellHealthRegisterCb (ceellHealthInit k)
      safe := ceellSafeStateInit
      lastRead := []
      lastUpdate := 0 }
  step := nodeStep k me

/-- What holds of the node in every run. -/
structure NodeInv (k : Kconfig) (me : Identity) (s : NodeState k.discoveryMaxPeers) : Prop where
  disc : Inv k me s.disc
  tracked_nodup : (trackedIds s.health).Nodup
  table_size : s.health.table.length = k.discoveryMaxPeers
  health_init : s.health.initialized = true
  health_cb : s.health.cbRegistered = true
  safe_init : s.safe.initialized = true

section Node

variable {k : Kconfig} {me : Identity} {s s' : NodeState k.discoveryMaxPeers}

theorem snapshot_eq_entries (hi : NodeInv k me s) : s.snapshot = s.disc.table.entries :=
  getPeers_max hi.disc.count_le

theorem nodup_snapshot (hi : NodeInv k me s) : (s.snapshot.map (·.nodeId)).Nodup := by
  rw [snapshot_eq_entries hi]
  exact hi.disc.nodup

theorem trackedIds_init : trackedIds (ceellHealthRegisterCb (ceellHealthInit k)) = [] := by
  simp [trackedIds, keys, ceellHealthRegisterCb, ceellHealthInit, PeerHealth.key, PeerHealth.zero]

theorem nodeInv_init : NodeInv k me (nodeMachine k me).init where
  disc := inv_init
  tracked_nodup := by
    show (trackedIds (ceellHealthRegisterCb (ceellHealthInit k))).Nodup
    rw [trackedIds_init]
    exact List.nodup_nil
  table_size := by simp [nodeMachine, ceellHealthRegisterCb, ceellHealthInit]
  health_init := rfl
  health_cb := rfl
  safe_init := rfl

theorem nodeInv_step {a : NodeAct} (hi : NodeInv k me s) (hs : nodeStep k me s a = some s') :
    NodeInv k me s' := by
  cases a with
  | discovery a =>
    obtain ⟨d, hd, rfl⟩ := Option.map_eq_some_iff.mp hs
    exact { hi with disc := inv_step hi.disc hd }
  | update now =>
    obtain rfl := Option.some.inj hs
    obtain ⟨hlen, hnd, _, hinit, hcb⟩ :=
      ceellHealthUpdate_keeps k now s.snapshot s.health hi.tracked_nodup
    exact
      { disc := hi.disc
        tracked_nodup := hnd
        table_size := hlen.trans hi.table_size
        health_init := hinit.trans hi.health_init
        health_cb := hcb.trans hi.health_cb
        safe_init := (active_foldl_onHealthChange _ hi.safe_init).1 }

/-! ## Every live peer is monitored -/

/-- Every peer the last update read is tracked, in the state its
`last_seen` calls for. -/
def Monitored (k : Kconfig) {max : Nat} (s : NodeState max) : Prop :=
  ∀ p ∈ s.lastRead, p.nodeId ∈ trackedIds s.health ∧
    ceellHealthGetState s.health p.nodeId = computeState k s.lastUpdate p.lastSeen

/-- The health table has room for the peers an update reads that it does
not track yet. -/
def UpdateFits {max : Nat} (s : NodeState max) : NodeAct → Prop
  | .discovery _ => True
  | .update _ => Fits s.health s.snapshot

instance (k : Kconfig) {max : Nat} (s : NodeState max) : Decidable (Monitored k s) := by
  unfold Monitored; infer_instance

instance {max : Nat} (s : NodeState max) : ∀ a, Decidable (UpdateFits s a)
  | .discovery _ => .isTrue trivial
  | .update _ => inferInstanceAs (Decidable (Fits _ _))

theorem getState_of_lookup {hm : HealthMonitor} {id : NodeId} {h : PeerHealth}
    (hl : lookup PeerHealth.key hm.table id = some h) :
    id ∈ trackedIds hm ∧ ceellHealthGetState hm id = h.state := by
  refine ⟨lookup_isSome.mp (by rw [hl]; rfl), ?_⟩
  unfold ceellHealthGetState
  rw [hl]

/-- What a monitor and a snapshot have to be like for an update to do what
`ceellHealthUpdate_spec` says. -/
structure UpdateReady (hm : HealthMonitor) (snapshot : List Peer) : Prop where
  health_init : hm.initialized = true
  health_cb : hm.cbRegistered = true
  tracked_nodup : (trackedIds hm).Nodup
  snapshot_nodup : (snapshot.map (·.nodeId)).Nodup
  fits : Fits hm snapshot

theorem NodeInv.ready (hi : NodeInv k me s) (hfit : Fits s.health s.snapshot) :
    UpdateReady s.health s.snapshot :=
  ⟨hi.health_init, hi.health_cb, hi.tracked_nodup, nodup_snapshot hi, hfit⟩

section Ready

variable {now : Int} {hm : HealthMonitor} {snapshot : List Peer}

theorem UpdateReady.spec (k : Kconfig) (now : Int) (hr : UpdateReady hm snapshot) :
    (∀ p ∈ snapshot,
      lookup PeerHealth.key (ceellHealthUpdate k now snapshot hm).1.table p.nodeId
        = some (refreshHealth k now p.lastSeen (healthOf hm.table p.nodeId)).1) ∧
    (∀ id, id ∉ snapshot.map (·.nodeId) →
      lookup PeerHealth.key (ceellHealthUpdate k now snapshot hm).1.table id
        = (lookup PeerHealth.key hm.table id).map fun h => (expireHealth (h, false)).1) ∧
    (ceellHealthUpdate k now snapshot hm).2
      = (snapshot.filterMap fun p =>
          (refreshHealth k now p.lastSeen (healthOf hm.table p.nodeId)).2)
        ++ dropCalls k now snapshot hm := by
  obtain ⟨hpeers, hgone, hcalls⟩ := ceellHealthUpdate_spec k now hr.health_init hr.tracked_nodup
    hr.snapshot_nodup hr.fits
  exact ⟨hpeers, hgone, hcalls hr.health_cb⟩

/-- The peers tracked after an update. -/
theorem UpdateReady.tracked (hr : UpdateReady hm snapshot) {id : NodeId} :
    id ∈ trackedIds (ceellHealthUpdate k now snapshot hm).1 ↔
      id ∈ snapshot.map (·.nodeId) ∨ id ∈ trackedIds hm :=
  trackedIds_update k now hr.health_init hr.tracked_nodup hr.snapshot_nodup hr.fits

/-- A peer of the snapshot is tracked in the right state. -/
theorem UpdateReady.refreshed {p : Peer} (hr : UpdateReady hm snapshot) (hp : p ∈ snapshot) :
    p.nodeId ∈ trackedIds (ceellHealthUpdate k now snapshot hm).1 ∧
    ceellHealthGetState (ceellHealthUpdate k now snapshot hm).1 p.nodeId
      = computeState k now p.lastSeen := by
  obtain ⟨htracked, hstate⟩ := getState_of_lookup ((hr.spec k now).1 p hp)
  exact ⟨htracked, hstate.trans (state_refreshHealth k now p.lastSeen _)⟩

/-- A peer that the snapshot lacks is LOST afterwards, tracked or not. -/
theorem UpdateReady.dropped {id : NodeId} (hr : UpdateReady hm snapshot)
    (hid : id ∉ snapshot.map (·.nodeId)) :
    ceellHealthGetState (ceellHealthUpdate k now snapshot hm).1 id = .lost := by
  have hgone := (hr.spec k now).2.1 id hid
  cases hl : lookup PeerHealth.key hm.table id with
  | none =>
    rw [hl, Option.map_none] at hgone
    rw [ceellHealthGetState, hgone]
  | some h =>
    rw [hl, Option.map_some] at hgone
    rw [(getState_of_lookup hgone).2]
    exact state_expireHealth (key_eq_some.mp (lookup_some hl).2).1

end Ready

/-- One step keeps every live peer monitored exactly if it fits. -/
theorem monitored_step_iff {a : NodeAct} (hi : NodeInv k me s) (hp : Monitored k s)
    (hs : nodeStep k me s a = some s') : Monitored k s' ↔ UpdateFits s a := by
  cases a with
  | discovery a =>
    obtain ⟨d, _, rfl⟩ := Option.map_eq_some_iff.mp hs
    exact iff_of_true hp trivial
  | update now =>
    obtain rfl := Option.some.inj hs
    exact ⟨fun h => fits_of_tracked hi.tracked_nodup (nodup_snapshot hi) fun p hp => (h p hp).1,
      fun hfit p hp => (hi.ready hfit).refreshed hp⟩

/-! ## LOST peers and safe state -/

/-- Some tracked peer is LOST. -/
def SomeLost (hm : HealthMonitor) : Prop :=
  ∃ id ∈ trackedIds hm, ceellHealthGetState hm id = .lost

/-- While a tracked peer is LOST the node is in safe state. -/
def LostIsSafe {max : Nat} (s : NodeState max) : Prop :=
  SomeLost s.health → ceellSafeStateActive s.safe = true

instance {max : Nat} (s : NodeState max) : Decidable (LostIsSafe s) := by
  unfold LostIsSafe SomeLost; infer_instance

/-- The state in which an update finds a peer. -/
def stateBefore (hm : HealthMonitor) (id : NodeId) : HealthState := (healthOf hm.table id).state

/-- An update at `now` clears the flag early: a LOST peer `p` of the
snapshot is back HEALTHY, no later peer of the snapshot becomes LOST, no
tracked peer that was not LOST is missing from the snapshot, and yet some
peer of the snapshot is LOST at `now` or a tracked one is missing. -/
def ClearsEarly (k : Kconfig) (now : Int) (snapshot : List Peer) (hm : HealthMonitor) : Prop :=
  (∃ front p back, snapshot = front ++ p :: back ∧
    stateBefore hm p.nodeId = .lost ∧ computeState k now p.lastSeen = .healthy ∧
    ∀ q ∈ back, computeState k now q.lastSeen = .lost → stateBefore hm q.nodeId = .lost) ∧
  (∀ id ∈ trackedIds hm, id ∉ snapshot.map (·.nodeId) → stateBefore hm id = .lost) ∧
  ((∃ q ∈ snapshot, computeState k now q.lastSeen = .lost) ∨
    ∃ id ∈ trackedIds hm, id ∉ snapshot.map (·.nodeId))

/-- No update clears the flag early. -/
def NoEarlyClear (k : Kconfig) {max : Nat} (s : NodeState max) : NodeAct → Prop
  | .discovery _ => True
  | .update now => ¬ ClearsEarly k now s.snapshot s.health

theorem stateBefore_of_lookup {hm : HealthMonitor} {id : NodeId} {h : PeerHealth}
    (hl : lookup PeerHealth.key hm.table id = some h) : stateBefore hm id = h.state := by
  simp [stateBefore, healthOf, hl]

/-- An update finds a tracked peer in its state and another one HEALTHY. -/
theorem stateBefore_cases (hm : HealthMonitor) (id : NodeId) :
    (id ∈ trackedIds hm ∧ stateBefore hm id = ceellHealthGetState hm id) ∨
      (id ∉ trackedIds hm ∧ stateBefore hm id = .healthy ∧
        ceellHealthGetState hm id = .lost) := by
  cases hl : lookup PeerHealth.key hm.table id with
  | none =>
    refine Or.inr ⟨lookup_eq_none.mp hl, ?_, ?_⟩
    · simp [stateBefore, healthOf, hl, PeerHealth.fresh]
    · rw [ceellHealthGetState, hl]
  | some h =>
    obtain ⟨htracked, hstate⟩ := getState_of_lookup hl
    exact Or.inl ⟨htracked, (stateBefore_of_lookup hl).trans hstate.symm⟩

/-- A peer found LOST was tracked, so some tracked peer was LOST. -/
theorem someLost_of_stateBefore {hm : HealthMonitor} {id : NodeId}
    (h : stateBefore hm id = .lost) : SomeLost hm := by
  rcases stateBefore_cases hm id with ⟨htracked, hstate⟩ | ⟨_, hfresh, _⟩
  · exact ⟨id, htracked, hstate.symm.trans h⟩
  · rw [hfresh] at h
    cases h

/-- Who is LOST after an update. -/
theorem someLost_update_iff {now : Int} {hm : HealthMonitor} {snapshot : List Peer}
    (hr : UpdateReady hm snapshot) :
    SomeLost (ceellHealthUpdate k now snapshot hm).1 ↔
      (∃ q ∈ snapshot, computeState k now q.lastSeen = .lost) ∨
        ∃ id ∈ trackedIds hm, id ∉ snapshot.map (·.nodeId) := by
  constructor
  · rintro ⟨id, htracked, hlost⟩
    by_cases hid : id ∈ snapshot.map (·.nodeId)
    · obtain ⟨p, hp, rfl⟩ := List.mem_map.mp hid
      exact Or.inl ⟨p, hp, (hr.refreshed hp).2.symm.trans hlost⟩
    · exact Or.inr ⟨id, (hr.tracked.mp htracked).resolve_left hid, hid⟩
  · rintro (⟨p, hp, hlost⟩ | ⟨id, htracked, hid⟩)
    · obtain ⟨h1, h2⟩ := hr.refreshed hp
      exact ⟨p.nodeId, h1, h2.trans hlost⟩
    · exact ⟨id, hr.tracked.mpr (Or.inr htracked), hr.dropped hid⟩

/-- A peer of the snapshot makes the call of its edge. -/
theorem call_of_snapshot {hm : HealthMonitor} {now : Int} {p : Peer} {c : HealthCall} :
    (refreshHealth k now p.lastSeen (healthOf hm.table p.nodeId)).2 = some c ↔
      computeState k now p.lastSeen ≠ stateBefore hm p.nodeId ∧
        c = ⟨p.nodeId, stateBefore hm p.nodeId, computeState k now p.lastSeen⟩ := by
  have hid := (key_eq_some.mp (key_healthOf hm.table p.nodeId)).2
  rw [refreshHealth_call, hid]
  rfl

/-- The peers of a list make no call that sets the flag exactly if each of
them that is LOST now was LOST before. -/
theorem noSets_iff {hm : HealthMonitor} {now : Int} {ps : List Peer} :
    (∀ c ∈ ps.filterMap fun p =>
        (refreshHealth k now p.lastSeen (healthOf hm.table p.nodeId)).2, setsSafe c = false) ↔
      ∀ q ∈ ps, computeState k now q.lastSeen = .lost → stateBefore hm q.nodeId = .lost := by
  constructor
  · intro h q hq hlost
    by_contra hne
    have hcall : (refreshHealth k now q.lastSeen (healthOf hm.table q.nodeId)).2
        = some ⟨q.nodeId, stateBefore hm q.nodeId, computeState k now q.lastSeen⟩ :=
      call_of_snapshot.mpr ⟨by rw [hlost]; exact Ne.symm hne, rfl⟩
    have := h _ (List.mem_filterMap.mpr ⟨q, hq, hcall⟩)
    simp [setsSafe, hlost] at this
  · intro h c hc
    obtain ⟨q, hq, hcall⟩ := List.mem_filterMap.mp hc
    obtain ⟨hne, rfl⟩ := call_of_snapshot.mp hcall
    have : computeState k now q.lastSeen ≠ .lost := fun hlost =>
      hne (hlost.trans (h q hq hlost).symm)
    simpa [setsSafe] using this

/-- When an update leaves the flag down: the last edge that
moves it is a recovery, or nothing set it before or in the update. -/
theorem inactive_update_iff {now : Int} {hm : HealthMonitor} {snapshot : List Peer}
    {safe : SafeState} (hr : UpdateReady hm snapshot) (hsafe : safe.initialized = true) :
    ((ceellHealthUpdate k now snapshot hm).2.foldl onHealthChange safe).active = false ↔
      (∀ id ∈ trackedIds hm, id ∉ snapshot.map (·.nodeId) → stateBefore hm id = .lost) ∧
      ((∃ front p back, snapshot = front ++ p :: back ∧
          stateBefore hm p.nodeId = .lost ∧ computeState k now p.lastSeen = .healthy ∧
          ∀ q ∈ back, computeState k now q.lastSeen = .lost → stateBefore hm q.nodeId = .lost) ∨
        (safe.active = false ∧ ∀ q ∈ snapshot, computeState k now q.lastSeen = .lost →
          stateBefore hm q.nodeId = .lost)) := by
  have hdrops : ∀ c ∈ dropCalls k now snapshot hm, setsSafe c = true := by
    intro c hc
    simp [setsSafe, newState_of_mem_dropCalls hc]
  have hnil : dropCalls k now snapshot hm = [] ↔
      ∀ id ∈ trackedIds hm, id ∉ snapshot.map (·.nodeId) → stateBefore hm id = .lost := by
    rw [dropCalls_eq_nil_iff k now hr.tracked_nodup hr.snapshot_nodup hr.fits]
    constructor
    · intro h id htracked hid
      obtain ⟨x, hl⟩ := Option.isSome_iff_exists.mp (lookup_isSome.mpr htracked)
      exact (stateBefore_of_lookup hl).trans (h id x hid hl)
    · intro h id x hid hl
      exact (stateBefore_of_lookup hl).symm.trans (h id (getState_of_lookup hl).1 hid)
  rw [(active_foldl_onHealthChange _ hsafe).2, (hr.spec k now).2.2, latch_append,
    latch_eq_false_of_forall_sets hdrops, hnil, latch_filterMap_eq_false_iff, noSets_iff]
  refine and_congr_right fun _ => or_congr_left ⟨?_, ?_⟩
  · rintro ⟨front, p, back, c, heq, hp, hclear, _, hback⟩
    obtain ⟨_, rfl⟩ := call_of_snapshot.mp hp
    have hedge : stateBefore hm p.nodeId = .lost ∧
        computeState k now p.lastSeen = .healthy := by
      simpa [clearsSafe] using hclear
    exact ⟨front, p, back, heq, hedge.1, hedge.2, noSets_iff.mp hback⟩
  · rintro ⟨front, p, back, heq, hlost, hhealthy, hback⟩
    have hne : computeState k now p.lastSeen ≠ stateBefore hm p.nodeId := by
      rw [hlost, hhealthy]
      decide
    refine ⟨front, p, back, _, heq, call_of_snapshot.mpr ⟨hne, rfl⟩, ?_, ?_, noSets_iff.mpr hback⟩
    · simp [clearsSafe, hlost, hhealthy]
    · simp [setsSafe, hhealthy]

/-- One update that fits keeps LOST peers in safe state exactly if it does
not clear the flag early. -/
theorem lostIsSafe_update_iff (now : Int) (hi : NodeInv k me s) (hp : LostIsSafe s)
    (hfit : Fits s.health s.snapshot) (hs : nodeStep k me s (.update now) = some s') :
    LostIsSafe s' ↔ ¬ ClearsEarly k now s.snapshot s.health := by
  obtain rfl := Option.some.inj hs
  have hready := hi.ready hfit
  rw [iff_not_comm]
  unfold LostIsSafe ceellSafeStateActive ClearsEarly
  rw [Classical.not_imp, Bool.not_eq_true, inactive_update_iff hready hi.safe_init,
    someLost_update_iff hready]
  refine ⟨fun ⟨hpos, hdrop, hlost⟩ => ⟨hlost, hdrop, Or.inl hpos⟩, ?_⟩
  rintro ⟨hlost, hdrop, hpos | ⟨hoff, hnone⟩⟩
  · exact ⟨hpos, hdrop, hlost⟩
  · -- the flag was down, so nobody was LOST before, and nobody became LOST
    have hnot : ¬ SomeLost s.health := fun h => by
      have := hp h
      unfold ceellSafeStateActive at this
      rw [hoff] at this
      cases this
    rcases hlost with ⟨q, hq, hql⟩ | ⟨id, htracked, hid⟩
    · exact absurd (someLost_of_stateBefore (hnone q hq hql)) hnot
    · exact absurd (someLost_of_stateBefore (hdrop id htracked hid)) hnot

/-! ## Runs of few nodes -/

/-- The announcements come from `nodes`, our own apart. -/
def NodeAct.From (me : Identity) (nodes : List NodeId) : NodeAct → Prop
  | .discovery (.announce _ msg) => msg.id = me.nodeId ∨ msg.id ∈ nodes
  | .discovery (.expire _) => True
  | .update _ => True

instance (me : Identity) (nodes : List NodeId) (a : NodeAct) : Decidable (a.From me nodes) := by
  cases a with
  | discovery a => cases a <;> (unfold NodeAct.From; infer_instance)
  | update now => unfold NodeAct.From; infer_instance

/-- Both tables hold only ids of `nodes`. -/
structure Within (nodes : List NodeId) {max : Nat} (s : NodeState max) : Prop where
  peers : ∀ id ∈ s.disc.table.ids, id ∈ nodes
  tracked : ∀ id ∈ trackedIds s.health, id ∈ nodes

/-- What an announcement adds to the ids of the peer table. -/
theorem mem_ids_announce {d d' : DiscoveryRun k.discoveryMaxPeers} {now : Int}
    {msg : DiscoveryMsg} (hi : Inv k me d)
    (hs : discoveryStep k me d (.announce now msg) = some d') {id : NodeId}
    (hid : id ∈ d'.table.ids) : id ∈ d.table.ids ∨ (id = msg.id ∧ msg.id ≠ me.nodeId) := by
  obtain ⟨_, rfl⟩ := discoveryStep_announce hs
  rcases updatePeer_cases (some me) now msg d.table hi.count_le with
    ⟨hsame, _⟩ | ⟨_, _, front, p, back, heq, _, hnew⟩ | ⟨hself, _, _, _, hnew⟩
  · rw [hsame] at hid
    exact Or.inl hid
  · refine Or.inl ?_
    simp only [PeerTable.ids, hnew, heq, List.map_append, List.map_cons,
      nodeId_refreshPeer] at hid ⊢
    exact hid
  · simp only [PeerTable.ids, hnew, List.map_append, List.mem_append, List.map_cons,
      List.map_nil, List.mem_singleton] at hid
    refine hid.imp_right fun h => ⟨h, fun hme => ?_⟩
    rw [any_self.mpr hme] at hself
    cases hself

theorem mem_ids_expire {d d' : DiscoveryRun k.discoveryMaxPeers} {now : Int} (hi : Inv k me d)
    (hs : discoveryStep k me d (.expire now) = some d') {id : NodeId}
    (hid : id ∈ d'.table.ids) : id ∈ d.table.ids := by
  obtain ⟨_, rfl⟩ := discoveryStep_expire hs
  obtain ⟨p, hp, rfl⟩ := mem_ids.mp hid
  exact mem_ids.mpr ⟨p, ((mem_expire hi.count_le).mp hp).1, rfl⟩

/-- Between at most `CONFIG_CEELL_DISCOVERY_MAX_PEERS` nodes every
snapshot fits. -/
theorem fits_of_within {nodes : List NodeId} (hnodes : nodes.length ≤ k.discoveryMaxPeers)
    (hi : NodeInv k me s) (hw : Within nodes s) : Fits s.health s.snapshot := by
  refine fits_of_subset hi.tracked_nodup (nodup_snapshot hi) ?_ hw.tracked ?_
  · rw [hi.table_size]
    exact hnodes
  · intro p hp
    rw [snapshot_eq_entries hi] at hp
    exact hw.peers _ (mem_ids.mpr ⟨p, hp, rfl⟩)

theorem within_step {nodes : List NodeId} (hnodes : nodes.length ≤ k.discoveryMaxPeers)
    {a : NodeAct} (hfrom : a.From me nodes) (hi : NodeInv k me s) (hw : Within nodes s)
    (hs : nodeStep k me s a = some s') : Within nodes s' := by
  cases a with
  | discovery a =>
    obtain ⟨d, hd, rfl⟩ := Option.map_eq_some_iff.mp hs
    refine ⟨?_, hw.tracked⟩
    intro id hid
    cases a with
    | announce now msg =>
      rcases mem_ids_announce hi.disc hd hid with h | ⟨rfl, hne⟩
      · exact hw.peers id h
      · exact hfrom.resolve_left hne
    | expire now => exact hw.peers id (mem_ids_expire hi.disc hd hid)
  | update now =>
    obtain rfl := Option.some.inj hs
    refine ⟨hw.peers, ?_⟩
    intro id hid
    rcases (hi.ready (fits_of_within hnodes hi hw)).tracked.mp hid with h | h
    · rw [snapshot_eq_entries hi] at h
      exact hw.peers id h
    · exact hw.tracked id h

/-- One step keeps LOST peers in safe state exactly if it does not clear
the flag early. -/
theorem lostIsSafe_step_iff {nodes : List NodeId} (hnodes : nodes.length ≤ k.discoveryMaxPeers)
    {a : NodeAct} (hi : NodeInv k me s) (hw : Within nodes s) (hp : LostIsSafe s)
    (hs : nodeStep k me s a = some s') : LostIsSafe s' ↔ NoEarlyClear k s a := by
  cases a with
  | discovery a =>
    obtain ⟨d, _, rfl⟩ := Option.map_eq_some_iff.mp hs
    exact iff_of_true hp trivial
  | update now => exact lostIsSafe_update_iff now hi hp (fits_of_within hnodes hi hw) hs

theorem within_init {nodes : List NodeId} : Within nodes (nodeMachine k me).init := by
  constructor
  · have hnil : (PeerTable.empty k.discoveryMaxPeers).entries = [] := by
      simp [PeerTable.entries, PeerTable.empty]
    simp [nodeMachine, discoveryMachine, PeerTable.ids, hnil]
  · show ∀ id ∈ trackedIds (ceellHealthRegisterCb (ceellHealthInit k)), id ∈ nodes
    rw [trackedIds_init]
    exact fun id h => absurd h List.not_mem_nil

theorem lostIsSafe_init : LostIsSafe (nodeMachine k me).init := by
  rintro ⟨id, hid, _⟩
  have hid' : id ∈ trackedIds (ceellHealthRegisterCb (ceellHealthInit k)) := hid
  rw [trackedIds_init] at hid'
  exact absurd hid' List.not_mem_nil

end Node

/-- **Over every run** of at most `CONFIG_CEELL_DISCOVERY_MAX_PEERS` nodes,
the node is in safe state after every step that leaves a tracked peer
LOST, exactly if no update clears the flag early. -/
theorem lostIsSafe_iff_noEarlyClear (k : Kconfig) (me : Identity) (nodes : List NodeId)
    (hnodes : nodes.length ≤ k.discoveryMaxPeers) (as : List NodeAct)
    (hfrom : ∀ a ∈ as, a.From me nodes) (t : NodeState k.discoveryMaxPeers)
    (hrun : (nodeMachine k me).run as = some t) :
    (∀ u ∈ (nodeMachine k me).visited (nodeMachine k me).init as, LostIsSafe u) ↔
      (nodeMachine k me).AllSteps (NoEarlyClear k) (nodeMachine k me).init as :=
  Machine.forall_visited_iff_allSteps (I := fun s => NodeInv k me s ∧ Within nodes s)
    (fun _ _ _ ha hi hs => ⟨nodeInv_step hi.1 hs, within_step hnodes ha hi.1 hi.2 hs⟩)
    (fun _ _ _ _ hi hp hs => lostIsSafe_step_iff hnodes hi.1 hi.2 hp hs)
    as _ t hfrom ⟨nodeInv_init, within_init⟩ lostIsSafe_init hrun

/-- An announcement that carries nothing but its node id. -/
def hello (now : Int) (id : Int) : NodeAct :=
  .discovery (.announce now ⟨id, none, none, none, none⟩)

/-- Nodes 1 and 2 are both LOST at 5000; node 2 is back at 5500. -/
def earlyClear : List NodeAct :=
  [hello 0 1, hello 0 2, .update 5000, hello 5500 2, .update 5500]

/-- The recovery of node 2 takes the node out of safe state, node 1 being
LOST. -/
theorem earlyClear_not_safe :
    (∀ a ∈ earlyClear, a.From ⟨7⟩ [1, 2]) ∧
    ∃ t, (nodeMachine {} ⟨7⟩).run earlyClear = some t ∧
      ceellHealthGetState t.health 1 = .lost ∧ ¬ LostIsSafe t := by
  obtain ⟨t, ht⟩ : ∃ t, (nodeMachine {} ⟨7⟩).run earlyClear = some t :=
    Option.isSome_iff_exists.mp (by decide)
  have hend : ((nodeMachine {} ⟨7⟩).run earlyClear).map (fun t =>
      (ceellHealthGetState t.health 1, trackedIds t.health, ceellSafeStateActive t.safe))
        = some (.lost, [1, 2], false) := by decide
  simp only [ht, Option.map_some, Option.some.injEq, Prod.mk.injEq] at hend
  obtain ⟨hlost, htracked, hoff⟩ := hend
  refine ⟨by decide, t, ht, hlost, ?_⟩
  intro h
  have := h ⟨1, by simp [htracked], hlost⟩
  rw [hoff] at this
  cases this

/-- Nodes 1 and 2 are LOST at 5000. Node 1 comes back by way of DEGRADED,
and node 2, the last that is LOST, makes the edge that clears. -/
def lateClear : List NodeAct :=
  [hello 0 1, hello 0 2, .update 5000, hello 5500 1, .update 7000, hello 7100 1, hello 7100 2,
   .update 7200]

/-- No update clears early, and the node is in safe state up to the last. -/
theorem lostIsSafe_iff_lateClear :
    (nodeMachine {} ⟨7⟩).AllSteps (NoEarlyClear {}) (nodeMachine {} ⟨7⟩).init lateClear ∧
      (∀ u ∈ (nodeMachine {} ⟨7⟩).visited (nodeMachine {} ⟨7⟩).init lateClear, LostIsSafe u) ∧
      ((nodeMachine {} ⟨7⟩).visited (nodeMachine {} ⟨7⟩).init lateClear).map
          (fun u => ceellSafeStateActive u.safe) =
        [false, false, true, true, true, true, true, false] := by
  obtain ⟨t, ht⟩ : ∃ t, (nodeMachine {} ⟨7⟩).run lateClear = some t :=
    Option.isSome_iff_exists.mp (by decide +kernel)
  have hsafe : ∀ u ∈ (nodeMachine {} ⟨7⟩).visited (nodeMachine {} ⟨7⟩).init lateClear,
      LostIsSafe u := by
    decide +kernel
  have hiff := lostIsSafe_iff_noEarlyClear {} ⟨7⟩ [1, 2] (by decide) lateClear (by decide) t ht
  exact ⟨hiff.mp hsafe, hsafe, by decide +kernel⟩

/-- **Over every run**, after every step each peer the last update read is
tracked in the state `compute_state` gives, exactly if no update read more
new peers than the health table had slots left. -/
theorem monitored_iff_fits (k : Kconfig) (me : Identity) (as : List NodeAct)
    (t : NodeState k.discoveryMaxPeers) (hrun : (nodeMachine k me).run as = some t) :
    (∀ u ∈ (nodeMachine k me).visited (nodeMachine k me).init as, Monitored k u) ↔
      (nodeMachine k me).AllSteps UpdateFits (nodeMachine k me).init as :=
  Machine.forall_visited_iff_allSteps (A := fun _ => True)
    (fun _ _ _ _ hi hs => nodeInv_step hi hs)
    (fun _ _ _ _ hi hp hs => monitored_step_iff hi hp hs)
    as _ t (fun _ _ => trivial) nodeInv_init (by simp [Monitored, nodeMachine]) hrun

/-- Eight nodes come and go, then a ninth announces itself. -/
def turnover : List NodeAct :=
  [hello 0 1, hello 0 2, hello 0 3, hello 0 4, hello 0 5, hello 0 6, hello 0 7, hello 0 8,
   .update 0, .discovery (.expire 6000), hello 6000 9, .update 6000]

/-- The ninth node is live, alone in the discovery table, and not
monitored. -/
theorem turnover_not_monitored :
    ∃ t, (nodeMachine {} ⟨100⟩).run turnover = some t ∧ t.disc.table.ids = [9] ∧
      ¬ Monitored {} t := by
  obtain ⟨t, ht⟩ : ∃ t, (nodeMachine {} ⟨100⟩).run turnover = some t :=
    Option.isSome_iff_exists.mp (by decide)
  have hend : ((nodeMachine {} ⟨100⟩).run turnover).map (fun t =>
      (t.disc.table.ids, t.lastRead.map (·.nodeId), decide (9 ∈ trackedIds t.health)))
        = some ([9], [9], false) := by decide
  simp only [ht, Option.map_some, Option.some.injEq, Prod.mk.injEq, decide_eq_false_iff_not] at hend
  obtain ⟨hids, hread, hnot⟩ := hend
  refine ⟨t, ht, hids, fun h => hnot ?_⟩
  obtain ⟨p, hp, hpid⟩ :=
    List.mem_map.mp (by simp [hread] : (9 : NodeId) ∈ t.lastRead.map (·.nodeId))
  exact hpid ▸ (h p hp).1

/-- Node 1 expires and comes back, to the slot that it had, while node 2
stays. -/
def comeAndGo : List NodeAct :=
  [hello 0 1, hello 0 2, .update 500, hello 3000 2, .update 5000, .discovery (.expire 5500),
   .update 5600, hello 5700 1, .update 5800]

/-- Every update fits, and the peers it reads are in their states. -/
theorem monitored_iff_comeAndGo :
    (nodeMachine {} ⟨7⟩).AllSteps UpdateFits (nodeMachine {} ⟨7⟩).init comeAndGo ∧
      (∀ u ∈ (nodeMachine {} ⟨7⟩).visited (nodeMachine {} ⟨7⟩).init comeAndGo, Monitored {} u) ∧
      ((nodeMachine {} ⟨7⟩).run comeAndGo).map
          (fun t => ([1, 2].map (ceellHealthGetState t.health), t.lastRead.map (·.nodeId))) =
        some ([.healthy, .degraded], [2, 1]) := by
  obtain ⟨t, ht⟩ : ∃ t, (nodeMachine {} ⟨7⟩).run comeAndGo = some t :=
    Option.isSome_iff_exists.mp (by decide +kernel)
  have hfits : (nodeMachine {} ⟨7⟩).AllSteps UpdateFits (nodeMachine {} ⟨7⟩).init comeAndGo := by
    decide +kernel
  exact ⟨hfits, (monitored_iff_fits {} ⟨7⟩ comeAndGo t ht).mpr hfits, by decide +kernel⟩

end Ceell
