/-
Ceell.Core.HealthHistory — the callbacks of the health monitor over a run
of updates, node by node.

An update makes at most one callback for a node, the edge between the
states it finds the node in and leaves it in (`update_edge`). So the
callbacks of a node, over any run, are a path from HEALTHY to the state
that `ceell_health_get_state` returns; `healthHistory_ok` has that next to
what holds of the table.

The snapshots are arbitrary, but for their distinct ids: `historyMachine`
has the monitor alone, without the discovery table.
-/
import Ceell.Main

namespace Ceell.Core

open Ceell.Lib Ceell.Lib.SlotArray Ceell.Network

/-! ## Runs -/

/-- The monitor, all callbacks so far, and the time and snapshot of the
last update. -/
structure HealthHistory where
  monitor : HealthMonitor
  calls : List HealthCall
  last : Option (Int × List Peer)

/-- Updates over snapshots with distinct ids, a callback registered. -/
def historyMachine (k : Kconfig) : Machine HealthHistory (Int × List Peer) where
  init := ⟨ceellHealthRegisterCb (ceellHealthInit k), [], none⟩
  step s u :=
    if (u.2.map (·.nodeId)).Nodup then
      let r := ceellHealthUpdate k u.1 u.2 s.monitor
      some ⟨r.1, s.calls ++ r.2, some u⟩
    else none

/-- The callbacks for a node. -/
def callsOf (id : NodeId) (calls : List HealthCall) : List HealthCall :=
  calls.filter fun c => c.nodeId = id

/-- The callbacks are edges that lead from one state to another, each from
where the one before has led. -/
def CallPath : HealthState → List HealthCall → HealthState → Prop
  | s, [], t => s = t
  | s, c :: cs, t => c.oldState = s ∧ c.oldState ≠ c.newState ∧ CallPath c.newState cs t

/-- The table and the callbacks are as the documentation of the monitor has
them. -/
structure HistoryOk (k : Kconfig) (s : HealthHistory) : Prop where
  distinct : (trackedIds s.monitor).Nodup
  absent : ∀ u ∈ s.last, ∀ id ∈ trackedIds s.monitor, id ∉ u.2.map (·.nodeId) →
    ceellHealthGetState s.monitor id = .lost
  present : ∀ u ∈ s.last, ∀ p ∈ u.2, p.nodeId ∈ trackedIds s.monitor →
    ceellHealthGetState s.monitor p.nodeId = computeState k u.1 p.lastSeen
  path : ∀ id ∈ trackedIds s.monitor,
    CallPath .healthy (callsOf id s.calls) (ceellHealthGetState s.monitor id)
  latest : ∀ id, ∀ c ∈ (callsOf id s.calls).getLast?,
    c.newState = ceellHealthGetState s.monitor id
  silent : ∀ id, id ∉ trackedIds s.monitor → callsOf id s.calls = []

/-! ## Paths -/

theorem CallPath.append {s t u : HealthState} {cs ds : List HealthCall} (h : CallPath s cs t)
    (h' : CallPath t ds u) : CallPath s (cs ++ ds) u := by
  induction cs generalizing s with
  | nil =>
    obtain rfl : s = t := h
    exact h'
  | cons c cs ih =>
    obtain ⟨hold, hne, hrest⟩ := h
    exact ⟨hold, hne, ih hrest⟩

/-- The last callback of a path leads to its end. -/
theorem CallPath.last {s t : HealthState} {cs : List HealthCall} {c : HealthCall}
    (h : CallPath s (cs ++ [c]) t) : c.newState = t := by
  induction cs generalizing s with
  | nil => exact h.2.2
  | cons d cs ih => exact ih h.2.2

theorem callsOf_append (id : NodeId) (cs ds : List HealthCall) :
    callsOf id (cs ++ ds) = callsOf id cs ++ callsOf id ds :=
  List.filter_append _ _

/-! ## One update -/

section Update

variable {k : Kconfig} {now : Int} {hm : HealthMonitor} {snapshot : List Peer} {id : NodeId}

theorem path_refreshHealth (k : Kconfig) (now lastSeen : Int) (h : PeerHealth) :
    CallPath h.state (refreshHealth k now lastSeen h).2.toList (computeState k now lastSeen) := by
  by_cases hne : computeState k now lastSeen = h.state
  · simp [refreshHealth, hne, CallPath]
  · rw [refreshHealth_call.mpr ⟨hne, rfl⟩]
    exact ⟨rfl, Ne.symm hne, rfl⟩

theorem path_expireHealth {h : PeerHealth} (hact : h.active = true) :
    CallPath h.state (expireHealth (h, false)).2.toList .lost := by
  by_cases hlost : h.state = .lost
  · simp [expireHealth, hlost, CallPath]
  · rw [expireHealth_call.mpr ⟨hact, rfl, hlost, rfl⟩]
    exact ⟨rfl, hlost, rfl⟩

/-- Any update is ready for the peers it serves, and is their update. -/
theorem ready_servedPeers (k : Kconfig) (now : Int) (hinit : hm.initialized = true)
    (hcb : hm.cbRegistered = true) (hnd : (trackedIds hm).Nodup)
    (hsnap : (snapshot.map (·.nodeId)).Nodup) :
    UpdateReady hm (servedPeers hm snapshot) ∧
      ceellHealthUpdate k now (servedPeers hm snapshot) hm
        = ceellHealthUpdate k now snapshot hm := by
  obtain ⟨hnd', hfits, hsame⟩ := ceellHealthUpdate_served k now hnd hsnap
  exact ⟨⟨hinit, hcb, hnd, hnd', hfits⟩, hsame⟩

/-- The slot of a node when the second loop comes to it. -/
theorem lookup_discovered (k : Kconfig) (now : Int) (hr : UpdateReady hm snapshot) :
    (keys slotKey (snapshot.foldl (updateDiscovered k now) (startLoop hm)).slots).Nodup ∧
    (∀ p ∈ snapshot,
      lookup slotKey (snapshot.foldl (updateDiscovered k now) (startLoop hm)).slots p.nodeId
        = some ((refreshHealth k now p.lastSeen (healthOf hm.table p.nodeId)).1, true)) ∧
    (∀ id, id ∉ snapshot.map (·.nodeId) →
      lookup slotKey (snapshot.foldl (updateDiscovered k now) (startLoop hm)).slots id
        = (lookup PeerHealth.key hm.table id).map fun h => (h, false)) := by
  have hnd : (keys slotKey (startLoop hm).slots).Nodup := by
    rw [keys_startLoop]
    exact hr.tracked_nodup
  have hfit : LoopFits (startLoop hm) snapshot := by
    unfold LoopFits
    rw [keys_startLoop, startLoop, List.length_map]
    exact hr.fits
  obtain ⟨hpeers, hothers, _⟩ := discovered_spec k now snapshot (startLoop hm) hnd
    hr.snapshot_nodup hfit
  simp only [entryOf_startLoop, lookup_startLoop] at hpeers hothers
  exact ⟨(discovered_keeps k now snapshot (startLoop hm) hnd).2.1, hpeers, hothers⟩

/-- The callbacks for a node, loop by loop. -/
theorem callsOf_update (k : Kconfig) (now : Int) (hr : UpdateReady hm snapshot) (id : NodeId) :
    callsOf id (ceellHealthUpdate k now snapshot hm).2
      = ((lookup (fun p : Peer => some p.nodeId) snapshot id).bind fun p =>
          (refreshHealth k now p.lastSeen (healthOf hm.table p.nodeId)).2).toList
        ++ ((lookup slotKey (snapshot.foldl (updateDiscovered k now) (startLoop hm)).slots id).bind
          fun s => (expireHealth s).2).toList := by
  have hkeys : keys (fun p : Peer => some p.nodeId) snapshot = snapshot.map (·.nodeId) :=
    congrFun List.filterMap_eq_map' _
  rw [(hr.spec k now).2.2, callsOf_append]
  congr 1
  · refine filter_filterMap_eq (fun p c hc => ?_) ?_ id
    · obtain ⟨_, rfl⟩ := refreshHealth_call.mp hc
      rw [(key_eq_some.mp (key_healthOf hm.table p.nodeId)).2]
    · rw [hkeys]
      exact hr.snapshot_nodup
  · refine filter_filterMap_eq (fun s c hc => ?_) (lookup_discovered k now hr).1 id
    obtain ⟨hact, _, _, rfl⟩ := expireHealth_call.mp hc
    exact key_eq_some.mpr ⟨hact, rfl⟩

/-- A node that the snapshot lacks is left to the second loop. -/
theorem callsOf_dropped (k : Kconfig) (now : Int) (hr : UpdateReady hm snapshot)
    (hid : id ∉ snapshot.map (·.nodeId)) :
    callsOf id (ceellHealthUpdate k now snapshot hm).2
      = ((lookup PeerHealth.key hm.table id).bind fun h => (expireHealth (h, false)).2).toList := by
  have hlook : lookup (fun p : Peer => some p.nodeId) snapshot id = none := by
    rw [lookup_eq_none, keys, List.filterMap_eq_map']
    exact hid
  rw [callsOf_update k now hr id, hlook, (lookup_discovered k now hr).2.2 id hid, Option.bind_none,
    Option.toList_none, List.nil_append, Option.bind_map]
  rfl

/-- **The callbacks of an update for one node**: the edge between the states
before and after, if those differ. -/
theorem update_edge (k : Kconfig) (now : Int) (hr : UpdateReady hm snapshot) (id : NodeId) :
    CallPath (stateBefore hm id) (callsOf id (ceellHealthUpdate k now snapshot hm).2)
      (stateBefore (ceellHealthUpdate k now snapshot hm).1 id) := by
  by_cases hid : id ∈ snapshot.map (·.nodeId)
  · obtain ⟨p, hp, rfl⟩ := List.mem_map.mp hid
    have hlook : lookup (fun p : Peer => some p.nodeId) snapshot p.nodeId = some p := by
      refine lookup_of_mem ?_ hp rfl
      rw [keys, List.filterMap_eq_map']
      exact hr.snapshot_nodup
    have hafter : stateBefore (ceellHealthUpdate k now snapshot hm).1 p.nodeId
        = computeState k now p.lastSeen := by
      rw [stateBefore_of_lookup ((hr.spec k now).1 p hp), state_refreshHealth]
    have hpassed : (expireHealth
        ((refreshHealth k now p.lastSeen (healthOf hm.table p.nodeId)).1, true)).2 = none := by
      simp [expireHealth]
    rw [callsOf_update k now hr, (lookup_discovered k now hr).2.1 p hp, hlook, hafter,
      Option.bind_some, Option.bind_some, hpassed, Option.toList_none, List.append_nil]
    exact path_refreshHealth k now p.lastSeen (healthOf hm.table p.nodeId)
  · have hgone := (hr.spec k now).2.1 id hid
    rw [callsOf_dropped k now hr hid]
    cases hl : lookup PeerHealth.key hm.table id with
    | none =>
      rw [hl, Option.map_none] at hgone
      simp only [stateBefore, healthOf, hl, hgone]
      rfl
    | some h =>
      rw [hl, Option.map_some] at hgone
      have hact := (key_eq_some.mp (lookup_some hl).2).1
      rw [stateBefore_of_lookup hl, stateBefore_of_lookup hgone, state_expireHealth hact,
        Option.bind_some]
      exact path_expireHealth hact

end Update

/-! ## All updates -/

/-- What every update keeps. The callbacks of each node lead from HEALTHY to
the state in which the next update finds it, tracked or not. -/
structure HistoryInv (s : HealthHistory) : Prop where
  initialized : s.monitor.initialized = true
  registered : s.monitor.cbRegistered = true
  distinct : (trackedIds s.monitor).Nodup
  path : ∀ id, CallPath .healthy (callsOf id s.calls) (stateBefore s.monitor id)
  silent : ∀ id, id ∉ trackedIds s.monitor → callsOf id s.calls = []

section Runs

variable {k : Kconfig} {s s' : HealthHistory} {u : Int × List Peer}

theorem historyInv_init : HistoryInv (historyMachine k).init where
  initialized := rfl
  registered := rfl
  distinct := by
    show (trackedIds (ceellHealthRegisterCb (ceellHealthInit k))).Nodup
    rw [trackedIds_init]
    exact List.nodup_nil
  path := by
    intro id
    rcases stateBefore_cases (historyMachine k).init.monitor id with ⟨htracked, _⟩ | ⟨_, h, _⟩
    · have htracked' : id ∈ trackedIds (ceellHealthRegisterCb (ceellHealthInit k)) := htracked
      rw [trackedIds_init] at htracked'
      cases htracked'
    · exact h.symm
  silent := fun _ _ => rfl

theorem historyStep_cases (hs : (historyMachine k).step s u = some s') :
    (u.2.map (·.nodeId)).Nodup ∧
      s'.monitor = (ceellHealthUpdate k u.1 u.2 s.monitor).1 ∧
      s'.calls = s.calls ++ (ceellHealthUpdate k u.1 u.2 s.monitor).2 ∧ s'.last = some u := by
  simp only [historyMachine] at hs
  split at hs
  · rename_i hsnap
    obtain rfl := Option.some.inj hs
    exact ⟨hsnap, rfl, rfl, rfl⟩
  · cases hs

theorem historyInv_step (hi : HistoryInv s) (hs : (historyMachine k).step s u = some s') :
    HistoryInv s' := by
  obtain ⟨hsnap, hmonitor, hcalls, _⟩ := historyStep_cases hs
  obtain ⟨_, hnd, hkept, hinit, hcb⟩ :=
    ceellHealthUpdate_keeps k u.1 u.2 s.monitor hi.distinct
  obtain ⟨hr, hsame⟩ := ready_servedPeers k u.1 hi.initialized hi.registered hi.distinct hsnap
  have hpath : ∀ id, CallPath .healthy (callsOf id s'.calls) (stateBefore s'.monitor id) := by
    intro id
    rw [hcalls, hmonitor, callsOf_append, ← hsame]
    exact (hi.path id).append (update_edge k u.1 hr id)
  constructor
  · rw [hmonitor, hinit]
    exact hi.initialized
  · rw [hmonitor, hcb]
    exact hi.registered
  · rw [hmonitor]
    exact hnd
  · exact hpath
  · intro id hid
    rw [hmonitor] at hid
    have hbefore : id ∉ trackedIds s.monitor := fun h => hid (hkept id h)
    rw [hcalls, callsOf_append, hi.silent id hbefore, List.nil_append]
    have hserved : id ∉ (servedPeers s.monitor u.2).map (·.nodeId) := by
      intro h
      rw [← hsame] at hid
      exact hid (hr.tracked.mpr (Or.inl h))
    rw [← hsame, callsOf_dropped k u.1 hr hserved, lookup_eq_none.mpr hbefore]
    rfl

/-- A tracked node has the state in which the next update finds it. -/
theorem stateBefore_of_tracked {hm : HealthMonitor} {id : NodeId} (hid : id ∈ trackedIds hm) :
    stateBefore hm id = ceellHealthGetState hm id := by
  rcases stateBefore_cases hm id with ⟨_, h⟩ | ⟨h, _⟩
  · exact h
  · exact absurd hid h

/-- The last callback for a node has the state that it is in. -/
theorem HistoryInv.latest (hi : HistoryInv s) (id : NodeId) :
    ∀ c ∈ (callsOf id s.calls).getLast?, c.newState = ceellHealthGetState s.monitor id := by
  intro c hc
  obtain ⟨cs, hcs⟩ := List.getLast?_eq_some_iff.mp hc
  by_cases hid : id ∈ trackedIds s.monitor
  · have hpath := hi.path id
    rw [hcs, stateBefore_of_tracked hid] at hpath
    exact hpath.last
  · rw [hi.silent id hid] at hc
    cases hc

/-- What holds after an update. -/
theorem historyOk_step (hi : HistoryInv s) (hs : (historyMachine k).step s u = some s') :
    HistoryOk k s' := by
  have hi' := historyInv_step hi hs
  obtain ⟨hsnap, hmonitor, _, hlast⟩ := historyStep_cases hs
  obtain ⟨hr, hsame⟩ := ready_servedPeers k u.1 hi.initialized hi.registered hi.distinct hsnap
  constructor
  · exact hi'.distinct
  · intro v hv id _ hid
    rw [hlast, Option.mem_some_iff] at hv
    subst hv
    rw [hmonitor, ← hsame]
    refine hr.dropped fun h => hid ?_
    exact ((served_sublist _ _).map (·.nodeId)).subset h
  · intro v hv p hp htracked
    rw [hlast, Option.mem_some_iff] at hv
    subst hv
    rw [hmonitor, ← hsame] at htracked ⊢
    have hserved : p ∈ servedPeers s.monitor u.2 := by
      rcases hr.tracked.mp htracked with h | h
      · obtain ⟨q, hq, hqid⟩ := List.mem_map.mp h
        have hmem := (served_sublist _ _).subset hq
        rwa [List.inj_on_of_nodup_map hsnap hmem hp hqid] at hq
      · exact mem_served_of_tracked hp h
    exact (hr.refreshed hserved).2
  · intro id hid
    rw [← stateBefore_of_tracked hid]
    exact hi'.path id
  · exact hi'.latest
  · exact hi'.silent

theorem historyOk_init : HistoryOk k (historyMachine k).init := by
  have hi : HistoryInv (historyMachine k).init := historyInv_init
  constructor
  · exact hi.distinct
  · rintro u ⟨⟩
  · rintro u ⟨⟩
  · intro id hid
    rw [← stateBefore_of_tracked hid]
    exact hi.path id
  · exact hi.latest
  · exact hi.silent

end Runs

/-- **Over every run** of updates over any snapshots with distinct ids: the
tracked ids are distinct; a tracked peer is in the state its age calls for,
or LOST if the last snapshot lacks it; and the callbacks for each tracked
node lead, edge by edge, from HEALTHY to its state. -/
theorem healthHistory_ok (k : Kconfig) (s : HealthHistory) (hr : (historyMachine k).Reachable s) :
    HistoryOk k s := by
  have h := Machine.Reachable.induct (P := fun s => HistoryInv s ∧ HistoryOk k s)
    ⟨historyInv_init, historyOk_init⟩
    (fun s u s' h hs => ⟨historyInv_step h.1 hs, historyOk_step h.1 hs⟩) hr
  exact h.2

/-- Node 1 grows old, disappears and comes back. -/
def returningPeer : List (Int × List Peer) :=
  [(0, [{ Peer.zero with nodeId := 1 }]), (2500, [{ Peer.zero with nodeId := 1 }]), (9000, []),
   (9500, [{ Peer.zero with nodeId := 1, lastSeen := 9400 }])]

theorem healthHistory_ok_returningPeer :
    ∃ s, (historyMachine {}).run returningPeer = some s ∧
      s.calls = [⟨1, .healthy, .degraded⟩, ⟨1, .degraded, .lost⟩, ⟨1, .lost, .healthy⟩] ∧
      HistoryOk {} s := by
  have hcalls : ((historyMachine {}).run returningPeer).map (·.calls)
      = some [⟨1, .healthy, .degraded⟩, ⟨1, .degraded, .lost⟩, ⟨1, .lost, .healthy⟩] := by
    decide +kernel
  obtain ⟨s, hs, hend⟩ := Option.map_eq_some_iff.mp hcalls
  exact ⟨s, hs, hend, healthHistory_ok {} s ⟨returningPeer, hs⟩⟩

end Ceell.Core
