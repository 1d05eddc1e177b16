/-
Ceell.Core.HealthMonitor — `ceell/core/health_monitor.c`: the health
table, the update that drives each peer through HEALTHY, DEGRADED,
CRITICAL and LOST, and the callbacks it makes.

The table is the source's array of slots with an `active` flag. Once a
slot is taken it stays taken: nothing in the module clears `active`
again. As a map from node ids to entries the table is read through
`Lib.SlotArray`, whose lemmas say what the writes of the two loops do.

* `ceellHealthUpdate_keeps` holds of every update: the array keeps its
  size and its ids stay distinct and are never dropped.
* `ceellHealthUpdate_spec` holds of an update whose snapshot `Fits`: every
  peer of the snapshot has the entry `refreshHealth` makes, every other
  tracked peer is LOST, and the callbacks are the edges of the peers in
  snapshot order followed by the peers that dropped out.
* `fits_of_tracked` is the converse: a snapshot all of whose peers are
  tracked afterwards did fit.
* `ceellHealthUpdate_served` reduces any other update to one that fits:
  the peers that get no slot are passed by.
-/
import Ceell.Network.Discovery
import Ceell.Lib.SlotArray

namespace Ceell.Core

open Ceell.Lib Ceell.Lib.SlotArray Ceell.Network

/-! ## The data -/

/-- `enum ceell_health_state`. -/
inductive HealthState where
  | healthy
  | degraded
  | critical
  | lost
  deriving DecidableEq, Repr

/-- `struct ceell_peer_health`. -/
structure PeerHealth where
  nodeId : NodeId
  state : HealthState
  lastSeen : Int
  missedCount : Int
  active : Bool
  deriving DecidableEq

/-- One call of the registered callback. -/
structure HealthCall where
  nodeId : NodeId
  oldState : HealthState
  newState : HealthState
  deriving DecidableEq

/-- `health_table`, whether `health_cb` is set, `health_initialized`. -/
structure HealthMonitor where
  table : List PeerHealth
  cbRegistered : Bool
  initialized : Bool

/-- A slot after `memset`. -/
def PeerHealth.zero : PeerHealth := ⟨0, .healthy, 0, 0, false⟩

/-- A slot as `find_or_alloc` hands it out for a new node. -/
def PeerHealth.fresh (id : NodeId) : PeerHealth := ⟨id, .healthy, 0, 0, true⟩

/-- The node a slot is in use for. -/
def PeerHealth.key (h : PeerHealth) : Option NodeId := if h.active then some h.nodeId else none

/-! ## The operations -/

/-- `ceell_health_init`. -/
def ceellHealthInit (k : Kconfig) : HealthMonitor :=
  ⟨List.replicate k.discoveryMaxPeers .zero, false, true⟩

/-- `ceell_health_register_cb` with a callback. -/
def ceellHealthRegisterCb (hm : HealthMonitor) : HealthMonitor := { hm with cbRegistered := true }

/-- `find_or_alloc`: the index of the slot and the entry the caller finds
in it. -/
def findOrAlloc (table : List PeerHealth) (id : NodeId) : Option (Nat × PeerHealth) :=
  match allocIdx PeerHealth.key table id with
  | some i =>
      match table[i]? with
      | some h => some (i, if h.active then h else .fresh id)
      | none => none
  | none => none -- table full

/-- `compute_state`. -/
def computeState (k : Kconfig) (now lastSeen : Int) : HealthState :=
  let elapsed := now - lastSeen
  let interval : Int := k.discoveryIntervalMs
  if elapsed ≤ interval then .healthy
  else
    let missed := toInt32 (elapsed.tdiv interval) - 1
    if missed ≤ 2 then .degraded
    else if elapsed ≥ k.peerTimeoutMs then .lost
    else .critical

/-- The missed count stored with a new state. -/
def missedCount (k : Kconfig) (now lastSeen : Int) (state : HealthState) : Int :=
  if state = .healthy then 0
  else
    let missed := toInt32 ((now - lastSeen).tdiv k.discoveryIntervalMs) - 1
    if missed < 0 then 0 else missed

/-- The body of the first loop of `ceell_health_update`, once the slot is
found: the entry written back and the callback made. -/
def refreshHealth (k : Kconfig) (now lastSeen : Int) (h : PeerHealth) :
    PeerHealth × Option HealthCall :=
  let newState := computeState k now lastSeen
  if newState ≠ h.state then
    ({ h with
        state := newState
        lastSeen := lastSeen
        missedCount := missedCount k now lastSeen newState },
      some ⟨h.nodeId, h.state, newState⟩)
  else ({ h with lastSeen := lastSeen }, none)

/-- The locals of `ceell_health_update`: every slot next to its
`peer_found` flag, and the callbacks made so far. -/
structure UpdateLoop where
  slots : List (PeerHealth × Bool)
  calls : List HealthCall

/-- One pass of the first loop. -/
def updateDiscovered (k : Kconfig) (now : Int) (st : UpdateLoop) (p : Peer) : UpdateLoop :=
  match findOrAlloc (st.slots.map Prod.fst) p.nodeId with
  | none => st
  | some (idx, h) =>
      let r := refreshHealth k now p.lastSeen h
      { slots := st.slots.set idx (r.1, true)
        calls := st.calls ++ r.2.toList }

/-- One pass of the second loop: a tracked peer that was not found is
LOST, and the callback is made if it was not LOST before. -/
def expireHealth (s : PeerHealth × Bool) : PeerHealth × Option HealthCall :=
  if s.1.active && !s.2 then
    if s.1.state ≠ .lost then
      ({ s.1 with state := .lost, missedCount := -1 }, some ⟨s.1.nodeId, s.1.state, .lost⟩)
    else (s.1, none)
  else (s.1, none)

/-- `ceell_health_update` at uptime `now`, on the peers it copied from the
discovery table: the monitor afterwards and the callbacks in order. -/
def ceellHealthUpdate (k : Kconfig) (now : Int) (snapshot : List Peer) (hm : HealthMonitor) :
    HealthMonitor × List HealthCall :=
  if hm.initialized then
    let st := snapshot.foldl (updateDiscovered k now) ⟨hm.table.map fun h => (h, false), []⟩
    let expired := st.slots.map expireHealth
    ({ hm with table := expired.map Prod.fst },
      if hm.cbRegistered then st.calls ++ expired.filterMap Prod.snd else [])
  else (hm, [])

/-- `ceell_health_get_state`. -/
def ceellHealthGetState (hm : HealthMonitor) (id : NodeId) : HealthState :=
  match lookup PeerHealth.key hm.table id with
  | some h => h.state
  | none => .lost

/-- `ceell_health_get_table` into an array of `maxCount` entries: those it
writes, their number being the result. -/
def ceellHealthGetTable (maxCount : Int) (hm : HealthMonitor) : List PeerHealth :=
  if maxCount ≤ 0 then [] else (hm.table.filter (·.active)).take maxCount.toNat

/-! ## The table as a map -/

/-- The ids of the tracked peers. -/
def trackedIds (hm : HealthMonitor) : List NodeId := keys PeerHealth.key hm.table

/-- The entry of a peer as the update finds it: its own, or a new one. -/
def healthOf (table : List PeerHealth) (id : NodeId) : PeerHealth :=
  (lookup PeerHealth.key table id).getD (.fresh id)

/-- The peers of the snapshot that need a new slot are no more than the
free slots. -/
def Fits (hm : HealthMonitor) (snapshot : List Peer) : Prop :=
  (trackedIds hm).length + (snapshot.filter fun p => p.nodeId ∉ trackedIds hm).length
    ≤ hm.table.length

instance (hm : HealthMonitor) (snapshot : List Peer) : Decidable (Fits hm snapshot) := by
  unfold Fits; infer_instance

theorem key_eq_some {h : PeerHealth} {id : NodeId} :
    h.key = some id ↔ h.active = true ∧ h.nodeId = id := by
  cases ha : h.active <;> simp [PeerHealth.key, ha]

@[simp] theorem key_refreshHealth (k : Kconfig) (now lastSeen : Int) (h : PeerHealth) :
    (refreshHealth k now lastSeen h).1.key = h.key := by
  simp only [refreshHealth]
  split <;> rfl

theorem state_refreshHealth (k : Kconfig) (now lastSeen : Int) (h : PeerHealth) :
    (refreshHealth k now lastSeen h).1.state = computeState k now lastSeen := by
  simp only [refreshHealth]
  split
  · rfl
  · rename_i h'
    exact (not_not.mp h').symm

/-- The callback of a refreshed peer is the edge between its two states. -/
theorem refreshHealth_call {k : Kconfig} {now lastSeen : Int} {h : PeerHealth} {c : HealthCall} :
    (refreshHealth k now lastSeen h).2 = some c ↔
      computeState k now lastSeen ≠ h.state ∧
        c = ⟨h.nodeId, h.state, computeState k now lastSeen⟩ := by
  unfold refreshHealth
  by_cases hne : computeState k now lastSeen ≠ h.state
  · simp [hne, eq_comm]
  · simp [hne]

@[simp] theorem key_expireHealth (s : PeerHealth × Bool) : (expireHealth s).1.key = s.1.key := by
  simp only [expireHealth]
  split
  · split <;> rfl
  · rfl

/-- The entry found for a node has that node's key. -/
theorem key_healthOf (table : List PeerHealth) (id : NodeId) :
    (healthOf table id).key = some id := by
  unfold healthOf
  cases h : lookup PeerHealth.key table id with
  | none => rfl
  | some x => exact (lookup_some h).2

/-! ## The first loop -/

/-- The key of a slot next to its flag. -/
def slotKey (s : PeerHealth × Bool) : Option NodeId := s.1.key

/-- The entry of a peer in the running loop. -/
def entryOf (st : UpdateLoop) (id : NodeId) : PeerHealth := healthOf (st.slots.map Prod.fst) id

theorem findOrAlloc_none {st : UpdateLoop} {id : NodeId}
    (h : findOrAlloc (st.slots.map Prod.fst) id = none) :
    id ∉ keys slotKey st.slots ∧ (keys slotKey st.slots).length = st.slots.length := by
  unfold findOrAlloc at h
  rw [allocIdx_map] at h
  split at h
  · rename_i i hi
    obtain ⟨front, x, back, heq, hlen, _⟩ := allocIdx_split hi
    have hget : (st.slots.map Prod.fst)[i]? = some x.1 := by
      rw [heq, ← hlen]
      simp
    simp [hget] at h
  · rename_i hnone
    exact allocIdx_none hnone

theorem findOrAlloc_some {st : UpdateLoop} {id : NodeId} {i : Nat} {h : PeerHealth}
    (hnd : (keys slotKey st.slots).Nodup)
    (hf : findOrAlloc (st.slots.map Prod.fst) id = some (i, h)) :
    allocIdx slotKey st.slots id = some i ∧ h = entryOf st id := by
  unfold findOrAlloc at hf
  rw [allocIdx_map] at hf
  split at hf
  · rename_i j hj
    obtain ⟨front, x, back, heq, hlen, hx⟩ := allocIdx_split hj
    have hget : (st.slots.map Prod.fst)[j]? = some x.1 := by
      rw [heq, ← hlen]
      simp
    simp only [hget, Option.some.injEq, Prod.mk.injEq] at hf
    obtain ⟨rfl, rfl⟩ := hf
    refine ⟨hj, ?_⟩
    rw [entryOf, healthOf, lookup_map]
    rcases hx with ⟨hx, _⟩ | ⟨hx, hn⟩
    · -- the slot already belongs to the node
      have hlook := lookup_of_mem hnd (by simp [heq] : x ∈ st.slots) hx
      have hlook' : lookup (PeerHealth.key ∘ Prod.fst) st.slots id = some x := hlook
      rw [hlook', if_pos (key_eq_some.mp hx).1]
      rfl
    · -- a free slot, and the node is new
      have hlook : lookup (PeerHealth.key ∘ Prod.fst) st.slots id = none := lookup_eq_none.mpr hn
      have hact : x.1.active = false := by
        simpa [slotKey, PeerHealth.key] using hx
      rw [hlook, hact]
      rfl
  · cases hf

/-- **What one pass of the first loop does.** -/
theorem updateDiscovered_cases (k : Kconfig) (now : Int) {st : UpdateLoop} (p : Peer)
    (hnd : (keys slotKey st.slots).Nodup) :
    (updateDiscovered k now st p = st ∧ p.nodeId ∉ keys slotKey st.slots ∧
      (keys slotKey st.slots).length = st.slots.length) ∨
    ∃ i, allocIdx slotKey st.slots p.nodeId = some i ∧
      (updateDiscovered k now st p).slots
        = st.slots.set i ((refreshHealth k now p.lastSeen (entryOf st p.nodeId)).1, true) ∧
      (updateDiscovered k now st p).calls
        = st.calls ++ (refreshHealth k now p.lastSeen (entryOf st p.nodeId)).2.toList := by
  cases hf : findOrAlloc (st.slots.map Prod.fst) p.nodeId with
  | none => exact Or.inl ⟨by simp [updateDiscovered, hf], findOrAlloc_none hf⟩
  | some r =>
    obtain ⟨i, h⟩ := r
    obtain ⟨hi, rfl⟩ := findOrAlloc_some hnd hf
    exact Or.inr ⟨i, hi, by simp [updateDiscovered, hf], by simp [updateDiscovered, hf]⟩

theorem slotKey_refreshed (k : Kconfig) (now lastSeen : Int) (st : UpdateLoop) (id : NodeId) :
    slotKey ((refreshHealth k now lastSeen (entryOf st id)).1, true) = some id := by
  rw [slotKey, key_refreshHealth, entryOf, key_healthOf]

/-- What the first loop keeps, whether or not the table has room. -/
theorem discovered_keeps (k : Kconfig) (now : Int) (snapshot : List Peer) (st : UpdateLoop)
    (hnd : (keys slotKey st.slots).Nodup) :
    (snapshot.foldl (updateDiscovered k now) st).slots.length = st.slots.length ∧
    (keys slotKey (snapshot.foldl (updateDiscovered k now) st).slots).Nodup ∧
    (∀ id ∈ keys slotKey st.slots,
      id ∈ keys slotKey (snapshot.foldl (updateDiscovered k now) st).slots) := by
  induction snapshot generalizing st with
  | nil => exact ⟨rfl, hnd, fun _ h => h⟩
  | cons p rest ih =>
    rw [List.foldl_cons]
    rcases updateDiscovered_cases k now p hnd with ⟨hsame, _⟩ | ⟨i, hi, hslots, _⟩
    · rw [hsame]
      exact ih st hnd
    · have hkey := slotKey_refreshed k now p.lastSeen st p.nodeId
      have hnd' : (keys slotKey (updateDiscovered k now st p).slots).Nodup := by
        rw [hslots]
        exact nodup_write hi hkey hnd
      obtain ⟨h1, h2, h3⟩ := ih (updateDiscovered k now st p) hnd'
      refine ⟨by rw [h1, hslots, List.length_set], h2, fun id hid => h3 id ?_⟩
      rw [hslots]
      rcases keys_write hi hkey with ⟨_, hk⟩ | ⟨_, hk⟩
      · rw [hk]
        exact hid
      · exact hk.mem_iff.mpr (List.mem_cons_of_mem _ hid)

/-- Room for the new peers of a snapshot, in the running loop. -/
def LoopFits (st : UpdateLoop) (snapshot : List Peer) : Prop :=
  (keys slotKey st.slots).length
      + (snapshot.filter fun p => p.nodeId ∉ keys slotKey st.slots).length
    ≤ st.slots.length

/-- A write for the first peer of the snapshot leaves room for the rest. -/
theorem loopFits_write {st st' : UpdateLoop} {p : Peer} {rest : List Peer} {i : Nat}
    {y : PeerHealth × Bool} (hfit : LoopFits st (p :: rest))
    (hrest : ∀ q ∈ rest, q.nodeId ≠ p.nodeId)
    (hi : allocIdx slotKey st.slots p.nodeId = some i) (hy : slotKey y = some p.nodeId)
    (hslots : st'.slots = st.slots.set i y) : LoopFits st' rest := by
  unfold LoopFits at hfit ⊢
  rw [hslots, List.length_set]
  rcases keys_write hi hy with ⟨hin, hk⟩ | ⟨hnin, hk⟩
  · rw [List.filter_cons_of_neg (by simpa using hin)] at hfit
    rw [hk]
    exact hfit
  · rw [List.filter_cons_of_pos (by simpa using hnin), List.length_cons] at hfit
    have hsame : (rest.filter fun q => q.nodeId ∉ keys slotKey (st.slots.set i y))
        = rest.filter fun q => q.nodeId ∉ keys slotKey st.slots := by
      refine List.filter_congr ?_
      intro q hq
      simp only [hk.mem_iff, List.mem_cons, hrest q hq, false_or]
    rw [hsame, hk.length_eq, List.length_cons]
    omega

/-- **What the first loop does** to a snapshot it has room for. -/
theorem discovered_spec (k : Kconfig) (now : Int) (snapshot : List Peer) (st : UpdateLoop)
    (hnd : (keys slotKey st.slots).Nodup) (hsnap : (snapshot.map (·.nodeId)).Nodup)
    (hfit : LoopFits st snapshot) :
    (∀ p ∈ snapshot,
      lookup slotKey (snapshot.foldl (updateDiscovered k now) st).slots p.nodeId
        = some ((refreshHealth k now p.lastSeen (entryOf st p.nodeId)).1, true)) ∧
    (∀ id, id ∉ snapshot.map (·.nodeId) →
      lookup slotKey (snapshot.foldl (updateDiscovered k now) st).slots id
        = lookup slotKey st.slots id) ∧
    (snapshot.foldl (updateDiscovered k now) st).calls
      = st.calls ++ snapshot.filterMap fun p =>
          (refreshHealth k now p.lastSeen (entryOf st p.nodeId)).2 := by
  induction snapshot generalizing st with
  | nil => simp
  | cons p rest ih =>
    rw [List.map_cons, List.nodup_cons] at hsnap
    obtain ⟨hp, hsnap'⟩ := hsnap
    have hrest : ∀ q ∈ rest, q.nodeId ≠ p.nodeId :=
      fun q hq heq => hp (heq ▸ List.mem_map_of_mem hq)
    rcases updateDiscovered_cases k now p hnd with ⟨_, hnin, hfull⟩ | ⟨i, hi, hslots, hcalls⟩
    · -- the table is not full, by the room the snapshot was promised
      unfold LoopFits at hfit
      rw [List.filter_cons_of_pos (by simpa using hnin), List.length_cons] at hfit
      omega
    · have hkey := slotKey_refreshed k now p.lastSeen st p.nodeId
      have hnd' : (keys slotKey (updateDiscovered k now st p).slots).Nodup := by
        rw [hslots]
        exact nodup_write hi hkey hnd
      obtain ⟨h1, h2, h3⟩ := ih (updateDiscovered k now st p) hnd' hsnap'
        (loopFits_write hfit hrest hi hkey hslots)
      -- the entries of the other peers are those of the loop's start
      have hother : ∀ id, id ≠ p.nodeId →
          lookup slotKey (updateDiscovered k now st p).slots id = lookup slotKey st.slots id := by
        intro id hne
        rw [hslots]
        exact lookup_write_other hi hkey hne
      have hentry : ∀ id, id ≠ p.nodeId →
          entryOf (updateDiscovered k now st p) id = entryOf st id := by
        intro id hne
        have h : lookup (PeerHealth.key ∘ Prod.fst) (updateDiscovered k now st p).slots id
            = lookup (PeerHealth.key ∘ Prod.fst) st.slots id := hother id hne
        simp only [entryOf, healthOf, lookup_map, h]
      rw [List.foldl_cons]
      refine ⟨?_, ?_, ?_⟩
      · intro q hq
        rcases List.mem_cons.mp hq with rfl | hq
        · rw [h2 q.nodeId hp, hslots]
          exact lookup_write_self hi hkey
        · rw [h1 q hq, hentry q.nodeId (hrest q hq)]
      · intro id hid
        simp only [List.map_cons, List.mem_cons, not_or] at hid
        rw [h2 id hid.2, hother id hid.1]
      · have hmap : (rest.filterMap fun q =>
            (refreshHealth k now q.lastSeen (entryOf (updateDiscovered k now st p) q.nodeId)).2)
            = rest.filterMap fun q =>
                (refreshHealth k now q.lastSeen (entryOf st q.nodeId)).2 := by
          refine List.filterMap_congr ?_
          intro q hq
          rw [hentry q.nodeId (hrest q hq)]
        rw [h3, hmap, hcalls, List.append_assoc, List.filterMap_cons]
        cases (refreshHealth k now p.lastSeen (entryOf st p.nodeId)).2 <;> rfl

/-! ## The update -/

/-- The loop as `ceell_health_update` starts it. -/
def startLoop (hm : HealthMonitor) : UpdateLoop := ⟨hm.table.map fun h => (h, false), []⟩

theorem keys_startLoop (hm : HealthMonitor) :
    keys slotKey (startLoop hm).slots = trackedIds hm := by
  rw [startLoop, keys_map]
  rfl

theorem lookup_startLoop (hm : HealthMonitor) (id : NodeId) :
    lookup slotKey (startLoop hm).slots id
      = (lookup PeerHealth.key hm.table id).map fun h => (h, false) := by
  rw [startLoop, lookup_map]
  rfl

theorem entryOf_startLoop (hm : HealthMonitor) (id : NodeId) :
    entryOf (startLoop hm) id = healthOf hm.table id := by
  simp [entryOf, startLoop, List.map_map, Function.comp_def]

/-- The table after the second loop, as a map. -/
theorem lookup_expired (slots : List (PeerHealth × Bool)) (id : NodeId) :
    lookup PeerHealth.key ((slots.map expireHealth).map Prod.fst) id
      = (lookup slotKey slots id).map fun s => (expireHealth s).1 := by
  rw [List.map_map, lookup_map]
  have hkey : PeerHealth.key ∘ (Prod.fst ∘ expireHealth) = slotKey := funext key_expireHealth
  rw [hkey]
  rfl

theorem keys_expired (slots : List (PeerHealth × Bool)) :
    keys PeerHealth.key ((slots.map expireHealth).map Prod.fst) = keys slotKey slots := by
  rw [List.map_map, keys_map]
  have hkey : PeerHealth.key ∘ (Prod.fst ∘ expireHealth) = slotKey := funext key_expireHealth
  rw [hkey]

/-- **What every update keeps**, whether or not the table has room: its
size, that no id has two slots, and the ids it has. -/
theorem ceellHealthUpdate_keeps (k : Kconfig) (now : Int) (snapshot : List Peer)
    (hm : HealthMonitor) (hnd : (trackedIds hm).Nodup) :
    (ceellHealthUpdate k now snapshot hm).1.table.length = hm.table.length ∧
    (trackedIds (ceellHealthUpdate k now snapshot hm).1).Nodup ∧
    (∀ id ∈ trackedIds hm, id ∈ trackedIds (ceellHealthUpdate k now snapshot hm).1) ∧
    (ceellHealthUpdate k now snapshot hm).1.initialized = hm.initialized ∧
    (ceellHealthUpdate k now snapshot hm).1.cbRegistered = hm.cbRegistered := by
  unfold ceellHealthUpdate
  split
  · rename_i hinit
    obtain ⟨hlen, hnd', hkeep⟩ := discovered_keeps k now snapshot (startLoop hm)
      (by rw [keys_startLoop]; exact hnd)
    rw [keys_startLoop] at hkeep
    refine ⟨?_, ?_, ?_, rfl, rfl⟩
    · rw [List.length_map, List.length_map]
      exact hlen.trans (by simp [startLoop])
    · rw [trackedIds, keys_expired]
      exact hnd'
    · intro id hid
      rw [trackedIds, keys_expired]
      exact hkeep id hid
  · exact ⟨rfl, hnd, fun _ h => h, rfl, rfl⟩

/-- The calls of the second loop. -/
def dropCalls (k : Kconfig) (now : Int) (snapshot : List Peer) (hm : HealthMonitor) :
    List HealthCall :=
  (snapshot.foldl (updateDiscovered k now) (startLoop hm)).slots.filterMap fun s =>
    (expireHealth s).2

/-- The second loop calls only for LOST. -/
theorem newState_of_mem_dropCalls {k : Kconfig} {now : Int} {snapshot : List Peer}
    {hm : HealthMonitor} {c : HealthCall} (h : c ∈ dropCalls k now snapshot hm) :
    c.newState = .lost := by
  obtain ⟨s, _, hs⟩ := List.mem_filterMap.mp h
  unfold expireHealth at hs
  split at hs
  · split at hs
    · exact (Option.some.inj hs) ▸ rfl
    · cases hs
  · cases hs

/-- A tracked peer that was not found is LOST afterwards. -/
theorem state_expireHealth {h : PeerHealth} (hact : h.active = true) :
    (expireHealth (h, false)).1.state = .lost := by
  unfold expireHealth
  by_cases hl : h.state = .lost <;> simp [hact, hl]

/-- The second loop calls for a tracked peer that was not found and was
not LOST. -/
theorem expireHealth_call {s : PeerHealth × Bool} {c : HealthCall} :
    (expireHealth s).2 = some c ↔
      s.1.active = true ∧ s.2 = false ∧ s.1.state ≠ .lost ∧ c = ⟨s.1.nodeId, s.1.state, .lost⟩ := by
  unfold expireHealth
  by_cases hl : s.1.state = .lost
  · simp [hl]
  · cases ha : s.1.active <;> cases hf : s.2 <;> simp [hl, eq_comm]

section Spec

variable {k : Kconfig} {now : Int} {snapshot : List Peer} {hm : HealthMonitor}

/-- **What an update does** to a snapshot the table has room for: the
peers of the snapshot are refreshed from their old entries or new ones,
the other tracked peers become LOST, and the callback hears first of the
refreshed peers, in the order of the snapshot, then of the dropped ones. -/
theorem ceellHealthUpdate_spec (k : Kconfig) (now : Int) (hinit : hm.initialized = true)
    (hnd : (trackedIds hm).Nodup) (hsnap : (snapshot.map (·.nodeId)).Nodup)
    (hfit : Fits hm snapshot) :
    (∀ p ∈ snapshot,
      lookup PeerHealth.key (ceellHealthUpdate k now snapshot hm).1.table p.nodeId
        = some (refreshHealth k now p.lastSeen (healthOf hm.table p.nodeId)).1) ∧
    (∀ id, id ∉ snapshot.map (·.nodeId) →
      lookup PeerHealth.key (ceellHealthUpdate k now snapshot hm).1.table id
        = (lookup PeerHealth.key hm.table id).map fun h => (expireHealth (h, false)).1) ∧
    (hm.cbRegistered = true →
      (ceellHealthUpdate k now snapshot hm).2
        = (snapshot.filterMap fun p =>
            (refreshHealth k now p.lastSeen (healthOf hm.table p.nodeId)).2)
          ++ dropCalls k now snapshot hm) := by
  obtain ⟨h1, h2, h3⟩ := discovered_spec k now snapshot (startLoop hm)
    (by rw [keys_startLoop]; exact hnd) hsnap
    (by
      unfold LoopFits
      rw [keys_startLoop, startLoop, List.length_map]
      exact hfit)
  simp only [entryOf_startLoop] at h1 h3
  have htable : (ceellHealthUpdate k now snapshot hm).1.table
      = ((snapshot.foldl (updateDiscovered k now) (startLoop hm)).slots.map expireHealth).map
          Prod.fst := by
    simp only [ceellHealthUpdate, hinit, if_true]
    rfl
  refine ⟨?_, ?_, ?_⟩
  · -- the flag is up, so the second loop passes the slot by
    intro p hp
    rw [htable, lookup_expired, h1 p hp]
    simp [expireHealth]
  · intro id hid
    rw [htable, lookup_expired, h2 id hid, lookup_startLoop, Option.map_map]
    rfl
  · intro hcb
    simp only [ceellHealthUpdate, hinit, hcb, if_true, List.filterMap_map]
    exact congrArg₂ _ h3 rfl

/-- The peers tracked after an update. -/
theorem trackedIds_update (k : Kconfig) (now : Int) (hinit : hm.initialized = true)
    (hnd : (trackedIds hm).Nodup) (hsnap : (snapshot.map (·.nodeId)).Nodup)
    (hfit : Fits hm snapshot) {id : NodeId} :
    id ∈ trackedIds (ceellHealthUpdate k now snapshot hm).1 ↔
      id ∈ snapshot.map (·.nodeId) ∨ id ∈ trackedIds hm := by
  obtain ⟨hpeers, hgone, _⟩ := ceellHealthUpdate_spec k now hinit hnd hsnap hfit
  by_cases hid : id ∈ snapshot.map (·.nodeId)
  · obtain ⟨p, hp, rfl⟩ := List.mem_map.mp hid
    refine iff_of_true (lookup_isSome.mp ?_) (Or.inl hid)
    rw [hpeers p hp]
    rfl
  · have hsame := congrArg Option.isSome (hgone id hid)
    rw [Option.isSome_map] at hsame
    rw [trackedIds, ← lookup_isSome, hsame, lookup_isSome]
    exact ⟨Or.inr, fun h => h.resolve_left hid⟩

/-- A snapshot fits if the tracked peers and its own are among as many ids
as the table has slots. -/
theorem fits_of_subset {ids : List NodeId} (hnd : (trackedIds hm).Nodup)
    (hsnap : (snapshot.map (·.nodeId)).Nodup) (hlen : ids.length ≤ hm.table.length)
    (htracked : ∀ id ∈ trackedIds hm, id ∈ ids) (hpeers : ∀ p ∈ snapshot, p.nodeId ∈ ids) :
    Fits hm snapshot := by
  have hnew : ((snapshot.filter fun p => p.nodeId ∉ trackedIds hm).map (·.nodeId)).Nodup :=
    hsnap.sublist (List.filter_sublist.map _)
  have hboth : (trackedIds hm
      ++ (snapshot.filter fun p => p.nodeId ∉ trackedIds hm).map (·.nodeId)).Nodup := by
    refine hnd.append hnew ?_
    intro id hid hid'
    obtain ⟨p, hp, rfl⟩ := List.mem_map.mp hid'
    simpa [hid] using (List.mem_filter.mp hp).2
  have hsub : ∀ id ∈ trackedIds hm
      ++ (snapshot.filter fun p => p.nodeId ∉ trackedIds hm).map (·.nodeId), id ∈ ids := by
    intro id hid
    rcases List.mem_append.mp hid with hid | hid
    · exact htracked id hid
    · obtain ⟨p, hp, rfl⟩ := List.mem_map.mp hid
      exact hpeers p (List.mem_filter.mp hp).1
  have hle := hboth.length_le_of_subset hsub
  rw [List.length_append, List.length_map] at hle
  unfold Fits
  exact Nat.le_trans hle hlen

/-- A snapshot all of whose peers are tracked afterwards fitted. -/
theorem fits_of_tracked (hnd : (trackedIds hm).Nodup)
    (hsnap : (snapshot.map (·.nodeId)).Nodup)
    (hall : ∀ p ∈ snapshot, p.nodeId ∈ trackedIds (ceellHealthUpdate k now snapshot hm).1) :
    Fits hm snapshot := by
  obtain ⟨hlen, _, hkeep, _⟩ := ceellHealthUpdate_keeps k now snapshot hm hnd
  refine fits_of_subset hnd hsnap ?_ hkeep hall
  rw [← hlen]
  exact length_keys_le _

/-- The second loop reports the tracked peers that the snapshot lacks and
that were not LOST. -/
theorem mem_dropCalls (k : Kconfig) (now : Int) (hnd : (trackedIds hm).Nodup)
    (hsnap : (snapshot.map (·.nodeId)).Nodup) (hfit : Fits hm snapshot) {c : HealthCall} :
    c ∈ dropCalls k now snapshot hm ↔
      ∃ id h, id ∉ snapshot.map (·.nodeId) ∧ lookup PeerHealth.key hm.table id = some h ∧
        h.state ≠ .lost ∧ c = ⟨id, h.state, .lost⟩ := by
  have hnd0 : (keys slotKey (startLoop hm).slots).Nodup := by rw [keys_startLoop]; exact hnd
  obtain ⟨h1, h2, _⟩ := discovered_spec k now snapshot (startLoop hm) hnd0 hsnap
    (by
      unfold LoopFits
      rw [keys_startLoop, startLoop, List.length_map]
      exact hfit)
  have hnd' := (discovered_keeps k now snapshot (startLoop hm) hnd0).2.1
  rw [dropCalls, List.mem_filterMap]
  constructor
  · rintro ⟨s, hs, hcall⟩
    obtain ⟨hact, hflag, hne, rfl⟩ := expireHealth_call.mp hcall
    have hkey : slotKey s = some s.1.nodeId := key_eq_some.mpr ⟨hact, rfl⟩
    have hlook := lookup_of_mem hnd' hs hkey
    by_cases hid : s.1.nodeId ∈ snapshot.map (·.nodeId)
    · -- a slot of the snapshot has its flag up
      obtain ⟨p, hp, hpid⟩ := List.mem_map.mp hid
      have := h1 p hp
      rw [hpid, hlook, Option.some.injEq] at this
      rw [this] at hflag
      cases hflag
    · rw [h2 _ hid, lookup_startLoop, Option.map_eq_some_iff] at hlook
      obtain ⟨h, hh, heq⟩ := hlook
      exact ⟨s.1.nodeId, h, hid, hh, by rw [← heq] at hne; exact hne, by rw [← heq]⟩
  · rintro ⟨id, h, hid, hlook, hne, rfl⟩
    have hslot : lookup slotKey (snapshot.foldl (updateDiscovered k now) (startLoop hm)).slots id
        = some (h, false) := by
      rw [h2 id hid, lookup_startLoop, hlook]
      rfl
    obtain ⟨hmem, hkey⟩ := lookup_some hslot
    obtain ⟨hact, rfl⟩ := key_eq_some.mp hkey
    exact ⟨(h, false), hmem, expireHealth_call.mpr ⟨hact, rfl, hne, rfl⟩⟩

/-- Every tracked peer that the snapshot lacks was LOST already, if the
second loop made no call. -/
theorem dropCalls_eq_nil_iff (k : Kconfig) (now : Int) (hnd : (trackedIds hm).Nodup)
    (hsnap : (snapshot.map (·.nodeId)).Nodup) (hfit : Fits hm snapshot) :
    dropCalls k now snapshot hm = [] ↔
      ∀ id h, id ∉ snapshot.map (·.nodeId) → lookup PeerHealth.key hm.table id = some h →
        h.state = .lost := by
  rw [List.eq_nil_iff_forall_not_mem]
  constructor
  · intro hall id h hid hlook
    by_contra hne
    exact hall _ ((mem_dropCalls k now hnd hsnap hfit).mpr ⟨id, h, hid, hlook, hne, rfl⟩)
  · intro hall c hc
    obtain ⟨id, h, hid, hlook, hne, _⟩ := (mem_dropCalls k now hnd hsnap hfit).mp hc
    exact hne (hall id h hid hlook)

end Spec

/-! ## Updates the table has no room for -/

/-- The peers of a snapshot that get a slot: the tracked ones, and of the
others the first ones, as many as there are free slots. -/
def served (tracked : List NodeId) : Nat → List Peer → List Peer
  | _, [] => []
  | free, p :: rest =>
      if p.nodeId ∈ tracked then p :: served tracked free rest
      else
        match free with
        | 0 => served tracked 0 rest
        | free + 1 => p :: served tracked free rest

/-- The peers of a snapshot that an update serves. -/
def servedPeers (hm : HealthMonitor) (snapshot : List Peer) : List Peer :=
  served (trackedIds hm) (hm.table.length - (trackedIds hm).length) snapshot

section Served

variable {k : Kconfig} {now : Int} {snapshot : List Peer} {hm : HealthMonitor}
  {tracked : List NodeId}

theorem served_sublist (free : Nat) (ps : List Peer) : (served tracked free ps).Sublist ps := by
  induction ps generalizing free with
  | nil => exact .slnil
  | cons p rest ih =>
    unfold served
    split
    · exact (ih free).cons_cons p
    · split
      · exact (ih 0).cons p
      · exact (ih _).cons_cons p

/-- The new ones among the served peers are no more than the free slots. -/
theorem length_served_new_le (tracked : List NodeId) (free : Nat) (ps : List Peer) :
    ((served tracked free ps).filter fun p => p.nodeId ∉ tracked).length ≤ free := by
  induction ps generalizing free with
  | nil => exact Nat.zero_le _
  | cons p rest ih =>
    unfold served
    split
    · rename_i hin
      rw [List.filter_cons_of_neg (by simpa using hin)]
      exact ih free
    · rename_i hnin
      split
      · exact ih 0
      · rename_i free
        rw [List.filter_cons_of_pos (by simpa using hnin), List.length_cons]
        exact Nat.succ_le_succ (ih free)

/-- A tracked peer of the snapshot is served. -/
theorem mem_served_of_tracked {free : Nat} {ps : List Peer} {p : Peer} (hp : p ∈ ps)
    (htracked : p.nodeId ∈ tracked) : p ∈ served tracked free ps := by
  induction ps generalizing free with
  | nil => exact absurd hp List.not_mem_nil
  | cons q rest ih =>
    unfold served
    rcases List.mem_cons.mp hp with rfl | hp
    · simp [htracked]
    · split
      · exact List.mem_cons_of_mem _ (ih hp)
      · split
        · exact ih hp
        · exact List.mem_cons_of_mem _ (ih hp)

/-- The first loop passes by the peers that are not served; the induction
is on the snapshot, the slots taken so far being those of `tracked` and of
the new peers before. -/
theorem foldl_served (k : Kconfig) (now : Int) (tracked : List NodeId) {st : UpdateLoop}
    {free : Nat} (hnd : (keys slotKey st.slots).Nodup)
    (hsnap : (snapshot.map (·.nodeId)).Nodup)
    (hfree : (keys slotKey st.slots).length + free = st.slots.length)
    (hsame : ∀ p ∈ snapshot, p.nodeId ∈ keys slotKey st.slots ↔ p.nodeId ∈ tracked) :
    (served tracked free snapshot).foldl (updateDiscovered k now) st
      = snapshot.foldl (updateDiscovered k now) st := by
  induction snapshot generalizing st free with
  | nil => rfl
  | cons p rest ih =>
    rw [List.map_cons, List.nodup_cons] at hsnap
    obtain ⟨hp, hsnap'⟩ := hsnap
    obtain ⟨hsame_p, hsame'⟩ := List.forall_mem_cons.mp hsame
    unfold served
    rcases updateDiscovered_cases k now p hnd with ⟨hskip, hnin, hfull⟩ | ⟨i, hi, hslots, _⟩
    · -- no slot is left for the peer
      obtain rfl : free = 0 := by omega
      rw [if_neg fun h => hnin (hsame_p.mpr h), List.foldl_cons, hskip]
      exact ih hnd hsnap' hfree hsame'
    · have hkey := slotKey_refreshed k now p.lastSeen st p.nodeId
      have hnd' : (keys slotKey (updateDiscovered k now st p).slots).Nodup := by
        rw [hslots]
        exact nodup_write hi hkey hnd
      rcases keys_write hi hkey with ⟨hin, hk⟩ | ⟨hnin, hk⟩
      · rw [if_pos (hsame_p.mp hin), List.foldl_cons, List.foldl_cons]
        refine ih hnd' hsnap' ?_ ?_
        · rw [hslots, hk, List.length_set]
          exact hfree
        · rw [hslots, hk]
          exact hsame'
      · -- a new peer takes one of the free slots
        have hlen : (keys slotKey (updateDiscovered k now st p).slots).length
            = (keys slotKey st.slots).length + 1 := by
          rw [hslots, hk.length_eq, List.length_cons]
        have hle : (keys slotKey (updateDiscovered k now st p).slots).length
            ≤ (updateDiscovered k now st p).slots.length := length_keys_le _
        have hsize : (updateDiscovered k now st p).slots.length = st.slots.length := by
          rw [hslots, List.length_set]
        obtain ⟨free, rfl⟩ : ∃ f, free = f + 1 := ⟨free - 1, by omega⟩
        rw [if_neg fun h => hnin (hsame_p.mpr h), List.foldl_cons, List.foldl_cons]
        refine ih hnd' hsnap' (by omega) ?_
        intro q hq
        have hne : q.nodeId ≠ p.nodeId := fun heq => hp (heq ▸ List.mem_map_of_mem hq)
        rw [hslots, hk.mem_iff, List.mem_cons, hsame' q hq]
        exact ⟨fun h => h.resolve_left hne, Or.inr⟩

/-- **An update is the update of the peers it serves**, for which the table
has room. -/
theorem ceellHealthUpdate_served (k : Kconfig) (now : Int) (hnd : (trackedIds hm).Nodup)
    (hsnap : (snapshot.map (·.nodeId)).Nodup) :
    ((servedPeers hm snapshot).map (·.nodeId)).Nodup ∧ Fits hm (servedPeers hm snapshot) ∧
    ceellHealthUpdate k now (servedPeers hm snapshot) hm = ceellHealthUpdate k now snapshot hm := by
  have hle : (trackedIds hm).length ≤ hm.table.length := length_keys_le _
  refine ⟨hsnap.sublist ((served_sublist _ _).map _), ?_, ?_⟩
  · have := length_served_new_le (trackedIds hm) (hm.table.length - (trackedIds hm).length)
      snapshot
    unfold Fits servedPeers
    omega
  · have hnd0 : (keys slotKey (startLoop hm).slots).Nodup := by rw [keys_startLoop]; exact hnd
    have hfold := foldl_served k now (trackedIds hm) hnd0 hsnap
      (by rw [keys_startLoop, startLoop, List.length_map]; exact Nat.add_sub_of_le hle)
      (by rw [keys_startLoop]; exact fun _ _ => Iff.rfl)
    unfold startLoop at hfold
    unfold ceellHealthUpdate servedPeers
    rw [hfold]

end Served

end Ceell.Core
