/-
Ceell.Network.Discovery — the peer table of `ceell/network/discovery.c`
and what holds of it over every run.

The table is the source's: an array of `CONFIG_CEELL_DISCOVERY_MAX_PEERS`
slots and a `peer_count`. `entries` is the part in use. Three things
change it: `update_peer` refreshes an entry in place or appends one, and
`ceell_discovery_expire_peers` sweeps the stale ones out, each time
moving the last entry into the hole (`Lib.sweep`).

`updatePeer_cases` and `expire_spec` say once what an announcement and an
expiry can do to the entries. Everything else is derived from the two:
`Inv` is the invariant of the table, `inv_announce` and `inv_expire` keep
it, and `inv_reachable` is its run form.

`discoveryMachine` adds to the table what statements about runs speak of
and the code does not store: the time of the last expiry, and for each
node the time of the last announcement accepted from it.
-/
import Ceell.Core.Types
import Ceell.Lib.CString
import Ceell.Lib.Machine
import Ceell.Lib.SwapRemove
import Mathlib.Data.List.Nodup
import Mathlib.Logic.Function.Basic

namespace Ceell.Network

open Ceell.Lib

/-! ## The data -/

/-- `struct ceell_peer`. -/
structure Peer where
  nodeId : NodeId
  role : CharBuf 32
  name : CharBuf 64
  ip : CharBuf 16
  services : CharBuf 128
  lastSeen : Int
  deriving DecidableEq

/-- `memset(p, 0, sizeof(*p))`. -/
def Peer.zero : Peer :=
  { nodeId := 0, role := .zero 32, name := .zero 64, ip := .zero 16, services := .zero 128,
    lastSeen := 0 }

/-- `struct discovery_msg`: the decoded fields, a string absent from the
announcement being a NULL pointer. -/
structure DiscoveryMsg where
  nodeId : Int
  role : Option (List Char)
  name : Option (List Char)
  ip : Option (List Char)
  services : Option (List Char)

/-- The id an announcement is filed under. -/
def DiscoveryMsg.id (msg : DiscoveryMsg) : NodeId := toUInt32 msg.nodeId

/-- `peers` and `peer_count`, for a table of `max` slots. -/
structure PeerTable (max : Nat) where
  peers : List Peer
  peerCount : Nat
  size_eq : peers.length = max

namespace PeerTable

variable {max : Nat}

def empty (max : Nat) : PeerTable max := ⟨List.replicate max .zero, 0, by simp⟩

/-- The slots in use. -/
def entries (t : PeerTable max) : List Peer := t.peers.take t.peerCount

def ids (t : PeerTable max) : List NodeId := t.entries.map (·.nodeId)

end PeerTable

/-! ## The operations -/

/-- What an announcement from a known node changes in its entry. -/
def refreshPeer (now : Int) (msg : DiscoveryMsg) (p : Peer) : Peer :=
  { p with
    lastSeen := now
    services := match msg.services with
      | some src => (p.services.copy src).terminate
      | none => p.services }

/-- The entry made for an unknown node. -/
def newPeer (now : Int) (msg : DiscoveryMsg) : Peer :=
  { nodeId := msg.id
    role := (CharBuf.zero 32).copyOpt msg.role
    name := (CharBuf.zero 64).copyOpt msg.name
    ip := (CharBuf.zero 16).copyOpt msg.ip
    services := (CharBuf.zero 128).copyOpt msg.services
    lastSeen := now }

/-- `update_peer`, with `me` the value of `ceell_identity_get`. -/
def updatePeer {max : Nat} (me : Option Identity) (now : Int) (msg : DiscoveryMsg)
    (t : PeerTable max) : PeerTable max :=
  if me.any fun i => i.nodeId == msg.id then t -- our own announcement
  else
    match t.entries.findIdx? fun p => p.nodeId == msg.id with
    | some i =>
        { t with
          peers := t.peers.modify i (refreshPeer now msg)
          size_eq := by simp [t.size_eq] }
    | none =>
        if t.peerCount < max then
          { peers := t.peers.set t.peerCount (newPeer now msg)
            peerCount := t.peerCount + 1
            size_eq := by simp [t.size_eq] }
        else t

/-- The test of the expiry loop. -/
def isStale (k : Kconfig) (now : Int) (p : Peer) : Bool :=
  decide (now - p.lastSeen > k.peerTimeoutMs)

/-- `ceell_discovery_expire_peers`: the table it leaves and the number of
peers it removed. -/
def ceellDiscoveryExpirePeers {max : Nat} (k : Kconfig) (now : Int) (t : PeerTable max) :
    PeerTable max × Nat :=
  let r := sweep (isStale k now) t.peerCount 0 t.peers
  (⟨r.1, r.2, by rw [length_sweep, t.size_eq]⟩, t.peerCount - r.2)

/-- `ceell_discovery_peer_count`. -/
def ceellDiscoveryPeerCount {max : Nat} (t : PeerTable max) : Nat := t.peerCount

/-- `ceell_discovery_get_peers`: a copy of the first `maxPeers` entries at
most. -/
def ceellDiscoveryGetPeers {max : Nat} (t : PeerTable max) (maxPeers : Nat) : List Peer :=
  t.peers.take (min t.peerCount maxPeers)

/-! ## What one operation does -/

section Operations

variable {max : Nat} {t : PeerTable max} {me : Option Identity} {now : Int}
  {msg : DiscoveryMsg}

@[simp] theorem nodeId_refreshPeer (p : Peer) : (refreshPeer now msg p).nodeId = p.nodeId := rfl

theorem length_entries (h : t.peerCount ≤ max) : t.entries.length = t.peerCount := by
  rw [PeerTable.entries, List.length_take, t.size_eq]
  omega

theorem mem_ids {id : NodeId} : id ∈ t.ids ↔ ∃ p ∈ t.entries, p.nodeId = id := by
  simp [PeerTable.ids]

theorem updatePeer_self (h : me.any (fun i => i.nodeId == msg.id) = true) :
    updatePeer me now msg t = t := by
  simp [updatePeer, h]

theorem updatePeer_known (now : Int) (h : me.any (fun i => i.nodeId == msg.id) = false) {i : Nat}
    (hfind : t.entries.findIdx? (fun p => p.nodeId == msg.id) = some i) :
    (updatePeer me now msg t).peerCount = t.peerCount ∧
    (updatePeer me now msg t).entries = t.entries.modify i (refreshPeer now msg) := by
  have hmod : (t.peers.modify i (refreshPeer now msg)).take t.peerCount
      = t.entries.modify i (refreshPeer now msg) := List.take_modify _ _ _ _
  simp only [updatePeer, h, hfind, Bool.false_eq_true, if_false, true_and]
  exact hmod

theorem updatePeer_unknown (h : me.any (fun i => i.nodeId == msg.id) = false)
    (hfind : t.entries.findIdx? (fun p => p.nodeId == msg.id) = none)
    (hroom : t.peerCount < max) :
    (updatePeer me now msg t).peerCount = t.peerCount + 1 ∧
    (updatePeer me now msg t).entries = t.entries ++ [newPeer now msg] := by
  have hlt : t.peerCount < t.peers.length := by rw [t.size_eq]; exact hroom
  have hset : (t.peers.set t.peerCount (newPeer now msg)).take (t.peerCount + 1)
      = t.entries ++ [newPeer now msg] := by
    rw [List.take_add_one, List.take_set_of_le (Nat.le_refl _), List.getElem?_set_self hlt]
    rfl
  simp only [updatePeer, h, hfind, hroom, Bool.false_eq_true, if_false, if_true, true_and]
  exact hset

theorem updatePeer_full (h : me.any (fun i => i.nodeId == msg.id) = false)
    (hfind : t.entries.findIdx? (fun p => p.nodeId == msg.id) = none)
    (hfull : ¬ t.peerCount < max) : updatePeer me now msg t = t := by
  simp only [updatePeer, h, hfind, hfull, Bool.false_eq_true, if_false]

/-- **What an announcement can do**: nothing, because it is our own or
because the table is full and the node unknown; refresh the one entry of
its node; or append an entry for it. -/
theorem updatePeer_cases (me : Option Identity) (now : Int) (msg : DiscoveryMsg)
    (t : PeerTable max) (hcount : t.peerCount ≤ max) :
    (updatePeer me now msg t = t ∧
      (me.any (fun i => i.nodeId == msg.id) = true ∨
        (msg.id ∉ t.ids ∧ t.peerCount = max))) ∨
    (me.any (fun i => i.nodeId == msg.id) = false ∧
      (updatePeer me now msg t).peerCount = t.peerCount ∧
      ∃ front p back, t.entries = front ++ p :: back ∧ p.nodeId = msg.id ∧
        (updatePeer me now msg t).entries = front ++ refreshPeer now msg p :: back) ∨
    (me.any (fun i => i.nodeId == msg.id) = false ∧ msg.id ∉ t.ids ∧ t.peerCount < max ∧
      (updatePeer me now msg t).peerCount = t.peerCount + 1 ∧
      (updatePeer me now msg t).entries = t.entries ++ [newPeer now msg]) := by
  cases hself : me.any fun i => i.nodeId == msg.id with
  | true => exact Or.inl ⟨updatePeer_self hself, Or.inl rfl⟩
  | false =>
    cases hfind : t.entries.findIdx? fun p => p.nodeId == msg.id with
    | some i =>
      obtain ⟨hi, hid, _⟩ := List.findIdx?_eq_some_iff_getElem.mp hfind
      obtain ⟨hcnt, hent⟩ := updatePeer_known now hself hfind
      obtain ⟨front, p, back, heq, hlen, hmod⟩ :=
        List.exists_of_modify (refreshPeer now msg) hi
      have hp : t.entries[i] = p := by simp [heq, ← hlen]
      refine Or.inr (Or.inl ⟨rfl, hcnt, front, p, back, heq, ?_, hent.trans hmod⟩)
      rw [← hp]
      simpa using hid
    | none =>
      have hnot : msg.id ∉ t.ids := by
        rw [mem_ids]
        rintro ⟨p, hp, hid⟩
        have := List.findIdx?_eq_none_iff.mp hfind p hp
        simp [hid] at this
      by_cases hroom : t.peerCount < max
      · exact Or.inr (Or.inr ⟨rfl, hnot, hroom, updatePeer_unknown hself hfind hroom⟩)
      · exact Or.inl ⟨updatePeer_full hself hfind hroom, Or.inr ⟨hnot, by omega⟩⟩

/-- **What an expiry does**: it keeps exactly the entries that are not
stale, with all their fields, and counts the others. -/
theorem expire_spec (k : Kconfig) (now : Int) (t : PeerTable max) (hcount : t.peerCount ≤ max) :
    (ceellDiscoveryExpirePeers k now t).1.peerCount ≤ t.peerCount ∧
    (ceellDiscoveryExpirePeers k now t).1.entries.Perm
      (t.entries.filter fun p => !isStale k now p) ∧
    (ceellDiscoveryExpirePeers k now t).2
      = t.peerCount - (ceellDiscoveryExpirePeers k now t).1.peerCount := by
  obtain ⟨_, h2, h3⟩ := sweep_packed (isStale k now) t.peerCount t.peers
    (by rw [t.size_eq]; exact hcount)
  exact ⟨h2, h3, rfl⟩

theorem mem_expire {k : Kconfig} {p : Peer} (hcount : t.peerCount ≤ max) :
    p ∈ (ceellDiscoveryExpirePeers k now t).1.entries ↔
      p ∈ t.entries ∧ now - p.lastSeen ≤ k.peerTimeoutMs := by
  rw [(expire_spec k now t hcount).2.1.mem_iff, List.mem_filter]
  simp [isStale]

/-- Taking as many peers as the table has slots copies all entries. -/
theorem getPeers_max (h : t.peerCount ≤ max) : ceellDiscoveryGetPeers t max = t.entries := by
  rw [ceellDiscoveryGetPeers, PeerTable.entries, Nat.min_eq_left h]

end Operations

/-! ## Runs -/

/-- The table with the history the code does not store. -/
structure DiscoveryRun (max : Nat) where
  table : PeerTable max
  /-- the uptime of the last call -/
  clock : Int
  /-- the uptime of the last `ceell_discovery_expire_peers` -/
  lastExpiry : Option Int
  /-- the uptime of the last announcement accepted from a node -/
  accepted : NodeId → Option Int

inductive DiscoveryAct where
  | announce (now : Int) (msg : DiscoveryMsg)
  | expire (now : Int)

/-- An announcement is accepted if it is not our own and its node is known
or there is room for it. -/
def Accepts {max : Nat} (me : Identity) (t : PeerTable max) (id : NodeId) : Prop :=
  id ≠ me.nodeId ∧ (id ∈ t.ids ∨ t.peerCount < max)

instance {max : Nat} (me : Identity) (t : PeerTable max) (id : NodeId) :
    Decidable (Accepts me t id) := by
  unfold Accepts; infer_instance

/-- One call, at a time not before the last one. -/
def discoveryStep {max : Nat} (k : Kconfig) (me : Identity) (s : DiscoveryRun max) :
    DiscoveryAct → Option (DiscoveryRun max)
  | .announce now msg =>
      if s.clock ≤ now then
        some { s with
          table := updatePeer (some me) now msg s.table
          clock := now
          accepted :=
            if Accepts me s.table msg.id then
              Function.update s.accepted msg.id (some now)
            else s.accepted }
      else none
  | .expire now =>
      if s.clock ≤ now then
        some { s with
          table := (ceellDiscoveryExpirePeers k now s.table).1
          clock := now
          lastExpiry := some now }
      else none

/-- Runs of the discovery module from the empty table, the identity set. -/
def discoveryMachine (k : Kconfig) (me : Identity) :
    Machine (DiscoveryRun k.discoveryMaxPeers) DiscoveryAct where
  init := ⟨.empty _, 0, none, fun _ => none⟩
  step := discoveryStep k me

/-- Every string field of an entry holds a terminator. -/
structure Peer.Terminated (p : Peer) : Prop where
  role : p.role.Terminated
  name : p.name.Terminated
  ip : p.ip.Terminated
  services : p.services.Terminated

/-- The invariant of the peer table. -/
structure Inv (k : Kconfig) (me : Identity) {max : Nat} (s : DiscoveryRun max) : Prop where
  count_le : s.table.peerCount ≤ max
  nodup : s.table.ids.Nodup
  not_self : me.nodeId ∉ s.table.ids
  terminated : ∀ p ∈ s.table.entries, p.Terminated
  last_seen : ∀ p ∈ s.table.entries, s.accepted p.nodeId = some p.lastSeen
  seen_le : ∀ p ∈ s.table.entries, p.lastSeen ≤ s.clock
  expiry_le : ∀ te ∈ s.lastExpiry, te ≤ s.clock
  fresh : ∀ p ∈ s.table.entries, ∀ te ∈ s.lastExpiry, te - (k.peerTimeoutMs : Int) ≤ p.lastSeen

section Invariant

variable {k : Kconfig} {me : Identity} {max : Nat} {s s' : DiscoveryRun max}

theorem terminated_newPeer (now : Int) (msg : DiscoveryMsg) : (newPeer now msg).Terminated :=
  ⟨CharBuf.terminated_copyOpt_zero _, CharBuf.terminated_copyOpt_zero _,
    CharBuf.terminated_copyOpt_zero _, CharBuf.terminated_copyOpt_zero _⟩

theorem Peer.Terminated.refresh {p : Peer} (h : p.Terminated) (now : Int) (msg : DiscoveryMsg) :
    (refreshPeer now msg p).Terminated := by
  refine ⟨h.role, h.name, h.ip, ?_⟩
  unfold refreshPeer
  cases msg.services with
  | none => exact h.services
  | some src => exact CharBuf.terminated_terminate _

theorem any_self {id : NodeId} :
    (some me).any (fun i => i.nodeId == id) = true ↔ id = me.nodeId := by
  simp only [Option.any_some, beq_iff_eq]
  exact eq_comm

/-- The entry of a node in the table. -/
def PeerTable.entryOf (t : PeerTable max) (id : NodeId) : Option Peer :=
  t.entries.find? fun p => p.nodeId == id

/-- What an accepted announcement makes of the entry of its node. -/
def announcedPeer (now : Int) (msg : DiscoveryMsg) : Option Peer → Peer
  | some p => refreshPeer now msg p
  | none => newPeer now msg

theorem entryOf_eq_some {t : PeerTable max} (hnodup : t.ids.Nodup) {id : NodeId} {p : Peer} :
    t.entryOf id = some p ↔ p ∈ t.entries ∧ p.nodeId = id := by
  constructor
  · intro h
    exact ⟨List.mem_of_find?_eq_some h, by simpa using List.find?_some h⟩
  · rintro ⟨hp, rfl⟩
    obtain ⟨q, hq⟩ : ∃ q, t.entryOf p.nodeId = some q :=
      Option.isSome_iff_exists.mp (List.find?_isSome.mpr ⟨p, hp, beq_self_eq_true _⟩)
    have hid : q.nodeId = p.nodeId := by simpa using List.find?_some hq
    rw [hq, List.inj_on_of_nodup_map hnodup (List.mem_of_find?_eq_some hq) hp hid]

theorem entryOf_eq_none {t : PeerTable max} {id : NodeId} : t.entryOf id = none ↔ id ∉ t.ids := by
  simp [PeerTable.entryOf, mem_ids]

theorem nodeId_announcedPeer (now : Int) (msg : DiscoveryMsg) {o : Option Peer}
    (h : ∀ p ∈ o, p.nodeId = msg.id) : (announcedPeer now msg o).nodeId = msg.id := by
  cases o with
  | none => rfl
  | some p => exact h p rfl

theorem lastSeen_announcedPeer (now : Int) (msg : DiscoveryMsg) (o : Option Peer) :
    (announcedPeer now msg o).lastSeen = now := by
  cases o <;> rfl

theorem Peer.Terminated.announced {t : PeerTable max} (now : Int) (msg : DiscoveryMsg)
    (h : ∀ p ∈ t.entries, p.Terminated) (id : NodeId) :
    (announcedPeer now msg (t.entryOf id)).Terminated := by
  cases hentry : t.entryOf id with
  | none => exact terminated_newPeer now msg
  | some p => exact (h p (List.mem_of_find?_eq_some hentry)).refresh now msg

/-- The services an entry has after an announcement that names some. -/
theorem services_announcedPeer (now : Int) {msg : DiscoveryMsg} {src : List Char}
    (h : msg.services = some src) (o : Option Peer) :
    (announcedPeer now msg o).services = (CharBuf.zero 128).copy src := by
  cases o with
  | none => simp only [announcedPeer, newPeer, h, CharBuf.copyOpt]
  | some p => simp only [announcedPeer, refreshPeer, h, CharBuf.terminate_copy]

theorem peerCount_updatePeer_le {t : PeerTable max} (me : Option Identity) (now : Int)
    (msg : DiscoveryMsg) (hcount : t.peerCount ≤ max) :
    (updatePeer me now msg t).peerCount ≤ max := by
  rcases updatePeer_cases me now msg t hcount with
    ⟨hsame, _⟩ | ⟨_, hcnt, _⟩ | ⟨_, _, hroom, hcnt, _⟩
  · rw [hsame]
    exact hcount
  · rw [hcnt]
    exact hcount
  · rw [hcnt]
    exact hroom

/-- No node gets a second entry. -/
theorem nodup_updatePeer {t : PeerTable max} (me : Option Identity) (now : Int)
    (msg : DiscoveryMsg) (hcount : t.peerCount ≤ max) (hnodup : t.ids.Nodup) :
    (updatePeer me now msg t).ids.Nodup := by
  rcases updatePeer_cases me now msg t hcount with
    ⟨hsame, _⟩ | ⟨_, _, front, p, back, heq, _, hnew⟩ | ⟨_, hnot, _, _, hnew⟩
  · rw [hsame]
    exact hnodup
  · have hids : (updatePeer me now msg t).ids = t.ids := by simp [PeerTable.ids, heq, hnew]
    rw [hids]
    exact hnodup
  · have hids : (updatePeer me now msg t).ids = t.ids ++ [msg.id] := by
      simp [PeerTable.ids, hnew, newPeer]
    rw [hids]
    exact hnodup.append (List.nodup_singleton _) (by simpa using hnot)

/-- An announcement that is not accepted changes nothing. -/
theorem updatePeer_of_not_accepts {t : PeerTable max} (now : Int) {msg : DiscoveryMsg}
    (hcount : t.peerCount ≤ max) (h : ¬ Accepts me t msg.id) :
    updatePeer (some me) now msg t = t := by
  rcases updatePeer_cases (some me) now msg t hcount with
    ⟨hsame, _⟩ | ⟨hself, _, front, p, back, heq, hid, _⟩ | ⟨hself, _, hroom, _⟩
  · exact hsame
  · refine absurd ⟨fun hme => ?_, Or.inl (mem_ids.mpr ⟨p, by simp [heq], hid⟩)⟩ h
    simp [any_self.mpr hme] at hself
  · refine absurd ⟨fun hme => ?_, Or.inr hroom⟩ h
    simp [any_self.mpr hme] at hself

/-- A refresh that leaves the entry as it is. -/
theorem refreshPeer_eq_self_iff {now : Int} {msg : DiscoveryMsg} {p : Peer} :
    refreshPeer now msg p = p ↔
      p.lastSeen = now ∧ ∀ src ∈ msg.services, (CharBuf.zero 128).copy src = p.services := by
  have heq : refreshPeer now msg p = p ↔
      now = p.lastSeen ∧ (refreshPeer now msg p).services = p.services := by
    constructor
    · exact fun h => ⟨congrArg Peer.lastSeen h, congrArg Peer.services h⟩
    · rintro ⟨hseen, hservices⟩
      cases p
      simp only [refreshPeer] at hseen hservices ⊢
      rw [hseen, hservices]
  rw [heq, eq_comm]
  refine and_congr_right fun _ => ?_
  cases hs : msg.services with
  | none => simp [refreshPeer, hs]
  | some src => simp [refreshPeer, hs, CharBuf.terminate_copy]

/-- An accepted announcement leaves the table as it is exactly if it leaves
the entry of its node. -/
theorem updatePeer_eq_self_iff {t : PeerTable max} {now : Int} {msg : DiscoveryMsg}
    (hacc : Accepts me t msg.id) :
    updatePeer (some me) now msg t = t ↔
      ∃ p ∈ t.entryOf msg.id, refreshPeer now msg p = p := by
  have hself : (some me).any (fun i => i.nodeId == msg.id) = false :=
    Bool.eq_false_iff.mpr fun h => hacc.1 (any_self.mp h)
  cases hfind : t.entries.findIdx? fun p => p.nodeId == msg.id with
  | none =>
    have hnone : t.entryOf msg.id = none := by
      rw [PeerTable.entryOf, List.find?_eq_none]
      simpa using hfind
    have hroom := hacc.2.resolve_left (entryOf_eq_none.mp hnone)
    have hcount : (updatePeer (some me) now msg t).peerCount = t.peerCount + 1 :=
      (updatePeer_unknown hself hfind hroom).1
    simp only [hnone, Option.not_mem_none, false_and, exists_false, iff_false]
    intro h
    rw [h] at hcount
    omega
  | some i =>
    obtain ⟨hi, hid, hmin⟩ := List.findIdx?_eq_some_iff_getElem.mp hfind
    have hentry : t.entryOf msg.id = some t.entries[i] :=
      List.find?_eq_some_iff_getElem.mpr ⟨hid, i, hi, rfl, fun j hj => by simpa using hmin j hj⟩
    have hpeer : t.peers[i]? = some t.entries[i] := by
      rw [← List.getElem?_eq_getElem hi, PeerTable.entries, List.getElem?_take_of_lt]
      simp only [PeerTable.entries, List.length_take] at hi
      omega
    have hsame : updatePeer (some me) now msg t = t ↔
        t.peers.modify i (refreshPeer now msg) = t.peers := by
      cases t
      simp only [updatePeer, hself, hfind, Bool.false_eq_true, if_false, PeerTable.mk.injEq,
        and_true]
    rw [hsame]
    simp only [hentry, Option.mem_some_iff, exists_eq_left']
    constructor
    · intro h
      have hat := congrArg (·[i]?) h
      simpa [hpeer] using hat
    · intro h
      apply List.ext_getElem?
      intro j
      rw [List.getElem?_modify]
      by_cases hj : i = j
      · subst hj
        simp [hpeer, h]
      · simp [hj]

/-- **An accepted announcement** replaces the entry of its node and leaves
all others. -/
theorem mem_updatePeer {t : PeerTable max} {now : Int} {msg : DiscoveryMsg}
    (hcount : t.peerCount ≤ max) (hnodup : t.ids.Nodup) (hacc : Accepts me t msg.id) {p : Peer} :
    p ∈ (updatePeer (some me) now msg t).entries ↔
      p = announcedPeer now msg (t.entryOf msg.id) ∨ (p ∈ t.entries ∧ p.nodeId ≠ msg.id) := by
  rcases updatePeer_cases (some me) now msg t hcount with
    ⟨_, hwhy⟩ | ⟨_, _, front, q, back, heq, hid, hnew⟩ | ⟨_, hnot, _, _, hnew⟩
  · rcases hwhy with hself | ⟨hnot, hfull⟩
    · exact absurd (any_self.mp hself) hacc.1
    · exact absurd hacc.2 (by simp [hnot, hfull])
  · have hentry : t.entryOf msg.id = some q :=
      (entryOf_eq_some hnodup).mpr ⟨by simp [heq], hid⟩
    have hother : ∀ r, r ∈ front ∨ r ∈ back → r.nodeId ≠ msg.id := by
      intro r hr hrid
      have hnd := hnodup
      rw [PeerTable.ids, heq, List.map_append, List.map_cons, List.nodup_middle,
        List.nodup_cons] at hnd
      refine hnd.1 ?_
      rw [← List.map_append, hid, ← hrid]
      exact List.mem_map_of_mem (List.mem_append.mpr hr)
    rw [hnew, heq, hentry]
    simp only [List.mem_append, List.mem_cons, announcedPeer]
    constructor
    · rintro (h | rfl | h)
      · exact Or.inr ⟨Or.inl h, hother p (Or.inl h)⟩
      · exact Or.inl rfl
      · exact Or.inr ⟨Or.inr (Or.inr h), hother p (Or.inr h)⟩
    · rintro (rfl | ⟨h | rfl | h, hne⟩)
      · exact Or.inr (Or.inl rfl)
      · exact Or.inl h
      · exact absurd hid hne
      · exact Or.inr (Or.inr h)
  · rw [hnew, entryOf_eq_none.mpr hnot, List.mem_append, List.mem_singleton]
    constructor
    · rintro (h | rfl)
      · exact Or.inr ⟨h, fun hid => hnot (mem_ids.mpr ⟨p, h, hid⟩)⟩
      · exact Or.inl rfl
    · rintro (rfl | ⟨h, _⟩)
      · exact Or.inr rfl
      · exact Or.inl h

/-- The invariant after an announcement that was accepted: one entry is
`x`, seen now, and the others are old ones of other nodes. -/
theorem Inv.written {now : Int} {t : PeerTable max} {x : Peer} (hi : Inv k me s)
    (hclock : s.clock ≤ now) (hcount : t.peerCount ≤ max) (hnodup : t.ids.Nodup)
    (hself : me.nodeId ∉ t.ids) (hterm : x.Terminated) (hseen : x.lastSeen = now)
    (hmem : ∀ q ∈ t.entries, q = x ∨ (q ∈ s.table.entries ∧ q.nodeId ≠ x.nodeId)) :
    Inv k me { s with
      table := t, clock := now
      accepted := Function.update s.accepted x.nodeId (some now) } := by
  have hte : ∀ te ∈ s.lastExpiry, te ≤ now := by
    intro te h
    exact Int.le_trans (hi.expiry_le te h) hclock
  constructor
  · exact hcount
  · exact hnodup
  · exact hself
  · intro q hq
    rcases hmem q hq with rfl | ⟨hold, _⟩
    · exact hterm
    · exact hi.terminated q hold
  · intro q hq
    rcases hmem q hq with rfl | ⟨hold, hne⟩
    · rw [hseen]
      exact Function.update_self _ _ _
    · exact (Function.update_of_ne hne _ _).trans (hi.last_seen q hold)
  · intro q hq
    rcases hmem q hq with rfl | ⟨hold, _⟩
    · exact Int.le_of_eq hseen
    · exact Int.le_trans (hi.seen_le q hold) hclock
  · exact hte
  · intro q hq te h
    rcases hmem q hq with rfl | ⟨hold, _⟩
    · have := hte te h
      omega
    · exact hi.fresh q hold te h

/-- The invariant does not depend on the time of the last call, as long as
it does not go back. -/
theorem Inv.later {now : Int} (hi : Inv k me s) (hclock : s.clock ≤ now) :
    Inv k me { s with clock := now } :=
  { hi with
    seen_le := fun q hq => Int.le_trans (hi.seen_le q hq) hclock
    expiry_le := fun te h => Int.le_trans (hi.expiry_le te h) hclock }

/-- What a step for an announcement does. -/
theorem discoveryStep_announce {now : Int} {msg : DiscoveryMsg}
    (hs : discoveryStep k me s (.announce now msg) = some s') :
    s.clock ≤ now ∧
      s' = { s with
        table := updatePeer (some me) now msg s.table
        clock := now
        accepted :=
          if Accepts me s.table msg.id then Function.update s.accepted msg.id (some now)
          else s.accepted } := by
  simp only [discoveryStep] at hs
  split at hs
  · rename_i hclock
    exact ⟨hclock, (Option.some.inj hs).symm⟩
  · cases hs

/-- What a step for an expiry does. -/
theorem discoveryStep_expire {now : Int} (hs : discoveryStep k me s (.expire now) = some s') :
    s.clock ≤ now ∧
      s' = { s with
        table := (ceellDiscoveryExpirePeers k now s.table).1
        clock := now
        lastExpiry := some now } := by
  simp only [discoveryStep] at hs
  split at hs
  · rename_i hclock
    exact ⟨hclock, (Option.some.inj hs).symm⟩
  · cases hs

/-- An announcement keeps the invariant. -/
theorem inv_announce {now : Int} {msg : DiscoveryMsg} (hi : Inv k me s)
    (hs : discoveryStep k me s (.announce now msg) = some s') : Inv k me s' := by
  obtain ⟨hclock, rfl⟩ := discoveryStep_announce hs
  by_cases hacc : Accepts me s.table msg.id
  · have hmem : ∀ q, q ∈ (updatePeer (some me) now msg s.table).entries ↔
        q = announcedPeer now msg (s.table.entryOf msg.id) ∨
          (q ∈ s.table.entries ∧ q.nodeId ≠ msg.id) :=
      fun q => mem_updatePeer hi.count_le hi.nodup hacc
    have hid : (announcedPeer now msg (s.table.entryOf msg.id)).nodeId = msg.id :=
      nodeId_announcedPeer now msg fun p hp => ((entryOf_eq_some hi.nodup).mp hp).2
    rw [if_pos hacc, ← hid]
    refine hi.written hclock (peerCount_updatePeer_le _ now msg hi.count_le)
      (nodup_updatePeer _ now msg hi.count_le hi.nodup) ?_
      (Peer.Terminated.announced now msg hi.terminated msg.id) (lastSeen_announcedPeer now msg _) ?_
    · intro hself
      obtain ⟨q, hq, hqid⟩ := mem_ids.mp hself
      rcases (hmem q).mp hq with rfl | ⟨hold, _⟩
      · exact hacc.1 (hid.symm.trans hqid)
      · exact hi.not_self (mem_ids.mpr ⟨q, hold, hqid⟩)
    · intro q hq
      rw [hid]
      exact (hmem q).mp hq
  · -- ignored: the history does not move either
    rw [updatePeer_of_not_accepts now hi.count_le hacc, if_neg hacc]
    exact hi.later hclock

/-- An expiry keeps the invariant. -/
theorem inv_expire {now : Int} (hi : Inv k me s)
    (hs : discoveryStep k me s (.expire now) = some s') : Inv k me s' := by
  obtain ⟨hclock, rfl⟩ := discoveryStep_expire hs
  obtain ⟨hcount, hperm, _⟩ := expire_spec k now s.table hi.count_le
  have hkept : ∀ p ∈ (ceellDiscoveryExpirePeers k now s.table).1.entries,
      p ∈ s.table.entries ∧ now - p.lastSeen ≤ k.peerTimeoutMs :=
    fun p hp => (mem_expire hi.count_le).mp hp
  have hids : (ceellDiscoveryExpirePeers k now s.table).1.ids.Perm
      ((s.table.entries.filter fun p => !isStale k now p).map (·.nodeId)) := hperm.map _
  have hsub : ((s.table.entries.filter fun p => !isStale k now p).map (·.nodeId)).Sublist
      s.table.ids := List.filter_sublist.map _
  constructor
  · have := hi.count_le
    dsimp only
    omega
  · exact hids.nodup_iff.mpr (hi.nodup.sublist hsub)
  · exact fun h => hi.not_self (hsub.subset (hids.mem_iff.mp h))
  · exact fun p hp => hi.terminated p (hkept p hp).1
  · exact fun p hp => hi.last_seen p (hkept p hp).1
  · intro p hp
    have := hi.seen_le p (hkept p hp).1
    dsimp only
    omega
  · simp
  · intro p hp te hte
    obtain rfl : now = te := by simpa using hte
    have := (hkept p hp).2
    omega

theorem inv_init : Inv k me (discoveryMachine k me).init := by
  have hnil : (PeerTable.empty k.discoveryMaxPeers).entries = [] := by
    simp [PeerTable.entries, PeerTable.empty]
  constructor <;> simp [discoveryMachine, PeerTable.ids, hnil]
  simp [PeerTable.empty]

theorem inv_step {a : DiscoveryAct} (hi : Inv k me s) (hs : discoveryStep k me s a = some s') :
    Inv k me s' := by
  cases a with
  | announce now msg => exact inv_announce hi hs
  | expire now => exact inv_expire hi hs

/-- The invariant holds along every run. -/
theorem inv_reachable {s : DiscoveryRun k.discoveryMaxPeers}
    (hr : (discoveryMachine k me).Reachable s) : Inv k me s := by
  exact Machine.Reachable.induct inv_init (fun s a s' hi hs => inv_step hi hs) hr

/-- An announcement from an unknown node at a full table changes nothing. -/
theorem updatePeer_full_table {t : PeerTable max} {msg : DiscoveryMsg} (now : Int)
    (hfull : t.peerCount = max) (hnot : msg.id ∉ t.ids) :
    updatePeer (some me) now msg t = t := by
  rcases updatePeer_cases (some me) now msg t (Nat.le_of_eq hfull) with
    ⟨h, _⟩ | ⟨_, _, front, p, back, heq, hid, _⟩ | ⟨_, _, hroom, _⟩
  · exact h
  · exact absurd (mem_ids.mpr ⟨p, by simp [heq], hid⟩) hnot
  · omega

end Invariant

/-- **The peer table over every run** of announcements and expiries at
non-decreasing uptimes: bounded, without repeated ids or our own, every
string terminated, every `last_seen` the time of the last announcement
accepted from that node, no entry older than the timeout at the last
expiry, and full means closed to unknown nodes. -/
theorem peerTable_ok_of_reachable (k : Kconfig) (me : Identity)
    (s : DiscoveryRun k.discoveryMaxPeers) (hr : (discoveryMachine k me).Reachable s) :
    s.table.peerCount ≤ k.discoveryMaxPeers ∧
    s.table.entries.length = s.table.peerCount ∧
    s.table.ids.Nodup ∧
    me.nodeId ∉ s.table.ids ∧
    (∀ p ∈ s.table.entries, p.Terminated) ∧
    (∀ p ∈ s.table.entries, s.accepted p.nodeId = some p.lastSeen) ∧
    (∀ p ∈ s.table.entries, ∀ te ∈ s.lastExpiry,
      te - (k.peerTimeoutMs : Int) ≤ p.lastSeen) ∧
    (∀ now msg, s.table.peerCount = k.discoveryMaxPeers → msg.id ∉ s.table.ids →
      updatePeer (some me) now msg s.table = s.table) := by
  have hi := inv_reachable hr
  exact ⟨hi.count_le, length_entries hi.count_le, hi.nodup, hi.not_self, hi.terminated,
    hi.last_seen, hi.fresh, fun now _ hfull hnot => updatePeer_full_table now hfull hnot⟩

/-- Two nodes announce themselves, one again, and the other expires. -/
def sampleDiscovery : List DiscoveryAct :=
  [.announce 10 ⟨1, some ['a'], none, some ['i'], some ['s']⟩,
   .announce 20 ⟨2, none, none, none, none⟩,
   .announce 4000 ⟨1, none, none, none, some ['t']⟩, .expire 6000]

theorem peerTable_ok_sample :
    ∃ s, (discoveryMachine {} ⟨7⟩).run sampleDiscovery = some s ∧ s.table.ids.Nodup ∧
      s.table.ids = [1] := by
  obtain ⟨s, hs⟩ : ∃ s, (discoveryMachine {} ⟨7⟩).run sampleDiscovery = some s :=
    Option.isSome_iff_exists.mp (by decide)
  have hids : ((discoveryMachine {} ⟨7⟩).run sampleDiscovery).map (·.table.ids) = some [1] := by
    decide
  refine ⟨s, hs, (peerTable_ok_of_reachable {} ⟨7⟩ s ⟨_, hs⟩).2.2.1, ?_⟩
  simpa [hs] using hids

end Ceell.Network
