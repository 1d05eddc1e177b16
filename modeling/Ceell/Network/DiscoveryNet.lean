/-
Ceell.Network.DiscoveryNet — the nodes of a network that announce
themselves to each other.

Each node has its identity, its registry, the static buffer of
`tx_thread_fn` and its own peer table. A datagram that was sent stays on
the wire, so a node can receive it never, late, twice, or after a newer
one. Steps of different nodes come in any order.

`DiscNetInv` is the invariant, `discNetInv_reachable` its run form. Three results
rest on it: `discoveryNet_truthful` (what is in a table is true),
`discoveryNet_lookup` (a service that is found is registered where the
lookup points to, and stays registered), and `discoveryNet_membership`
(in a network that fits the tables, who is in a table is decided by the
last datagram heard and the last expiry).
-/
import Ceell.Network.Announcement
import Mathlib.Data.Fintype.Card

namespace Ceell.Network

open Ceell.Lib Ceell.Osal Ceell.Core

/-! ## The network -/

/-- What the discovery threads and the lifecycle loop of a node share. -/
structure NetNode (k : Kconfig) (ν : Type) where
  tx : TxRun ν
  table : PeerTable k.discoveryMaxPeers
  /-- the uptime of the last call -/
  clock : Int
  /-- the uptime of the last `ceell_discovery_expire_peers` -/
  lastExpiry : Option Int

/-- The nodes, the datagrams sent so far with their senders, and for each
two nodes the receiver's uptime when it last got a datagram of the other. -/
structure DiscoveryNet (k : Kconfig) (ι ν : Type) where
  nodes : ι → NetNode k ν
  sent : List (ι × List Char)
  heard : ι → ι → Option Int

inductive DiscoveryNetAct (ι ν : Type) where
  | register (i : ι) (name : Option (List Char)) (handler : Option ν) (priority : UInt8)
      (deadlineMs : UInt16)
  | transmit (i : ι)
  | receive (i j : ι) (now : Int) (datagram : List Char)
  | expire (i : ι) (now : Int)

section Model

variable {ι ν : Type} [DecidableEq ι] (lib : JsonLib) (k : Kconfig) (cfg : ι → CeellConfig)

/-- One call at one node. A node receives only what some node has sent,
itself included. -/
def discoveryNetStep (s : DiscoveryNet k ι ν) :
    DiscoveryNetAct ι ν → Option (DiscoveryNet k ι ν)
  | .register i name handler priority deadlineMs =>
      (txStep k (s.nodes i).tx (.register name handler priority deadlineMs)).map fun tx =>
        { s with nodes := Function.update s.nodes i { s.nodes i with tx := tx } }
  | .transmit i =>
      let datagram := txAnnouncement lib (cfg i) (s.nodes i).tx.services (s.nodes i).tx.svcCsv
      (txStep k (s.nodes i).tx .announce).map fun tx =>
        { s with
          nodes := Function.update s.nodes i { s.nodes i with tx := tx }
          sent := (datagram.map fun d => (i, d)).toList ++ s.sent }
  | .receive i j now datagram =>
      if (j, datagram) ∈ s.sent ∧ (s.nodes i).clock ≤ now then
        some { s with
          nodes := Function.update s.nodes i
            { s.nodes i with
              table := rxThreadFn lib (some ⟨(cfg i).nodeId⟩) now datagram (s.nodes i).table
              clock := now }
          heard := Function.update s.heard i (Function.update (s.heard i) j (some now)) }
      else none
  | .expire i now =>
      if (s.nodes i).clock ≤ now then
        some { s with
          nodes := Function.update s.nodes i
            { s.nodes i with
              table := (ceellDiscoveryExpirePeers k now (s.nodes i).table).1
              clock := now
              lastExpiry := some now } }
      else none

/-- Runs of the network from the start of all nodes. -/
def discoveryNetMachine (ν : Type) :
    Machine (DiscoveryNet k ι ν) (DiscoveryNetAct ι ν) where
  init :=
    { nodes := fun _ => ⟨(txMachine k ν).init, .empty _, 0, none⟩
      sent := []
      heard := fun _ _ => none }
  step := discoveryNetStep lib k cfg

end Model

/-! ## The invariant -/

/-- A name that the CSV string and the JSON text hold as it is. -/
structure ServiceName (name : List Char) : Prop where
  plain : Plain name
  ne_nil : name ≠ []
  comma : ',' ∉ name

/-- What is registered has such a name. -/
def PlainNames {k : Kconfig} {ι ν : Type} (_ : DiscoveryNet k ι ν) :
    DiscoveryNetAct ι ν → Prop
  | .register _ name _ _ _ => ∀ n ∈ name, ServiceName (cstr n)
  | _ => True

/-- Whole names of a registry, from the first on, as one string. -/
def FirstNames {ν : Type} (services : Registry ν) (csv : List Char) : Prop :=
  ∃ names, names <+: serviceNames services ∧ csv = [','].intercalate names

/-- A datagram that a node with this identity and registry sent. -/
def Announces {ν : Type} (id : CeellConfig) (services : Registry ν) (datagram : List Char) :
    Prop :=
  ∃ csv : CharBuf 128, csv.Terminated ∧ FirstNames services csv.str ∧ Plain csv.str ∧
    datagram = renderObj (announcementFields id csv)

/-- The entry says of a node what is so. -/
structure Peer.Describes {ν : Type} (p : Peer) (id : CeellConfig) (services : Registry ν) :
    Prop where
  nodeId : p.nodeId = id.nodeId
  role : p.role.str = id.role.str
  name : p.name.str = id.name.str
  ip : p.ip.str = id.ip.str
  services : FirstNames services p.services.str

section Node

variable {ι ν : Type} {k : Kconfig}

/-- The table of node `i`, where `heard` says when it last got a datagram
of each node. -/
structure TableOk (cfg : ι → CeellConfig) (services : ι → Registry ν) (i : ι)
    (node : NetNode k ν) (heard : ι → Option Int) : Prop where
  count_le : node.table.peerCount ≤ k.discoveryMaxPeers
  nodup : node.table.ids.Nodup
  entries : ∀ p ∈ node.table.entries,
    ∃ j, j ≠ i ∧ p.Describes (cfg j) (services j) ∧ heard j = some p.lastSeen
  fresh : ∀ p ∈ node.table.entries, ∀ te ∈ node.lastExpiry,
    te - p.lastSeen ≤ (k.peerTimeoutMs : Int)
  expiry_le : ∀ te ∈ node.lastExpiry, te ≤ node.clock

/-- The invariant of the network. -/
structure DiscNetInv (cfg : ι → CeellConfig) (s : DiscoveryNet k ι ν) : Prop where
  clean : ∀ i, TxClean (s.nodes i).tx
  named : ∀ i, ∀ e ∈ (s.nodes i).tx.services, ServiceName e.name.str
  sent : ∀ x ∈ s.sent, Announces (cfg x.1) (s.nodes x.1).tx.services x.2
  tables : ∀ i, TableOk cfg (fun j => (s.nodes j).tx.services) i (s.nodes i) (s.heard i)

/-- Nodes whose identities fit an announcement and have different ids. -/
structure PlainNodes (cfg : ι → CeellConfig) : Prop where
  plain : ∀ i, PlainIdentity (cfg i)
  distinct : Function.Injective fun i => (cfg i).nodeId

/-! ### A registry that grows -/

variable {services services' : Registry ν} {id : CeellConfig}

theorem FirstNames.mono {csv : List Char} (h : FirstNames services csv)
    (hgrow : serviceNames services <+: serviceNames services') : FirstNames services' csv := by
  obtain ⟨names, hnames, hcsv⟩ := h
  exact ⟨names, hnames.trans hgrow, hcsv⟩

theorem Announces.mono {datagram : List Char} (h : Announces id services datagram)
    (hgrow : serviceNames services <+: serviceNames services') :
    Announces id services' datagram := by
  obtain ⟨csv, hterm, hnames, hplain, htext⟩ := h
  exact ⟨csv, hterm, hnames.mono hgrow, hplain, htext⟩

theorem Peer.Describes.mono {p : Peer} (h : p.Describes id services)
    (hgrow : serviceNames services <+: serviceNames services') : p.Describes id services' :=
  { h with services := h.services.mono hgrow }

/-! ### The sender -/

theorem plain_firstNames {csv : List Char} (h : FirstNames services csv)
    (hnamed : ∀ e ∈ services, ServiceName e.name.str) : Plain csv := by
  obtain ⟨names, hnames, rfl⟩ := h
  intro c hc
  rcases mem_of_mem_intercalate hc with rfl | ⟨x, hx, hc⟩
  · decide
  · obtain ⟨e, he, rfl⟩ := List.mem_map.mp (hnames.subset hx)
    exact (hnamed e he).plain c hc

/-- What a pass of `tx_thread_fn` sends, whatever the static buffer went
through before. -/
theorem txAnnouncement_render {lib : JsonLib} (hdoc : lib.Documented) (hid : PlainIdentity id)
    {tx : TxRun ν} (hclean : TxClean tx) (hnamed : ∀ e ∈ tx.services, ServiceName e.name.str)
    {datagram : List Char} (h : txAnnouncement lib id tx.services tx.svcCsv = some datagram) :
    (ceellServiceNamesCsv tx.services tx.svcCsv).1.Terminated ∧
      FirstNames tx.services (ceellServiceNamesCsv tx.services tx.svcCsv).1.str ∧
      Plain (ceellServiceNamesCsv tx.services tx.svcCsv).1.str ∧
      datagram = renderObj
        (announcementFields id (ceellServiceNamesCsv tx.services tx.svcCsv).1) := by
  obtain ⟨names, hnames, hlen, hbuf⟩ := txClean_announce hclean
  obtain ⟨hterm, hstr⟩ :=
    (hbuf.str_eq_iff (nul_notMem_names hnames)).mpr (CharBuf.getElem?_zero hlen)
  have hfirst : FirstNames tx.services (ceellServiceNamesCsv tx.services tx.svcCsv).1.str :=
    ⟨names, hnames, hstr⟩
  have hcsv := plain_firstNames hfirst hnamed
  have hplain := plain_announcementFields hid hcsv
  refine ⟨hterm, hfirst, hcsv, ?_⟩
  simp only [txAnnouncement] at h
  split at h
  · rename_i hret
    have htext : (lib.encodeBuf (announcementFields id
        (ceellServiceNamesCsv tx.services tx.svcCsv).1) announceBufSize).2 = _ :=
      hdoc.encode_plain _ _ (List.cons_ne_nil _ _) hplain hret
    rw [htext, cstr_eq_self (nul_notMem_renderObj hplain)] at h
    exact (Option.some.inj h).symm
  · cases h

/-! ### The receiver -/

/-- The message that a receiver decodes, and what it makes of the entry of
the sender. -/
theorem describes_announcedPeer (hid : PlainIdentity id) {csv : CharBuf 128}
    (hterm : csv.Terminated) (hnames : FirstNames services csv.str) (now : Int) {o : Option Peer}
    (ho : ∀ p ∈ o, p.Describes id services) :
    (announcedPeer now (announcementMsg id csv) o).Describes id services := by
  have hcut : ∀ {n : Nat} {b : CharBuf (n + 1)}, b.Terminated →
      ((CharBuf.zero (n + 1)).copy b.str).str = b.str := by
    intro n b hb
    rw [CharBuf.str_copy_zero, cstr_eq_self b.nul_notMem_str]
    exact List.take_of_length_le (Nat.le_of_lt_succ (b.length_str_lt hb))
  cases o with
  | none =>
    exact
      { nodeId := toUInt32_ofUInt32 id.nodeId
        role := hcut hid.role.1
        name := hcut hid.name.1
        ip := hcut hid.ip.1
        services := by
          have hservices : (newPeer now (announcementMsg id csv)).services.str = csv.str :=
            hcut hterm
          exact hservices ▸ hnames }
  | some p =>
    have hp := ho p rfl
    refine { hp with services := ?_ }
    have hservices : (refreshPeer now (announcementMsg id csv) p).services.str = csv.str := by
      simp only [refreshPeer, announcementMsg, CharBuf.terminate_copy]
      exact hcut hterm
    exact hservices ▸ hnames

variable {cfg : ι → CeellConfig} {reg : ι → Registry ν} {i : ι} {node : NetNode k ν}
  {heard : ι → Option Int}

theorem TableOk.mono {reg' : ι → Registry ν} (h : TableOk cfg reg i node heard)
    (hgrow : ∀ j, serviceNames (reg j) <+: serviceNames (reg' j)) :
    TableOk cfg reg' i node heard :=
  { h with
    entries := by
      intro p hp
      obtain ⟨j, hne, hdesc, hheard⟩ := h.entries p hp
      exact ⟨j, hne, hdesc.mono (hgrow j), hheard⟩ }

/-- Receiving a datagram is updating the peer that sent it. -/
theorem rxThreadFn_announces {lib : JsonLib} (hdoc : lib.Documented) {max : Nat}
    (hid : PlainIdentity id) {datagram : List Char} (h : Announces id services datagram)
    (me : Option Identity) (now : Int) (t : PeerTable max) :
    ∃ msg : DiscoveryMsg, msg.id = id.nodeId ∧
      rxThreadFn lib me now datagram t = updatePeer me now msg t ∧
      ∀ o : Option Peer, (∀ p ∈ o, p.Describes id services) →
        (announcedPeer now msg o).Describes id services := by
  obtain ⟨csv, hterm, hnames, hplain, rfl⟩ := h
  have hlen := length_announcement_le hid (csv.length_str_lt hterm)
  refine ⟨announcementMsg id csv, toUInt32_ofUInt32 id.nodeId, ?_, ?_⟩
  · exact rxThreadFn_announcement hdoc hid hplain (Nat.le_trans hlen (by decide)) me now t
  · exact fun o ho => describes_announcedPeer hid hterm hnames now ho

/-- An id in the table belongs to another node. -/
theorem TableOk.exists_of_mem_ids (h : TableOk cfg reg i node heard) {id : NodeId}
    (hid : id ∈ node.table.ids) : ∃ j, j ≠ i ∧ (cfg j).nodeId = id := by
  obtain ⟨p, hp, rfl⟩ := mem_ids.mp hid
  obtain ⟨j, hne, hdesc, _⟩ := h.entries p hp
  exact ⟨j, hne, hdesc.nodeId.symm⟩

/-- The entry of a node is about that node. -/
theorem TableOk.of_mem (h : TableOk cfg reg i node heard)
    (hdistinct : Function.Injective fun i => (cfg i).nodeId) {p : Peer}
    (hp : p ∈ node.table.entries) {j : ι} (hid : p.nodeId = (cfg j).nodeId) :
    j ≠ i ∧ p.Describes (cfg j) (reg j) ∧ heard j = some p.lastSeen := by
  obtain ⟨j', hne, hdesc, hheard⟩ := h.entries p hp
  obtain rfl : j' = j := hdistinct (hdesc.nodeId.symm.trans hid)
  exact ⟨hne, hdesc, hheard⟩

variable [DecidableEq ι]

/-- **A datagram** of node `j` keeps the table of node `i` as it should be. -/
theorem TableOk.receive {lib : JsonLib} (hdoc : lib.Documented) (hnodes : PlainNodes cfg)
    (h : TableOk cfg reg i node heard) {j : ι} {now : Int} {datagram : List Char}
    (hsent : Announces (cfg j) (reg j) datagram) (hclock : node.clock ≤ now) :
    TableOk cfg reg i
      { node with
        table := rxThreadFn lib (some ⟨(cfg i).nodeId⟩) now datagram node.table, clock := now }
      (Function.update heard j (some now)) := by
  obtain ⟨msg, hmid, hrx, hdescribes⟩ := rxThreadFn_announces hdoc (hnodes.plain j) hsent
    (some ⟨(cfg i).nodeId⟩) now node.table
  rw [hrx]
  have hte : ∀ te ∈ node.lastExpiry, te ≤ now :=
    fun te h' => Int.le_trans (h.expiry_le te h') hclock
  by_cases hacc : Accepts ⟨(cfg i).nodeId⟩ node.table msg.id
  · have hji : j ≠ i := by
      rintro rfl
      exact hacc.1 hmid
    have hentry : ∀ p ∈ node.table.entryOf msg.id, p.Describes (cfg j) (reg j) := by
      intro p hp
      obtain ⟨hmem, hid⟩ := (entryOf_eq_some h.nodup).mp hp
      exact (h.of_mem hnodes.distinct hmem (hid.trans hmid)).2.1
    have hmem : ∀ p ∈ (updatePeer (some ⟨(cfg i).nodeId⟩) now msg node.table).entries,
        p = announcedPeer now msg (node.table.entryOf msg.id) ∨
          (p ∈ node.table.entries ∧ p.nodeId ≠ msg.id) :=
      fun p hp => (mem_updatePeer h.count_le h.nodup hacc).mp hp
    constructor
    · exact peerCount_updatePeer_le _ now msg h.count_le
    · exact nodup_updatePeer _ now msg h.count_le h.nodup
    · intro p hp
      rcases hmem p hp with rfl | ⟨hold, hne⟩
      · refine ⟨j, hji, hdescribes _ hentry, ?_⟩
        rw [Function.update_self, lastSeen_announcedPeer]
      · obtain ⟨j', hne', hdesc, hheard⟩ := h.entries p hold
        have hjj : j' ≠ j := by
          rintro rfl
          exact hne (hdesc.nodeId.trans hmid.symm)
        exact ⟨j', hne', hdesc, by rw [Function.update_of_ne hjj, hheard]⟩
    · intro p hp te hlast
      rcases hmem p hp with rfl | ⟨hold, _⟩
      · have := hte te hlast
        rw [lastSeen_announcedPeer]
        omega
      · exact h.fresh p hold te hlast
    · exact hte
  · rw [updatePeer_of_not_accepts now h.count_le hacc]
    refine { h with entries := ?_, expiry_le := hte }
    intro p hp
    obtain ⟨j', hne', hdesc, hheard⟩ := h.entries p hp
    have hjj : j' ≠ j := by
      rintro rfl
      -- a node in the table is accepted
      refine hacc ⟨fun hself => hne' (hnodes.distinct (hmid.symm.trans hself)), Or.inl ?_⟩
      exact mem_ids.mpr ⟨p, hp, hdesc.nodeId.trans hmid.symm⟩
    exact ⟨j', hne', hdesc, by rw [Function.update_of_ne hjj, hheard]⟩

omit [DecidableEq ι] in
/-- **An expiry** keeps it too. -/
theorem TableOk.expire (h : TableOk cfg reg i node heard) (now : Int) :
    TableOk cfg reg i
      { node with
        table := (ceellDiscoveryExpirePeers k now node.table).1, clock := now
        lastExpiry := some now } heard := by
  obtain ⟨hcount, hperm, _⟩ := expire_spec k now node.table h.count_le
  have hids : (ceellDiscoveryExpirePeers k now node.table).1.ids.Perm
      ((node.table.entries.filter fun p => !isStale k now p).map (·.nodeId)) := hperm.map _
  have hsub : ((node.table.entries.filter fun p => !isStale k now p).map (·.nodeId)).Sublist
      node.table.ids := List.filter_sublist.map _
  constructor
  · exact Nat.le_trans hcount h.count_le
  · exact hids.nodup_iff.mpr (h.nodup.sublist hsub)
  · exact fun p hp => h.entries p ((mem_expire h.count_le).mp hp).1
  · intro p hp te hte
    obtain rfl : now = te := by simpa using hte
    exact ((mem_expire h.count_le).mp hp).2
  · simp

end Node

/-! ## Runs -/

section Runs

variable {ι ν : Type} [DecidableEq ι] {lib : JsonLib} {k : Kconfig} {cfg : ι → CeellConfig}
  {s s' : DiscoveryNet k ι ν}

/-- The names of a registry after a call of the sending side. -/
theorem serviceNames_txStep {tx tx' : TxRun ν} {a : TxAct ν} (h : txStep k tx a = some tx') :
    serviceNames tx.services <+: serviceNames tx'.services := by
  cases a with
  | register name handler priority deadlineMs =>
    obtain rfl := Option.some.inj h
    exact serviceNames_register ..
  | announce =>
    obtain rfl := Option.some.inj h
    exact List.prefix_rfl

/-- The nodes' sending sides after one of them made a call; the tables do
not move. -/
theorem DiscNetInv.tx (h : DiscNetInv cfg s) {i : ι} {a : TxAct ν} {tx : TxRun ν}
    (htx : txStep k (s.nodes i).tx a = some tx) (hnamed : ∀ e ∈ tx.services, ServiceName e.name.str)
    {sent : List (ι × List Char)}
    (hsent : ∀ x ∈ sent, x ∈ s.sent ∨ Announces (cfg x.1) (s.nodes x.1).tx.services x.2) :
    DiscNetInv cfg { s with
      nodes := Function.update s.nodes i { s.nodes i with tx := tx }, sent := sent } := by
  have hgrow : ∀ j, serviceNames (s.nodes j).tx.services <+:
      serviceNames (Function.update s.nodes i { s.nodes i with tx := tx } j).tx.services := by
    intro j
    by_cases hj : j = i
    · subst hj
      rw [Function.update_self]
      exact serviceNames_txStep htx
    · rw [Function.update_of_ne hj]
  constructor
  · refine (Function.forall_update_iff s.nodes fun _ n => TxClean n.tx).mpr
      ⟨?_, fun j _ => h.clean j⟩
    exact txClean_step (h.clean i) htx
  · exact (Function.forall_update_iff s.nodes fun _ n =>
      ∀ e ∈ n.tx.services, ServiceName e.name.str).mpr ⟨hnamed, fun j _ => h.named j⟩
  · intro x hx
    rcases hsent x hx with hold | hnew
    · exact (h.sent x hold).mono (hgrow x.1)
    · exact hnew.mono (hgrow x.1)
  · intro j
    have hj := (h.tables j).mono hgrow
    by_cases hji : j = i
    · subst hji
      dsimp only
      rw [Function.update_self]
      exact { hj with }
    · dsimp only
      rw [Function.update_of_ne hji]
      exact hj

/-- The receiving side of one node after a call. -/
theorem DiscNetInv.rx (h : DiscNetInv cfg s) {i : ι} {node : NetNode k ν}
    {heard : ι → Option Int}
    (hnode : TableOk cfg (fun j => (s.nodes j).tx.services) i node heard)
    (htx : node.tx = (s.nodes i).tx) :
    DiscNetInv cfg { s with
      nodes := Function.update s.nodes i node, heard := Function.update s.heard i heard } := by
  have hsame : ∀ j, (Function.update s.nodes i node j).tx = (s.nodes j).tx := by
    intro j
    by_cases hj : j = i
    · subst hj
      rw [Function.update_self, htx]
    · rw [Function.update_of_ne hj]
  constructor
  · intro j
    dsimp only
    rw [hsame]
    exact h.clean j
  · intro j
    dsimp only
    rw [hsame]
    exact h.named j
  · intro x hx
    dsimp only
    rw [hsame]
    exact h.sent x hx
  · intro j
    dsimp only
    simp only [hsame]
    by_cases hj : j = i
    · subst hj
      simp only [Function.update_self]
      exact hnode
    · simp only [Function.update_of_ne hj]
      exact h.tables j

/-- What a reception does. -/
theorem discoveryNetStep_receive {i j : ι} {now : Int} {datagram : List Char}
    (hs : discoveryNetStep lib k cfg s (.receive i j now datagram) = some s') :
    ((j, datagram) ∈ s.sent ∧ (s.nodes i).clock ≤ now) ∧
      s' = { s with
        nodes := Function.update s.nodes i
          { s.nodes i with
            table := rxThreadFn lib (some ⟨(cfg i).nodeId⟩) now datagram (s.nodes i).table
            clock := now }
        heard := Function.update s.heard i (Function.update (s.heard i) j (some now)) } := by
  simp only [discoveryNetStep] at hs
  split at hs
  · rename_i h
    exact ⟨h, (Option.some.inj hs).symm⟩
  · cases hs

/-- What an expiry does. -/
theorem discoveryNetStep_expire {i : ι} {now : Int}
    (hs : discoveryNetStep lib k cfg s (.expire i now) = some s') :
    (s.nodes i).clock ≤ now ∧
      s' = { s with
        nodes := Function.update s.nodes i
          { s.nodes i with
            table := (ceellDiscoveryExpirePeers k now (s.nodes i).table).1
            clock := now
            lastExpiry := some now } } := by
  simp only [discoveryNetStep] at hs
  split at hs
  · rename_i h
    exact ⟨h, (Option.some.inj hs).symm⟩
  · cases hs

/-- A registration appends a name cut to 31 bytes, or nothing. -/
theorem named_register {tx : TxRun ν} {name : Option (List Char)} {handler : Option ν}
    {priority : UInt8} {deadlineMs : UInt16} (h : ∀ e ∈ tx.services, ServiceName e.name.str)
    (hname : ∀ n ∈ name, ServiceName (cstr n)) :
    ∀ e ∈ (ceellServiceRegisterSla k name handler priority deadlineMs tx.services).1,
      ServiceName e.name.str := by
  cases name with
  | none => exact h
  | some name =>
    rw [registerSla_eq k name ⟨handler, priority, deadlineMs⟩]
    split
    · intro e he
      rcases List.mem_append.mp he with he | he
      · exact h e he
      · obtain rfl := List.mem_singleton.mp he
        have hn := hname name rfl
        rw [str_name_newEntry]
        refine ⟨fun c hc => hn.plain c (List.mem_of_mem_take hc), ?_,
          fun hc => hn.comma (List.mem_of_mem_take hc)⟩
        intro hnil
        rcases List.take_eq_nil_iff.mp hnil with h0 | h0
        · cases h0
        · exact hn.ne_nil h0
    · exact h

/-- **Every step keeps the invariant.** -/
theorem discNetInv_step (hdoc : lib.Documented) (hnodes : PlainNodes cfg) {a : DiscoveryNetAct ι ν}
    (h : DiscNetInv cfg s) (hplain : PlainNames s a)
    (hs : discoveryNetStep lib k cfg s a = some s') : DiscNetInv cfg s' := by
  cases a with
  | register i name handler priority deadlineMs =>
    simp only [discoveryNetStep, Option.map_eq_some_iff] at hs
    obtain ⟨tx, htx, rfl⟩ := hs
    refine h.tx htx ?_ fun x hx => Or.inl hx
    obtain rfl := Option.some.inj htx
    exact named_register (h.named i) hplain
  | transmit i =>
    simp only [discoveryNetStep, Option.map_eq_some_iff] at hs
    obtain ⟨tx, htx, rfl⟩ := hs
    refine h.tx htx ?_ fun x hx => ?_
    · obtain rfl := Option.some.inj htx
      exact h.named i
    · rcases List.mem_append.mp hx with hnew | hold
      · obtain ⟨datagram, hdatagram, rfl⟩ := Option.map_eq_some_iff.mp (Option.mem_toList.mp hnew)
        exact Or.inr
          ⟨_, txAnnouncement_render hdoc (hnodes.plain i) (h.clean i) (h.named i) hdatagram⟩
      · exact Or.inl hold
  | receive i j now datagram =>
    obtain ⟨⟨hmem, hclock⟩, rfl⟩ := discoveryNetStep_receive hs
    exact h.rx ((h.tables i).receive hdoc hnodes (h.sent _ hmem) hclock) rfl
  | expire i now =>
    obtain ⟨hclock, rfl⟩ := discoveryNetStep_expire hs
    have hnode := h.rx ((h.tables i).expire now) rfl
    rwa [Function.update_eq_self] at hnode

theorem discNetInv_init : DiscNetInv cfg (discoveryNetMachine lib k cfg ν).init := by
  have hnil : (PeerTable.empty k.discoveryMaxPeers).entries = [] := by
    simp [PeerTable.entries, PeerTable.empty]
  constructor
  · exact fun _ => ⟨[], List.nil_prefix, by decide, CharBuf.writtenOver_nil _⟩
  · exact fun _ _ he => absurd he List.not_mem_nil
  · exact fun _ hx => absurd hx List.not_mem_nil
  · intro i
    constructor <;> simp [discoveryNetMachine, PeerTable.ids, hnil]
    simp [PeerTable.empty]

/-- The invariant holds along every run that registers such names. -/
theorem discNetInv_reachable (hdoc : lib.Documented) (hnodes : PlainNodes cfg)
    (hr : (discoveryNetMachine lib k cfg ν).ReachableUnder PlainNames s) : DiscNetInv cfg s :=
  hr.induct discNetInv_init fun _ _ _ h hplain hs => discNetInv_step hdoc hnodes h hplain hs

/-! ## What the tables say -/

/-- **Truthful tables**: whatever is lost, late, repeated or overtaken, each
entry of a table is another node's, has that node's id, role, name and
address, lists whole names of services registered there, and carries the
time its last datagram came. No node has two entries. -/
theorem discoveryNet_truthful (hdoc : lib.Documented) (hnodes : PlainNodes cfg)
    (hr : (discoveryNetMachine lib k cfg ν).ReachableUnder PlainNames s) (i : ι) :
    (s.nodes i).table.ids.Nodup ∧
      ∀ p ∈ (s.nodes i).table.entries, ∃ j, j ≠ i ∧
        p.Describes (cfg j) (s.nodes j).tx.services ∧ s.heard i j = some p.lastSeen := by
  have h := (discNetInv_reachable hdoc hnodes hr).tables i
  exact ⟨h.nodup, h.entries⟩

/-- A brake with a service, and a node without any. -/
def twoNodes : Bool → CeellConfig
  | true => brakeIdentity
  | false => { brakeIdentity with nodeId := 7, ip := (CharBuf.zero 16).copy "192.168.1.7".toList }

def brakeDatagram : List Char :=
  "\x7b\"node_id\":3,\"role\":\"brake\",\"name\":\"ceell-brake\",\"ip\":\"192.168.1.12\"".toList ++
    ",\"services\":\"brake-status\"\x7d".toList

/-- The brake hears itself, too. -/
def twoNodesRun : List (DiscoveryNetAct Bool Unit) :=
  [.register true (some "brake-status".toList) (some ()) 0 5, .transmit true,
   .receive false true 10 brakeDatagram, .receive true true 11 brakeDatagram, .expire false 5010]

theorem plainNodes_twoNodes : PlainNodes twoNodes where
  plain := by
    rintro (_ | _)
    · exact { role := plainIdentity_brake.role, name := plainIdentity_brake.name, ip := by decide }
    · exact plainIdentity_brake
  distinct := by decide

theorem twoNodes_reachable :
    ∃ s, (discoveryNetMachine jsonReference {} twoNodes Unit).run twoNodesRun = some s ∧
      (discoveryNetMachine jsonReference {} twoNodes Unit).ReachableUnder PlainNames s ∧
      (s.nodes false).table.ids = [3] ∧
      (ceellServiceFindPeer {} (s.nodes false).table (some "brake-status".toList)
        (some (.zero 16))).2 = 0 := by
  obtain ⟨s, hs⟩ : ∃ s,
      (discoveryNetMachine jsonReference {} twoNodes Unit).run twoNodesRun = some s :=
    Option.isSome_iff_exists.mp (by decide +kernel)
  have hend : ((discoveryNetMachine jsonReference {} twoNodes Unit).run twoNodesRun).map (fun s =>
      ((s.nodes false).table.ids, (ceellServiceFindPeer {} (s.nodes false).table
        (some "brake-status".toList) (some (.zero 16))).2)) = some ([3], 0) := by decide +kernel
  rw [hs, Option.map_some, Option.some.injEq, Prod.mk.injEq] at hend
  refine ⟨s, hs, ⟨_, hs, ?_⟩, hend⟩
  refine ⟨?_, fun _ _ => ⟨trivial, fun _ _ => ⟨trivial, fun _ _ => ⟨trivial, fun _ _ =>
    ⟨trivial, fun _ _ => trivial⟩⟩⟩⟩⟩
  rintro n ⟨⟩
  exact ⟨by decide, by decide, by decide⟩

theorem discoveryNet_truthful_twoNodes :
    ∃ s : DiscoveryNet {} Bool Unit, (s.nodes false).table.ids = [3] ∧
      ∀ p ∈ (s.nodes false).table.entries, ∃ j, j ≠ false ∧
        p.Describes (twoNodes j) (s.nodes j).tx.services ∧
        s.heard false j = some p.lastSeen := by
  obtain ⟨s, _, hr, hids, _⟩ := twoNodes_reachable
  exact ⟨s, hids,
    (discoveryNet_truthful jsonReference_documented plainNodes_twoNodes hr false).2⟩

/-- Registries only grow. -/
theorem services_prefix_step {a : DiscoveryNetAct ι ν}
    (hs : discoveryNetStep lib k cfg s a = some s') (j : ι) :
    (s.nodes j).tx.services <+: (s'.nodes j).tx.services := by
  have hupdate : ∀ {i : ι} {node : NetNode k ν},
      (s.nodes i).tx.services <+: node.tx.services →
        (s.nodes j).tx.services <+: (Function.update s.nodes i node j).tx.services := by
    intro i node hgrow
    by_cases hj : j = i
    · subst hj
      rwa [Function.update_self]
    · rw [Function.update_of_ne hj]
  cases a with
  | register i name handler priority deadlineMs =>
    simp only [discoveryNetStep, Option.map_eq_some_iff] at hs
    obtain ⟨tx, htx, rfl⟩ := hs
    obtain rfl := Option.some.inj htx
    refine hupdate ?_
    cases name with
    | none => exact List.prefix_rfl
    | some name =>
      dsimp only
      rw [registerSla_eq k name ⟨handler, priority, deadlineMs⟩]
      split
      · exact List.prefix_append _ _
      · exact List.prefix_rfl
  | transmit i =>
    simp only [discoveryNetStep, Option.map_eq_some_iff] at hs
    obtain ⟨tx, htx, rfl⟩ := hs
    obtain rfl := Option.some.inj htx
    exact hupdate List.prefix_rfl
  | receive i j' now datagram =>
    obtain ⟨_, rfl⟩ := discoveryNetStep_receive hs
    exact hupdate List.prefix_rfl
  | expire i now =>
    obtain ⟨_, rfl⟩ := discoveryNetStep_expire hs
    exact hupdate List.prefix_rfl

/-- A name keeps the entry it has, in whatever the network does next. -/
theorem findEntry_runFrom {t : DiscoveryNet k ι ν} {as : List (DiscoveryNetAct ι ν)}
    (hrun : (discoveryNetMachine lib k cfg ν).runFrom s as = some t) {j : ι} {name : List Char}
    {e : ServiceEntry ν} (hfind : findEntry (s.nodes j).tx.services name = some e) :
    findEntry (t.nodes j).tx.services name = some e := by
  refine Machine.runFrom_induct (M := discoveryNetMachine lib k cfg ν) (G := fun _ _ => True)
    (P := fun u => findEntry (u.nodes j).tx.services name = some e) ?_ as s t hfind
    (Machine.allSteps_true _ _) hrun
  intro u a u' hu _ hs
  obtain ⟨new, hnew⟩ := services_prefix_step hs j
  rw [← hnew, findEntry, List.find?_append]
  rw [findEntry] at hu
  rw [hu, Option.some_or]

omit [DecidableEq ι] in
/-- What a lookup finds in such a table. -/
theorem TableOk.found {i : ι} {node : NetNode k ν} {reg : ι → Registry ν}
    {heard : ι → Option Int} (h : TableOk cfg reg i node heard) (hnodes : PlainNodes cfg)
    (hnamed : ∀ j, ∀ e ∈ reg j, ServiceName e.name.str) {name : List Char} {ip : CharBuf 16}
    (hret : (ceellServiceFindPeer k node.table (some name) (some ip)).2 = 0) :
    ∃ p ∈ node.table.entries, ∃ j, j ≠ i ∧ heard j = some p.lastSeen ∧
      cstr name ∈ serviceNames (reg j) ∧
      ∃ out, (ceellServiceFindPeer k node.table (some name) (some ip)).1 = some out ∧
        out.str = (cfg j).ip.str := by
  obtain ⟨p, hp, hcontains, hout⟩ := (findPeer_spec h.count_le name ip).2 hret
  obtain ⟨j, hne, hdesc, hheard⟩ := h.entries p hp
  obtain ⟨names, hnames, hcsv⟩ := hdesc.services
  have hplain : ∀ x ∈ names, ServiceName x := by
    intro x hx
    obtain ⟨e, he, rfl⟩ := List.mem_map.mp (hnames.subset hx)
    exact hnamed j e he
  have hmem : cstr name ∈ names := by
    rw [hcsv] at hcontains
    exact (csvContains_intercalate (fun x hx => (hplain x hx).comma)
      (fun x hx => (hplain x hx).ne_nil) _).mp hcontains
  refine ⟨p, hp, j, hne, hheard, hnames.subset hmem, _, hout, ?_⟩
  have hip : cstr p.ip.bytes = p.ip.str := rfl
  have hlen := (cfg j).ip.length_str_lt (hnodes.plain j).ip.1
  rw [CharBuf.str_copy_zero, hip, hdesc.ip]
  exact List.take_of_length_le (Nat.le_of_lt_succ hlen)

/-- **A lookup that succeeds** at any node leads to the address of another
node, where the service is registered, and in whatever the network does
next a request for it finds the same entry there. -/
theorem discoveryNet_lookup (hdoc : lib.Documented) (hnodes : PlainNodes cfg)
    (hr : (discoveryNetMachine lib k cfg ν).ReachableUnder PlainNames s) (i : ι)
    (name : List Char) (ip : CharBuf 16)
    (hret : (ceellServiceFindPeer k (s.nodes i).table (some name) (some ip)).2 = 0) :
    ∃ j, j ≠ i ∧
      (∃ out, (ceellServiceFindPeer k (s.nodes i).table (some name) (some ip)).1 = some out ∧
        out.str = (cfg j).ip.str) ∧
      ∃ e ∈ (s.nodes j).tx.services, e.name.str = cstr name ∧
        ∀ as t, (discoveryNetMachine lib k cfg ν).runFrom s as = some t →
          lookupService (t.nodes j).tx.services name = e.registration := by
  have hinv := discNetInv_reachable hdoc hnodes hr
  obtain ⟨_, _, j, hne, _, hmem, hout⟩ := (hinv.tables i).found hnodes hinv.named hret
  obtain ⟨e, he⟩ := Option.isSome_iff_exists.mp (findEntry_isSome.mpr (List.mem_map.mp hmem))
  refine ⟨j, hne, hout, e, List.mem_of_find?_eq_some he, ?_, ?_⟩
  · simpa using List.find?_some he
  · exact fun as t hrun => lookupService_of_findEntry (findEntry_runFrom hrun he)

theorem discoveryNet_lookup_twoNodes :
    ∃ s : DiscoveryNet {} Bool Unit, ∃ j, j ≠ false ∧
      ∃ e ∈ (s.nodes j).tx.services, e.name.str = cstr "brake-status".toList := by
  obtain ⟨s, _, hr, _, hret⟩ := twoNodes_reachable
  obtain ⟨j, hne, _, e, he, hname, _⟩ :=
    discoveryNet_lookup jsonReference_documented plainNodes_twoNodes hr false _ _ hret
  exact ⟨s, j, hne, e, he, hname⟩

/-! ## Who is in a table -/

section Membership

variable [Fintype ι]

/-- While a node is missing, a table that has a slot for each other node has
room. -/
theorem TableOk.room {reg : ι → Registry ν} {i : ι} {node : NetNode k ν} {heard : ι → Option Int}
    (h : TableOk cfg reg i node heard) (hcard : Fintype.card ι ≤ k.discoveryMaxPeers + 1) {j : ι}
    (hne : j ≠ i) (hnot : (cfg j).nodeId ∉ node.table.ids) :
    node.table.peerCount < k.discoveryMaxPeers := by
  have hsub : node.table.ids.toFinset ⊆
      ((Finset.univ.erase i).erase j).image fun j => (cfg j).nodeId := by
    intro id hid
    obtain ⟨j', hne', rfl⟩ := h.exists_of_mem_ids (List.mem_toFinset.mp hid)
    refine Finset.mem_image_of_mem _ (Finset.mem_erase.mpr ⟨?_, Finset.mem_erase.mpr ⟨hne', ?_⟩⟩)
    · rintro rfl
      exact hnot (List.mem_toFinset.mp hid)
    · exact Finset.mem_univ _
  have hle := (Finset.card_le_card hsub).trans Finset.card_image_le
  have hj : j ∈ Finset.univ.erase i := Finset.mem_erase.mpr ⟨hne, Finset.mem_univ _⟩
  have hpos := Finset.card_pos.mpr ⟨j, hj⟩
  rw [List.toFinset_card_of_nodup h.nodup, PeerTable.ids, List.length_map,
    length_entries h.count_le, Finset.card_erase_of_mem hj] at hle
  rw [Finset.card_erase_of_mem (Finset.mem_univ i), Finset.card_univ] at hle hpos
  omega

/-- Every node heard of since the timeout is in the table. -/
def Complete (cfg : ι → CeellConfig) (i : ι) (node : NetNode k ν) (heard : ι → Option Int) : Prop :=
  ∀ j, j ≠ i → ∀ t ∈ heard j, (∀ te ∈ node.lastExpiry, te - t ≤ (k.peerTimeoutMs : Int)) →
    (cfg j).nodeId ∈ node.table.ids

section Node

variable {reg : ι → Registry ν} {i : ι} {node : NetNode k ν} {heard : ι → Option Int}

/-- A datagram: its sender is accepted, the others stay. -/
theorem Complete.receive (h : Complete cfg i node heard) (hok : TableOk cfg reg i node heard)
    (hdoc : lib.Documented) (hnodes : PlainNodes cfg)
    (hcard : Fintype.card ι ≤ k.discoveryMaxPeers + 1) {j : ι} {now : Int} {datagram : List Char}
    (hsent : Announces (cfg j) (reg j) datagram) :
    Complete cfg i
      { node with
        table := rxThreadFn lib (some ⟨(cfg i).nodeId⟩) now datagram node.table, clock := now }
      (Function.update heard j (some now)) := by
  obtain ⟨msg, hmid, hrx, _⟩ := rxThreadFn_announces hdoc (hnodes.plain j) hsent
    (some ⟨(cfg i).nodeId⟩) now node.table
  rw [hrx]
  intro j' hne t ht hfresh
  by_cases hacc : Accepts ⟨(cfg i).nodeId⟩ node.table msg.id
  · have hmem : ∀ p, p ∈ (updatePeer (some ⟨(cfg i).nodeId⟩) now msg node.table).entries ↔
        p = announcedPeer now msg (node.table.entryOf msg.id) ∨
          (p ∈ node.table.entries ∧ p.nodeId ≠ msg.id) :=
      fun p => mem_updatePeer hok.count_le hok.nodup hacc
    by_cases hj : j' = j
    · subst hj
      have hid : (announcedPeer now msg (node.table.entryOf msg.id)).nodeId = msg.id :=
        nodeId_announcedPeer now msg fun p hp => ((entryOf_eq_some hok.nodup).mp hp).2
      exact mem_ids.mpr ⟨_, (hmem _).mpr (Or.inl rfl), hid.trans hmid⟩
    · rw [Function.update_of_ne hj] at ht
      obtain ⟨p, hp, hid⟩ := mem_ids.mp (h j' hne t ht hfresh)
      refine mem_ids.mpr ⟨p, (hmem p).mpr (Or.inr ⟨hp, ?_⟩), hid⟩
      rw [hid, hmid]
      exact fun heq => hj (hnodes.distinct heq)
  · rw [updatePeer_of_not_accepts now hok.count_le hacc]
    by_cases hj : j' = j
    · subst hj
      -- another node is accepted, in the table or not
      refine absurd ?_ hacc
      refine ⟨fun hself => hne (hnodes.distinct (hmid.symm.trans hself)), ?_⟩
      rw [hmid]
      by_cases hknown : (cfg j').nodeId ∈ node.table.ids
      · exact Or.inl hknown
      · exact Or.inr (hok.room hcard hne hknown)
    · rw [Function.update_of_ne hj] at ht
      exact h j' hne t ht hfresh

omit [Fintype ι] [DecidableEq ι] in
/-- An expiry: who was heard of since the timeout was already in before. -/
theorem Complete.expire (h : Complete cfg i node heard) (hok : TableOk cfg reg i node heard)
    (hnodes : PlainNodes cfg) {now : Int} (hclock : node.clock ≤ now) :
    Complete cfg i
      { node with
        table := (ceellDiscoveryExpirePeers k now node.table).1, clock := now
        lastExpiry := some now } heard := by
  intro j hne t ht hfresh
  have hnow := hfresh now rfl
  have hbefore : (cfg j).nodeId ∈ node.table.ids := by
    refine h j hne t ht fun te hte => ?_
    have := hok.expiry_le te hte
    omega
  obtain ⟨p, hp, hid⟩ := mem_ids.mp hbefore
  have hseen := (hok.of_mem hnodes.distinct hp hid).2.2
  obtain rfl : p.lastSeen = t := Option.some.inj (hseen.symm.trans ht)
  exact mem_ids.mpr ⟨p, (mem_expire hok.count_le).mpr ⟨hp, hnow⟩, hid⟩

omit [Fintype ι] [DecidableEq ι] in
/-- Who is in a table, by what was heard and when the last expiry was. -/
theorem Complete.mem_ids_iff (h : Complete cfg i node heard) (hok : TableOk cfg reg i node heard)
    (hnodes : PlainNodes cfg) {j : ι} (hne : j ≠ i) :
    (cfg j).nodeId ∈ node.table.ids ↔
      ∃ t, heard j = some t ∧ ∀ te ∈ node.lastExpiry, te - t ≤ (k.peerTimeoutMs : Int) := by
  constructor
  · intro hmem
    obtain ⟨p, hp, hid⟩ := mem_ids.mp hmem
    have hentry := hok.of_mem hnodes.distinct hp hid
    exact ⟨p.lastSeen, hentry.2.2, hok.fresh p hp⟩
  · rintro ⟨t, ht, hfresh⟩
    exact h j hne t ht hfresh

end Node

theorem complete_step (hdoc : lib.Documented) (hnodes : PlainNodes cfg)
    (hcard : Fintype.card ι ≤ k.discoveryMaxPeers + 1) {a : DiscoveryNetAct ι ν}
    (hinv : DiscNetInv cfg s) (h : ∀ i, Complete cfg i (s.nodes i) (s.heard i))
    (hs : discoveryNetStep lib k cfg s a = some s') :
    ∀ i, Complete cfg i (s'.nodes i) (s'.heard i) := by
  have hupdate : ∀ {i : ι} {node : NetNode k ν} {heard : ι → Option Int},
      Complete cfg i node heard → ∀ j, Complete cfg j (Function.update s.nodes i node j)
        (Function.update s.heard i heard j) := by
    intro i node heard hnode j
    by_cases hj : j = i
    · subst hj
      rwa [Function.update_self, Function.update_self]
    · rw [Function.update_of_ne hj, Function.update_of_ne hj]
      exact h j
  cases a with
  | register i name handler priority deadlineMs =>
    simp only [discoveryNetStep, Option.map_eq_some_iff] at hs
    obtain ⟨tx, htx, rfl⟩ := hs
    have hnode := hupdate (show Complete cfg i { s.nodes i with tx := tx } _ from h i)
    rwa [Function.update_eq_self] at hnode
  | transmit i =>
    simp only [discoveryNetStep, Option.map_eq_some_iff] at hs
    obtain ⟨tx, htx, rfl⟩ := hs
    have hnode := hupdate (show Complete cfg i { s.nodes i with tx := tx } _ from h i)
    rwa [Function.update_eq_self] at hnode
  | receive i j now datagram =>
    obtain ⟨⟨hmem, hclock⟩, rfl⟩ := discoveryNetStep_receive hs
    exact hupdate ((h i).receive (hinv.tables i) hdoc hnodes hcard (hinv.sent _ hmem))
  | expire i now =>
    obtain ⟨hclock, rfl⟩ := discoveryNetStep_expire hs
    have hnode := hupdate ((h i).expire (hinv.tables i) hnodes hclock)
    rwa [Function.update_eq_self] at hnode

omit [Fintype ι] in
theorem complete_init (i : ι) :
    Complete cfg i ((discoveryNetMachine lib k cfg ν).init.nodes i)
      ((discoveryNetMachine lib k cfg ν).init.heard i) := by
  intro j _ t ht
  cases ht

/-- **Who is in a table**: in a network of no more nodes than the tables
have slots for, no announcement is ever dropped. A node is in the table of
another exactly if that one has heard from it, and not so long before its
last expiry that the timeout had passed. -/
theorem discoveryNet_membership (hdoc : lib.Documented) (hnodes : PlainNodes cfg)
    (hcard : Fintype.card ι ≤ k.discoveryMaxPeers + 1)
    (hr : (discoveryNetMachine lib k cfg ν).ReachableUnder PlainNames s) {i j : ι} (hne : j ≠ i) :
    (cfg j).nodeId ∈ (s.nodes i).table.ids ↔
      ∃ t, s.heard i j = some t ∧
        ∀ te ∈ (s.nodes i).lastExpiry, te - t ≤ (k.peerTimeoutMs : Int) := by
  have hboth : DiscNetInv cfg s ∧ ∀ i, Complete cfg i (s.nodes i) (s.heard i) := by
    refine hr.induct (P := fun s => DiscNetInv cfg s ∧ ∀ i, Complete cfg i (s.nodes i) (s.heard i))
      ⟨discNetInv_init, complete_init⟩ ?_
    rintro u a u' ⟨hinv, hcomplete⟩ hplain hs
    exact ⟨discNetInv_step hdoc hnodes hinv hplain hs,
      complete_step hdoc hnodes hcard hinv hcomplete hs⟩
  exact (hboth.2 i).mem_ids_iff (hboth.1.tables i) hnodes hne

end Membership

theorem discoveryNet_membership_twoNodes :
    ∃ s : DiscoveryNet {} Bool Unit, ∃ t, s.heard false true = some t ∧
      ∀ te ∈ (s.nodes false).lastExpiry, te - t ≤ 5000 := by
  obtain ⟨s, _, hr, hids, _⟩ := twoNodes_reachable
  have hmember := discoveryNet_membership jsonReference_documented plainNodes_twoNodes (by decide)
    hr (i := false) (j := true) (by decide)
  exact ⟨s, hmember.mp (hids ▸ by decide)⟩

end Runs

end Ceell.Network
