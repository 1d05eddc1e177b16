/-
Ceell.Network.Announcement — what the two threads of
`ceell/network/discovery.c` put on the wire and take from it.

`txAnnouncement` is a pass of `tx_thread_fn` up to the datagram it hands to
the socket, `rxThreadFn` a pass of `rx_thread_fn` from the datagram on.
`announcement_found` is the round trip through the registry's CSV string,
the JSON text, the peer's `services` array and the token search.

`tx_thread_fn` does not look at what `ceell_service_names_csv` returns.
`txBuffer_whole` says why that does no harm here: its buffer is static, and
the registry only grows.
-/
import Ceell.Core.ConfigParser
import Ceell.Core.NamesCsv
import Ceell.Network.ServiceDiscovery
import Ceell.Osal.JsonReference

namespace Ceell.Network

open Ceell.Lib Ceell.Osal Ceell.Core

/-! ## The threads -/

/-- `ANNOUNCE_BUF_SIZE` -/
abbrev announceBufSize : Nat := 512

/-- `RECV_BUF_SIZE` -/
abbrev recvBufSize : Nat := 512

/-- `discovery_msg_descr`. -/
def discoveryMsgDescr : List JsonObjDescr :=
  [⟨"node_id".toList, .number⟩, ⟨"role".toList, .string⟩, ⟨"name".toList, .string⟩,
   ⟨"ip".toList, .string⟩, ⟨"services".toList, .string⟩]

/-- The `struct discovery_msg` that `tx_thread_fn` encodes. -/
def announcementFields (id : CeellConfig) (svcCsv : CharBuf 128) : List JsonField :=
  [("node_id".toList, .num (ofUInt32 id.nodeId)), ("role".toList, .str id.role.str),
   ("name".toList, .str id.name.str), ("ip".toList, .str id.ip.str),
   ("services".toList, .str svcCsv.str)]

/-- One pass of `tx_thread_fn`: the datagram it sends, if the encoder
succeeds. `svcCsv` is the static buffer as the last pass left it. -/
def txAnnouncement {ν : Type} (lib : JsonLib) (id : CeellConfig) (services : Registry ν)
    (svcCsv : CharBuf 128) : Option (List Char) :=
  let svcCsv := (ceellServiceNamesCsv services svcCsv).1
  let r := lib.encodeBuf (announcementFields id svcCsv) announceBufSize
  if r.1 = 0 then some (cstr r.2) else none

/-- The message a parse filled. -/
def DiscoveryMsg.ofParsed (r : JsonParsed) : DiscoveryMsg :=
  ⟨r.num "node_id", r.str "role", r.str "name", r.str "ip", r.str "services"⟩

/-- One pass of `rx_thread_fn` over a datagram; what does not fit the
buffer is cut off. -/
def rxThreadFn {max : Nat} (lib : JsonLib) (me : Option Identity) (now : Int)
    (datagram : List Char) (t : PeerTable max) : PeerTable max :=
  let text := datagram.take (recvBufSize - 1)
  if text = [] then t
  else
    let r := lib.parse discoveryMsgDescr text
    if r.ret < 0 then t else updatePeer me now (.ofParsed r) t

/-! ## The round trip -/

/-- An identity within the limits of its fields. -/
structure PlainIdentity (id : CeellConfig) : Prop where
  role : id.role.Terminated ∧ Plain id.role.str
  name : id.name.Terminated ∧ Plain id.name.str
  ip : id.ip.Terminated ∧ Plain id.ip.str

/-- A registry of at most `CONFIG_CEELL_MAX_SERVICES` names that are not
empty and have no comma. -/
structure PlainRegistry {ν : Type} (services : Registry ν) : Prop where
  length : services.length ≤ 4
  terminated : ∀ e ∈ services, e.name.Terminated
  ne_nil : ∀ e ∈ services, e.name.str ≠ []
  comma : ∀ e ∈ services, ',' ∉ e.name.str
  plain : ∀ e ∈ services, Plain e.name.str

/-- The names a registry offers. -/
def serviceNames {ν : Type} (services : Registry ν) : List (List Char) :=
  services.map fun e => e.name.str

/-- The peer is in the table and its stored services match the name. -/
def OffersService {max : Nat} (t : PeerTable max) (id : NodeId) (name : List Char) : Prop :=
  ∃ p ∈ t.entries, p.nodeId = id ∧ csvContains p.services.str name = true

section Tx

variable {ν : Type} {lib : JsonLib} {id : CeellConfig} {services : Registry ν}

/-- Four names of 31 bytes with their commas fill the CSV buffer. -/
theorem length_csv_lt (hs : PlainRegistry services) :
    ([','].intercalate (serviceNames services)).length < 128 := by
  have hname : ∀ x ∈ serviceNames services, x.length ≤ 31 := by
    intro x hx
    obtain ⟨e, he, rfl⟩ := List.mem_map.mp hx
    exact Nat.le_of_lt_succ (e.name.length_str_lt (hs.terminated e he))
  have hle := length_intercalate_le ',' hname
  have hcount := hs.length
  rw [serviceNames, List.length_map] at hle
  rw [serviceNames]
  omega

/-- What `ceell_service_names_csv` leaves in `svc_csv`. -/
theorem csv_str (hs : PlainRegistry services) (svcCsv : CharBuf 128) :
    (ceellServiceNamesCsv services svcCsv).1.str = [','].intercalate (serviceNames services) :=
  (namesCsv_eq services svcCsv (length_csv_lt hs)).2

theorem plain_csv (hs : PlainRegistry services) :
    Plain ([','].intercalate (serviceNames services)) := by
  intro c hc
  rcases mem_of_mem_intercalate hc with rfl | ⟨x, hx, hc⟩
  · decide
  · obtain ⟨e, he, rfl⟩ := List.mem_map.mp hx
    exact hs.plain e he c hc

theorem plain_announcementFields (hid : PlainIdentity id) {svcCsv : CharBuf 128}
    (hcsv : Plain svcCsv.str) : ∀ f ∈ announcementFields id svcCsv, PlainField f := by
  have hkeys : ∀ key ∈ ["node_id".toList, "role".toList, "name".toList, "ip".toList,
      "services".toList], Plain key := by decide
  simp only [List.forall_mem_cons] at hkeys
  obtain ⟨h1, h2, h3, h4, h5, _⟩ := hkeys
  simp only [announcementFields, List.forall_mem_cons]
  exact ⟨⟨h1, isInt32_ofUInt32 _⟩, ⟨h2, hid.role.2⟩, ⟨h3, hid.name.2⟩, ⟨h4, hid.ip.2⟩, ⟨h5, hcsv⟩,
    by simp⟩

/-- The text of an announcement is of 301 bytes at most. -/
theorem length_announcement_le (hid : PlainIdentity id) {svcCsv : CharBuf 128}
    (hcsv : svcCsv.str.length < 128) :
    (renderObj (announcementFields id svcCsv)).length ≤ 301 := by
  have hnode := (isInt32_ofUInt32 id.nodeId).length_intChars_le
  have hrole := id.role.length_str_lt hid.role.1
  have hname := id.name.length_str_lt hid.name.1
  have hip := id.ip.length_str_lt hid.ip.1
  simp [renderObj, renderObjWith, renderMembers, renderField, announcementFields]
  omega

/-- **The announcement fits**: it is the text of the object, well below the
size of the buffer. -/
theorem txAnnouncement_eq (hdoc : lib.Documented) (hfits : lib.EncodesFitting)
    (hid : PlainIdentity id) (hs : PlainRegistry services) (svcCsv : CharBuf 128) :
    ∃ csv : CharBuf 128, csv.str = [','].intercalate (serviceNames services) ∧
      txAnnouncement lib id services svcCsv = some (renderObj (announcementFields id csv)) ∧
      (renderObj (announcementFields id csv)).length < announceBufSize := by
  have hstr := csv_str hs svcCsv
  refine ⟨(ceellServiceNamesCsv services svcCsv).1, hstr, ?_⟩
  have hplain := plain_announcementFields hid (hstr ▸ plain_csv hs)
  have hlen : (renderObj (announcementFields id (ceellServiceNamesCsv services svcCsv).1)).length
      < announceBufSize :=
    Nat.lt_of_le_of_lt (length_announcement_le hid (hstr ▸ length_csv_lt hs)) (by decide)
  have hret : (lib.encodeBuf (announcementFields id (ceellServiceNamesCsv services svcCsv).1)
      announceBufSize).1 = 0 := hfits _ _ (List.cons_ne_nil _ _) hplain hlen
  have htext : (lib.encodeBuf (announcementFields id (ceellServiceNamesCsv services svcCsv).1)
      announceBufSize).2 = _ := hdoc.encode_plain _ _ (List.cons_ne_nil _ _) hplain hret
  refine ⟨?_, hlen⟩
  simp only [txAnnouncement, if_pos hret, htext, cstr_eq_self (nul_notMem_renderObj hplain)]

end Tx

section Rx

variable {lib : JsonLib} {id : CeellConfig} {csv : CharBuf 128}

/-- The announcement of an identity and its services. -/
def announcementMsg (id : CeellConfig) (csv : CharBuf 128) : DiscoveryMsg :=
  ⟨ofUInt32 id.nodeId, some id.role.str, some id.name.str, some id.ip.str, some csv.str⟩

theorem matches_announcementFields (id : CeellConfig) (csv : CharBuf 128) :
    Matches discoveryMsgDescr (announcementFields id csv) := by
  intro f hf d hd hname
  simp only [discoveryMsgDescr, List.mem_cons, List.not_mem_nil, or_false] at hd
  simp only [announcementFields, List.mem_cons, List.not_mem_nil, or_false] at hf
  rcases hd with rfl | rfl | rfl | rfl | rfl <;>
    rcases hf with rfl | rfl | rfl | rfl | rfl <;>
    first
    | exact rfl
    | simp at hname

/-- **The receiver** decodes the announcement and updates the peer. -/
theorem rxThreadFn_announcement {max : Nat} (hdoc : lib.Documented) (hid : PlainIdentity id)
    (hcsv : Plain csv.str) (hlen : (renderObj (announcementFields id csv)).length ≤ recvBufSize - 1)
    (me : Option Identity) (now : Int) (t : PeerTable max) :
    rxThreadFn lib me now (renderObj (announcementFields id csv)) t
      = updatePeer me now (announcementMsg id csv) t := by
  have hplain := plain_announcementFields hid hcsv
  have hnodup : ((announcementFields id csv).map Prod.fst).Nodup := by
    show ["node_id".toList, "role".toList, "name".toList, "ip".toList, "services".toList].Nodup
    decide
  obtain ⟨hret, hval, _⟩ := hdoc.parse_plain discoveryMsgDescr (announcementFields id csv)
    (List.cons_ne_nil _ _) hplain hnodup (matches_announcementFields id csv)
  have hmsg : DiscoveryMsg.ofParsed (lib.parse discoveryMsgDescr
      (renderObj (announcementFields id csv))) = announcementMsg id csv := by
    simp only [discoveryMsgDescr, List.forall_mem_cons] at hval
    obtain ⟨h1, h2, h3, h4, h5, _⟩ := hval
    simp only [DiscoveryMsg.ofParsed, JsonParsed.num, JsonParsed.str, discoveryMsgDescr, h1, h2, h3,
      h4, h5]
    rfl
  have hne : renderObj (announcementFields id csv) ≠ [] := List.cons_ne_nil _ _
  simp only [rxThreadFn]
  rw [List.take_of_length_le hlen, if_neg hne, if_neg (Int.not_lt.mpr hret), hmsg]

end Rx

/-- After an accepted announcement the peer offers what it names. -/
theorem offersService_updatePeer {max : Nat} {me : Identity} {t : PeerTable max} (now : Int)
    {msg : DiscoveryMsg} (hcount : t.peerCount ≤ max) (hnodup : t.ids.Nodup)
    (hacc : Accepts me t msg.id) (name : List Char) :
    OffersService (updatePeer (some me) now msg t) msg.id name ↔
      csvContains (announcedPeer now msg (t.entryOf msg.id)).services.str name = true := by
  have hid : (announcedPeer now msg (t.entryOf msg.id)).nodeId = msg.id :=
    nodeId_announcedPeer now msg fun p hp => ((entryOf_eq_some hnodup).mp hp).2
  constructor
  · rintro ⟨p, hp, hpid, hc⟩
    rcases (mem_updatePeer hcount hnodup hacc).mp hp with rfl | ⟨_, hne⟩
    · exact hc
    · exact absurd hpid hne
  · intro hc
    exact ⟨_, (mem_updatePeer hcount hnodup hacc).mpr (Or.inl rfl), hid, hc⟩

/-- **From the registry to the lookup of another node**: the announcement
fits its buffer, and once a node that knows the sender or has room has
processed it, the sender's entry matches precisely the registered names. A
lookup then succeeds for these and for what other peers offer. -/
theorem announcement_found {ν : Type} (lib : JsonLib) (hdoc : lib.Documented)
    (hfits : lib.EncodesFitting) (k : Kconfig) (me : Identity)
    {s : DiscoveryRun k.discoveryMaxPeers} (hs : (discoveryMachine k me).Reachable s)
    {id : CeellConfig} (hid : PlainIdentity id) (hother : id.nodeId ≠ me.nodeId)
    (hroom : id.nodeId ∈ s.table.ids ∨ s.table.peerCount < k.discoveryMaxPeers)
    {services : Registry ν} (hservices : PlainRegistry services) (svcCsv : CharBuf 128)
    (now : Int) :
    ∃ datagram, txAnnouncement lib id services svcCsv = some datagram ∧
      datagram.length < announceBufSize ∧
      ∀ name ip,
        let t := rxThreadFn lib (some me) now datagram s.table
        (OffersService t id.nodeId (cstr name) ↔ cstr name ∈ serviceNames services) ∧
        ((ceellServiceFindPeer k t (some name) (some ip)).2 = 0 ↔
          cstr name ∈ serviceNames services ∨
            ∃ p ∈ t.entries, p.nodeId ≠ id.nodeId ∧
              csvContains p.services.str (cstr name) = true) := by
  have hi := inv_reachable hs
  obtain ⟨csv, hcsv, htx, hlen⟩ := txAnnouncement_eq hdoc hfits hid hservices svcCsv
  refine ⟨_, htx, hlen, fun name ip => ?_⟩
  have hplain : Plain csv.str := hcsv ▸ plain_csv hservices
  have hrx := rxThreadFn_announcement hdoc hid hplain (Nat.le_of_lt_succ hlen) (some me) now s.table
  have hmsg : (announcementMsg id csv).id = id.nodeId := toUInt32_ofUInt32 id.nodeId
  have hacc : Accepts me s.table (announcementMsg id csv).id := by
    rw [hmsg]
    exact ⟨hother, hroom⟩
  have hstored : (announcedPeer now (announcementMsg id csv)
      (s.table.entryOf (announcementMsg id csv).id)).services.str
        = [','].intercalate (serviceNames services) := by
    rw [services_announcedPeer now rfl, CharBuf.str_copy_zero, cstr_eq_self csv.nul_notMem_str,
      List.take_of_length_le, hcsv]
    rw [hcsv]
    exact Nat.le_of_lt_succ (length_csv_lt hservices)
  have hcomma : ∀ x ∈ serviceNames services, ',' ∉ x := List.forall_mem_map.mpr hservices.comma
  have hne : ∀ x ∈ serviceNames services, x ≠ [] := List.forall_mem_map.mpr hservices.ne_nil
  have hoffers : OffersService (updatePeer (some me) now (announcementMsg id csv) s.table)
      id.nodeId (cstr name) ↔ cstr name ∈ serviceNames services := by
    have h := offersService_updatePeer now hi.count_le hi.nodup hacc (cstr name)
    rw [hstored, csvContains_intercalate hcomma hne, hmsg] at h
    exact h
  have hcount := peerCount_updatePeer_le (some me) now (announcementMsg id csv) hi.count_le
  simp only [hrx]
  refine ⟨hoffers, ?_⟩
  rw [(findPeer_spec hcount name ip).1, ← hoffers]
  constructor
  · rintro ⟨p, hp, hc⟩
    by_cases hpid : p.nodeId = id.nodeId
    · exact Or.inl ⟨p, hp, hpid, hc⟩
    · exact Or.inr ⟨p, hp, hpid, hc⟩
  · rintro (⟨p, hp, _, hc⟩ | ⟨p, hp, _, hc⟩)
    · exact ⟨p, hp, hc⟩
    · exact ⟨p, hp, hc⟩

/-- A node with three services. -/
def brakeIdentity : CeellConfig :=
  { CeellConfig.zero with
    nodeId := 3
    role := (CharBuf.zero 32).copy "brake".toList
    name := (CharBuf.zero 64).copy "ceell-brake".toList
    ip := (CharBuf.zero 16).copy "192.168.1.12".toList }

def brakeRegistry : Registry Unit :=
  [⟨(CharBuf.zero 32).copy "brake-status".toList, some (), 0, 5⟩,
   ⟨(CharBuf.zero 32).copy "brake-control".toList, some (), 0, 10⟩,
   ⟨(CharBuf.zero 32).copy "echo".toList, some (), 1, 0⟩]

theorem plainIdentity_brake : PlainIdentity brakeIdentity where
  role := by decide
  name := by decide
  ip := by decide

theorem plainRegistry_brake : PlainRegistry brakeRegistry where
  length := by decide
  terminated := by decide
  ne_nil := by decide
  comma := by decide
  plain := by decide

/-- A receiver finds its services, and no name that one of them starts with. -/
theorem announcement_found_brake :
    (∃ datagram,
      txAnnouncement jsonReference brakeIdentity brakeRegistry (.zero 128) = some datagram ∧
      datagram.length < announceBufSize ∧
      ∀ name ip,
        let t :=
          rxThreadFn jsonReference (some ⟨7⟩) 10 datagram (discoveryMachine {} ⟨7⟩).init.table
        (OffersService t 3 (cstr name) ↔ cstr name ∈ serviceNames brakeRegistry) ∧
        ((ceellServiceFindPeer {} t (some name) (some ip)).2 = 0 ↔
          cstr name ∈ serviceNames brakeRegistry ∨
            ∃ p ∈ t.entries, p.nodeId ≠ 3 ∧ csvContains p.services.str (cstr name) = true)) ∧
    (txAnnouncement jsonReference brakeIdentity brakeRegistry (.zero 128)).map (fun datagram =>
        ["brake-status", "brake-control", "echo", "brake"].map fun name =>
          (ceellServiceFindPeer {}
            (rxThreadFn jsonReference (some ⟨7⟩) 10 datagram (discoveryMachine {} ⟨7⟩).init.table)
            (some name.toList) (some (.zero 16))).2) =
      some [0, 0, 0, -ENOENT] := by
  refine ⟨?_, by decide +kernel⟩
  exact announcement_found jsonReference jsonReference_documented jsonReference_encodesFitting {}
    ⟨7⟩ Machine.Reachable.init plainIdentity_brake (by decide) (Or.inr (by decide))
    plainRegistry_brake (.zero 128) 10

/-! ## The static buffer over all passes -/

/-- The registry, and `svc_csv` of `tx_thread_fn`. -/
structure TxRun (ν : Type) where
  services : Registry ν
  svcCsv : CharBuf 128

inductive TxAct (ν : Type) where
  | register (name : Option (List Char)) (handler : Option ν) (priority : UInt8)
      (deadlineMs : UInt16)
  | announce

def txStep {ν : Type} (k : Kconfig) (s : TxRun ν) : TxAct ν → Option (TxRun ν)
  | .register name handler priority deadlineMs =>
      some { s with
        services := (ceellServiceRegisterSla k name handler priority deadlineMs s.services).1 }
  | .announce => some { s with svcCsv := (ceellServiceNamesCsv s.services s.svcCsv).1 }

/-- Registrations and passes of the thread in any order; a static buffer
starts with zeros. -/
def txMachine (k : Kconfig) (ν : Type) : Machine (TxRun ν) (TxAct ν) where
  init := ⟨ceellServiceInit, .zero 128⟩
  step := txStep k

/-- The buffer holds first names of the registry and zeros behind them. -/
def TxClean {ν : Type} (s : TxRun ν) : Prop :=
  ∃ names, names <+: serviceNames s.services ∧ ([','].intercalate names).length < 128 ∧
    s.svcCsv.WrittenOver (.zero 128) ([','].intercalate names)

section TxBuffer

variable {ν : Type} {k : Kconfig} {s s' : TxRun ν}

/-- **One pass** leaves first names and zeros again, and they are the string
that is announced. -/
theorem txClean_announce (hs : TxClean s) :
    ∃ names, names <+: serviceNames s.services ∧ ([','].intercalate names).length < 128 ∧
      (ceellServiceNamesCsv s.services s.svcCsv).1.WrittenOver (.zero 128)
        ([','].intercalate names) := by
  obtain ⟨old, hold, hlen, hbuf⟩ := hs
  have hzero : (CharBuf.zero 128).bytes.head? = some nul := rfl
  rcases namesCsv_cases s.services s.svcCsv with ⟨hroom, _, hover⟩ | ⟨front, hstop, _, hover⟩
  · obtain ⟨rest, hrest⟩ := hold
    have hle := length_intercalate_le_append old rest
    rw [hrest] at hle
    refine ⟨serviceNames s.services, List.prefix_rfl, hroom, ?_⟩
    refine CharBuf.WrittenOver.of_concat (hover.congr (drop_memcpy_nul hbuf hzero ?_)) ?_
    · rw [List.length_append]
      exact Nat.le_add_right_of_le hle
    · exact CharBuf.getElem?_zero hroom
  · obtain ⟨rest, rfl⟩ := hstop.prefix_of_fits hold hlen
    have hle := length_intercalate_le_append old rest
    obtain ⟨name, back, heq, hfits, _⟩ := hstop
    have hclean := hover.congr (drop_memcpy_nul hbuf hzero hle)
    exact ⟨old ++ rest, ⟨name :: back, heq.symm⟩, hfits, hclean⟩

theorem serviceNames_register (name : Option (List Char)) (handler : Option ν) (priority : UInt8)
    (deadlineMs : UInt16) (services : Registry ν) :
    serviceNames services
      <+: serviceNames (ceellServiceRegisterSla k name handler priority deadlineMs services).1 := by
  unfold ceellServiceRegisterSla
  cases name with
  | none => exact List.prefix_rfl
  | some name =>
    dsimp only
    split
    · exact List.prefix_rfl
    · rw [serviceNames, serviceNames, List.map_append]
      exact List.prefix_append _ _

theorem txClean_step {a : TxAct ν} (hs : TxClean s) (hstep : txStep k s a = some s') :
    TxClean s' := by
  cases a with
  | register name handler priority deadlineMs =>
    obtain rfl := Option.some.inj hstep
    obtain ⟨names, hnames, hrest⟩ := hs
    exact ⟨names, hnames.trans (serviceNames_register ..), hrest⟩
  | announce =>
    obtain rfl := Option.some.inj hstep
    exact txClean_announce hs

/-- **What is announced**, whatever was registered before the pass and
between earlier ones: whole names of the registry, from the first on. -/
theorem txBuffer_whole (hr : (txMachine k ν).Reachable s) :
    (ceellServiceNamesCsv s.services s.svcCsv).1.Terminated ∧
      ∃ names, names <+: serviceNames s.services ∧
        (ceellServiceNamesCsv s.services s.svcCsv).1.str = [','].intercalate names := by
  have hclean : TxClean s := by
    refine Machine.Reachable.induct (M := txMachine k ν) ?_
      (fun s a s' hs hstep => txClean_step (k := k) (a := a) hs hstep) hr
    exact ⟨[], List.nil_prefix, by decide, CharBuf.writtenOver_nil _⟩
  obtain ⟨names, hnames, hlen, hbuf⟩ := txClean_announce hclean
  obtain ⟨hterm, hstr⟩ :=
    (hbuf.str_eq_iff (nul_notMem_names hnames)).mpr (CharBuf.getElem?_zero hlen)
  exact ⟨hterm, names, hnames, hstr⟩

end TxBuffer

/-- Room for one more service than is shipped. -/
def fiveServices : Kconfig := { maxServices := 5 }

/-- Five names of 31 bytes, more than the buffer has room for, registered
around a first pass. -/
def longNames : List (TxAct Unit) :=
  let name (c : Char) : TxAct Unit := .register (some (List.replicate 31 c)) none 1 0
  [name 'a', name 'b', .announce, name 'c', name 'd', name 'e']

/-- `ceell_service_names_csv` fails and leaves no terminator of its own. -/
theorem txBuffer_whole_longNames :
    ∃ s, (txMachine fiveServices Unit).run longNames = some s ∧
      (ceellServiceNamesCsv s.services s.svcCsv).2 = -ENOMEM ∧
      (ceellServiceNamesCsv s.services s.svcCsv).1.Terminated ∧
      ∃ names, names <+: serviceNames s.services ∧
        (ceellServiceNamesCsv s.services s.svcCsv).1.str = [','].intercalate names := by
  have hend : ((txMachine fiveServices Unit).run longNames).map (fun s =>
      (ceellServiceNamesCsv s.services s.svcCsv).2) = some (-ENOMEM) := by decide +kernel
  obtain ⟨s, hs, hret⟩ := Option.map_eq_some_iff.mp hend
  exact ⟨s, hs, hret, txBuffer_whole ⟨longNames, hs⟩⟩

end Ceell.Network
