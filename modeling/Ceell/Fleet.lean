/-
Ceell.Fleet — provisioned nodes, from the configuration file of each to
the lookups of the others.

`gen_config_bin.py` writes the images, the nodes load and register what is
in them and announce it, and `ceell_service_find_peer` searches what has
been heard. `fleet_lookup` is the round trip through all of it: at every
node, in every run, the lookup of a service succeeds if a node provisioned
with it has been heard of late, and what it returns is the provisioned
address of such a node.
-/
import Ceell.Builtin
import Ceell.Detection
import Ceell.Tools.Provision

namespace Ceell

open Ceell.Lib Ceell.Osal Ceell.Core Ceell.Network Ceell.Tools

/-! ## What the tables carry -/

/-- Names as one string, with these at the front. -/
def Lists (front : List (List Char)) (csv : List Char) : Prop :=
  ∃ names, front <+: names ∧ (∀ name ∈ names, ServiceName name) ∧ csv = [','].intercalate names

/-- What holds of the services in all datagrams of a node holds of the
services in its entries. -/
structure Carries {k : Kconfig} {ι ν : Type} (cfg : ι → CeellConfig) (P : ι → List Char → Prop)
    (s : DiscoveryNet k ι ν) : Prop where
  sent : ∀ x ∈ s.sent, ∃ csv : CharBuf 128, csv.Terminated ∧ Plain csv.str ∧ P x.1 csv.str ∧
    x.2 = renderObj (announcementFields (cfg x.1) csv)
  tables : ∀ i, ∀ p ∈ (s.nodes i).table.entries, ∀ j, p.nodeId = (cfg j).nodeId →
    P j p.services.str

section Carries

variable {ι ν : Type} {lib : JsonLib} {k : Kconfig} {cfg : ι → CeellConfig}
  {P : ι → List Char → Prop}

theorem Lists.contains {front : List (List Char)} {csv : List Char} (h : Lists front csv)
    {name : List Char} (hname : name ∈ front) : csvContains csv name = true := by
  obtain ⟨names, hfront, hnames, rfl⟩ := h
  exact (csvContains_intercalate (fun x hx => (hnames x hx).comma)
    (fun x hx => (hnames x hx).ne_nil) _).mpr (hfront.subset hname)

/-- Names that fit at the front of the buffer are in every announcement. -/
theorem lists_namesCsv {tx : TxRun ν} (hclean : TxClean tx)
    (hnamed : ∀ e ∈ tx.services, ServiceName e.name.str) {front : List (List Char)}
    (hfront : front <+: serviceNames tx.services)
    (hfits : ([','].intercalate front).length < 128) :
    Lists front (ceellServiceNamesCsv tx.services tx.svcCsv).1.str := by
  have hnames : ∀ name ∈ serviceNames tx.services, ServiceName name :=
    List.forall_mem_map.mpr hnamed
  obtain ⟨old, hold, hlen, hbuf⟩ := hclean
  have hzero : (CharBuf.zero 128).bytes.head? = some nul := rfl
  rcases namesCsv_cases tx.services tx.svcCsv with ⟨_, _, hover⟩ | ⟨names, hstop, _, hover⟩
  · exact ⟨_, hfront, hnames, (hover.terminated_str (nul_notMem_names List.prefix_rfl)).2⟩
  · obtain ⟨rest, rfl⟩ := hstop.prefix_of_fits hold hlen
    have hprefix := hstop.prefix_of_fits hfront hfits
    have hclean := hover.congr
      (drop_memcpy_nul hbuf hzero (length_intercalate_le_append old rest))
    obtain ⟨name, back, heq, hroom, _⟩ := hstop
    have hfirst : old ++ rest <+: serviceNames tx.services := ⟨name :: back, heq.symm⟩
    exact ⟨_, hprefix, fun x hx => hnames x (hfirst.subset hx),
      ((hclean.str_eq_iff (nul_notMem_names hfirst)).mpr (CharBuf.getElem?_zero hroom)).2⟩

/-- The entries of a table after a datagram. -/
theorem carries_receive {i : ι} {node : NetNode k ν} {services : ι → Registry ν}
    {heard : ι → Option Int} (hdoc : lib.Documented) (hnodes : PlainNodes cfg)
    (hok : TableOk cfg services i node heard)
    (htable : ∀ p ∈ node.table.entries, ∀ j, p.nodeId = (cfg j).nodeId → P j p.services.str)
    {j : ι} {csv : CharBuf 128} (hterm : csv.Terminated) (hplain : Plain csv.str)
    (hP : P j csv.str) (now : Int) :
    ∀ p ∈ (rxThreadFn lib (some ⟨(cfg i).nodeId⟩) now
        (renderObj (announcementFields (cfg j) csv)) node.table).entries,
      ∀ j', p.nodeId = (cfg j').nodeId → P j' p.services.str := by
  have hlen := length_announcement_le (hnodes.plain j) (csv.length_str_lt hterm)
  rw [rxThreadFn_announcement hdoc (hnodes.plain j) hplain (Nat.le_trans hlen (by decide))]
  have hid : (announcementMsg (cfg j) csv).id = (cfg j).nodeId := toUInt32_ofUInt32 _
  by_cases hacc : Accepts ⟨(cfg i).nodeId⟩ node.table (announcementMsg (cfg j) csv).id
  · intro p hp j' hj'
    rcases (mem_updatePeer hok.count_le hok.nodup hacc).mp hp with rfl | ⟨hold, _⟩
    · have hsame : (cfg j).nodeId = (cfg j').nodeId := by
        rw [← hj', ← hid]
        exact (nodeId_announcedPeer now _ fun p hp => ((entryOf_eq_some hok.nodup).mp hp).2).symm
      obtain rfl : j = j' := hnodes.distinct hsame
      have hstr : (announcedPeer now (announcementMsg (cfg j) csv)
          (node.table.entryOf (announcementMsg (cfg j) csv).id)).services.str = csv.str := by
        rw [services_announcedPeer now rfl, CharBuf.str_copy_zero, cstr_eq_self csv.nul_notMem_str]
        exact List.take_of_length_le (Nat.le_of_lt_succ (csv.length_str_lt hterm))
      rwa [hstr]
    · exact htable p hold j' hj'
  · rw [updatePeer_of_not_accepts now hok.count_le hacc]
    exact htable

variable [DecidableEq ι] {s s' : DiscoveryNet k ι ν}

theorem carries_step (hdoc : lib.Documented) (hnodes : PlainNodes cfg) (hinv : DiscNetInv cfg s)
    (hP : ∀ i, P i (ceellServiceNamesCsv (s.nodes i).tx.services (s.nodes i).tx.svcCsv).1.str)
    (h : Carries cfg P s) {a : DiscoveryNetAct ι ν}
    (hs : discoveryNetStep lib k cfg s a = some s') : Carries cfg P s' := by
  have hupdate : ∀ {i : ι} {node : NetNode k ν},
      (∀ p ∈ node.table.entries, ∀ j, p.nodeId = (cfg j).nodeId → P j p.services.str) →
      ∀ i', ∀ p ∈ (Function.update s.nodes i node i').table.entries,
        ∀ j, p.nodeId = (cfg j).nodeId → P j p.services.str := by
    intro i node hnode
    exact (Function.forall_update_iff s.nodes fun _ n => ∀ p ∈ n.table.entries,
      ∀ j, p.nodeId = (cfg j).nodeId → P j p.services.str).mpr ⟨hnode, fun i' _ => h.tables i'⟩
  cases a with
  | register i name handler priority deadlineMs =>
    simp only [discoveryNetStep, Option.map_eq_some_iff] at hs
    obtain ⟨tx, _, rfl⟩ := hs
    exact ⟨h.sent, hupdate (h.tables i)⟩
  | transmit i =>
    simp only [discoveryNetStep, Option.map_eq_some_iff] at hs
    obtain ⟨tx, _, rfl⟩ := hs
    refine ⟨fun x hx => ?_, hupdate (h.tables i)⟩
    rcases List.mem_append.mp hx with hnew | hold
    · obtain ⟨datagram, hdatagram, rfl⟩ := Option.map_eq_some_iff.mp (Option.mem_toList.mp hnew)
      obtain ⟨hterm, _, hplain, htext⟩ :=
        txAnnouncement_render hdoc (hnodes.plain i) (hinv.clean i) (hinv.named i) hdatagram
      exact ⟨_, hterm, hplain, hP i, htext⟩
    · exact h.sent x hold
  | receive i j now datagram =>
    obtain ⟨⟨hmem, _⟩, rfl⟩ := discoveryNetStep_receive hs
    obtain ⟨csv, hterm, hplain, hcsv, htext⟩ := h.sent _ hmem
    obtain rfl : datagram = renderObj (announcementFields (cfg j) csv) := htext
    exact ⟨h.sent, hupdate
      (carries_receive hdoc hnodes (hinv.tables i) (h.tables i) hterm hplain hcsv now)⟩
  | expire i now =>
    obtain ⟨_, rfl⟩ := discoveryNetStep_expire hs
    refine ⟨h.sent, hupdate fun p hp => h.tables i p ?_⟩
    exact ((mem_expire (hinv.tables i).count_le).mp hp).1

end Carries

/-! ## The nodes -/

/-- A build, the configurations of its nodes, the files they are given as
and the flashes that hold their images. -/
structure Fleet (ι : Type) where
  lib : JsonLib
  tree : JsonTreeLib
  k : Kconfig
  defaults : ConfigDefaults
  config : ι → NodeConfig
  dict : ι → List JsonMember
  flash : ι → FlashWorld

/-- The names of the services that a node is provisioned with. -/
def Fleet.names {ι : Type} (f : Fleet ι) (i : ι) : List (List Char) :=
  (f.config i).services.list.map (·.name)

/-- What a node has loaded. -/
def Fleet.cfg {ι : Type} (f : Fleet ι) (i : ι) : CeellConfig :=
  (ceellConfigLoad f.tree f.defaults (f.flash i)).1

/-- The nodes are provisioned with configurations within the limits that
fit the read buffer, each with an id of its own. -/
structure Fleet.Provisioned {ι : Type} (f : Fleet ι) : Prop where
  limits : ∀ i, (f.config i).WithinLimits
  isDict : ∀ i, (f.config i).IsDict (f.dict i)
  fits : ∀ i, (f.config i).textLength ≤ 511
  flashed : ∀ i, ∃ image, genConfigBin (f.dict i) = .ok image ∧ Holds (f.flash i) image
  distinct : Function.Injective fun i => (f.config i).nodeId
  room : maxConfigServices ≤ f.k.maxServices

/-- Runs from step 7 of `main`, in which all threads of discovery start, on. -/
def fleetMachine {ι : Type} [DecidableEq ι] (f : Fleet ι) :
    Machine (DiscoveryNet f.k ι Builtin) (DiscoveryNetAct ι Builtin) where
  init :=
    { nodes := fun i =>
        ⟨⟨bootRegistry f.k (f.cfg i) .messaging, .zero 128⟩, .empty _, 0, none⟩
      sent := []
      heard := fun _ _ => none }
  step := discoveryNetStep f.lib f.k f.cfg

/-- After step 7 `main` registers the OTA service only. -/
def RegistersOta {ι : Type} {k : Kconfig} (_ : DiscoveryNet k ι Builtin) :
    DiscoveryNetAct ι Builtin → Prop
  | .register _ name _ _ _ => name = some "ota".toList
  | _ => True

/-! ### What they load and register -/

/-- What comes from the flash is well formed. -/
theorem wellFormed_of_fromFlash {lib : JsonTreeLib} (hnum : lib.Numeric) {kc : ConfigDefaults}
    {flash : FlashWorld} (h : (ceellConfigLoad lib kc flash).1.fromFlash = true) :
    (ceellConfigLoad lib kc flash).1.WellFormed := by
  rw [ceellConfigLoad_eq] at h ⊢
  cases hflash : flash.image with
  | none =>
    rw [hflash] at h
    cases h
  | some buf =>
    rw [hflash, Option.elim_some] at h
    rw [Option.elim_some]
    rcases parseJson_cases hnum kc buf with hdefaults | ⟨cfg, hcfg, hwf⟩
    · rw [hdefaults] at h
      cases h
    · rw [hcfg]
      exact hwf

theorem serviceName_of_withinLimits {s : NodeService} (h : s.WithinLimits) : ServiceName s.name :=
  ⟨h.printable.plain, h.ne_nil, h.comma⟩

section Provisioned

variable {ι : Type} {f : Fleet ι}

theorem Fleet.Provisioned.loadedAs (h : f.Provisioned) (hnum : f.tree.Numeric)
    (hdec : f.tree.Decodes) (i : ι) : (f.config i).LoadedAs (f.cfg i) := by
  obtain ⟨image, himage, hflash⟩ := h.flashed i
  obtain rfl : imageOf (renderTree (f.dict i)) = image := by
    rw [genConfigBin_dict (h.limits i) (h.isDict i)] at himage
    exact Except.ok.inj himage
  refine (load_image hnum hdec f.defaults (h.limits i) (h.isDict i) hflash).1 ?_
  exact (textLength_fits (h.limits i) (h.isDict i)).2.mpr (h.fits i)

theorem Fleet.Provisioned.plainNodes (h : f.Provisioned) (hnum : f.tree.Numeric)
    (hdec : f.tree.Decodes) : PlainNodes f.cfg where
  plain i := by
    have hloaded := h.loadedAs hnum hdec i
    have hwf : (f.cfg i).WellFormed := wellFormed_of_fromFlash hnum hloaded.from_flash
    have hlimits := h.limits i
    exact
      { role := ⟨hwf.role, hloaded.role ▸ hlimits.role.1.plain⟩
        name := ⟨hwf.name, hloaded.name ▸ hlimits.name.1.plain⟩
        ip := ⟨hwf.ip, hloaded.ip ▸ hlimits.ip.1.plain⟩ }
  distinct := by
    intro i j hij
    apply h.distinct
    dsimp only at hij ⊢
    rw [← (h.loadedAs hnum hdec i).node_id, ← (h.loadedAs hnum hdec j).node_id, hij]

theorem configuredNames_loadedAs {c : NodeConfig} {cfg : CeellConfig} (h : c.LoadedAs cfg)
    (hcount : c.services.list.length ≤ maxConfigServices) :
    configuredNames cfg = c.services.list.map (·.name) := by
  rw [configuredNames, serviceIndices, h.count]
  apply List.ext_getElem
  · simpa using hcount
  · intro n h1 h2
    have hn : n < c.services.list.length := by simpa using h2
    have hservice := h.services ⟨n, by omega⟩ _ (List.getElem?_eq_getElem hn)
    simp only [List.getElem_map, List.getElem_take, List.getElem_finRange]
    exact hservice.1

/-- The registry when discovery starts. -/
theorem Fleet.Provisioned.serviceNames_boot (h : f.Provisioned) (hnum : f.tree.Numeric)
    (hdec : f.tree.Decodes) (i : ι) :
    serviceNames (bootRegistry f.k (f.cfg i) .messaging)
      = (f.names i ++ ["echo".toList]).take f.k.maxServices := by
  have hloaded := h.loadedAs hnum hdec i
  have hterm : ∀ n, ((f.cfg i).services n).Terminated :=
    (load_services f.tree f.defaults (f.flash i)).2
  have hecho : (newEntry "echo".toList (⟨some .echo, 1, 0⟩ : Registration Builtin)).name.str
      = "echo".toList := by decide
  rw [bootRegistry_eq, registerAll_services f.k _ (Nat.zero_le _), List.nil_append, serviceNames,
    List.map_take, List.map_append, List.map_append, names_configured hterm,
    configuredNames_loadedAs hloaded (h.limits i).count]
  rw [builtins, List.map_cons, List.map_cons, hecho]
  rfl

theorem Fleet.Provisioned.names_prefix_boot (h : f.Provisioned) (hnum : f.tree.Numeric)
    (hdec : f.tree.Decodes) (i : ι) :
    f.names i <+: serviceNames (bootRegistry f.k (f.cfg i) .messaging) := by
  have hlen : (f.names i).length ≤ f.k.maxServices := by
    rw [Fleet.names, List.length_map]
    exact Nat.le_trans (h.limits i).count h.room
  rw [h.serviceNames_boot hnum hdec]
  exact List.prefix_take_iff.mpr ⟨List.prefix_append _ _, hlen⟩

/-- The provisioned names fit the CSV buffer. -/
theorem Fleet.Provisioned.length_names_lt (h : f.Provisioned) (i : ι) :
    ([','].intercalate (f.names i)).length < 128 := by
  have hname : ∀ name ∈ f.names i, name.length ≤ 31 := by
    intro name hname
    obtain ⟨s, hs, rfl⟩ := List.mem_map.mp hname
    exact ((h.limits i).services s hs).length
  have hle := length_intercalate_le ',' hname
  have hcount := (h.limits i).count
  rw [Fleet.names, List.length_map] at hle
  rw [Fleet.names]
  simp only [maxConfigServices] at hcount
  omega

theorem Fleet.Provisioned.serviceName (h : f.Provisioned) {i : ι} {name : List Char}
    (hname : name ∈ f.names i) : ServiceName name := by
  obtain ⟨s, hs, rfl⟩ := List.mem_map.mp hname
  exact serviceName_of_withinLimits ((h.limits i).services s hs)

end Provisioned

/-! ## Runs -/

/-- What holds of the network in every run. -/
structure FleetInv {ι : Type} (f : Fleet ι) (s : DiscoveryNet f.k ι Builtin) : Prop where
  net : DiscNetInv f.cfg s
  complete : ∀ i, Complete f.cfg i (s.nodes i) (s.heard i)
  carries : Carries f.cfg (fun i => Lists (f.names i)) s
  names : ∀ i, f.names i <+: serviceNames (s.nodes i).tx.services
  own : ∀ i, ∀ name ∈ serviceNames (s.nodes i).tx.services,
    name ∈ f.names i ∨ name ∈ ["echo".toList, "ota".toList]

section Runs

variable {ι : Type} [DecidableEq ι] {f : Fleet ι} {s s' : DiscoveryNet f.k ι Builtin}

/-- What a step makes of a registry. -/
theorem services_registersOta {a : DiscoveryNetAct ι Builtin} (hota : RegistersOta s a)
    (hs : discoveryNetStep f.lib f.k f.cfg s a = some s') (j : ι) :
    serviceNames (s'.nodes j).tx.services = serviceNames (s.nodes j).tx.services ∨
      serviceNames (s'.nodes j).tx.services
        = serviceNames (s.nodes j).tx.services ++ ["ota".toList] := by
  have hsame : ∀ {i : ι} {node : NetNode f.k Builtin}, node.tx.services = (s.nodes i).tx.services →
      serviceNames (Function.update s.nodes i node j).tx.services
        = serviceNames (s.nodes j).tx.services := by
    intro i node hnode
    by_cases hj : j = i
    · subst hj
      rw [Function.update_self, hnode]
    · rw [Function.update_of_ne hj]
  cases a with
  | register i name handler priority deadlineMs =>
    obtain rfl : name = some "ota".toList := hota
    simp only [discoveryNetStep, Option.map_eq_some_iff] at hs
    obtain ⟨tx, htx, rfl⟩ := hs
    obtain rfl := Option.some.inj htx
    by_cases hj : j = i
    · subst hj
      dsimp only
      rw [Function.update_self, registerSla_eq f.k _ ⟨handler, priority, deadlineMs⟩]
      split
      · refine Or.inr ?_
        rw [serviceNames, List.map_append, List.map_singleton, str_name_newEntry]
        rfl
      · exact Or.inl rfl
    · dsimp only
      rw [Function.update_of_ne hj]
      exact Or.inl rfl
  | transmit i =>
    simp only [discoveryNetStep, Option.map_eq_some_iff] at hs
    obtain ⟨tx, htx, rfl⟩ := hs
    obtain rfl := Option.some.inj htx
    exact Or.inl (hsame rfl)
  | receive i j' now datagram =>
    obtain ⟨_, rfl⟩ := discoveryNetStep_receive hs
    exact Or.inl (hsame rfl)
  | expire i now =>
    obtain ⟨_, rfl⟩ := discoveryNetStep_expire hs
    exact Or.inl (hsame rfl)

omit [DecidableEq ι] in
theorem RegistersOta.plainNames {a : DiscoveryNetAct ι Builtin} (h : RegistersOta s a) :
    PlainNames s a := by
  cases a with
  | register i name handler priority deadlineMs =>
    obtain rfl : name = some "ota".toList := h
    rintro n ⟨⟩
    exact ⟨by decide, by decide, by decide⟩
  | transmit i => exact trivial
  | receive i j now datagram => exact trivial
  | expire i now => exact trivial

variable [Fintype ι]

theorem fleetInv_step (hdoc : f.lib.Documented) (hnum : f.tree.Numeric) (hdec : f.tree.Decodes)
    (hf : f.Provisioned) (hcard : Fintype.card ι ≤ f.k.discoveryMaxPeers + 1)
    {a : DiscoveryNetAct ι Builtin} (h : FleetInv f s) (hota : RegistersOta s a)
    (hs : discoveryNetStep f.lib f.k f.cfg s a = some s') : FleetInv f s' := by
  have hnodes := hf.plainNodes hnum hdec
  have hservices := services_registersOta hota hs
  constructor
  · exact discNetInv_step hdoc hnodes h.net hota.plainNames hs
  · exact complete_step hdoc hnodes hcard h.net h.complete hs
  · exact carries_step hdoc hnodes h.net (fun i => lists_namesCsv (h.net.clean i) (h.net.named i)
      (h.names i) (hf.length_names_lt i)) h.carries hs
  · intro i
    rcases hservices i with heq | heq
    · exact heq ▸ h.names i
    · exact heq ▸ (h.names i).trans (List.prefix_append _ _)
  · intro i name hname
    rcases hservices i with heq | heq
    · exact h.own i name (heq ▸ hname)
    · rw [heq] at hname
      rcases List.mem_append.mp hname with hold | hnew
      · exact h.own i name hold
      · exact Or.inr (List.mem_cons_of_mem _ hnew)

omit [Fintype ι] in
theorem fleetInv_init (hnum : f.tree.Numeric) (hdec : f.tree.Decodes) (hf : f.Provisioned) :
    FleetInv f (fleetMachine f).init := by
  have hown : ∀ i, ∀ name ∈ serviceNames (bootRegistry f.k (f.cfg i) .messaging),
      name ∈ f.names i ∨ name ∈ ["echo".toList, "ota".toList] := by
    intro i name hname
    rw [hf.serviceNames_boot hnum hdec] at hname
    rcases List.mem_append.mp (List.mem_of_mem_take hname) with hconf | hecho
    · exact Or.inl hconf
    · obtain rfl := List.mem_singleton.mp hecho
      exact Or.inr List.mem_cons_self
  have hnil : (PeerTable.empty f.k.discoveryMaxPeers).entries = [] := by
    simp [PeerTable.entries, PeerTable.empty]
  constructor
  · constructor
    · exact fun _ => ⟨[], List.nil_prefix, by decide, CharBuf.writtenOver_nil _⟩
    · intro i e he
      rcases hown i e.name.str (List.mem_map_of_mem he) with hconf | hbuiltin
      · exact hf.serviceName hconf
      · simp only [List.mem_cons, List.not_mem_nil, or_false] at hbuiltin
        rcases hbuiltin with heq | heq
        · exact heq ▸ ⟨by decide, by decide, by decide⟩
        · exact heq ▸ ⟨by decide, by decide, by decide⟩
    · exact fun _ hx => absurd hx List.not_mem_nil
    · intro i
      constructor <;> simp [fleetMachine, PeerTable.ids, hnil]
      simp [PeerTable.empty]
  · intro i j _ t ht
    cases ht
  · constructor
    · exact fun _ hx => absurd hx List.not_mem_nil
    · intro i p hp
      have hp' : p ∈ (PeerTable.empty f.k.discoveryMaxPeers).entries := hp
      rw [hnil] at hp'
      exact absurd hp' List.not_mem_nil
  · exact hf.names_prefix_boot hnum hdec
  · exact hown

/-- Node `i` has heard of node `j`, no longer before its last expiry than
the timeout. -/
def Hears {k : Kconfig} {ν : Type} (s : DiscoveryNet k ι ν) (i j : ι) : Prop :=
  ∃ t, HeardAt k (s.nodes i).lastExpiry (s.heard i j) t

/-- **From the configuration file to the lookup**: in every run of nodes
that were provisioned by the tool, whatever datagrams are lost, late,
repeated or overtaken, a lookup at a node succeeds for each service of a
node it hears, and what it returns is the provisioned address of a node it
hears that offers the service. -/
theorem fleet_lookup (hdoc : f.lib.Documented) (hnum : f.tree.Numeric) (hdec : f.tree.Decodes)
    (hf : f.Provisioned) (hcard : Fintype.card ι ≤ f.k.discoveryMaxPeers + 1)
    (hr : (fleetMachine f).ReachableUnder RegistersOta s) (i : ι) (name : List Char)
    (ip : CharBuf 16) :
    ((∃ j, j ≠ i ∧ Hears s i j ∧ cstr name ∈ f.names j) →
      (ceellServiceFindPeer f.k (s.nodes i).table (some name) (some ip)).2 = 0) ∧
    ((ceellServiceFindPeer f.k (s.nodes i).table (some name) (some ip)).2 = 0 →
      ∃ j, j ≠ i ∧ Hears s i j ∧
        (cstr name ∈ f.names j ∨ cstr name ∈ ["echo".toList, "ota".toList]) ∧
        ∃ out, (ceellServiceFindPeer f.k (s.nodes i).table (some name) (some ip)).1 = some out ∧
          out.str = (f.config j).ip) := by
  have hnodes := hf.plainNodes hnum hdec
  have hinv : FleetInv f s := hr.induct (fleetInv_init hnum hdec hf) fun _ _ _ h hota hs =>
    fleetInv_step hdoc hnum hdec hf hcard h hota hs
  have hok := hinv.net.tables i
  constructor
  · rintro ⟨j, hne, ⟨t, ht, hfresh⟩, hname⟩
    obtain ⟨p, hp, hid⟩ := mem_ids.mp
      (((hinv.complete i).mem_ids_iff hok hnodes hne).mpr ⟨t, ht, hfresh⟩)
    refine (findPeer_spec hok.count_le name ip).1.mpr ⟨p, hp, ?_⟩
    exact (hinv.carries.tables i p hp j hid).contains hname
  · intro hret
    obtain ⟨p, hp, j, hne, hheard, hmem, out, hout, hip⟩ := hok.found hnodes hinv.net.named hret
    exact ⟨j, hne, ⟨p.lastSeen, hheard, hok.fresh p hp⟩, hinv.own j _ hmem, out, hout,
      hip.trans (hf.loadedAs hnum hdec j).ip⟩

end Runs

/-- The flash of a node with this image. -/
def imageFlash (dict : List JsonMember) : FlashWorld where
  openRet := 0
  mapped := .zero configReadSize
  readRet := 0
  read := (CharBuf.zero configReadSize).memcpy 0
    ((imageOf (renderTree dict)).take configReadSize)

theorem holds_imageFlash {dict : List JsonMember}
    (h : (renderTree dict).length ≤ partitionSize) :
    Holds (imageFlash dict) (imageOf (renderTree dict)) := by
  have hlen : ((imageOf (renderTree dict)).take configReadSize).length = configReadSize := by
    rw [List.length_take, length_imageOf h]
    rfl
  refine Or.inr ⟨Int.le_refl 0, Int.le_refl 0, ?_⟩
  rw [imageFlash, CharBuf.bytes_memcpy _ (by rw [hlen, Nat.zero_add])]
  simp [hlen, CharBuf.zero]

/-- A node without services. -/
def dashboardConfig : NodeConfig where
  nodeId := 7
  role := "dashboard".toList
  name := "ceell-dashboard".toList
  ip := "192.168.1.7".toList
  netmask := "255.255.255.0".toList
  services := .names []

def lightsFleet : Fleet Bool where
  lib := jsonReference
  tree := jsonTreeReference
  k := {}
  defaults := {}
  config lights := if lights then lightsConfig else dashboardConfig
  dict lights := (if lights then lightsConfig else dashboardConfig).dict
  flash lights := imageFlash (if lights then lightsConfig else dashboardConfig).dict

theorem withinLimits_dashboardConfig : dashboardConfig.WithinLimits where
  node_id := by decide
  role := by decide
  name := by decide
  ip := by decide
  netmask := by decide
  count := by decide
  services := fun s hs => absurd hs List.not_mem_nil

theorem provisioned_lightsFleet : lightsFleet.Provisioned := by
  have hlimits : ∀ i, (lightsFleet.config i).WithinLimits :=
    Bool.rec withinLimits_dashboardConfig withinLimits_lightsConfig
  have hdict : ∀ i, (lightsFleet.config i).IsDict (lightsFleet.dict i) :=
    fun i => (lightsFleet.config i).isDict_dict
  constructor
  · exact hlimits
  · exact hdict
  · decide
  · intro i
    have hlen := (textLength_fits (hlimits i) (hdict i)).1
    exact ⟨_, genConfigBin_dict (hlimits i) (hdict i), holds_imageFlash (Nat.le_of_lt hlen)⟩
  · decide
  · decide

def lightsDatagram : List Char :=
  "\x7b\"node_id\":3,\"role\":\"lights\",\"name\":\"ceell-lights\",".toList ++
    "\"ip\":\"192.168.1.12\",\"services\":\"lighting,echo\"\x7d".toList

/-- The dashboard hears the lights. -/
theorem fleet_lookup_lights :
    ∃ s, (fleetMachine lightsFleet).run
        [.transmit true, .receive false true 10 lightsDatagram] = some s ∧
      (ceellServiceFindPeer {} (s.nodes false).table (some "lighting".toList)
        (some (.zero 16))).2 = 0 := by
  have hend : ((fleetMachine lightsFleet).run
      [.transmit true, .receive false true 10 lightsDatagram]).map (fun s =>
        (s.heard false true, (s.nodes false).lastExpiry)) = some (some 10, none) := by
    decide +kernel
  obtain ⟨s, hs, hvalues⟩ := Option.map_eq_some_iff.mp hend
  obtain ⟨hheard, hlast⟩ := Prod.mk.inj hvalues
  have hears : Hears s false true := ⟨10, hheard, by simp [hlast]⟩
  refine ⟨s, hs, ?_⟩
  exact (fleet_lookup jsonReference_documented jsonTreeReference_numeric jsonTreeReference_decodes
    provisioned_lightsFleet (by decide) ⟨_, hs, trivial, fun _ _ => ⟨trivial, fun _ _ => trivial⟩⟩
    false "lighting".toList (.zero 16)).1 ⟨true, by decide, hears, by decide⟩

end Ceell
