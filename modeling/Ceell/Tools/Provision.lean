/-
Ceell.Tools.Provision — a node configuration from the file of the tool to
the struct of the loader.

The tool checks the text against the 64 KiB partition, the loader reads
`CONFIG_READ_SIZE` bytes of it and puts a NUL over the last. What gets
through is what fits into 511 bytes, `configImage_loaded_iff`; the longest
configurations within the declared limits are five bytes longer.

A configuration stands for every dictionary that has its members, in any
order: `NodeConfig.IsDict`.
-/
import Ceell.Core.ConfigParser
import Ceell.Tools.GenConfigBin
import Mathlib.Algebra.Order.BigOperators.Group.List
import Mathlib.Algebra.Order.Ring.Nat
import Mathlib.Data.List.Forall2

namespace Ceell.Tools

open Ceell.Lib Ceell.Osal Ceell.Core

/-! ## Configurations within the limits of `config_parser.h` -/

/-- A service with its SLA. -/
structure NodeService where
  name : List Char
  priority : Nat
  deadlineMs : Nat
  deriving DecidableEq

/-- The services of a configuration: version 1 has the names only. -/
inductive NodeServices where
  | names (l : List (List Char))
  | entries (l : List NodeService)

structure NodeConfig where
  nodeId : Nat
  role : List Char
  name : List Char
  ip : List Char
  netmask : List Char
  services : NodeServices

def NodeServices.version : NodeServices → Nat
  | .names _ => 1
  | .entries _ => 2

/-- The services as a node runs them: those of version 1 are NORMAL and
have no deadline. -/
def NodeServices.list : NodeServices → List NodeService
  | .names l => l.map fun name => ⟨name, 1, 0⟩
  | .entries l => l

structure NodeService.WithinLimits (s : NodeService) : Prop where
  ne_nil : s.name ≠ []
  length : s.name.length ≤ 31
  comma : ',' ∉ s.name
  printable : Printable s.name
  priority : s.priority ≤ 2
  deadline : s.deadlineMs ≤ 65535

structure NodeConfig.WithinLimits (c : NodeConfig) : Prop where
  node_id : c.nodeId < 2 ^ 31
  role : Printable c.role ∧ c.role.length ≤ 31
  name : Printable c.name ∧ c.name.length ≤ 63
  ip : Printable c.ip ∧ c.ip.length ≤ 15
  netmask : Printable c.netmask ∧ c.netmask.length ≤ 15
  count : c.services.list.length ≤ maxConfigServices
  services : ∀ s ∈ c.services.list, s.WithinLimits

/-! ## Their dictionaries -/

def NodeService.fields (s : NodeService) : List JsonField :=
  [("name".toList, .str s.name), ("priority".toList, .num s.priority),
   ("deadline_ms".toList, .num s.deadlineMs)]

/-- The members that every configuration has. -/
def NodeConfig.commonMembers (c : NodeConfig) : List JsonMember :=
  [("version".toList, .prim (.num c.services.version)),
   ("node_id".toList, .prim (.num c.nodeId)), ("role".toList, .prim (.str c.role)),
   ("name".toList, .prim (.str c.name)), ("ip".toList, .prim (.str c.ip)),
   ("netmask".toList, .prim (.str c.netmask))]

/-- The value of `services`: one string, or objects whose members may stand
in any order. -/
def NodeServices.IsValue : NodeServices → JsonTree → Prop
  | .names l, v => v = .prim (.str ([','].intercalate l))
  | .entries l, v => ∃ rows, v = .objs rows ∧ List.Forall₂ (fun s row => s.fields.Perm row) l rows

/-- The dictionaries of a configuration. `services` is an optional field,
so one without services may leave it out. -/
def NodeConfig.IsDict (c : NodeConfig) (dict : List JsonMember) : Prop :=
  (c.services.list = [] ∧ c.commonMembers.Perm dict) ∨
    ∃ v, c.services.IsValue v ∧ (("services".toList, v) :: c.commonMembers).Perm dict

/-! ## What the loader should make of them -/

/-- The struct holds the configuration. -/
structure NodeConfig.LoadedAs (c : NodeConfig) (cfg : CeellConfig) : Prop where
  from_flash : cfg.fromFlash = true
  version : cfg.version.toNat = c.services.version
  node_id : cfg.nodeId.toNat = c.nodeId
  role : cfg.role.str = c.role
  name : cfg.name.str = c.name
  ip : cfg.ip.str = c.ip
  netmask : cfg.netmask.str = c.netmask
  count : cfg.serviceCount = c.services.list.length
  services : ∀ (i : Fin maxConfigServices) (s : NodeService), c.services.list[i.val]? = some s →
    (cfg.services i).str = s.name ∧ (cfg.serviceSlas i).name.str = s.name ∧
      (cfg.serviceSlas i).priority.toNat = s.priority ∧
      (cfg.serviceSlas i).deadlineMs.toNat = s.deadlineMs

/-- The flash answers with the image, by its device or mapped. -/
def Holds (flash : FlashWorld) (image : List Char) : Prop :=
  (flash.openRet < 0 ∧ flash.mapped.bytes = image.take configReadSize) ∨
    (0 ≤ flash.openRet ∧ 0 ≤ flash.readRet ∧ flash.read.bytes = image.take configReadSize)

/-! ## The length of the text -/

/-- The length of the value of `services`. -/
def NodeServices.textLength : NodeServices → Nat
  | .names l => 2 + ((l.map fun name => name.length + 1).sum - 1)
  | .entries l =>
      2 + ((l.map fun s => 40 + s.name.length + (intChars s.deadlineMs).length).sum - 1)

/-- The length of the compact text, with the field `services`. -/
def NodeConfig.textLength (c : NodeConfig) : Nat :=
  77 + (intChars c.nodeId).length + c.role.length + c.name.length + c.ip.length + c.netmask.length +
    c.services.textLength

/-! ## The dictionaries are printable and have no key twice -/

/-- The value of a key that occurs once. -/
theorem lookup_of_mem {β : Type} {l : List (List Char × β)} {f : List Char × β}
    (hnodup : (l.map Prod.fst).Nodup) (hf : f ∈ l) : l.lookup f.1 = some f.2 := by
  induction l with
  | nil => cases hf
  | cons g l ih =>
    obtain ⟨hg, hl⟩ := List.nodup_cons.mp hnodup
    rcases List.mem_cons.mp hf with rfl | hf
    · exact List.lookup_cons_self
    · have hne : f.1 ≠ g.1 := fun h => hg (h ▸ List.mem_map_of_mem hf)
      rw [List.lookup_cons, beq_false_of_ne hne]
      exact ih hl hf

section Dict

variable {c : NodeConfig} {dict : List JsonMember}

theorem NodeService.nodup_fields (s : NodeService) : (s.fields.map Prod.fst).Nodup := by
  show ["name".toList, "priority".toList, "deadline_ms".toList].Nodup
  decide

theorem NodeConfig.nodup_members (c : NodeConfig) (v : JsonTree) :
    ((("services".toList, v) :: c.commonMembers).map Prod.fst).Nodup := by
  show ["services".toList, "version".toList, "node_id".toList, "role".toList, "name".toList,
    "ip".toList, "netmask".toList].Nodup
  decide

theorem NodeConfig.IsDict.nodup (hdict : c.IsDict dict) : (dict.map Prod.fst).Nodup := by
  rcases hdict with ⟨_, hperm⟩ | ⟨v, _, hperm⟩
  · exact (hperm.map Prod.fst).nodup_iff.mp (List.nodup_cons.mp (c.nodup_members (.objs []))).2
  · exact (hperm.map Prod.fst).nodup_iff.mp (c.nodup_members v)

theorem NodeConfig.IsDict.common (hdict : c.IsDict dict) {f : JsonMember}
    (hf : f ∈ c.commonMembers) : dict.lookup f.1 = some f.2 := by
  apply lookup_of_mem hdict.nodup
  rcases hdict with ⟨_, hperm⟩ | ⟨v, _, hperm⟩
  · exact hperm.mem_iff.mp hf
  · exact hperm.mem_iff.mp (List.mem_cons_of_mem _ hf)

/-- What stands under `services`, if anything does. -/
theorem NodeConfig.IsDict.services (hdict : c.IsDict dict) :
    (c.services.list = [] ∧ dict.lookup "services".toList = none) ∨
      ∃ v, c.services.IsValue v ∧ dict.lookup "services".toList = some v := by
  have hnodup := hdict.nodup
  rcases hdict with ⟨hnil, hperm⟩ | ⟨v, hv, hperm⟩
  · refine Or.inl ⟨hnil, ?_⟩
    have hkey : "services".toList ∉ c.commonMembers.map Prod.fst :=
      (List.nodup_cons.mp (c.nodup_members (.objs []))).1
    rw [List.lookup_eq_none_iff]
    intro f hf
    rw [bne_iff_ne]
    intro heq
    exact hkey (heq ▸ List.mem_map_of_mem (hperm.mem_iff.mpr hf))
  · exact Or.inr ⟨v, hv, lookup_of_mem (f := ("services".toList, v)) hnodup
      (hperm.mem_iff.mp List.mem_cons_self)⟩

/-- Every member is a common one or the services. -/
theorem NodeConfig.IsDict.mem (hdict : c.IsDict dict) {f : JsonMember} (hf : f ∈ dict) :
    f ∈ c.commonMembers ∨ f.1 = "services".toList ∧ c.services.IsValue f.2 := by
  rcases hdict with ⟨_, hperm⟩ | ⟨v, hv, hperm⟩
  · exact Or.inl (hperm.mem_iff.mpr hf)
  · rcases List.mem_cons.mp (hperm.mem_iff.mpr hf) with rfl | hf
    · exact Or.inr ⟨rfl, hv⟩
    · exact Or.inl hf

theorem isInt32_natCast {n : Nat} (h : n < 2 ^ 31) : IsInt32 (n : Int) := by
  unfold IsInt32
  omega

/-- Names joined by commas are printable if they are. -/
theorem printable_intercalate {l : List (List Char)} (h : ∀ name ∈ l, Printable name) :
    Printable ([','].intercalate l) := by
  intro c hc
  rcases mem_of_mem_intercalate hc with rfl | ⟨name, hname, hc⟩
  · decide
  · exact h name hname c hc

theorem NodeService.printable_keys (s : NodeService) : ∀ f ∈ s.fields, Printable f.1 := by
  have hkeys : ∀ key ∈ ["name".toList, "priority".toList, "deadline_ms".toList], Printable key := by
    decide
  intro f hf
  have hmem : f.1 ∈ s.fields.map Prod.fst := List.mem_map_of_mem hf
  exact hkeys f.1 hmem

theorem NodeConfig.printable_keys (c : NodeConfig) : ∀ f ∈ c.commonMembers, Printable f.1 := by
  have hkeys : ∀ key ∈ ["version".toList, "node_id".toList, "role".toList, "name".toList,
      "ip".toList, "netmask".toList], Printable key := by decide
  intro f hf
  have hmem : f.1 ∈ c.commonMembers.map Prod.fst := List.mem_map_of_mem hf
  exact hkeys f.1 hmem

theorem NodeService.WithinLimits.printable_fields {s : NodeService} (hs : s.WithinLimits) :
    ∀ f ∈ s.fields, PrintableVal f.2 := by
  have hpriority := hs.priority
  have hdeadline := hs.deadline
  simp only [NodeService.fields, List.forall_mem_cons]
  exact ⟨hs.printable, isInt32_natCast (by omega), isInt32_natCast (by omega), by simp⟩

theorem NodeConfig.WithinLimits.printable_common (hc : c.WithinLimits) :
    ∀ f ∈ c.commonMembers, PrintableTree f.2 := by
  have hversion : c.services.version < 2 ^ 31 := by
    cases c.services <;> simp [NodeServices.version]
  simp only [NodeConfig.commonMembers, List.forall_mem_cons]
  exact ⟨isInt32_natCast hversion, isInt32_natCast hc.node_id, hc.role.1, hc.name.1, hc.ip.1,
    hc.netmask.1, by simp⟩

/-- Each row of the array has the fields of a service. -/
theorem forall₂_rows {l : List NodeService} {rows : List (List JsonField)}
    (h : List.Forall₂ (fun s row => s.fields.Perm row) l rows) {row : List JsonField}
    (hrow : row ∈ rows) : ∃ s ∈ l, s.fields.Perm row := by
  induction h with
  | nil => cases hrow
  | cons hr _ ih =>
    rcases List.mem_cons.mp hrow with rfl | hrow
    · exact ⟨_, List.mem_cons_self, hr⟩
    · obtain ⟨s, hs, hperm⟩ := ih hrow
      exact ⟨s, List.mem_cons_of_mem _ hs, hperm⟩

theorem NodeConfig.WithinLimits.printable_value (hc : c.WithinLimits) {v : JsonTree}
    (hv : c.services.IsValue v) : PrintableTree v := by
  have hservices := hc.services
  cases hs : c.services with
  | names l =>
    rw [hs] at hv hservices
    obtain rfl := hv
    refine printable_intercalate fun name hname => ?_
    exact (hservices ⟨name, 1, 0⟩ (List.mem_map_of_mem hname)).printable
  | entries l =>
    rw [hs] at hv hservices
    obtain ⟨rows, rfl, hrows⟩ := hv
    intro row hrow
    obtain ⟨s, hmem, hperm⟩ := forall₂_rows hrows hrow
    refine ⟨?_, (hperm.map Prod.fst).nodup_iff.mp s.nodup_fields, ?_⟩
    · rintro rfl
      exact absurd hperm.length_eq (by simp [NodeService.fields])
    · intro f hf
      have hf := hperm.mem_iff.mpr hf
      exact ⟨s.printable_keys f hf, (hservices s hmem).printable_fields f hf⟩

theorem NodeConfig.WithinLimits.printable (hc : c.WithinLimits) (hdict : c.IsDict dict) :
    ∀ f ∈ dict, PrintableMember f := by
  intro f hf
  rcases hdict.mem hf with hf | ⟨hkey, hv⟩
  · exact ⟨c.printable_keys f hf, hc.printable_common f hf⟩
  · have hprintable : Printable "services".toList := by decide
    exact ⟨hkey ▸ hprintable, hc.printable_value hv⟩

/-! ## The dictionaries suit the descriptors of the loader -/

/-- The descriptors of the format. -/
def NodeServices.descr : NodeServices → List JsonTreeDescr
  | .names _ => jsonConfigV1Descr
  | .entries _ => jsonConfigV2Descr

theorem NodeConfig.matches_common (c : NodeConfig) {d : JsonTreeDescr}
    (hd : d ∈ jsonCommonDescr) {f : JsonMember} (hf : f ∈ c.commonMembers)
    (hname : d.fieldName = f.1) : f.2.Fits d.type := by
  simp only [jsonCommonDescr, List.mem_cons, List.not_mem_nil, or_false] at hd
  simp only [NodeConfig.commonMembers, List.mem_cons, List.not_mem_nil, or_false] at hf
  rcases hd with rfl | rfl | rfl | rfl | rfl | rfl <;>
    rcases hf with rfl | rfl | rfl | rfl | rfl | rfl <;>
    first
    | exact rfl
    | simp at hname

/-- No other member has the key of the services. -/
theorem NodeConfig.services_notMem (c : NodeConfig) {f : JsonMember} (hf : f ∈ c.commonMembers) :
    f.1 ≠ "services".toList := by
  have hkey : "services".toList ∉ c.commonMembers.map Prod.fst :=
    (List.nodup_cons.mp (c.nodup_members (.objs []))).1
  intro heq
  exact hkey (heq ▸ List.mem_map_of_mem hf)

theorem services_notMem_common {d : JsonTreeDescr} (hd : d ∈ jsonCommonDescr) :
    d.fieldName ≠ "services".toList := by
  have hall : ∀ d ∈ jsonCommonDescr, d.fieldName ≠ "services".toList := by decide
  exact hall d hd

theorem NodeService.matches_fields (s : NodeService) : Matches jsonSvcEntryDescr s.fields := by
  intro f hf d hd hname
  simp only [jsonSvcEntryDescr, List.mem_cons, List.not_mem_nil, or_false] at hd
  simp only [NodeService.fields, List.mem_cons, List.not_mem_nil, or_false] at hf
  rcases hd with rfl | rfl | rfl <;> rcases hf with rfl | rfl | rfl <;>
    first
    | exact rfl
    | simp at hname

theorem NodeConfig.WithinLimits.matches_format (hc : c.WithinLimits) (hdict : c.IsDict dict) :
    MatchesTree c.services.descr dict := by
  have hcount := hc.count
  intro f hf d hd hname
  rcases hdict.mem hf with hf | ⟨hkey, hv⟩
  · have hd' : d ∈ jsonCommonDescr := by
      have hne := c.services_notMem hf
      rw [← hname] at hne
      cases hs : c.services <;> rw [hs] at hd <;>
        rcases List.mem_append.mp hd with hd | hd
      · exact hd
      · exact absurd (List.mem_singleton.mp hd ▸ rfl) hne
      · exact hd
      · exact absurd (List.mem_singleton.mp hd ▸ rfl) hne
    exact c.matches_common hd' hf hname
  · have hd' : d ∉ jsonCommonDescr := fun h => services_notMem_common h (hname.trans hkey)
    cases hs : c.services with
    | names l =>
      rw [hs] at hd hv
      have hd := (List.mem_append.mp hd).resolve_left hd'
      rw [List.mem_singleton.mp hd, hv]
      rfl
    | entries l =>
      rw [hs] at hd hv hcount
      obtain ⟨rows, hv, hrows⟩ := hv
      have hd := (List.mem_append.mp hd).resolve_left hd'
      rw [List.mem_singleton.mp hd, hv]
      constructor
      · rw [← hrows.length_eq]
        exact hcount
      · intro row hrow g hg
        obtain ⟨s, _, hperm⟩ := forall₂_rows hrows hrow
        exact s.matches_fields g (hperm.mem_iff.mpr hg)

theorem NodeConfig.matches_version (c : NodeConfig) (hdict : c.IsDict dict) :
    MatchesTree jsonVersionDescr dict := by
  intro f hf d hd hname
  have hd' : d ∈ jsonCommonDescr := by
    rw [List.mem_singleton.mp hd]
    exact List.mem_cons_self
  rcases hdict.mem hf with hf | ⟨hkey, _⟩
  · exact c.matches_common hd' hf hname
  · exact absurd (hname.trans hkey) (services_notMem_common hd')

end Dict

/-! ## The services in the arrays -/

/-- A service as the loops of the loader write it. -/
def NodeService.loaded (s : NodeService) : Service :=
  ⟨s.name, UInt8.ofNat s.priority, UInt16.ofNat s.deadlineMs⟩

theorem Printable.nul_notMem {s : List Char} (h : Printable s) : nul ∉ s :=
  nul_notMem_plain h.plain

theorem Printable.cstr {s : List Char} (h : Printable s) : cstr s = s := cstr_eq_self h.nul_notMem

/-- The entry that a row of the array gives. -/
theorem ofRow_perm {s : NodeService} {row : List JsonField} (h : s.fields.Perm row) :
    JsonSvcEntry.ofRow row = ⟨some s.name, s.priority, s.deadlineMs⟩ := by
  have hnodup : (row.map Prod.fst).Nodup := (h.map Prod.fst).nodup_iff.mp s.nodup_fields
  have hlookup : ∀ f ∈ s.fields, row.lookup f.1 = some f.2 :=
    fun f hf => lookup_of_mem hnodup (h.mem_iff.mp hf)
  simp only [NodeService.fields, List.forall_mem_cons] at hlookup
  simp only [JsonSvcEntry.ofRow, rowStr, rowNum, hlookup]

theorem NodeService.WithinLimits.ofEntry {s : NodeService} (hs : s.WithinLimits) :
    Service.ofEntry ⟨some s.name, s.priority, s.deadlineMs⟩ = some s.loaded := by
  have hname : cstr s.name ≠ [] := by
    rw [hs.printable.cstr]
    exact hs.ne_nil
  have hpriority : (s.priority : Int) ≥ 0 ∧ (s.priority : Int) ≤ 2 := by
    have := hs.priority
    omega
  have hdeadline : toUInt16 s.deadlineMs = UInt16.ofNat s.deadlineMs := by
    simp [toUInt16, UInt16.ofNat]
  have hpositive : (s.deadlineMs : Int) ≥ 0 := Int.natCast_nonneg _
  simp only [Service.ofEntry, if_neg hname, if_pos hpriority, if_pos hpositive, Int.toNat_natCast,
    hdeadline]
  rfl

theorem NodeService.WithinLimits.ofPiece {name : List Char}
    (hs : (NodeService.mk name 1 0).WithinLimits) :
    Service.ofPiece name = some (NodeService.mk name 1 0).loaded := by
  have hlen : name.length > 0 ∧ name.length < 32 := by
    have := hs.length
    exact ⟨List.length_pos_iff.mpr hs.ne_nil, by simpa using Nat.lt_succ_of_le this⟩
  rw [Service.ofPiece, if_pos hlen]
  rfl

/-- What `parse_services_csv` finds in the names joined by commas. -/
theorem csvServices_names {l : List (List Char)} (hcount : l.length ≤ maxConfigServices)
    (hl : ∀ s ∈ (NodeServices.names l).list, s.WithinLimits) :
    csvServices (some ([','].intercalate l)) = (NodeServices.names l).list.map (·.loaded) := by
  have hname : ∀ name ∈ l, (NodeService.mk name 1 0).WithinLimits :=
    fun name hmem => hl _ (List.mem_map_of_mem hmem)
  have hcstr := (printable_intercalate fun name hmem => (hname name hmem).printable).cstr
  have hpieces : pieces ',' ([','].intercalate l) = l :=
    pieces_intercalate (fun name hmem => (hname name hmem).comma)
      fun name hmem => (hname name hmem).ne_nil
  have hfilter : l.filterMap Service.ofPiece
      = l.map fun name => (NodeService.mk name 1 0).loaded := by
    rw [← List.filterMap_eq_map]
    exact List.filterMap_congr fun name hmem => (hname name hmem).ofPiece
  simp only [csvServices, hcstr, hpieces, hfilter]
  rw [List.take_of_length_le (by simpa using hcount), NodeServices.list, List.map_map]
  rfl

/-- What `parse_services_v2` finds in the rows. -/
theorem v2Services_rows {l : List NodeService} {rows : List (List JsonField)}
    (hrows : List.Forall₂ (fun s row => s.fields.Perm row) l rows)
    (hcount : l.length ≤ maxConfigServices) (hl : ∀ s ∈ l, s.WithinLimits) :
    v2Services (rows.map JsonSvcEntry.ofRow) = l.map (·.loaded) := by
  have hfilter : (rows.map JsonSvcEntry.ofRow).filterMap Service.ofEntry = l.map (·.loaded) := by
    clear hcount
    induction hrows with
    | nil => rfl
    | cons hperm _ ih =>
      obtain ⟨hs, hl⟩ := List.forall_mem_cons.mp hl
      rw [List.map_cons, ofRow_perm hperm, List.filterMap_cons_some hs.ofEntry, ih hl,
        List.map_cons]
  rw [v2Services, hfilter, List.take_of_length_le (by simpa using hcount)]

/-! ## What the parses return -/

section Parse

variable {lib : JsonTreeLib} {c : NodeConfig} {dict : List JsonMember}

/-- A parse of the text with descriptors that suit it. -/
theorem parse_dict (hlib : lib.Decodes) (hc : c.WithinLimits) (hdict : c.IsDict dict)
    {descr : List JsonTreeDescr} (hmatch : MatchesTree descr dict) (rest : List Char) :
    0 ≤ (lib.parse descr (renderTree dict ++ rest)).ret ∧
      ∀ d ∈ descr, (lib.parse descr (renderTree dict ++ rest)).val d.fieldName
        = dict.lookup d.fieldName := by
  have hne : dict ≠ [] := by
    rintro rfl
    exact absurd (hdict.common List.mem_cons_self) (by simp)
  exact hlib.whole descr dict rest hne (fun f hf => (hc.printable hdict f hf).plain) hdict.nodup
    hmatch

/-- The struct that a parse of the format leaves. -/
theorem loadedAs_parsedConfig (hc : c.WithinLimits) {r : JsonTreeParsed}
    (hval : ∀ f ∈ c.commonMembers, r.val f.1 = some f.2) :
    c.LoadedAs (parsedConfig r (c.services.list.map (·.loaded))) := by
  simp only [NodeConfig.commonMembers, List.forall_mem_cons] at hval
  obtain ⟨hversion, hid, hrole, hname, hip, hnetmask, -⟩ := hval
  have hstr : ∀ {n : Nat} {s : List Char}, Printable s → s.length ≤ n →
      ((CharBuf.zero (n + 1)).copy s).str = s := by
    intro n s hs hlen
    rw [CharBuf.str_copy_zero, hs.cstr, List.take_of_length_le hlen]
  have hnum : ∀ {n : Nat}, n < 2 ^ 31 → (toUInt32 (n : Int)).toNat = n := by
    intro n hn
    simp only [toUInt32, UInt32.toNat_ofBitVec, BitVec.ofInt_natCast, BitVec.toNat_ofNat]
    omega
  constructor
  · rfl
  · show (toUInt32 (r.num "version")).toNat = _
    rw [JsonTreeParsed.num, hversion]
    exact hnum (by cases c.services <;> simp [NodeServices.version])
  · show (toUInt32 (r.num "node_id")).toNat = _
    rw [JsonTreeParsed.num, hid]
    exact hnum hc.node_id
  · show ((CharBuf.zero 32).copyOpt (r.str "role")).str = _
    rw [JsonTreeParsed.str, hrole]
    exact hstr hc.role.1 hc.role.2
  · show ((CharBuf.zero 64).copyOpt (r.str "name")).str = _
    rw [JsonTreeParsed.str, hname]
    exact hstr hc.name.1 hc.name.2
  · show ((CharBuf.zero 16).copyOpt (r.str "ip")).str = _
    rw [JsonTreeParsed.str, hip]
    exact hstr hc.ip.1 hc.ip.2
  · show ((CharBuf.zero 16).copyOpt (r.str "netmask")).str = _
    rw [JsonTreeParsed.str, hnetmask]
    exact hstr hc.netmask.1 hc.netmask.2
  · exact List.length_map _
  · intro i s hs
    have hlimits := hc.services s (List.mem_of_getElem? hs)
    have hpriority := hlimits.priority
    have hdeadline := hlimits.deadline
    have hget : (c.services.list.map (·.loaded))[i.val]? = some s.loaded := by
      rw [List.getElem?_map, hs, Option.map_some]
    simp only [parsedConfig, CeellConfig.withServices, hget, Option.elim_some]
    refine ⟨hstr hlimits.printable hlimits.length, hstr hlimits.printable hlimits.length, ?_, ?_⟩
    · simp only [NodeService.loaded, UInt8.toNat_ofNat']
      omega
    · simp only [NodeService.loaded, UInt16.toNat_ofNat']
      omega

/-- The services that the loops find after a parse of the format. -/
theorem services_parse (hlib : lib.Decodes) (hc : c.WithinLimits) (hdict : c.IsDict dict)
    (rest : List Char) :
    (∀ l, c.services = .names l →
      csvServices ((lib.parse jsonConfigV1Descr (renderTree dict ++ rest)).str "services")
        = c.services.list.map (·.loaded)) ∧
    (∀ l, c.services = .entries l →
      v2Services (((lib.parse jsonConfigV2Descr (renderTree dict ++ rest)).rows "services").map
        JsonSvcEntry.ofRow) = c.services.list.map (·.loaded)) := by
  have hparse := (parse_dict hlib hc hdict (hc.matches_format hdict) rest).2
  have hlimits := hc.services
  have hcount := hc.count
  constructor
  · intro l hs
    rw [hs] at hparse hlimits hcount ⊢
    have hval := hparse _ (List.mem_append_right _ List.mem_cons_self)
    simp only [NodeServices.descr] at hval
    rcases hdict.services with ⟨hnil, hnone⟩ | ⟨v, hv, hsome⟩
    · rw [hs] at hnil
      rw [JsonTreeParsed.str, hval, hnone, hnil]
      rfl
    · rw [hs] at hv
      obtain rfl := hv
      rw [JsonTreeParsed.str, hval, hsome]
      exact csvServices_names (by simpa [NodeServices.list] using hcount) hlimits
  · intro l hs
    rw [hs] at hparse hlimits hcount ⊢
    have hval := hparse _ (List.mem_append_right _ List.mem_cons_self)
    simp only [NodeServices.descr] at hval
    rcases hdict.services with ⟨hnil, hnone⟩ | ⟨v, hv, hsome⟩
    · rw [hs] at hnil
      rw [JsonTreeParsed.rows, hval, hnone, hnil]
      rfl
    · rw [hs] at hv
      obtain ⟨rows, rfl, hrows⟩ := hv
      rw [JsonTreeParsed.rows, hval, hsome]
      exact v2Services_rows hrows hcount hlimits

end Parse

/-! ## The load -/

section Load

variable {lib : JsonTreeLib} {c : NodeConfig} {dict : List JsonMember}

/-- A whole text is loaded. -/
theorem parseJson_whole (hnum : lib.Numeric) (hlib : lib.Decodes) (kc : ConfigDefaults)
    (hc : c.WithinLimits) (hdict : c.IsDict dict) {buf : CharBuf configReadSize} {rest : List Char}
    (htext : buf.terminate.str = renderTree dict ++ rest) :
    c.LoadedAs (parseJson lib kc buf .zero).1 := by
  have hversion := parse_dict hlib hc hdict (c.matches_version hdict) rest
  have hformat := parse_dict hlib hc hdict (hc.matches_format hdict) rest
  have hnumber : (lib.parse jsonVersionDescr (renderTree dict ++ rest)).num "version"
      = c.services.version := by
    have hlookup := hdict.common (f := ("version".toList, .prim (.num c.services.version)))
      List.mem_cons_self
    rw [JsonTreeParsed.num, hversion.2 ⟨"version".toList, .prim .number⟩ List.mem_cons_self,
      hlookup]
  have hval : ∀ f ∈ c.commonMembers,
      (lib.parse c.services.descr (renderTree dict ++ rest)).val f.1 = some f.2 := by
    intro f hf
    have hkey : f.1 ∈ jsonCommonDescr.map (·.fieldName) := by
      have hmem : f.1 ∈ c.commonMembers.map Prod.fst := List.mem_map_of_mem hf
      exact hmem
    obtain ⟨d, hd, hname⟩ := List.mem_map.mp hkey
    have hd' : d ∈ c.services.descr := by
      cases c.services <;> exact List.mem_append_left _ hd
    rw [← hname, hformat.2 d hd', hname, hdict.common hf]
  have hservices := services_parse hlib hc hdict rest
  rw [parseJson_eq hnum kc htext, if_neg (Int.not_lt.mpr hversion.1), hnumber]
  have hloaded := loadedAs_parsedConfig hc hval
  cases hs : c.services with
  | names l =>
    rw [hs] at hformat hloaded hservices
    have hv2 : ¬ ((NodeServices.names l).version : Int) = 2 := by simp [NodeServices.version]
    have hv1 : ((NodeServices.names l).version : Int) = 1 := rfl
    simp only [NodeServices.descr] at hformat hloaded
    rw [if_neg hv2, if_pos hv1, if_neg (Int.not_lt.mpr hformat.1), hservices.1 l rfl]
    exact hloaded
  | entries l =>
    rw [hs] at hformat hloaded hservices
    have hv2 : ((NodeServices.entries l).version : Int) = 2 := rfl
    simp only [NodeServices.descr] at hformat hloaded
    rw [if_pos hv2, if_neg (Int.not_lt.mpr hformat.1), hservices.2 l rfl]
    exact hloaded

/-- A text cut short leaves the defaults. -/
theorem parseJson_cut (hnum : lib.Numeric) (hlib : lib.Decodes) (kc : ConfigDefaults)
    (hc : c.WithinLimits) (hdict : c.IsDict dict) {buf : CharBuf configReadSize} {n : Nat}
    (hn : n < (renderTree dict).length) (htext : buf.terminate.str = (renderTree dict).take n) :
    parseJson lib kc buf .zero = (kconfigDefaults kc, 0) := by
  have hne : dict ≠ [] := by
    rintro rfl
    exact absurd (hdict.common List.mem_cons_self) (by simp)
  have hcut := hlib.cut jsonVersionDescr dict n hne (fun f hf => (hc.printable hdict f hf).plain) hn
  rw [parseJson_eq hnum kc htext, if_pos hcut]

/-- The load of a flash that holds an image is the parse of its bytes. -/
theorem load_holds (lib : JsonTreeLib) (kc : ConfigDefaults) {flash : FlashWorld}
    {image : List Char} (hflash : Holds flash image) {c : Char} {cs : List Char}
    (hhead : image = c :: cs) (hc : c ≠ '\xff') :
    ∃ buf : CharBuf configReadSize, buf.bytes = image.take configReadSize ∧
      ceellConfigLoad lib kc flash = parseJson lib kc buf .zero := by
  have hempty : flashIsEmpty (image.take configReadSize) = false := by
    simp [hhead, flashIsEmpty, hc]
  have himage : ∃ buf : CharBuf configReadSize, buf.bytes = image.take configReadSize ∧
      flash.image = some buf := by
    rcases hflash with ⟨hopen, hbytes⟩ | ⟨hopen, hread, hbytes⟩
    · refine ⟨flash.mapped, hbytes, ?_⟩
      simp [FlashWorld.image, hopen, hbytes, hempty]
    · refine ⟨flash.read, hbytes, ?_⟩
      simp [FlashWorld.image, Int.not_lt.mpr hopen, Int.not_lt.mpr hread, hbytes, hempty]
  obtain ⟨buf, hbytes, hbuf⟩ := himage
  refine ⟨buf, hbytes, ?_⟩
  rw [ceellConfigLoad_eq, hbuf, Option.elim_some]

/-- The text the loader parses: what stands before its forced NUL. -/
theorem str_terminate_image {image : List Char} {buf : CharBuf configReadSize}
    (hbytes : buf.bytes = image.take configReadSize) (hnul : nul ∉ image) :
    buf.terminate.str = image.take 511 := by
  have hlen : configReadSize ≤ image.length := by
    have hsize := buf.size_eq
    rw [hbytes, List.length_take] at hsize
    omega
  have hbytes' : buf.terminate.bytes = image.take 511 ++ [nul] := by
    have hlast : configReadSize - 1 < (image.take configReadSize).length := by
      rw [List.length_take, Nat.min_eq_left hlen]
      decide
    have hdrop : (image.take configReadSize).drop (configReadSize - 1 + 1) = [] := by simp
    simp only [CharBuf.terminate, hbytes]
    rw [List.set_eq_take_append_cons_drop, if_pos hlast, List.take_take, hdrop]
    rfl
  rw [CharBuf.str, hbytes']
  exact cstr_append_nul (fun h => hnul (List.mem_of_mem_take h)) []

/-- The image of a text, padded as erased flash is. -/
def imageOf (json : List Char) : List Char :=
  json ++ List.replicate (partitionSize - json.length) '\xff'

/-- The image fills the partition. -/
theorem length_imageOf {json : List Char} (h : json.length ≤ partitionSize) :
    (imageOf json).length = partitionSize := by
  rw [imageOf, List.length_append, List.length_replicate]
  omega

/-- **The load of an image**: a text of 511 bytes arrives, a longer one
leaves the defaults. -/
theorem load_image (hnum : lib.Numeric) (hlib : lib.Decodes) (kc : ConfigDefaults)
    (hc : c.WithinLimits) (hdict : c.IsDict dict) {flash : FlashWorld}
    (hflash : Holds flash (imageOf (renderTree dict))) :
    ((renderTree dict).length ≤ 511 → c.LoadedAs (ceellConfigLoad lib kc flash).1) ∧
    (511 < (renderTree dict).length → ceellConfigLoad lib kc flash = (kconfigDefaults kc, 0)) := by
  have hnul : nul ∉ imageOf (renderTree dict) := by
    have htext := nul_notMem_renderTree fun f hf => (hc.printable hdict f hf).plain
    have hpad : nul ∉ List.replicate (partitionSize - (renderTree dict).length) '\xff' :=
      fun h => absurd (List.eq_of_mem_replicate h) (by decide)
    exact fun h => (List.mem_append.mp h).elim htext hpad
  obtain ⟨buf, hbytes, hload⟩ := load_holds lib kc hflash (c := '{') rfl (by decide)
  have htext := str_terminate_image hbytes hnul
  rw [hload]
  constructor
  · intro hlen
    rw [imageOf, List.take_append, List.take_of_length_le hlen] at htext
    exact parseJson_whole hnum hlib kc hc hdict htext
  · intro hlen
    rw [imageOf, List.take_append_of_le_length (Nat.le_of_lt hlen)] at htext
    exact parseJson_cut hnum hlib kc hc hdict hlen htext

end Load

/-! ## The length of the text, member by member -/

section Length

theorem length_renderSeq {opening closing : Char} {items : List (List Char)} (hne : items ≠ []) :
    (renderSeq opening closing items).length = (items.map fun x => x.length + 1).sum + 1 := by
  rw [← length_intercalate ',' hne]
  simp [renderSeq]

theorem length_renderSeq_perm {α : Type} {opening closing : Char} {l l' : List α}
    (hperm : l.Perm l') (hne : l ≠ []) (render : α → List Char) :
    (renderSeq opening closing (l'.map render)).length
      = (renderSeq opening closing (l.map render)).length := by
  have hne' : l' ≠ [] := by
    rintro rfl
    exact hne hperm.eq_nil
  rw [length_renderSeq (by simpa using hne'), length_renderSeq (by simpa using hne),
    ((hperm.map render).map _).sum_nat]

theorem length_intChars_pos (n : Nat) : 0 < (intChars (n : Int)).length := by
  have hneg : ¬ (n : Int) < 0 := by omega
  rw [intChars, if_neg hneg]
  exact Nat.length_toDigits_pos

theorem length_intChars_digit {n : Nat} (h : n < 10) : (intChars (n : Int)).length = 1 := by
  have hle := length_intChars_le (n := n) Nat.one_pos (by omega)
  have hpos := length_intChars_pos n
  omega

variable {c : NodeConfig} {dict : List JsonMember}

theorem length_renderRow {s : NodeService} (hs : s.WithinLimits) {row : List JsonField}
    (hperm : s.fields.Perm row) :
    (renderRow row).length + 1 = 40 + s.name.length + (intChars s.deadlineMs).length := by
  have hpriority : (intChars (s.priority : Int)).length = 1 := by
    have hle := hs.priority
    exact length_intChars_digit (by omega)
  rw [renderRow, length_renderSeq_perm hperm (by simp [NodeService.fields]),
    length_renderSeq (by simp [NodeService.fields])]
  simp [NodeService.fields, renderField, hpriority]
  omega

/-- The length of the value of `services`. -/
theorem length_services (hc : c.WithinLimits) {v : JsonTree} (hv : c.services.IsValue v) :
    (renderTreeValue v).length = c.services.textLength := by
  have hlimits := hc.services
  cases hs : c.services with
  | names l =>
    rw [hs] at hv
    obtain rfl := hv
    have hlen : ([','].intercalate l).length = (l.map fun name => name.length + 1).sum - 1 := by
      by_cases hl : l = []
      · rw [hl]
        rfl
      · rw [← length_intercalate ',' hl]
        rfl
    simp only [renderTreeValue, NodeServices.textLength, List.length_append, List.length_cons,
      List.length_nil, hlen]
    omega
  | entries l =>
    rw [hs] at hv hlimits
    obtain ⟨rows, rfl, hrows⟩ := hv
    have hsum : ((rows.map renderRow).map fun x => x.length + 1).sum
        = (l.map fun s => 40 + s.name.length + (intChars s.deadlineMs).length).sum := by
      clear hs hc
      induction hrows with
      | nil => rfl
      | cons hperm _ ih =>
        obtain ⟨hs, hl⟩ := List.forall_mem_cons.mp hlimits
        simp only [List.map_cons, List.sum_cons, length_renderRow hs hperm, ih hl]
    rw [renderTreeValue, NodeServices.textLength, ← hsum]
    by_cases hl : rows = []
    · rw [hl]
      rfl
    · have hpos : (rows.map renderRow) ≠ [] := by simpa using hl
      rw [length_renderSeq hpos, ← length_intercalate ',' hpos]
      omega

/-- The length of the common members, a comma or brace after each. -/
theorem length_common (c : NodeConfig) :
    ((c.commonMembers.map renderMember).map fun x => x.length + 1).sum
      = 64 + (intChars c.nodeId).length + c.role.length + c.name.length + c.ip.length
        + c.netmask.length := by
  have hversion : (intChars (c.services.version : Int)).length = 1 :=
    length_intChars_digit (by cases c.services <;> simp [NodeServices.version])
  simp [NodeConfig.commonMembers, renderMember, renderTreeValue, hversion]
  omega

/-- The services take 305 bytes at most. -/
theorem services_textLength_le (hc : c.WithinLimits) : c.services.textLength ≤ 305 := by
  have hcount := hc.count
  have hlimits := hc.services
  cases hs : c.services with
  | names l =>
    rw [hs] at hcount hlimits
    have hsum := List.sum_le_card_nsmul (l.map fun name => name.length + 1) 32 (by
      intro n hn
      obtain ⟨name, hname, rfl⟩ := List.mem_map.mp hn
      have := (hlimits ⟨name, 1, 0⟩ (List.mem_map_of_mem hname)).length
      exact Nat.succ_le_succ this)
    simp only [NodeServices.list, List.length_map, Nat.nsmul_eq_mul, maxConfigServices]
      at hcount hsum
    simp only [NodeServices.textLength]
    omega
  | entries l =>
    rw [hs] at hcount hlimits
    have hsum := List.sum_le_card_nsmul
      (l.map fun s => 40 + s.name.length + (intChars s.deadlineMs).length) 76 (by
        intro n hn
        obtain ⟨s, hmem, rfl⟩ := List.mem_map.mp hn
        have hname := (hlimits s hmem).length
        have hdeadline := (hlimits s hmem).deadline
        have hdigits := length_intChars_le (n := s.deadlineMs) (k := 5) (by omega) (by omega)
        omega)
    simp only [NodeServices.list, List.length_map, Nat.nsmul_eq_mul, maxConfigServices]
      at hcount hsum
    simp only [NodeServices.textLength]
    omega

/-- What the fields other than the services take. -/
theorem common_textLength_le (hc : c.WithinLimits) :
    (intChars c.nodeId).length + c.role.length + c.name.length + c.ip.length + c.netmask.length
      ≤ 134 := by
  have hid := hc.node_id
  have hdigits := length_intChars_le (n := c.nodeId) (k := 10) (by omega) (by omega)
  have hrole := hc.role.2
  have hname := hc.name.2
  have hip := hc.ip.2
  have hnetmask := hc.netmask.2
  omega

theorem NodeServices.textLength_nil {s : NodeServices} (h : s.list = []) : s.textLength = 2 := by
  cases s with
  | names l =>
    rw [List.map_eq_nil_iff.mp h]
    rfl
  | entries l =>
    obtain rfl : l = [] := h
    rfl

/-- The length of a dictionary's text: that of the configuration, unless
there are no services and their field is left out. -/
theorem length_renderTree_dict (hc : c.WithinLimits) (hdict : c.IsDict dict) :
    (renderTree dict).length = c.textLength ∨
      (c.services.list = [] ∧ (renderTree dict).length + 14 = c.textLength) := by
  rcases hdict with ⟨hnil, hperm⟩ | ⟨v, hv, hperm⟩
  · refine Or.inr ⟨hnil, ?_⟩
    have hservices := NodeServices.textLength_nil hnil
    rw [renderTree, length_renderSeq_perm hperm (by simp [NodeConfig.commonMembers]),
      length_renderSeq (by simp [NodeConfig.commonMembers]), length_common, NodeConfig.textLength,
      hservices]
    omega
  · refine Or.inl ?_
    have hvalue := length_services hc hv
    rw [renderTree, length_renderSeq_perm hperm (List.cons_ne_nil _ _),
      length_renderSeq (by simp), List.map_cons, List.map_cons, List.sum_cons, length_common,
      NodeConfig.textLength, ← hvalue]
    simp [renderMember]
    omega

theorem textLength_fits (hc : c.WithinLimits) (hdict : c.IsDict dict) :
    (renderTree dict).length < partitionSize ∧
      ((renderTree dict).length ≤ 511 ↔ c.textLength ≤ 511) := by
  have hcommon := common_textLength_le hc
  have hservices := services_textLength_le hc
  have hle : c.textLength ≤ 516 := by
    simp only [NodeConfig.textLength]
    omega
  rcases length_renderTree_dict hc hdict with h | ⟨hnil, h⟩
  · constructor
    · simp only [partitionSize]
      omega
    · rw [h]
  · constructor
    · simp only [partitionSize]
      omega
    · have hshort : c.textLength ≤ 511 := by
        rw [NodeConfig.textLength, NodeServices.textLength_nil hnil]
        omega
      exact ⟨fun _ => hshort, fun _ => by omega⟩

end Length

/-! ## The tool and the loader -/

theorem requiredFields_dict {c : NodeConfig} {dict : List JsonMember} (hdict : c.IsDict dict) :
    requiredFields.filter (fun f => (dict.lookup f).isNone) = [] := by
  rw [List.filter_eq_nil_iff]
  intro key hkey
  have hmem : key ∈ c.commonMembers.map Prod.fst := hkey
  obtain ⟨f, hf, rfl⟩ := List.mem_map.mp hmem
  rw [hdict.common hf]
  simp

/-- The tool accepts every configuration within the limits. -/
theorem genConfigBin_dict {c : NodeConfig} {dict : List JsonMember} (hc : c.WithinLimits)
    (hdict : c.IsDict dict) : genConfigBin dict = .ok (imageOf (renderTree dict)) := by
  have hlookup := hdict.common (f := ("version".toList, .prim (.num c.services.version)))
    List.mem_cons_self
  have hversion : ∃ v ∈ supportedVersions,
      dict.lookup "version".toList = some (.prim (.num v)) := by
    refine ⟨c.services.version, ?_, hlookup⟩
    cases c.services <;> simp [NodeServices.version, supportedVersions]
  have hlen := (textLength_fits hc hdict).1
  have hdumps := dumps_printable (hc.printable hdict)
  simp only [genConfigBin, requiredFields_dict hdict, hdumps]
  rw [if_neg (by simp), if_neg (not_not.mpr hversion), if_neg (Nat.not_le.mpr hlen)]
  rfl

/-- **The round trip**: the tool writes an image for every configuration
within the limits, and the node that holds it loads precisely that
configuration, if and only if the compact text is of 511 bytes at most. -/
theorem configImage_loaded_iff (lib : JsonTreeLib) (hnum : lib.Numeric) (hlib : lib.Decodes)
    (kc : ConfigDefaults) {c : NodeConfig} (hc : c.WithinLimits) {dict : List JsonMember}
    (hdict : c.IsDict dict) :
    ∃ image, genConfigBin dict = .ok image ∧ ∀ flash, Holds flash image →
      (c.LoadedAs (ceellConfigLoad lib kc flash).1 ↔ c.textLength ≤ 511) := by
  refine ⟨_, genConfigBin_dict hc hdict, fun flash hflash => ?_⟩
  have hload := load_image hnum hlib kc hc hdict hflash
  rw [← (textLength_fits hc hdict).2]
  constructor
  · intro hloaded
    by_contra hlong
    have hflag := hloaded.from_flash
    rw [hload.2 (Nat.lt_of_not_le hlong)] at hflag
    exact Bool.false_ne_true hflag
  · exact hload.1

/-- A dictionary of a configuration. -/
def NodeConfig.dict (c : NodeConfig) : List JsonMember :=
  ("services".toList, match c.services with
    | .names l => .prim (.str ([','].intercalate l))
    | .entries l => .objs (l.map NodeService.fields)) :: c.commonMembers

theorem NodeConfig.isDict_dict (c : NodeConfig) : c.IsDict c.dict := by
  refine Or.inr ⟨_, ?_, List.Perm.refl _⟩
  cases hs : c.services with
  | names l => rfl
  | entries l =>
    refine ⟨_, rfl, ?_⟩
    rw [List.forall₂_map_right_iff]
    exact List.forall₂_same.mpr fun s _ => List.Perm.refl _

/-- The shipped configuration of the lights node. -/
def lightsConfig : NodeConfig where
  nodeId := 3
  role := "lights".toList
  name := "ceell-lights".toList
  ip := "192.168.1.12".toList
  netmask := "255.255.255.0".toList
  services := .entries [⟨"lighting".toList, 1, 50⟩]

theorem withinLimits_lightsConfig : lightsConfig.WithinLimits where
  node_id := by decide
  role := by decide
  name := by decide
  ip := by decide
  netmask := by decide
  count := by decide
  services := by
    intro s hs
    obtain rfl := List.mem_singleton.mp hs
    constructor <;> decide

/-- It is short enough, and every flash that holds its image loads it. -/
theorem configImage_loaded_iff_lights :
    lightsConfig.textLength ≤ 511 ∧
      ∃ image, genConfigBin lightsConfig.dict = .ok image ∧ ∀ flash, Holds flash image →
        lightsConfig.LoadedAs (ceellConfigLoad jsonTreeReference {} flash).1 := by
  have hshort : lightsConfig.textLength ≤ 511 := by decide
  obtain ⟨image, himage, hload⟩ :=
    configImage_loaded_iff jsonTreeReference jsonTreeReference_numeric jsonTreeReference_decodes {}
      withinLimits_lightsConfig lightsConfig.isDict_dict
  exact ⟨hshort, image, himage, fun flash hflash => (hload flash hflash).mpr hshort⟩

/-- The longest configuration within the limits. -/
def longestConfig : NodeConfig where
  nodeId := 2147483647
  role := List.replicate 31 'r'
  name := List.replicate 63 'n'
  ip := List.replicate 15 '1'
  netmask := List.replicate 15 '2'
  services := .entries (List.replicate 4 ⟨List.replicate 31 's', 2, 65535⟩)

theorem withinLimits_longestConfig : longestConfig.WithinLimits where
  node_id := by decide
  role := by decide
  name := by decide
  ip := by decide
  netmask := by decide
  count := by decide
  services := by
    intro s hs
    obtain rfl := List.eq_of_mem_replicate hs
    constructor <;> decide

/-- The tool writes an image of 516 bytes of text; a node whose flash holds
it runs on the defaults. -/
theorem longestConfig_not_loaded :
    longestConfig.WithinLimits ∧ longestConfig.IsDict longestConfig.dict ∧
      ∃ image flash, genConfigBin longestConfig.dict = .ok image ∧ Holds flash image ∧
        (ceellConfigLoad jsonTreeReference {} flash).1.fromFlash = false := by
  have hc := withinLimits_longestConfig
  have hdict := longestConfig.isDict_dict
  have hlong : ¬ (renderTree longestConfig.dict).length ≤ 511 := by
    rw [(textLength_fits hc hdict).2]
    decide
  let image := imageOf (renderTree longestConfig.dict)
  have hsize : (image.take configReadSize).length = configReadSize := by
    rw [List.length_take, length_imageOf (Nat.le_of_lt (textLength_fits hc hdict).1)]
    rfl
  let flash : FlashWorld := ⟨0, .zero _, 0, ⟨image.take configReadSize, hsize⟩⟩
  have hflash : Holds flash image := Or.inr ⟨Int.le_refl 0, Int.le_refl 0, rfl⟩
  refine ⟨hc, hdict, image, flash, genConfigBin_dict hc hdict, hflash, ?_⟩
  rw [(load_image jsonTreeReference_numeric jsonTreeReference_decodes {} hc hdict hflash).2
    (Nat.lt_of_not_le hlong)]
  rfl

end Ceell.Tools
