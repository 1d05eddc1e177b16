/-
Ceell.Boot — steps 1, 4, 5 and 9 of `main`: the services of the
configuration, and the two that are built in, in the registry.

The configuration holds up to `CEELL_CONFIG_MAX_SERVICES` services, the
registry up to `CONFIG_CEELL_MAX_SERVICES`, and both are 4.
`bootServices_ok_iff` says for which configurations everything is
registered, `sla_ok_iff` for which version 2 services the registry has the
SLA of their entry.
-/
import Ceell.Core.ConfigParser
import Ceell.Core.ServiceRegistry

namespace Ceell

open Ceell.Lib Ceell.Osal Ceell.Core

variable {ν : Type}

/-! ## The registrations of `main` -/

/-- `CEELL_CONFIG_VERSION_V2` -/
def configVersionV2 : UInt32 := 2

/-- The body of the loop of step 5. -/
def registerService (k : Kconfig) (cfg : CeellConfig) (i : Fin maxConfigServices)
    (services : Registry ν) : Registry ν × Int :=
  if cfg.version = configVersionV2 then
    ceellServiceRegisterSla k (some (cfg.services i).bytes) none (cfg.serviceSlas i).priority
      (cfg.serviceSlas i).deadlineMs services
  else ceellServiceRegister k (some (cfg.services i).bytes) none services

/-- The loop over these indices, with what the registrations return. -/
def registerServices (k : Kconfig) (cfg : CeellConfig) :
    List (Fin maxConfigServices) → Registry ν → Registry ν × List Int
  | [], services => (services, [])
  | i :: is, services =>
      let r := registerService k cfg i services
      let rest := registerServices k cfg is r.1
      (rest.1, r.2 :: rest.2)

/-- Steps 4 and 5: the registry after the loop. -/
def registerConfig (k : Kconfig) (cfg : CeellConfig) : Registry ν × List Int :=
  registerServices k cfg (serviceIndices cfg) ceellServiceInit

/-- Steps 4, 5 and 9, with `CONFIG_CEELL_TEST_ECHO_SERVICE` and
`CONFIG_CEELL_OTA`. -/
def bootServices (k : Kconfig) (cfg : CeellConfig) (echoHandler otaHandler : ν) :
    Registry ν × List Int :=
  let r := registerConfig k cfg
  let echo := ceellServiceRegister k (some "echo".toList) (some echoHandler) r.1
  let ota := ceellServiceRegister k (some "ota".toList) (some otaHandler) echo.1
  (ota.1, r.2 ++ [echo.2, ota.2])

/-! ## The registry they leave -/

/-- What `main` registers the service at an index with. -/
def configuredAs (ν : Type) (cfg : CeellConfig) (i : Fin maxConfigServices) : Registration ν :=
  if cfg.version = configVersionV2 then
    ⟨none, (cfg.serviceSlas i).priority, (cfg.serviceSlas i).deadlineMs⟩
  else ⟨none, 1, 0⟩

/-- The registrations of the loop. -/
def configRegistrations (ν : Type) (cfg : CeellConfig) : List (List Char × Registration ν) :=
  (serviceIndices cfg).map fun i => ((cfg.services i).bytes, configuredAs ν cfg i)

/-- The registrations of the two built-in services. -/
def builtinRegistrations (echoHandler otaHandler : ν) : List (List Char × Registration ν) :=
  [("echo".toList, ⟨some echoHandler, 1, 0⟩), ("ota".toList, ⟨some otaHandler, 1, 0⟩)]

section Registry

variable {k : Kconfig} {cfg : CeellConfig} {echoHandler otaHandler : ν}

theorem registerService_eq (k : Kconfig) (cfg : CeellConfig) (i : Fin maxConfigServices)
    (services : Registry ν) :
    registerService k cfg i services = ceellServiceRegisterSla k (some (cfg.services i).bytes)
      (configuredAs ν cfg i).handler (configuredAs ν cfg i).priority
      (configuredAs ν cfg i).deadlineMs services := by
  unfold registerService configuredAs
  split <;> rfl

theorem registerConfig_eq (k : Kconfig) (cfg : CeellConfig) :
    registerConfig k cfg = registerAll k (configRegistrations ν cfg) [] := by
  have hloop : ∀ (is : List (Fin maxConfigServices)) (services : Registry ν),
      registerServices k cfg is services
        = registerAll k (is.map fun i => ((cfg.services i).bytes, configuredAs ν cfg i))
            services := by
    intro is
    induction is with
    | nil => exact fun _ => rfl
    | cons i is ih =>
      intro services
      simp only [registerServices, registerService_eq, List.map_cons, registerAll, ih]
  exact hloop _ _

theorem bootServices_eq (k : Kconfig) (cfg : CeellConfig) (echoHandler otaHandler : ν) :
    bootServices k cfg echoHandler otaHandler
      = registerAll k (configRegistrations ν cfg ++ builtinRegistrations echoHandler otaHandler)
          [] := by
  rw [registerAll_append, ← registerConfig_eq]
  rfl

theorem length_configRegistrations (hcount : cfg.serviceCount ≤ maxConfigServices) :
    (configRegistrations ν cfg).length = cfg.serviceCount := by
  simp [configRegistrations, serviceIndices, hcount]

/-- An entry has the name of the configured service. -/
theorem str_configured (hterm : ∀ i, (cfg.services i).Terminated) (i : Fin maxConfigServices)
    (r : Registration ν) : (newEntry (cfg.services i).bytes r).name.str = (cfg.services i).str := by
  have hlt := (cfg.services i).length_str_lt (hterm i)
  rw [str_name_newEntry]
  exact List.take_of_length_le (Nat.le_of_lt_succ hlt)

theorem names_configured (hterm : ∀ i, (cfg.services i).Terminated) :
    ((configRegistrations ν cfg).map fun x => newEntry x.1 x.2).map (fun e => e.name.str)
      = configuredNames cfg := by
  simp only [configRegistrations, configuredNames, List.map_map]
  exact List.map_congr_left fun i _ => str_configured hterm i _

/-- The struct the load leaves counts and terminates its services. -/
theorem load_services (lib : JsonTreeLib) (kc : ConfigDefaults) (flash : FlashWorld) :
    (ceellConfigLoad lib kc flash).1.serviceCount ≤ maxConfigServices ∧
      ∀ i, ((ceellConfigLoad lib kc flash).1.services i).Terminated := by
  obtain ⟨cfg, l, hload, hlen, _⟩ := ceellConfigLoad_services lib kc flash
  rw [hload]
  refine ⟨hlen, fun i => ?_⟩
  simp only [CeellConfig.withServices]
  cases l[i.val]? with
  | none => exact CharBuf.terminated_zero
  | some s => exact CharBuf.terminated_copy_zero s.name

end Registry

/-- Every registration has returned 0; the registry holds each configured
service as it is configured, and the built-in ones with their handlers. -/
structure Booted (cfg : CeellConfig) (echoHandler otaHandler : ν) (r : Registry ν × List Int) :
    Prop where
  succeeded : ∀ ret ∈ r.2, ret = 0
  configured : ∀ i ∈ serviceIndices cfg,
    (findEntry r.1 (cfg.services i).str).map (·.registration) = some (configuredAs ν cfg i)
  echo : ceellServiceGetHandler r.1 "echo".toList = some echoHandler
  ota : ceellServiceGetHandler r.1 "ota".toList = some otaHandler

section Boot

variable {k : Kconfig} {cfg : CeellConfig} {echoHandler otaHandler : ν}

/-- The registry of a boot that has room for everything. -/
theorem bootServices_room (hcount : cfg.serviceCount ≤ maxConfigServices)
    (hroom : cfg.serviceCount + 2 ≤ k.maxServices) :
    (bootServices k cfg echoHandler otaHandler).1
      = (configRegistrations ν cfg ++ builtinRegistrations echoHandler otaHandler).map
          fun x => newEntry x.1 x.2 := by
  have hlen : ((configRegistrations ν cfg ++ builtinRegistrations echoHandler otaHandler).map
      fun x => newEntry x.1 x.2).length ≤ k.maxServices := by
    rw [List.length_map, List.length_append, length_configRegistrations hcount]
    exact hroom
  rw [bootServices_eq, registerAll_services k _ (Nat.zero_le _), List.nil_append,
    List.take_of_length_le hlen]

/-- With distinct names, every registration is what its name finds. -/
theorem findEntry_boot (hcount : cfg.serviceCount ≤ maxConfigServices)
    (hterm : ∀ i, (cfg.services i).Terminated) (hnames : (configuredNames cfg).Nodup)
    (hecho : "echo".toList ∉ configuredNames cfg) (hota : "ota".toList ∉ configuredNames cfg)
    (hroom : cfg.serviceCount + 2 ≤ k.maxServices) {name : List Char} {r : Registration ν}
    (hmem : (name, r) ∈ configRegistrations ν cfg ++ builtinRegistrations echoHandler otaHandler)
    {x : List Char} (hx : (newEntry name r).name.str = cstr x) :
    findEntry (bootServices k cfg echoHandler otaHandler).1 x = some (newEntry name r) := by
  have hbuiltin : ((builtinRegistrations echoHandler otaHandler).map fun x => newEntry x.1 x.2).map
      (fun e => e.name.str) = ["echo".toList, "ota".toList] := by
    simp only [builtinRegistrations, List.map_cons, List.map_nil, str_name_newEntry]
    decide
  have hnodup : (((configRegistrations ν cfg ++ builtinRegistrations echoHandler otaHandler).map
      fun x => newEntry x.1 x.2).map fun e => e.name.str).Nodup := by
    rw [List.map_append, List.map_append, names_configured hterm, hbuiltin]
    refine hnames.append (by decide) ?_
    intro y hy hy'
    simp only [List.mem_cons, List.not_mem_nil, or_false] at hy'
    rcases hy' with rfl | rfl
    · exact hecho hy
    · exact hota hy
  rw [bootServices_room hcount hroom]
  exact findEntry_of_mem hnodup (List.mem_map_of_mem (f := fun x => newEntry x.1 x.2) hmem) hx

end Boot

/-- **The registrations of a boot**, for every configuration the load can
return whose names are distinct and not those of the built-in services:
all succeed and are in force exactly if the registry has two entries more
than the configuration has services. -/
theorem bootServices_ok_iff (lib : JsonTreeLib) (kc : ConfigDefaults) (flash : FlashWorld)
    (k : Kconfig) (echoHandler otaHandler : ν)
    (hnames : (configuredNames (ceellConfigLoad lib kc flash).1).Nodup)
    (hecho : "echo".toList ∉ configuredNames (ceellConfigLoad lib kc flash).1)
    (hota : "ota".toList ∉ configuredNames (ceellConfigLoad lib kc flash).1) :
    Booted (ceellConfigLoad lib kc flash).1 echoHandler otaHandler
        (bootServices k (ceellConfigLoad lib kc flash).1 echoHandler otaHandler) ↔
      (ceellConfigLoad lib kc flash).1.serviceCount + 2 ≤ k.maxServices := by
  obtain ⟨hcount, hterm⟩ := load_services lib kc flash
  generalize (ceellConfigLoad lib kc flash).1 = cfg at *
  have hok : (∀ ret ∈ (bootServices k cfg echoHandler otaHandler).2, ret = 0) ↔
      cfg.serviceCount + 2 ≤ k.maxServices := by
    rw [bootServices_eq, registerAll_ok_iff k _ (Nat.zero_le _), List.length_append,
      length_configRegistrations hcount, List.length_nil, Nat.zero_add]
    rfl
  constructor
  · exact fun h => hok.mp h.succeeded
  · intro hroom
    have hfind : ∀ (name : List Char) (r : Registration ν),
        (name, r) ∈ configRegistrations ν cfg ++ builtinRegistrations echoHandler otaHandler →
        ∀ x, (newEntry name r).name.str = cstr x →
          findEntry (bootServices k cfg echoHandler otaHandler).1 x = some (newEntry name r) :=
      fun name r hmem x hx => findEntry_boot hcount hterm hnames hecho hota hroom hmem hx
    constructor
    · exact hok.mpr hroom
    · intro i hi
      have hmem : ((cfg.services i).bytes, configuredAs ν cfg i) ∈
          configRegistrations ν cfg ++ builtinRegistrations echoHandler otaHandler :=
        List.mem_append_left _ (List.mem_map_of_mem hi)
      rw [hfind _ _ hmem (cfg.services i).str ?_]
      · rfl
      · rw [str_configured hterm, cstr_eq_self (cfg.services i).nul_notMem_str]
    · have hecho := hfind "echo".toList ⟨some echoHandler, 1, 0⟩
        (List.mem_append_right _ List.mem_cons_self) "echo".toList
        (by rw [str_name_newEntry]; decide)
      exact congrArg Registration.handler (lookupService_of_findEntry hecho)
    · have hota := hfind "ota".toList ⟨some otaHandler, 1, 0⟩
        (List.mem_append_right _ (List.mem_cons_of_mem _ List.mem_cons_self)) "ota".toList
        (by rw [str_name_newEntry]; decide)
      exact congrArg Registration.handler (lookupService_of_findEntry hota)

/-- A flash that holds a version 1 configuration with these services. -/
def servicesFlash (csv : List Char) : FlashWorld where
  openRet := 0
  mapped := .zero configReadSize
  readRet := 0
  read := (CharBuf.zero configReadSize).memcpy 0 <| renderTree
    [("version".toList, .prim (.num 1)), ("node_id".toList, .prim (.num 2)),
     ("services".toList, .prim (.str csv))]

/-- The configuration that a node loads from it. -/
def loadedServices (csv : List Char) : CeellConfig :=
  (ceellConfigLoad jsonTreeReference {} (servicesFlash csv)).1

/-- With three services in the configuration the node has no OTA service. -/
theorem threeServices_noOta :
    configuredNames (loadedServices "braking,steering,lighting".toList)
      = ["braking".toList, "steering".toList, "lighting".toList] ∧
    (bootServices {} (loadedServices "braking,steering,lighting".toList)
        "echo_handler" "ceell_ota_service_handler").2 = [0, 0, 0, 0, -ENOMEM] ∧
    ceellServiceGetHandler (bootServices {} (loadedServices "braking,steering,lighting".toList)
        "echo_handler" "ceell_ota_service_handler").1 "ota".toList = none ∧
    ¬ Booted (loadedServices "braking,steering,lighting".toList)
        "echo_handler" "ceell_ota_service_handler"
        (bootServices {} (loadedServices "braking,steering,lighting".toList)
          "echo_handler" "ceell_ota_service_handler") := by
  have hrets : (bootServices {} (loadedServices "braking,steering,lighting".toList)
      "echo_handler" "ceell_ota_service_handler").2 = [0, 0, 0, 0, -ENOMEM] := by decide +kernel
  refine ⟨by decide +kernel, hrets, by decide +kernel, fun h => ?_⟩
  have hret := h.succeeded (-ENOMEM) (by rw [hrets]; decide)
  exact absurd hret (by decide)

theorem bootServices_ok_iff_two :
    Booted (loadedServices "braking,steering".toList) "echo_handler" "ceell_ota_service_handler"
      (bootServices {} (loadedServices "braking,steering".toList)
        "echo_handler" "ceell_ota_service_handler") :=
  (bootServices_ok_iff jsonTreeReference {} (servicesFlash "braking,steering".toList) {}
    "echo_handler" "ceell_ota_service_handler" (by decide +kernel) (by decide +kernel)
    (by decide +kernel)).mpr (by decide +kernel)

/-! ## The SLA of a version 2 service -/

/-- An integer member of an entry, if the entry has it. -/
def rowInt? (row : List JsonField) (name : String) : Option Int :=
  match row.lookup name.toList with
  | some (.num n) => some n
  | _ => none

/-- The priority an entry asks for. -/
def configuredPriority (row : List JsonField) : Int :=
  match rowInt? row "priority" with
  | some n => if 0 ≤ n ∧ n ≤ 2 then n else 1
  | none => 1

/-- A deadline is the configured one: none if that is absent or negative,
the same if it fits, and some deadline if it is positive. -/
def DeadlineAs (d : UInt16) : Option Int → Prop
  | some n => (n < 0 → d = 0) ∧ (0 ≤ n → n ≤ 65535 → (d.toNat : Int) = n) ∧ (0 < n → d ≠ 0)
  | none => d = 0

/-- The lookups of an entry's service give the SLA of the entry. -/
structure SlaKept (services : Registry ν) (row : List JsonField) : Prop where
  priority : ((ceellServiceGetPriority services (rowStr row "name")).toNat : Int)
    = configuredPriority row
  deadline : DeadlineAs (ceellServiceGetDeadline services (rowStr row "name"))
    (rowInt? row "deadline_ms")

/-- The entry is one that the registry has room for, it gives a priority, and
its deadline is no positive multiple of 65536; or the registry is full by
then, and the entry asks for what an unknown service has. -/
def SlaCarried (k : Kconfig) (i : Nat) (row : List JsonField) : Prop :=
  if i < k.maxServices then
    (rowInt? row "priority").isSome = true ∧
      ∀ n ∈ rowInt? row "deadline_ms", 0 < n → ¬ n % 65536 = 0
  else configuredPriority row = 1 ∧ ∀ n ∈ rowInt? row "deadline_ms", n ≤ 0

/-- The flash holds a version 2 configuration, with this array. -/
structure LoadsV2 (lib : JsonTreeLib) (flash : FlashWorld) (buf : CharBuf configReadSize)
    (rows : List (List JsonField)) : Prop where
  image : flash.image = some buf
  version : 0 ≤ (lib.parse jsonVersionDescr buf.terminate.str).ret ∧
    (lib.parse jsonVersionDescr buf.terminate.str).num "version" = 2
  parsed : 0 ≤ (lib.parse jsonConfigV2Descr buf.terminate.str).ret
  array : (lib.parse jsonConfigV2Descr buf.terminate.str).rows "services" = rows
  length : rows.length ≤ maxConfigServices

/-- Every entry has a name of 1 to 31 bytes, and no two have the same. -/
structure NamedRows (rows : List (List JsonField)) : Prop where
  named : ∀ row ∈ rows, ∃ name, rowStr row "name" = some name ∧ cstr name ≠ [] ∧
    (cstr name).length ≤ 31
  distinct : (rows.map fun row => (rowStr row "name").map cstr).Nodup

/-- The service the loader makes of an entry. -/
def rowService (row : List JsonField) : Service :=
  { name := (rowStr row "name").getD []
    priority :=
      if rowNum row "priority" ≥ 0 ∧ rowNum row "priority" ≤ 2 then
        UInt8.ofNat (rowNum row "priority").toNat
      else 1
    deadlineMs :=
      if rowNum row "deadline_ms" ≥ 0 then toUInt16 (rowNum row "deadline_ms") else 0 }

section Sla

variable {k : Kconfig} {cfg : CeellConfig} {l : List Service} {row : List JsonField}

theorem toNat_toUInt16 (x : Int) : ((toUInt16 x).toNat : Int) = x % 65536 := by
  show (((BitVec.ofInt 16 x).toNat : Nat) : Int) = x % 65536
  rw [BitVec.toNat_ofInt, Int.toNat_of_nonneg (Int.emod_nonneg _ (by decide))]
  rfl

/-- The registry after the loop, for services in the arrays of a struct. -/
theorem registerConfig_withServices (hlen : l.length ≤ maxConfigServices)
    (hversion : cfg.version = configVersionV2) :
    (registerConfig k (cfg.withServices l)).1
      = (l.map fun s => newEntry s.name
          (⟨none, s.priority, s.deadlineMs⟩ : Registration ν)).take k.maxServices := by
  have hentries : (configRegistrations ν (cfg.withServices l)).map (fun x => newEntry x.1 x.2)
      = l.map fun s => newEntry s.name ⟨none, s.priority, s.deadlineMs⟩ := by
    have hcount : (cfg.withServices l).serviceCount = l.length := rfl
    rw [configRegistrations, serviceIndices, hcount, List.map_map]
    apply List.ext_getElem
    · simpa using hlen
    · intro i h1 h2
      have hi : i < l.length := by simpa using h2
      simp only [List.getElem_map, List.getElem_take, List.getElem_finRange, Function.comp_apply,
        CeellConfig.withServices, configuredAs, hversion, if_true, newEntry, Fin.cast_mk,
        List.getElem?_eq_getElem hi, Option.elim_some, CharBuf.copy_copy_zero]
  rw [registerConfig_eq, registerAll_services k _ (Nat.zero_le _), List.nil_append, hentries]

theorem v2Services_rowService {rows : List (List JsonField)}
    (hlen : rows.length ≤ maxConfigServices) (hrows : NamedRows rows) :
    v2Services (rows.map JsonSvcEntry.ofRow) = rows.map rowService := by
  have hentry : ∀ row ∈ rows, (Service.ofEntry ∘ JsonSvcEntry.ofRow) row
      = (some ∘ rowService) row := by
    intro row hrow
    obtain ⟨name, hname, hne, _⟩ := hrows.named row hrow
    simp [Service.ofEntry, JsonSvcEntry.ofRow, rowService, hname, hne]
  rw [v2Services, List.filterMap_map, List.filterMap_congr hentry, List.filterMap_eq_map,
    List.take_of_length_le (by rwa [List.length_map])]

/-- The struct a version 2 configuration leaves. -/
theorem load_v2 {lib : JsonTreeLib} (hlib : lib.Numeric) (kc : ConfigDefaults)
    {flash : FlashWorld} {buf : CharBuf configReadSize} {rows : List (List JsonField)}
    (h : LoadsV2 lib flash buf rows) (hrows : NamedRows rows) :
    ∃ cfg, (ceellConfigLoad lib kc flash).1 = CeellConfig.withServices cfg (rows.map rowService) ∧
      cfg.version = configVersionV2 := by
  have hversion : (lib.parse jsonConfigV2Descr buf.terminate.str).num "version" = 2 := by
    rw [hlib.agrees jsonVersionDescr jsonConfigV2Descr _ "version" (by simp [jsonVersionDescr])
      (by simp [jsonConfigV2Descr, jsonCommonDescr]) h.version.1 h.parsed, h.version.2]
  refine ⟨copyCommonFields (lib.parse jsonConfigV2Descr buf.terminate.str)
    { CeellConfig.zero with version := 2 }, ?_, rfl⟩
  rw [ceellConfigLoad_eq, h.image, Option.elim_some, parseJson_eq hlib kc rfl,
    if_neg (Int.not_lt.mpr h.version.1), if_pos h.version.2, if_neg (Int.not_lt.mpr h.parsed),
    h.array, v2Services_rowService h.length hrows, parsedConfig, hversion]
  rfl

/-- The entry of the registry for an entry of the array. -/
def rowEntry (ν : Type) (row : List JsonField) : ServiceEntry ν :=
  newEntry (rowService row).name ⟨none, (rowService row).priority, (rowService row).deadlineMs⟩

/-- It has the name of the entry. -/
theorem str_rowEntry {name : List Char} (hname : rowStr row "name" = some name)
    (hlen : (cstr name).length ≤ 31) : (rowEntry ν row).name.str = cstr name := by
  rw [rowEntry, str_name_newEntry, rowService, hname, Option.getD_some]
  exact List.take_of_length_le hlen

theorem nodup_rowEntries {rows : List (List JsonField)} (hrows : NamedRows rows) :
    ((rows.map (rowEntry ν)).map fun e => e.name.str).Nodup := by
  refine List.Nodup.of_map some ?_
  have hnames : ((rows.map (rowEntry ν)).map fun e => e.name.str).map some
      = rows.map fun row => (rowStr row "name").map cstr := by
    simp only [List.map_map]
    refine List.map_congr_left fun row hrow => ?_
    obtain ⟨name, hname, _, hlen⟩ := hrows.named row hrow
    simp only [Function.comp_apply, str_rowEntry hname hlen, hname, Option.map_some]
  rw [hnames]
  exact hrows.distinct

/-- The lookups of an entry's service after the loop: what is registered for
it while the registry has room, and those of an unknown service after. -/
theorem lookupService_row {rows : List (List JsonField)} (hlen : rows.length ≤ maxConfigServices)
    (hrows : NamedRows rows) (hversion : cfg.version = configVersionV2) {i : Nat}
    (hi : rows[i]? = some row) {name : List Char} (hname : rowStr row "name" = some name) :
    lookupService
        (registerConfig k (cfg.withServices (rows.map rowService)) : Registry ν × _).1 name
      = if i < k.maxServices then ⟨none, (rowService row).priority, (rowService row).deadlineMs⟩
        else ⟨none, 1, 0⟩ := by
  have hregistry : (registerConfig k (cfg.withServices (rows.map rowService)) : Registry ν × _).1
      = (rows.map (rowEntry ν)).take k.maxServices := by
    rw [registerConfig_withServices (by rwa [List.length_map]) hversion, List.map_map]
    rfl
  obtain ⟨name', hname', _, hshort⟩ := hrows.named row (List.mem_of_getElem? hi)
  obtain rfl : name = name' := Option.some.inj (hname.symm.trans hname')
  have hstr : (rowEntry ν row).name.str = cstr name := str_rowEntry hname hshort
  have hget : (rows.map (rowEntry ν))[i]? = some (rowEntry ν row) := by
    rw [List.getElem?_map, hi, Option.map_some]
  have hnodup := nodup_rowEntries (ν := ν) hrows
  rw [hregistry]
  by_cases hroom : i < k.maxServices
  · have hmem : rowEntry ν row ∈ (rows.map (rowEntry ν)).take k.maxServices := by
      rw [← List.getElem?_take_of_lt hroom] at hget
      exact List.mem_of_getElem? hget
    have hsub := hnodup.sublist
      ((List.take_sublist k.maxServices _).map fun e : ServiceEntry ν => e.name.str)
    rw [if_pos hroom, lookupService_of_findEntry (findEntry_of_mem hsub hmem hstr)]
    rfl
  · -- the name is behind those that have an entry
    have hdrop : rowEntry ν row ∈ (rows.map (rowEntry ν)).drop k.maxServices := by
      obtain ⟨j, rfl⟩ := Nat.exists_eq_add_of_le (Nat.not_lt.mp hroom)
      rw [← List.getElem?_drop] at hget
      exact List.mem_of_getElem? hget
    rw [← List.take_append_drop k.maxServices (rows.map (rowEntry ν)), List.map_append,
      List.nodup_append] at hnodup
    have hnone : findEntry ((rows.map (rowEntry ν)).take k.maxServices) name = none := by
      rw [← Option.not_isSome_iff_eq_none, findEntry_isSome]
      rintro ⟨e, he, heq⟩
      exact hnodup.2.2 _ (List.mem_map_of_mem he) _ (List.mem_map_of_mem hdrop)
        (heq.trans hstr.symm)
    rw [if_neg hroom, lookupService_eq, hnone]
    rfl

/-- A member that is absent is read as 0. -/
theorem rowNum_eq (row : List JsonField) (name : String) :
    rowNum row name = (rowInt? row name).getD 0 := by
  unfold rowNum rowInt?
  cases row.lookup name.toList with
  | none => rfl
  | some v => cases v <;> rfl

/-- An absent priority is read as CRITICAL. -/
theorem priority_rowService_iff :
    ((rowService row).priority.toNat : Int) = configuredPriority row ↔
      (rowInt? row "priority").isSome = true := by
  simp only [rowService, configuredPriority, rowNum_eq]
  cases rowInt? row "priority" with
  | none => decide
  | some n =>
    refine iff_of_true ?_ rfl
    simp only [Option.getD_some, ge_iff_le]
    split
    · rename_i hrange
      have hcases : n = 0 ∨ n = 1 ∨ n = 2 := by omega
      rcases hcases with rfl | rfl | rfl <;> decide
    · decide

/-- A deadline goes through 16 bits. -/
theorem deadline_rowService_iff :
    DeadlineAs (rowService row).deadlineMs (rowInt? row "deadline_ms") ↔
      ∀ n ∈ rowInt? row "deadline_ms", 0 < n → ¬ n % 65536 = 0 := by
  simp only [rowService, rowNum_eq]
  cases rowInt? row "deadline_ms" with
  | none => simp [DeadlineAs, toUInt16]
  | some n =>
    have hcast := toNat_toUInt16 n
    have hzero : toUInt16 n = 0 ↔ n % 65536 = 0 := by
      rw [← UInt16.toNat_inj, ← hcast]
      exact Int.natCast_eq_zero.symm
    simp only [Option.getD_some, DeadlineAs, Option.mem_some_iff, forall_eq', ge_iff_le]
    by_cases hn : 0 ≤ n
    · rw [if_pos hn, hcast, ne_eq, hzero]
      omega
    · rw [if_neg hn]
      refine iff_of_true ⟨fun _ => rfl, ?_, ?_⟩ ?_
      all_goals omega

/-- The SLA that the lookups of an entry's service give. -/
theorem slaKept_iff {services : Registry ν} {name : List Char} {r : Registration ν}
    (hname : rowStr row "name" = some name) (hlookup : lookupService services name = r) :
    SlaKept services row ↔
      (r.priority.toNat : Int) = configuredPriority row ∧
        DeadlineAs r.deadlineMs (rowInt? row "deadline_ms") := by
  have hpriority : ceellServiceGetPriority services (rowStr row "name") = r.priority := by
    rw [hname, ← hlookup]
    rfl
  have hdeadline : ceellServiceGetDeadline services (rowStr row "name") = r.deadlineMs := by
    rw [hname, ← hlookup]
    rfl
  rw [← hpriority, ← hdeadline]
  exact ⟨fun h => ⟨h.priority, h.deadline⟩, fun h => ⟨h.1, h.2⟩⟩

/-- An unknown service has no deadline. -/
theorem deadline_zero_iff {o : Option Int} : DeadlineAs 0 o ↔ ∀ n ∈ o, n ≤ 0 := by
  cases o with
  | none => simp [DeadlineAs]
  | some n =>
    simp only [DeadlineAs, Option.mem_some_iff, forall_eq']
    constructor
    · exact fun h => Int.not_lt.mp fun hn => h.2.2 hn rfl
    · intro h
      refine ⟨fun _ => trivial, fun h0 _ => ?_, fun hn => absurd hn (Int.not_lt.mpr h)⟩
      rw [Int.le_antisymm h h0]
      rfl

end Sla

/-- **The SLA of the services of a version 2 configuration**: after the load
and the loop of `main` the registry has the priority and the deadline of
an entry exactly if the entry gives a priority and its deadline is no
positive multiple of 65536, as long as the registry has room. -/
theorem sla_ok_iff (lib : JsonTreeLib) (hlib : lib.Numeric) (kc : ConfigDefaults)
    (flash : FlashWorld) (buf : CharBuf configReadSize) (rows : List (List JsonField))
    (h : LoadsV2 lib flash buf rows) (hrows : NamedRows rows) (k : Kconfig) :
    ∀ i row, rows[i]? = some row →
      (SlaKept (registerConfig k (ceellConfigLoad lib kc flash).1 : Registry ν × List Int).1 row ↔
        SlaCarried k i row) := by
  intro i row hi
  obtain ⟨name, hname, _⟩ := hrows.named row (List.mem_of_getElem? hi)
  obtain ⟨cfg, hload, hversion⟩ := load_v2 hlib kc h hrows
  rw [hload, slaKept_iff hname (lookupService_row h.length hrows hversion hi hname), SlaCarried]
  by_cases hroom : i < k.maxServices
  · simp only [if_pos hroom]
    exact and_congr priority_rowService_iff deadline_rowService_iff
  · simp only [if_neg hroom]
    exact and_congr eq_comm deadline_zero_iff

/-- The image of a version 2 configuration with these services. -/
def slaImage (rows : List (List JsonField)) : CharBuf configReadSize :=
  (CharBuf.zero configReadSize).memcpy 0 <| renderTree
    [("version".toList, .prim (.num 2)), ("node_id".toList, .prim (.num 1)),
     ("services".toList, .objs rows)]

def slaFlash (rows : List (List JsonField)) : FlashWorld :=
  ⟨0, .zero configReadSize, 0, slaImage rows⟩

/-- The registry of a node that loads it. -/
def slaRegistry (rows : List (List JsonField)) : Registry Unit :=
  (registerConfig {} (ceellConfigLoad jsonTreeReference {} (slaFlash rows)).1).1

/-- No priority, and a deadline of 65536 ms. -/
def lossyRows : List (List JsonField) :=
  [[("name".toList, .str "braking".toList), ("deadline_ms".toList, .num 50)],
   [("name".toList, .str "lighting".toList), ("priority".toList, .num 2),
    ("deadline_ms".toList, .num 65536)]]

/-- The first service is CRITICAL, and the second has no deadline. -/
theorem lossyRows_not_kept :
    LoadsV2 jsonTreeReference (slaFlash lossyRows) (slaImage lossyRows) lossyRows ∧
    NamedRows lossyRows ∧
    ceellServiceGetPriority (slaRegistry lossyRows) (some "braking".toList) = 0 ∧
    ceellServiceGetDeadline (slaRegistry lossyRows) (some "lighting".toList) = 0 ∧
    ∀ row ∈ lossyRows, ¬ SlaKept (slaRegistry lossyRows) row := by
  have hpriority :
      ceellServiceGetPriority (slaRegistry lossyRows) (some "braking".toList) = 0 := by
    decide +kernel
  have hdeadline :
      ceellServiceGetDeadline (slaRegistry lossyRows) (some "lighting".toList) = 0 := by
    decide +kernel
  refine ⟨⟨by decide +kernel, by decide +kernel, by decide +kernel, by decide +kernel, by decide⟩,
    ⟨?_, by decide⟩, hpriority, hdeadline, ?_⟩
  · simp only [lossyRows, List.forall_mem_cons]
    exact ⟨⟨_, rfl, by decide, by decide⟩, ⟨_, rfl, by decide, by decide⟩, by simp⟩
  · simp only [lossyRows, List.forall_mem_cons]
    refine ⟨fun h => ?_, fun h => ?_, by simp⟩
    · have hp := h.priority
      rw [show rowStr _ "name" = some "braking".toList from rfl] at hp
      have hp' := (congrArg (fun p : UInt8 => (p.toNat : Int)) hpriority).symm.trans hp
      exact absurd hp' (by decide)
    · have hd := h.deadline
      exact absurd hdeadline (hd.2.2 (by decide))

/-- Both members given, within their ranges. -/
def carriedRow : List JsonField :=
  [("name".toList, .str "braking".toList), ("priority".toList, .num 0),
   ("deadline_ms".toList, .num 50)]

theorem sla_ok_iff_carried : SlaKept (slaRegistry [carriedRow]) carriedRow := by
  have hload : LoadsV2 jsonTreeReference (slaFlash [carriedRow]) (slaImage [carriedRow])
      [carriedRow] :=
    ⟨by decide +kernel, by decide +kernel, by decide +kernel, by decide +kernel, by decide⟩
  have hrows : NamedRows [carriedRow] :=
    ⟨by simpa using ⟨_, rfl, by decide, by decide⟩, by decide⟩
  refine (sla_ok_iff jsonTreeReference jsonTreeReference_numeric {} _ _ _ hload hrows {}
    0 _ rfl).mpr ⟨by decide, fun n hn hpos => ?_⟩
  obtain rfl : 50 = n := Option.some.inj hn
  decide

end Ceell
