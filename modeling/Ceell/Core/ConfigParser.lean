/-
Ceell.Core.ConfigParser — `ceell/core/config_parser.c`: the configuration
in the flash partition, its two formats, and the defaults.

Every exit but two leaves the Kconfig defaults. The others fill the struct
from a parsed object; what the service arrays then hold is said once for
both formats by `CeellConfig.withServices`: a list of services, in order,
and zeros behind them. `parseServicesCsv_eq` and `parseServicesV2_eq` name
the list; `parseServicesCsv_fill` does so for arrays that hold anything.

`configLoad_ok` is the result: whatever the flash and the JSON library
answer, the struct is the defaults or a well-formed configuration.
-/
import Ceell.Core.Types
import Ceell.Lib.CString
import Ceell.Lib.Csv
import Ceell.Osal.JsonTreeReference
import Mathlib.Logic.Function.Basic

namespace Ceell.Core

open Ceell.Lib Ceell.Osal

/-! ## The data -/

/-- `CEELL_CONFIG_MAX_SERVICES` -/
abbrev maxConfigServices : Nat := 4

/-- `CONFIG_READ_SIZE` -/
abbrev configReadSize : Nat := 512

/-- `struct ceell_service_sla`. -/
structure ServiceSla where
  name : CharBuf 32
  priority : UInt8
  deadlineMs : UInt16
  deriving DecidableEq

def ServiceSla.zero : ServiceSla := ⟨.zero 32, 0, 0⟩

/-- `struct ceell_config`. -/
structure CeellConfig where
  version : UInt32
  nodeId : NodeId
  role : CharBuf 32
  name : CharBuf 64
  ip : CharBuf 16
  netmask : CharBuf 16
  services : Fin maxConfigServices → CharBuf 32
  serviceCount : Nat
  fromFlash : Bool
  serviceSlas : Fin maxConfigServices → ServiceSla

/-- `memset(cfg, 0, sizeof(*cfg))`. -/
def CeellConfig.zero : CeellConfig :=
  { version := 0, nodeId := 0, role := .zero 32, name := .zero 64, ip := .zero 16,
    netmask := .zero 16, services := fun _ => .zero 32, serviceCount := 0, fromFlash := false,
    serviceSlas := fun _ => .zero }

/-- `CONFIG_CEELL_NODE_ID_DEFAULT` and the other defaults. -/
structure ConfigDefaults where
  nodeId : Int := 0
  role : List Char := "unknown".toList
  name : List Char := "ceell-unprovisioned".toList
  ip : List Char := "192.168.1.100".toList
  netmask : List Char := "255.255.255.0".toList

/-- `struct json_svc_entry`. -/
structure JsonSvcEntry where
  name : Option (List Char)
  priority : Int
  deadlineMs : Int

/-- `json_version_descr`. -/
def jsonVersionDescr : List JsonTreeDescr := [⟨"version".toList, .prim .number⟩]

/-- The descriptors that the two formats share. -/
def jsonCommonDescr : List JsonTreeDescr :=
  [⟨"version".toList, .prim .number⟩, ⟨"node_id".toList, .prim .number⟩,
   ⟨"role".toList, .prim .string⟩, ⟨"name".toList, .prim .string⟩, ⟨"ip".toList, .prim .string⟩,
   ⟨"netmask".toList, .prim .string⟩]

/-- `json_config_v1_descr`. -/
def jsonConfigV1Descr : List JsonTreeDescr :=
  jsonCommonDescr ++ [⟨"services".toList, .prim .string⟩]

/-- `json_svc_entry_descr`. -/
def jsonSvcEntryDescr : List JsonObjDescr :=
  [⟨"name".toList, .string⟩, ⟨"priority".toList, .number⟩, ⟨"deadline_ms".toList, .number⟩]

/-- `json_config_v2_descr`. -/
def jsonConfigV2Descr : List JsonTreeDescr :=
  jsonCommonDescr ++ [⟨"services".toList, .objArray jsonSvcEntryDescr maxConfigServices⟩]

/-- A string member of an array's object. -/
def rowStr (row : List JsonField) (name : String) : Option (List Char) :=
  match row.lookup name.toList with
  | some (.str s) => some s
  | _ => none

/-- An `int` member of an array's object. -/
def rowNum (row : List JsonField) (name : String) : Int :=
  match row.lookup name.toList with
  | some (.num n) => n
  | _ => 0

/-- The entry a parse stored for an object of the array. -/
def JsonSvcEntry.ofRow (row : List JsonField) : JsonSvcEntry :=
  ⟨rowStr row "name", rowNum row "priority", rowNum row "deadline_ms"⟩

/-! ## The parser -/

/-- The writes for the service at `idx`, the count after them. -/
def CeellConfig.setService (cfg : CeellConfig) (idx : Fin maxConfigServices) (name : CharBuf 32)
    (sla : ServiceSla) : CeellConfig :=
  { cfg with
    services := Function.update cfg.services idx name
    serviceSlas := Function.update cfg.serviceSlas idx sla
    serviceCount := cfg.serviceCount + 1 }

/-- One pass of the loop of `parse_services_csv`, for the piece at `p`. -/
def parseServicesCsvStep (cfg : CeellConfig) (p : List Char) : CeellConfig :=
  if h : cfg.serviceCount < maxConfigServices then
    if p.length > 0 ∧ p.length < 32 then
      let idx : Fin maxConfigServices := ⟨cfg.serviceCount, h⟩
      let name := ((cfg.services idx).memcpy 0 p).memcpy p.length [nul]
      cfg.setService idx name
        { name := (cfg.serviceSlas idx).name.copy name.str
          priority := 1 -- NORMAL
          deadlineMs := 0 }
    else cfg
  else cfg

/-- `parse_services_csv`. -/
def parseServicesCsv (csv : Option (List Char)) (cfg : CeellConfig) : CeellConfig :=
  let cfg := { cfg with serviceCount := 0 }
  match csv with
  | none => cfg
  | some csv => (pieces ',' (cstr csv)).foldl parseServicesCsvStep cfg

/-- One pass of the loop of `parse_services_v2`. -/
def parseServicesV2Step (cfg : CeellConfig) (entry : JsonSvcEntry) : CeellConfig :=
  if h : cfg.serviceCount < maxConfigServices then
    match entry.name with
    | none => cfg
    | some name =>
        if cstr name = [] then cfg
        else
          let idx : Fin maxConfigServices := ⟨cfg.serviceCount, h⟩
          cfg.setService idx ((cfg.services idx).copy name).terminate
            { name := ((cfg.serviceSlas idx).name.copy name).terminate
              priority :=
                if entry.priority ≥ 0 ∧ entry.priority ≤ 2 then UInt8.ofNat entry.priority.toNat
                else 1 -- NORMAL
              deadlineMs := if entry.deadlineMs ≥ 0 then toUInt16 entry.deadlineMs else 0 }
  else cfg

/-- `parse_services_v2`. -/
def parseServicesV2 (entries : List JsonSvcEntry) (cfg : CeellConfig) : CeellConfig :=
  entries.foldl parseServicesV2Step { cfg with serviceCount := 0 }

/-- `load_defaults`. -/
def loadDefaults (kc : ConfigDefaults) (cfg : CeellConfig) : CeellConfig :=
  { cfg with
    version := 0
    nodeId := toUInt32 kc.nodeId
    role := (cfg.role.copy kc.role).terminate
    name := (cfg.name.copy kc.name).terminate
    ip := (cfg.ip.copy kc.ip).terminate
    netmask := (cfg.netmask.copy kc.netmask).terminate
    serviceCount := 0
    fromFlash := false }

/-- `flash_is_empty`. -/
def flashIsEmpty (buf : List Char) : Bool := buf.all fun c => c == '\xff'

/-- `copy_common_fields`, for the struct a parse filled. -/
def copyCommonFields (r : JsonTreeParsed) (cfg : CeellConfig) : CeellConfig :=
  { cfg with
    nodeId := toUInt32 (r.num "node_id")
    fromFlash := true
    role := cfg.role.copyOpt (r.str "role")
    name := cfg.name.copyOpt (r.str "name")
    ip := cfg.ip.copyOpt (r.str "ip")
    netmask := cfg.netmask.copyOpt (r.str "netmask") }

/-- What the flash answers: the results of `ceell_flash_open` and
`ceell_flash_read` with the bytes read, and the bytes mapped at 0x68000000. -/
structure FlashWorld where
  openRet : Int
  mapped : CharBuf configReadSize
  readRet : Int
  read : CharBuf configReadSize

/-- `ceell_config_load` from the label `parse_json` on. -/
def parseJson (lib : JsonTreeLib) (kc : ConfigDefaults) (readBuf : CharBuf configReadSize)
    (cfg : CeellConfig) : CeellConfig × Int :=
  let text := readBuf.terminate.str
  let verOnly := lib.parse jsonVersionDescr text
  if verOnly.ret < 0 then (loadDefaults kc cfg, 0)
  else if verOnly.num "version" = 2 then
    let jcfg := lib.parse jsonConfigV2Descr (cstr verOnly.buf)
    if jcfg.ret < 0 then (loadDefaults kc cfg, 0)
    else
      let cfg := { cfg with version := toUInt32 (jcfg.num "version") }
      (parseServicesV2 ((jcfg.rows "services").map JsonSvcEntry.ofRow)
        (copyCommonFields jcfg cfg), 0)
  else if verOnly.num "version" = 1 then
    let jcfg := lib.parse jsonConfigV1Descr (cstr verOnly.buf)
    if jcfg.ret < 0 then (loadDefaults kc cfg, 0)
    else
      let cfg := { cfg with version := toUInt32 (jcfg.num "version") }
      (parseServicesCsv (jcfg.str "services") (copyCommonFields jcfg cfg), 0)
  else (loadDefaults kc cfg, 0) -- unsupported version

/-- `ceell_config_load`: the struct it leaves and what it returns. -/
def ceellConfigLoad (lib : JsonTreeLib) (kc : ConfigDefaults) (flash : FlashWorld) :
    CeellConfig × Int :=
  let cfg := CeellConfig.zero
  if flash.openRet < 0 then
    -- the flash device is not there: the image may be mapped
    if !flashIsEmpty flash.mapped.bytes then parseJson lib kc flash.mapped cfg
    else (loadDefaults kc cfg, 0)
  else if flash.readRet < 0 then (loadDefaults kc cfg, 0)
  else if flashIsEmpty flash.read.bytes then (loadDefaults kc cfg, 0)
  else parseJson lib kc flash.read cfg

/-- The bytes that are parsed, if it comes to a parse. -/
def FlashWorld.image (flash : FlashWorld) : Option (CharBuf configReadSize) :=
  if flash.openRet < 0 then
    if flashIsEmpty flash.mapped.bytes then none else some flash.mapped
  else if flash.readRet < 0 ∨ flashIsEmpty flash.read.bytes then none
  else some flash.read

/-! ## The service arrays -/

/-- The indices below `service_count`. -/
def serviceIndices (cfg : CeellConfig) : List (Fin maxConfigServices) :=
  (List.finRange maxConfigServices).take cfg.serviceCount

/-- The names of the configured services. -/
def configuredNames (cfg : CeellConfig) : List (List Char) :=
  (serviceIndices cfg).map fun i => (cfg.services i).str

/-- A service as the loops write it. -/
structure Service where
  name : List Char
  priority : UInt8
  deadlineMs : UInt16
  deriving DecidableEq

/-- The service a piece of a version 1 list stands for. -/
def Service.ofPiece (p : List Char) : Option Service :=
  if p.length > 0 ∧ p.length < 32 then some ⟨p, 1, 0⟩ else none

/-- The service an entry of a version 2 array stands for. -/
def Service.ofEntry (entry : JsonSvcEntry) : Option Service :=
  match entry.name with
  | none => none
  | some name =>
      if cstr name = [] then none
      else
        some
          { name := name
            priority :=
              if entry.priority ≥ 0 ∧ entry.priority ≤ 2 then UInt8.ofNat entry.priority.toNat
              else 1
            deadlineMs := if entry.deadlineMs ≥ 0 then toUInt16 entry.deadlineMs else 0 }

/-- The struct with the services of `l` in its arrays and zeros behind them. -/
def CeellConfig.withServices (cfg : CeellConfig) (l : List Service) : CeellConfig :=
  { cfg with
    services := fun i => (l[i.val]?).elim (.zero 32) fun s => (CharBuf.zero 32).copy s.name
    serviceCount := l.length
    serviceSlas := fun i => (l[i.val]?).elim .zero fun s =>
      ⟨(CharBuf.zero 32).copy s.name, s.priority, s.deadlineMs⟩ }

/-- The struct with the services of `l` written over its first slots. -/
def CeellConfig.fillServices (cfg : CeellConfig) (l : List Service) : CeellConfig :=
  { cfg with
    services := fun i => (l[i.val]?).elim (cfg.services i) fun s =>
      ((cfg.services i).memcpy 0 s.name).memcpy s.name.length [nul]
    serviceCount := l.length
    serviceSlas := fun i => (l[i.val]?).elim (cfg.serviceSlas i) fun s =>
      ⟨(cfg.serviceSlas i).name.copy s.name, s.priority, s.deadlineMs⟩ }

/-- The list after one more pass, while the arrays have room. -/
def pushService (l : List Service) (s : Option Service) : List Service :=
  if l.length < maxConfigServices then l ++ s.toList else l

section Services

variable {cfg : CeellConfig} {l : List Service}

/-- What an array of the services holds after a write behind them. -/
theorem update_elim_append {β : Type} (z : Fin maxConfigServices → β)
    (f : Fin maxConfigServices → Service → β) (h : l.length < maxConfigServices) (s : Service) :
    Function.update (fun i => (l[i.val]?).elim (z i) (f i)) ⟨l.length, h⟩ (f ⟨l.length, h⟩ s)
      = fun i => ((l ++ [s])[i.val]?).elim (z i) (f i) := by
  funext i
  by_cases hi : i = ⟨l.length, h⟩
  · subst hi
    simp
  · have hne : i.val ≠ l.length := fun heq => hi (Fin.ext heq)
    rw [Function.update_of_ne hi]
    rcases Nat.lt_or_gt_of_ne hne with hlt | hgt
    · rw [List.getElem?_append_left hlt]
    · rw [List.getElem?_eq_none (by omega), List.getElem?_eq_none (by simp; omega)]

/-- One more service in the first free slot. -/
theorem setService_fillServices (h : l.length < maxConfigServices) (s : Service) :
    (cfg.fillServices l).setService ⟨l.length, h⟩
        (((cfg.services ⟨l.length, h⟩).memcpy 0 s.name).memcpy s.name.length [nul])
        ⟨(cfg.serviceSlas ⟨l.length, h⟩).name.copy s.name, s.priority, s.deadlineMs⟩
      = cfg.fillServices (l ++ [s]) := by
  have hservices := update_elim_append cfg.services
    (fun i s => ((cfg.services i).memcpy 0 s.name).memcpy s.name.length [nul]) h s
  have hslas := update_elim_append cfg.serviceSlas
    (fun i s => ⟨(cfg.serviceSlas i).name.copy s.name, s.priority, s.deadlineMs⟩) h s
  simp only [CeellConfig.setService, CeellConfig.fillServices, hservices, hslas,
    List.length_append, List.length_singleton]

/-- The slots the loop writes to next are as they were. -/
theorem next_fillServices (h : (cfg.fillServices l).serviceCount < maxConfigServices) :
    (cfg.fillServices l).services ⟨(cfg.fillServices l).serviceCount, h⟩
        = cfg.services ⟨l.length, h⟩ ∧
    (cfg.fillServices l).serviceSlas ⟨(cfg.fillServices l).serviceCount, h⟩
        = cfg.serviceSlas ⟨l.length, h⟩ := by
  simp [CeellConfig.fillServices]

/-- A write behind the services in use adds one. -/
theorem setService_withServices (h : l.length < maxConfigServices) (s : Service) :
    (cfg.withServices l).setService ⟨l.length, h⟩ ((CharBuf.zero 32).copy s.name)
        ⟨(CharBuf.zero 32).copy s.name, s.priority, s.deadlineMs⟩
      = cfg.withServices (l ++ [s]) := by
  have hservices :=
    update_elim_append (fun _ => CharBuf.zero 32) (fun _ s => (CharBuf.zero 32).copy s.name) h s
  have hslas := update_elim_append (fun _ => ServiceSla.zero)
    (fun _ s => ⟨(CharBuf.zero 32).copy s.name, s.priority, s.deadlineMs⟩) h s
  simp only [CeellConfig.setService, CeellConfig.withServices, hservices, hslas,
    List.length_append, List.length_singleton]

/-- The arrays the loops write to next are zero. -/
theorem next_withServices (h : (cfg.withServices l).serviceCount < maxConfigServices) :
    (cfg.withServices l).services ⟨(cfg.withServices l).serviceCount, h⟩ = .zero 32 ∧
    (cfg.withServices l).serviceSlas ⟨(cfg.withServices l).serviceCount, h⟩ = .zero := by
  simp [CeellConfig.withServices]

theorem parseServicesCsvStep_full (h : ¬ cfg.serviceCount < maxConfigServices) (p : List Char) :
    parseServicesCsvStep cfg p = cfg := by
  rw [parseServicesCsvStep, dif_neg h]

theorem parseServicesCsvStep_fill {p : List Char} (hp : nul ∉ p) :
    parseServicesCsvStep (cfg.fillServices l) p
      = cfg.fillServices (pushService l (Service.ofPiece p)) := by
  unfold pushService
  by_cases h : l.length < maxConfigServices
  · have hcount : (cfg.fillServices l).serviceCount < maxConfigServices := h
    obtain ⟨hservice, hsla⟩ := next_fillServices hcount
    rw [parseServicesCsvStep, dif_pos hcount, if_pos h, Service.ofPiece]
    by_cases hlen : p.length > 0 ∧ p.length < 32
    · have hstr := CharBuf.str_memcpy_nul (cfg.services ⟨l.length, h⟩) hp hlen.2
      simp only [if_pos hlen, Option.toList_some, hservice, hsla, hstr]
      exact setService_fillServices h ⟨p, 1, 0⟩
    · rw [if_neg hlen, if_neg hlen, Option.toList_none, List.append_nil]
  · rw [if_neg h, parseServicesCsvStep_full h]

theorem parseServicesV2Step_eq (entry : JsonSvcEntry) :
    parseServicesV2Step (cfg.withServices l) entry
      = cfg.withServices (pushService l (Service.ofEntry entry)) := by
  unfold parseServicesV2Step pushService Service.ofEntry
  by_cases h : (cfg.withServices l).serviceCount < maxConfigServices
  · have h' : l.length < maxConfigServices := h
    obtain ⟨hservice, hsla⟩ := next_withServices h
    rw [dif_pos h, if_pos h']
    cases entry.name with
    | none => rw [Option.toList_none, List.append_nil]
    | some name =>
      by_cases hempty : cstr name = []
      · simp only [hempty, if_true, Option.toList_none, List.append_nil]
      · have hcopy : ((CharBuf.zero 32).copy name).terminate = (CharBuf.zero 32).copy name :=
          CharBuf.terminate_copy _ _
        simp only [hempty, if_false, Option.toList_some, hservice, hsla, ServiceSla.zero, hcopy]
        exact setService_withServices h' ⟨name, _, _⟩
  · have h' : ¬ l.length < maxConfigServices := h
    rw [dif_neg h, if_neg h']

/-- Pushing the services of a list one by one leaves the first ones. -/
theorem foldl_pushService {β : Type} (f : β → Option Service) (xs : List β)
    (hl : l.length ≤ maxConfigServices) :
    xs.foldl (fun l x => pushService l (f x)) l
      = (l ++ xs.filterMap f).take maxConfigServices := by
  induction xs generalizing l with
  | nil => simp [List.take_of_length_le hl]
  | cons x xs ih =>
    rw [List.foldl_cons]
    by_cases h : l.length < maxConfigServices
    · cases hx : f x with
      | none =>
        rw [pushService, if_pos h, Option.toList_none, List.append_nil, ih hl,
          List.filterMap_cons_none hx]
      | some s =>
        rw [pushService, if_pos h, Option.toList_some, ih (by simp; omega),
          List.filterMap_cons_some hx, List.append_assoc, List.singleton_append]
    · rw [pushService, if_neg h, ih hl]
      have heq : l.length = maxConfigServices := by omega
      rw [List.take_append_of_le_length (by omega), List.take_append_of_le_length (by omega)]

/-- The services of a version 1 list. -/
def csvServices : Option (List Char) → List Service
  | none => []
  | some csv => ((pieces ',' (cstr csv)).filterMap Service.ofPiece).take maxConfigServices

/-- The services of a version 2 array. -/
def v2Services (entries : List JsonSvcEntry) : List Service :=
  (entries.filterMap Service.ofEntry).take maxConfigServices

theorem foldl_parseServicesCsvStep_fill {ps : List (List Char)} (hps : ∀ p ∈ ps, nul ∉ p) :
    ps.foldl parseServicesCsvStep (cfg.fillServices l)
      = cfg.fillServices (ps.foldl (fun l p => pushService l (Service.ofPiece p)) l) := by
  induction ps generalizing l with
  | nil => rfl
  | cons p ps ih =>
    obtain ⟨hp, hps⟩ := List.forall_mem_cons.mp hps
    rw [List.foldl_cons, parseServicesCsvStep_fill hp, ih hps, List.foldl_cons]

theorem foldl_parseServicesV2Step (entries : List JsonSvcEntry) :
    entries.foldl parseServicesV2Step (cfg.withServices l)
      = cfg.withServices (entries.foldl (fun l e => pushService l (Service.ofEntry e)) l) := by
  induction entries generalizing l with
  | nil => rfl
  | cons e entries ih => rw [List.foldl_cons, parseServicesV2Step_eq, ih, List.foldl_cons]

/-- **What `parse_services_csv` leaves**, whatever the arrays held. -/
theorem parseServicesCsv_fill (csv : Option (List Char)) (cfg : CeellConfig) :
    parseServicesCsv csv cfg = cfg.fillServices (csvServices csv) := by
  have hstart : { cfg with serviceCount := 0 } = cfg.fillServices [] := by
    simp [CeellConfig.fillServices]
  cases csv with
  | none => exact hstart
  | some csv =>
    have hps : ∀ p ∈ pieces ',' (cstr csv), nul ∉ p :=
      fun p hp hn => nul_notMem_cstr csv (mem_of_mem_pieces hp hn)
    simp only [parseServicesCsv, hstart]
    rw [foldl_parseServicesCsvStep_fill hps, foldl_pushService _ _ (Nat.zero_le _), List.nil_append]
    rfl

/-- The name of a version 1 service fits its array with a NUL. -/
theorem csvServices_name {csv : Option (List Char)} {s : Service} (hs : s ∈ csvServices csv) :
    nul ∉ s.name ∧ s.name.length < 32 := by
  cases csv with
  | none => cases hs
  | some csv =>
    obtain ⟨p, hp, hps⟩ := List.mem_filterMap.mp (List.mem_of_mem_take hs)
    unfold Service.ofPiece at hps
    split at hps
    · rename_i hlen
      obtain rfl := Option.some.inj hps
      exact ⟨fun h => nul_notMem_cstr csv (mem_of_mem_pieces hp h), hlen.2⟩
    · cases hps

/-- Over arrays that are zero nothing is left but the services. -/
theorem fillServices_eq_withServices (hz : cfg.withServices [] = { cfg with serviceCount := 0 })
    (hl : ∀ s ∈ l, nul ∉ s.name ∧ s.name.length < 32) :
    cfg.fillServices l = cfg.withServices l := by
  have hservices : cfg.services = fun _ => .zero 32 := (congrArg (·.services) hz).symm
  have hslas : cfg.serviceSlas = fun _ => .zero := (congrArg (·.serviceSlas) hz).symm
  have hname : (fun i : Fin maxConfigServices => (l[i.val]?).elim (CharBuf.zero 32) fun s =>
        ((CharBuf.zero 32).memcpy 0 s.name).memcpy s.name.length [nul])
      = fun i => (l[i.val]?).elim (CharBuf.zero 32) fun s => (CharBuf.zero 32).copy s.name := by
    funext i
    cases hi : l[i.val]? with
    | none => rfl
    | some s =>
      obtain ⟨hnul, hlen⟩ := hl s (List.mem_of_getElem? hi)
      exact CharBuf.memcpy_zero_eq_copy hnul (Nat.le_of_lt_succ hlen)
  simp only [CeellConfig.fillServices, CeellConfig.withServices, hservices, hslas, hname,
    ServiceSla.zero]

/-- What it leaves in a struct whose arrays are zero. -/
theorem parseServicesCsv_eq (csv : Option (List Char))
    (hz : cfg.withServices [] = { cfg with serviceCount := 0 }) :
    parseServicesCsv csv cfg = cfg.withServices (csvServices csv) := by
  rw [parseServicesCsv_fill, fillServices_eq_withServices hz fun _ hs => csvServices_name hs]

/-- **What `parse_services_v2` leaves** in a struct whose arrays are zero. -/
theorem parseServicesV2_eq (entries : List JsonSvcEntry)
    (hz : cfg.withServices [] = { cfg with serviceCount := 0 }) :
    parseServicesV2 entries cfg = cfg.withServices (v2Services entries) := by
  rw [parseServicesV2, ← hz, foldl_parseServicesV2Step, foldl_pushService _ _ (Nat.zero_le _),
    List.nil_append]
  rfl

end Services

/-! ## The two shapes -/

/-- The Kconfig defaults. -/
def kconfigDefaults (kc : ConfigDefaults) : CeellConfig :=
  { version := 0
    nodeId := toUInt32 kc.nodeId
    role := (CharBuf.zero 32).copy kc.role
    name := (CharBuf.zero 64).copy kc.name
    ip := (CharBuf.zero 16).copy kc.ip
    netmask := (CharBuf.zero 16).copy kc.netmask
    services := fun _ => .zero 32
    serviceCount := 0
    fromFlash := false
    serviceSlas := fun _ => .zero }

/-- A configuration as a parsed object gives it. -/
structure CeellConfig.WellFormed (cfg : CeellConfig) : Prop where
  from_flash : cfg.fromFlash = true
  version : cfg.version = 1 ∨ cfg.version = 2
  role : cfg.role.Terminated
  name : cfg.name.Terminated
  ip : cfg.ip.Terminated
  netmask : cfg.netmask.Terminated
  services : ∀ i, (cfg.services i).Terminated
  count : cfg.serviceCount ≤ maxConfigServices
  entries : ∀ i, i.val < cfg.serviceCount →
    (cfg.services i).str ≠ [] ∧ (cfg.services i).str.length ≤ 31 ∧
      (cfg.serviceSlas i).name = cfg.services i ∧ (cfg.serviceSlas i).priority ≤ 2

/-- What every service that a loop writes has. -/
structure Service.Valid (s : Service) : Prop where
  name : cstr s.name ≠ []
  priority : s.priority ≤ 2

section Load

variable {lib : JsonTreeLib} {kc : ConfigDefaults}

theorem loadDefaults_zero (kc : ConfigDefaults) : loadDefaults kc .zero = kconfigDefaults kc := by
  simp only [loadDefaults, CeellConfig.zero, CharBuf.terminate_copy]
  rfl

theorem Service.valid_of_piece {csv p : List Char} {s : Service} (hp : p ∈ pieces ',' (cstr csv))
    (hs : Service.ofPiece p = some s) : s.Valid := by
  unfold Service.ofPiece at hs
  split at hs
  · rename_i hlen
    obtain rfl := Option.some.inj hs
    have hn : nul ∉ p := fun h => nul_notMem_cstr csv (mem_of_mem_pieces hp h)
    constructor
    · rw [cstr_eq_self hn]
      exact List.ne_nil_of_length_pos hlen.1
    · show (1 : UInt8) ≤ 2
      decide
  · cases hs

theorem Service.valid_of_entry {e : JsonSvcEntry} {s : Service}
    (hs : Service.ofEntry e = some s) : s.Valid := by
  unfold Service.ofEntry at hs
  split at hs
  · cases hs
  · split at hs
    · cases hs
    · rename_i hne
      obtain rfl := Option.some.inj hs
      refine ⟨hne, ?_⟩
      dsimp only
      split
      · rename_i hp
        have hcases : e.priority = 0 ∨ e.priority = 1 ∨ e.priority = 2 := by omega
        rcases hcases with h | h | h <;> rw [h] <;> decide
      · decide

theorem length_csvServices (csv : Option (List Char)) :
    (csvServices csv).length ≤ maxConfigServices := by
  cases csv with
  | none => exact Nat.zero_le _
  | some csv => exact List.length_take_le _ _

theorem valid_csvServices {csv : Option (List Char)} {s : Service} (hs : s ∈ csvServices csv) :
    s.Valid := by
  cases csv with
  | none => cases hs
  | some csv =>
    obtain ⟨p, hp, hps⟩ := List.mem_filterMap.mp (List.mem_of_mem_take hs)
    exact Service.valid_of_piece hp hps

theorem valid_v2Services {entries : List JsonSvcEntry} {s : Service} (hs : s ∈ v2Services entries) :
    s.Valid := by
  obtain ⟨e, _, hes⟩ := List.mem_filterMap.mp (List.mem_of_mem_take hs)
  exact Service.valid_of_entry hes

/-- The load is the parse of what the flash holds, or the defaults. -/
theorem ceellConfigLoad_eq (lib : JsonTreeLib) (kc : ConfigDefaults) (flash : FlashWorld) :
    ceellConfigLoad lib kc flash =
      flash.image.elim (kconfigDefaults kc, 0) fun buf => parseJson lib kc buf .zero := by
  simp only [ceellConfigLoad, FlashWorld.image, loadDefaults_zero]
  split
  · cases flashIsEmpty flash.mapped.bytes <;> rfl
  · by_cases hread : flash.readRet < 0
    · simp [hread]
    · cases hempty : flashIsEmpty flash.read.bytes <;> simp [hread]

/-- **Whatever the library answers**, the service arrays are filled from the
front with valid services, and the rest is zero. -/
theorem ceellConfigLoad_services (lib : JsonTreeLib) (kc : ConfigDefaults) (flash : FlashWorld) :
    ∃ cfg l, (ceellConfigLoad lib kc flash).1 = CeellConfig.withServices cfg l ∧
      l.length ≤ maxConfigServices ∧ ∀ s ∈ l, s.Valid := by
  have hdefaults : ∃ cfg l, kconfigDefaults kc = CeellConfig.withServices cfg l ∧
      l.length ≤ maxConfigServices ∧ ∀ s ∈ l, s.Valid :=
    ⟨kconfigDefaults kc, [], rfl, Nat.zero_le _, by simp⟩
  rw [ceellConfigLoad_eq]
  cases flash.image with
  | none => exact hdefaults
  | some buf =>
    simp only [Option.elim_some, parseJson, loadDefaults_zero]
    split
    · exact hdefaults
    · split
      · split
        · exact hdefaults
        · rw [parseServicesV2_eq _ rfl]
          exact ⟨_, _, rfl, List.length_take_le _ _, fun s hs => valid_v2Services hs⟩
      · split
        · split
          · exact hdefaults
          · rw [parseServicesCsv_eq _ rfl]
            exact ⟨_, _, rfl, length_csvServices _, fun s hs => valid_csvServices hs⟩
        · exact hdefaults

/-- Valid services in the arrays of a struct filled from a parse. -/
theorem wellFormed_withServices {r : JsonTreeParsed} {version : UInt32} {l : List Service}
    (hv : version = 1 ∨ version = 2) (hlen : l.length ≤ maxConfigServices)
    (hl : ∀ s ∈ l, s.Valid) :
    ((copyCommonFields r { CeellConfig.zero with version := version }).withServices
      l).WellFormed := by
  constructor
  · rfl
  · exact hv
  · exact CharBuf.terminated_copyOpt_zero _
  · exact CharBuf.terminated_copyOpt_zero _
  · exact CharBuf.terminated_copyOpt_zero _
  · exact CharBuf.terminated_copyOpt_zero _
  · intro i
    simp only [CeellConfig.withServices]
    cases l[i.val]? with
    | none => exact CharBuf.terminated_zero
    | some s => exact CharBuf.terminated_copy_zero s.name
  · exact hlen
  · intro i hi
    have hget : l[i.val]? = some l[i.val] := List.getElem?_eq_getElem hi
    have hvalid := hl _ (List.getElem_mem hi)
    simp only [CeellConfig.withServices, hget, Option.elim_some, CharBuf.str_copy_zero]
    refine ⟨?_, by rw [List.length_take]; exact Nat.min_le_left _ _, trivial, hvalid.priority⟩
    intro h
    exact hvalid.name (by simpa using h)

/-- The struct a parse of one of the formats leaves. -/
def parsedConfig (r : JsonTreeParsed) (l : List Service) : CeellConfig :=
  (copyCommonFields r
    { CeellConfig.zero with version := toUInt32 (r.num "version") }).withServices l

/-- **The parse of the read bytes**, all on the text they hold. -/
theorem parseJson_eq (hlib : lib.Numeric) (kc : ConfigDefaults) {readBuf : CharBuf configReadSize}
    {text : List Char} (htext : readBuf.terminate.str = text) :
    parseJson lib kc readBuf .zero =
      if (lib.parse jsonVersionDescr text).ret < 0 then (kconfigDefaults kc, 0)
      else if (lib.parse jsonVersionDescr text).num "version" = 2 then
        if (lib.parse jsonConfigV2Descr text).ret < 0 then (kconfigDefaults kc, 0)
        else
          (parsedConfig (lib.parse jsonConfigV2Descr text)
            (v2Services (((lib.parse jsonConfigV2Descr text).rows "services").map
              JsonSvcEntry.ofRow)), 0)
      else if (lib.parse jsonVersionDescr text).num "version" = 1 then
        if (lib.parse jsonConfigV1Descr text).ret < 0 then (kconfigDefaults kc, 0)
        else
          (parsedConfig (lib.parse jsonConfigV1Descr text)
            (csvServices ((lib.parse jsonConfigV1Descr text).str "services")), 0)
      else (kconfigDefaults kc, 0) := by
  have hbuf : cstr (lib.parse jsonVersionDescr text).buf = text := by
    rw [hlib.keeps _ _ (by simp [jsonVersionDescr]), ← htext, CharBuf.str,
      cstr_eq_self (nul_notMem_cstr _)]
  simp only [parseJson, htext, hbuf, loadDefaults_zero]
  rw [parseServicesV2_eq _ rfl, parseServicesCsv_eq _ rfl]
  rfl

/-- The load ends in the defaults or in a well-formed configuration. -/
theorem parseJson_cases (hlib : lib.Numeric) (kc : ConfigDefaults)
    (readBuf : CharBuf configReadSize) :
    parseJson lib kc readBuf .zero = (kconfigDefaults kc, 0) ∨
      ∃ cfg, parseJson lib kc readBuf .zero = (cfg, 0) ∧ cfg.WellFormed := by
  rw [parseJson_eq hlib kc rfl]
  split
  · exact Or.inl rfl
  · rename_i hret
    -- the second parse finds the version of the first
    have hversion : ∀ descr, ⟨"version".toList, .prim .number⟩ ∈ descr →
        ¬ (lib.parse descr readBuf.terminate.str).ret < 0 →
        (lib.parse descr readBuf.terminate.str).num "version"
          = (lib.parse jsonVersionDescr readBuf.terminate.str).num "version" := by
      intro descr hmem h
      exact hlib.agrees _ _ _ "version" (by simp [jsonVersionDescr]) hmem (by omega) (by omega)
    split
    · rename_i hv
      split
      · exact Or.inl rfl
      · rename_i hret2
        refine Or.inr ⟨_, rfl, ?_⟩
        rw [parsedConfig, hversion _ (by simp [jsonConfigV2Descr, jsonCommonDescr]) hret2, hv]
        exact wellFormed_withServices (Or.inr (by decide)) (List.length_take_le _ _)
          fun s hs => valid_v2Services hs
    · split
      · rename_i hv
        split
        · exact Or.inl rfl
        · rename_i hret2
          refine Or.inr ⟨_, rfl, ?_⟩
          rw [parsedConfig, hversion _ (by simp [jsonConfigV1Descr, jsonCommonDescr]) hret2, hv]
          exact wellFormed_withServices (Or.inl (by decide)) (length_csvServices _)
            fun s hs => valid_csvServices hs
      · exact Or.inl rfl

end Load

/-- **Whatever the flash and the parses answer**, the load returns 0, and
the struct is either precisely the Kconfig defaults or a well-formed
configuration from the flash. -/
theorem configLoad_ok (lib : JsonTreeLib) (hlib : lib.Numeric) (kc : ConfigDefaults)
    (flash : FlashWorld) :
    (ceellConfigLoad lib kc flash).2 = 0 ∧
    Xor ((ceellConfigLoad lib kc flash).1 = kconfigDefaults kc)
      (ceellConfigLoad lib kc flash).1.WellFormed := by
  have hdisjoint : ∀ cfg : CeellConfig, cfg.WellFormed → cfg ≠ kconfigDefaults kc := by
    rintro cfg hcfg rfl
    exact Bool.false_ne_true hcfg.from_flash
  have hcases : ceellConfigLoad lib kc flash = (kconfigDefaults kc, 0) ∨
      ∃ cfg, ceellConfigLoad lib kc flash = (cfg, 0) ∧ cfg.WellFormed := by
    rw [ceellConfigLoad_eq]
    cases flash.image with
    | none => exact Or.inl rfl
    | some buf => exact parseJson_cases hlib kc buf
  rcases hcases with h | ⟨cfg, h, hcfg⟩
  · rw [h]
    exact ⟨rfl, Or.inl ⟨rfl, fun hwf => hdisjoint _ hwf rfl⟩⟩
  · rw [h]
    exact ⟨rfl, Or.inr ⟨hcfg, hdisjoint _ hcfg⟩⟩

/-- A flash that cannot be opened and is mapped, with a version 1 object
that names one service. -/
def mappedFlash : FlashWorld where
  openRet := -ENODEV
  mapped := (CharBuf.zero configReadSize).memcpy 0 <| renderTree
    [("version".toList, .prim (.num 1)), ("node_id".toList, .prim (.num 7)),
     ("role".toList, .prim (.str "sensor".toList)),
     ("services".toList, .prim (.str "temp".toList))]
  readRet := 0
  read := .zero configReadSize

/-- It is loaded, and well formed. -/
theorem configLoad_ok_mapped :
    (ceellConfigLoad jsonTreeReference {} mappedFlash).2 = 0 ∧
    (ceellConfigLoad jsonTreeReference {} mappedFlash).1 ≠ kconfigDefaults {} ∧
    (ceellConfigLoad jsonTreeReference {} mappedFlash).1.WellFormed ∧
    (ceellConfigLoad jsonTreeReference {} mappedFlash).1.nodeId = 7 ∧
    (ceellConfigLoad jsonTreeReference {} mappedFlash).1.serviceCount = 1 ∧
    ((ceellConfigLoad jsonTreeReference {} mappedFlash).1.services 0).str = "temp".toList := by
  obtain ⟨hret, hshape⟩ := configLoad_ok jsonTreeReference jsonTreeReference_numeric {} mappedFlash
  have hflash : (ceellConfigLoad jsonTreeReference {} mappedFlash).1.fromFlash = true := by
    decide +kernel
  have hloaded : (ceellConfigLoad jsonTreeReference {} mappedFlash).1 ≠ kconfigDefaults {} := by
    intro h
    rw [h] at hflash
    cases hflash
  exact ⟨hret, hloaded, hshape.or.resolve_left hloaded, by decide +kernel, by decide +kernel,
    by decide +kernel⟩

end Ceell.Core
