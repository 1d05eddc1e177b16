/-
Ceell.Core.ServiceRegistry — `ceell/core/service_registry.c`: the
registered services with their handlers and their SLA.

The registry is append-only and holds `CONFIG_CEELL_MAX_SERVICES` entries;
`ν` stands for the handlers' addresses. `namesCsv_eq` is the result about
`ceell_service_names_csv`: names that fit, joined by commas.
-/
import Ceell.Core.Types
import Ceell.Lib.CString
import Ceell.Lib.Csv
import Mathlib.Data.List.Nodup

namespace Ceell.Core

open Ceell.Lib

/-- `struct service_entry`. -/
structure ServiceEntry (ν : Type) where
  name : CharBuf 32
  handler : Option ν
  priority : UInt8
  deadlineMs : UInt16

/-- `services[0 .. svc_count)`. -/
abbrev Registry (ν : Type) := List (ServiceEntry ν)

variable {ν : Type}

/-- `ceell_service_init`. -/
def ceellServiceInit : Registry ν := []

/-- `ceell_service_register_sla`. -/
def ceellServiceRegisterSla (k : Kconfig) (name : Option (List Char)) (handler : Option ν)
    (priority : UInt8) (deadlineMs : UInt16) (services : Registry ν) : Registry ν × Int :=
  match name with
  | none => (services, -EINVAL)
  | some name =>
      if services.length ≥ k.maxServices then (services, -ENOMEM)
      else
        (services ++ [⟨((CharBuf.zero 32).copy name).terminate, handler, priority, deadlineMs⟩], 0)

/-- `ceell_service_register`. -/
def ceellServiceRegister (k : Kconfig) (name : Option (List Char)) (handler : Option ν)
    (services : Registry ν) : Registry ν × Int :=
  ceellServiceRegisterSla k name handler 1 0 services

/-- `ceell_service_get_handler`. -/
def ceellServiceGetHandler (services : Registry ν) (name : List Char) : Option ν :=
  match services.find? fun e => e.name.str == cstr name with
  | some e => e.handler
  | none => none

/-- `ceell_service_get_priority`. -/
def ceellServiceGetPriority (services : Registry ν) (name : Option (List Char)) : UInt8 :=
  match name with
  | none => 1 -- NORMAL
  | some name =>
      match services.find? fun e => e.name.str == cstr name with
      | some e => e.priority
      | none => 1

/-- `ceell_service_get_deadline`. -/
def ceellServiceGetDeadline (services : Registry ν) (name : Option (List Char)) : UInt16 :=
  match name with
  | none => 0
  | some name =>
      match services.find? fun e => e.name.str == cstr name with
      | some e => e.deadlineMs
      | none => 0

/-! ## Registration and lookup -/

/-- What a service is registered with. -/
structure Registration (ν : Type) where
  handler : Option ν
  priority : UInt8
  deadlineMs : UInt16
  deriving DecidableEq

def ServiceEntry.registration (e : ServiceEntry ν) : Registration ν :=
  ⟨e.handler, e.priority, e.deadlineMs⟩

/-- The entry of a name. -/
def findEntry (services : Registry ν) (name : List Char) : Option (ServiceEntry ν) :=
  services.find? fun e => e.name.str == cstr name

/-- The three lookups of a name. -/
def lookupService (services : Registry ν) (name : List Char) : Registration ν :=
  ⟨ceellServiceGetHandler services name, ceellServiceGetPriority services (some name),
    ceellServiceGetDeadline services (some name)⟩

/-- All three read the first entry of the name. -/
theorem lookupService_eq (services : Registry ν) (name : List Char) :
    lookupService services name
      = ((findEntry services name).map ServiceEntry.registration).getD ⟨none, 1, 0⟩ := by
  unfold findEntry
  cases hfind : services.find? fun e => e.name.str == cstr name with
  | none =>
    simp [lookupService, ceellServiceGetHandler, ceellServiceGetPriority,
      ceellServiceGetDeadline, hfind]
  | some e =>
    simp [lookupService, ceellServiceGetHandler, ceellServiceGetPriority,
      ceellServiceGetDeadline, hfind, ServiceEntry.registration]

theorem lookupService_of_findEntry {services : Registry ν} {name : List Char} {e : ServiceEntry ν}
    (h : findEntry services name = some e) : lookupService services name = e.registration := by
  rw [lookupService_eq, h, Option.map_some, Option.getD_some]

/-- The entry a registration appends. -/
def newEntry (name : List Char) (r : Registration ν) : ServiceEntry ν :=
  ⟨(CharBuf.zero 32).copy name, r.handler, r.priority, r.deadlineMs⟩

@[simp] theorem str_name_newEntry (name : List Char) (r : Registration ν) :
    (newEntry name r).name.str = (cstr name).take 31 := CharBuf.str_copy_zero name

/-- **What a registration does**: while there is room it appends an entry. -/
theorem registerSla_eq (k : Kconfig) (name : List Char) (r : Registration ν)
    (services : Registry ν) :
    ceellServiceRegisterSla k (some name) r.handler r.priority r.deadlineMs services
      = if services.length < k.maxServices then (services ++ [newEntry name r], 0)
        else (services, -ENOMEM) := by
  unfold ceellServiceRegisterSla newEntry
  by_cases hroom : services.length < k.maxServices
  · have hfull : ¬ services.length ≥ k.maxServices := Nat.not_le.mpr hroom
    simp only [if_pos hroom, if_neg hfull, CharBuf.terminate_copy]
  · have hfull : services.length ≥ k.maxServices := Nat.not_lt.mp hroom
    simp only [if_neg hroom, if_pos hfull]

theorem findEntry_append (services : Registry ν) (name : List Char) (r : Registration ν)
    (x : List Char) :
    findEntry (services ++ [newEntry name r]) x
      = (findEntry services x).or
          (if (cstr name).take 31 = cstr x then some (newEntry name r) else none) := by
  unfold findEntry
  rw [List.find?_append]
  congr 1
  by_cases h : (cstr name).take 31 = cstr x <;> simp [h]

/-- A name has an entry exactly if an entry has the name. -/
theorem findEntry_isSome {services : Registry ν} {x : List Char} :
    (findEntry services x).isSome = true ↔ ∃ e ∈ services, e.name.str = cstr x := by
  simp [findEntry, List.find?_isSome]

/-- Where no two entries have one name, every entry is what its name finds. -/
theorem findEntry_of_mem {services : Registry ν} (hnd : (services.map fun e => e.name.str).Nodup)
    {e : ServiceEntry ν} (he : e ∈ services) {x : List Char} (hx : e.name.str = cstr x) :
    findEntry services x = some e := by
  obtain ⟨e', he'⟩ := Option.isSome_iff_exists.mp (findEntry_isSome.mpr ⟨e, he, hx⟩)
  have hmem := List.mem_of_find?_eq_some he'
  have hname : e'.name.str = cstr x := by simpa using List.find?_some he'
  rw [he', List.inj_on_of_nodup_map hnd hmem he (hname.trans hx.symm)]

/-- Registrations one after the other: the registry they leave, and what
they return. -/
def registerAll (k : Kconfig) : List (List Char × Registration ν) → Registry ν →
    Registry ν × List Int
  | [], services => (services, [])
  | (name, r) :: rest, services =>
      let s := ceellServiceRegisterSla k (some name) r.handler r.priority r.deadlineMs services
      let t := registerAll k rest s.1
      (t.1, s.2 :: t.2)

theorem registerAll_append (k : Kconfig) (l l' : List (List Char × Registration ν))
    (services : Registry ν) :
    registerAll k (l ++ l') services
      = ((registerAll k l' (registerAll k l services).1).1,
          (registerAll k l services).2 ++ (registerAll k l' (registerAll k l services).1).2) := by
  induction l generalizing services with
  | nil => rfl
  | cons x l ih => simp only [List.cons_append, registerAll, ih]

/-- The registry takes the first ones, as many as it has room for. -/
theorem registerAll_services (k : Kconfig) (l : List (List Char × Registration ν))
    {services : Registry ν} (h : services.length ≤ k.maxServices) :
    (registerAll k l services).1
      = (services ++ l.map fun x => newEntry x.1 x.2).take k.maxServices := by
  induction l generalizing services with
  | nil => simp [registerAll, List.take_of_length_le h]
  | cons x l ih =>
    simp only [registerAll, registerSla_eq]
    by_cases hroom : services.length < k.maxServices
    · simp only [if_pos hroom]
      rw [ih (by simp; omega)]
      simp
    · have hfull : services.length = k.maxServices := by omega
      simp only [if_neg hroom]
      rw [ih h, ← hfull, List.take_left, List.take_left]

/-- All of them return 0 exactly if there is room for all. -/
theorem registerAll_ok_iff (k : Kconfig) (l : List (List Char × Registration ν))
    {services : Registry ν} (h : services.length ≤ k.maxServices) :
    (∀ ret ∈ (registerAll k l services).2, ret = 0) ↔
      services.length + l.length ≤ k.maxServices := by
  induction l generalizing services with
  | nil => simpa [registerAll] using h
  | cons x l ih =>
    simp only [registerAll, registerSla_eq]
    by_cases hroom : services.length < k.maxServices
    · simp only [if_pos hroom, List.forall_mem_cons, true_and]
      rw [ih (by simp; omega)]
      simp only [List.length_append, List.length_cons, List.length_nil]
      omega
    · simp only [if_neg hroom, List.forall_mem_cons, List.length_cons]
      refine iff_of_false ?_ (by omega)
      rintro ⟨hret, _⟩
      exact absurd hret (by decide)

/-! ## The names as one string -/

/-- One pass of the loop of `ceell_service_names_csv`: the buffer and `pos`
after it, or the buffer where the name has no room. -/
def namesCsvStep {n : Nat} (i : Nat) (name : List Char) (buf : CharBuf n) (pos : Nat) :
    Except (CharBuf n) (CharBuf n × Nat) :=
  let need := name.length + if i > 0 then 1 else 0 -- comma and name
  if pos + need ≥ n then .error buf
  else if i > 0 then
    .ok ((buf.memcpy pos [',']).memcpy (pos + 1) name, pos + 1 + name.length)
  else .ok (buf.memcpy pos name, pos + name.length)

/-- The loop, from the `i`-th name on. -/
def namesCsvLoop {n : Nat} : Nat → List (List Char) → CharBuf n → Nat →
    Except (CharBuf n) (CharBuf n × Nat)
  | _, [], buf, pos => .ok (buf, pos)
  | i, name :: names, buf, pos =>
      match namesCsvStep i name buf pos with
      | .error buf => .error buf
      | .ok (buf, pos) => namesCsvLoop (i + 1) names buf pos

/-- `ceell_service_names_csv`: what it leaves in the buffer and returns. -/
def ceellServiceNamesCsv {n : Nat} (services : Registry ν) (buf : CharBuf n) : CharBuf n × Int :=
  if n = 0 then (buf, -EINVAL)
  else
    match namesCsvLoop 0 (services.map fun e => e.name.str) (buf.memcpy 0 [nul]) 0 with
    | .error buf => (buf, -ENOMEM)
    | .ok (buf, pos) => (buf.memcpy pos [nul], 0)

section NamesCsv

variable {n : Nat}

/-- The text after one more name is longer by what the pass needs. -/
theorem length_intercalate_concat (done : List (List Char)) (name : List Char) :
    ([','].intercalate (done ++ [name])).length
      = ([','].intercalate done).length + (name.length + if done.length > 0 then 1 else 0) := by
  by_cases hne : done = []
  · simp [hne]
  · have hpos : done.length > 0 := List.length_pos_iff.mpr hne
    rw [intercalate_concat ',' hne, if_pos hpos, List.length_append, List.length_cons]

/-- A pass that has room for its name. -/
theorem namesCsvStep_ok {old buf : CharBuf n} {done : List (List Char)} {name : List Char}
    (hbuf : buf.WrittenOver old ([','].intercalate done))
    (hroom : ([','].intercalate (done ++ [name])).length < n) :
    ∃ buf', namesCsvStep done.length name buf ([','].intercalate done).length
        = .ok (buf', ([','].intercalate (done ++ [name])).length) ∧
      buf'.WrittenOver old ([','].intercalate (done ++ [name])) := by
  have hlen := length_intercalate_concat done name
  have hfits : ¬ ([','].intercalate done).length
      + (name.length + if done.length > 0 then 1 else 0) ≥ n := by omega
  simp only [namesCsvStep, if_neg hfits]
  by_cases hne : done = []
  · subst hne
    simp only [List.length_nil, gt_iff_lt, Nat.lt_irrefl, if_false, List.nil_append] at hlen ⊢
    have hname := hbuf.memcpy name (by omega)
    exact ⟨_, by rw [hlen, Nat.add_zero], by simpa using hname⟩
  · have hpos : done.length > 0 := List.length_pos_iff.mpr hne
    rw [if_pos hpos] at hlen
    have hcomma := hbuf.memcpy [','] (by rw [List.length_singleton]; omega)
    have hname := hcomma.memcpy name
      (by rw [List.length_append, List.length_singleton]; omega)
    rw [List.length_append, List.length_singleton] at hname
    rw [if_pos hpos]
    refine ⟨_, by rw [hlen, Nat.add_right_comm, Nat.add_assoc], ?_⟩
    rwa [intercalate_concat ',' hne, List.append_cons]

theorem namesCsvStep_error {buf : CharBuf n} {done : List (List Char)} {name : List Char}
    (hfull : n ≤ ([','].intercalate (done ++ [name])).length) :
    namesCsvStep done.length name buf ([','].intercalate done).length = .error buf := by
  rw [length_intercalate_concat] at hfull
  simp only [namesCsvStep, if_pos (show _ ≥ n from hfull)]

/-- The first name that has no room stands right behind `front`. -/
def StopsBehind (n : Nat) (names front : List (List Char)) : Prop :=
  ∃ name back, names = front ++ name :: back ∧ ([','].intercalate front).length < n ∧
    n ≤ ([','].intercalate (front ++ [name])).length

/-- **The loop**, from the names done on: it copies all names, or it stops
at the first that has no room behind the others. -/
theorem namesCsvLoop_cases {old buf : CharBuf n} (names done : List (List Char))
    (hdone : ([','].intercalate done).length < n)
    (hbuf : buf.WrittenOver old ([','].intercalate done)) :
    (([','].intercalate (done ++ names)).length < n ∧
      ∃ buf', namesCsvLoop done.length names buf ([','].intercalate done).length
          = .ok (buf', ([','].intercalate (done ++ names)).length) ∧
        buf'.WrittenOver old ([','].intercalate (done ++ names))) ∨
    ∃ front, StopsBehind n (done ++ names) front ∧
      ∃ buf', namesCsvLoop done.length names buf ([','].intercalate done).length = .error buf' ∧
        buf'.WrittenOver old ([','].intercalate front) := by
  induction names generalizing done buf with
  | nil =>
    rw [List.append_nil]
    exact Or.inl ⟨hdone, buf, rfl, hbuf⟩
  | cons name names ih =>
    by_cases hroom : ([','].intercalate (done ++ [name])).length < n
    · obtain ⟨buf₁, hstep, hbuf₁⟩ := namesCsvStep_ok hbuf hroom
      have hlen : done.length + 1 = (done ++ [name]).length := by simp
      rw [List.append_cons]
      simp only [namesCsvLoop, hstep, hlen]
      exact ih (done ++ [name]) hroom hbuf₁
    · have hfull : n ≤ ([','].intercalate (done ++ [name])).length := Nat.not_lt.mp hroom
      refine Or.inr ⟨done, ⟨name, names, rfl, hdone, hfull⟩, buf, ?_, hbuf⟩
      simp only [namesCsvLoop, namesCsvStep_error hfull]

/-- A joined text with a longer one behind it is not longer. -/
theorem length_intercalate_le_append (done names : List (List Char)) :
    ([','].intercalate done).length ≤ ([','].intercalate (done ++ names)).length := by
  induction names generalizing done with
  | nil => rw [List.append_nil]
  | cons name names ih =>
    have hstep := length_intercalate_concat done name
    have hrest := ih (done ++ [name])
    rw [List.append_assoc, List.singleton_append] at hrest
    omega

/-- The names of the registry have no NUL, so neither has the text. -/
theorem nul_notMem_names {services : Registry ν} {names : List (List Char)}
    (hnames : names <+: services.map fun e => e.name.str) : nul ∉ [','].intercalate names := by
  intro h
  rcases mem_of_mem_intercalate h with heq | ⟨name, hname, hmem⟩
  · exact absurd heq (by decide)
  · obtain ⟨e, _, rfl⟩ := List.mem_map.mp (hnames.subset hname)
    exact e.name.nul_notMem_str hmem

/-- **What the function leaves and returns**: the text of all names with a
NUL, or of those in front of the first that has no room without one. -/
theorem namesCsv_cases (services : Registry ν) (buf : CharBuf (n + 1)) :
    (([','].intercalate (services.map fun e => e.name.str)).length < n + 1 ∧
      (ceellServiceNamesCsv services buf).2 = 0 ∧
      (ceellServiceNamesCsv services buf).1.WrittenOver (buf.memcpy 0 [nul])
        ([','].intercalate (services.map fun e => e.name.str) ++ [nul])) ∨
    ∃ front, StopsBehind (n + 1) (services.map fun e => e.name.str) front ∧
      (ceellServiceNamesCsv services buf).2 = -ENOMEM ∧
      (ceellServiceNamesCsv services buf).1.WrittenOver (buf.memcpy 0 [nul])
        ([','].intercalate front) := by
  unfold ceellServiceNamesCsv
  rw [if_neg (Nat.succ_ne_zero n)]
  have hcases := namesCsvLoop_cases (services.map fun e => e.name.str) [] (Nat.succ_pos n)
    (CharBuf.writtenOver_nil (buf.memcpy 0 [nul]))
  simp only [List.nil_append, List.length_nil, List.intercalate_nil] at hcases
  rcases hcases with ⟨hroom, buf', hloop, hbuf'⟩ | ⟨front, hstop, buf', hloop, hbuf'⟩
  · have hend := hbuf'.memcpy [nul] (by rw [List.length_singleton]; exact hroom)
    exact Or.inl ⟨hroom, by rw [hloop], by rwa [hloop]⟩
  · exact Or.inr ⟨front, hstop, by rw [hloop], by rwa [hloop]⟩

/-- Where the loop stops, the whole text has no room. -/
theorem StopsBehind.length_le {names front : List (List Char)} (h : StopsBehind n names front) :
    n ≤ ([','].intercalate names).length := by
  obtain ⟨name, back, rfl, _, hfull⟩ := h
  rw [List.append_cons]
  exact hfull.trans (length_intercalate_le_append _ back)

/-- **The names joined by commas**, where they fit with their terminator. -/
theorem namesCsv_eq (services : Registry ν) (buf : CharBuf n)
    (hroom : ([','].intercalate (services.map fun e => e.name.str)).length < n) :
    (ceellServiceNamesCsv services buf).2 = 0 ∧
    (ceellServiceNamesCsv services buf).1.str
      = [','].intercalate (services.map fun e => e.name.str) := by
  obtain ⟨m, rfl⟩ := Nat.exists_eq_add_one.mpr (Nat.zero_lt_of_lt hroom)
  rcases namesCsv_cases services buf with ⟨_, hret, hover⟩ | ⟨front, hstop, _⟩
  · exact ⟨hret, (hover.terminated_str (nul_notMem_names List.prefix_rfl)).2⟩
  · exact absurd hroom (Nat.not_lt.mpr hstop.length_le)

end NamesCsv

end Ceell.Core
