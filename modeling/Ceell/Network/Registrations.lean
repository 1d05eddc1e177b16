/-
Ceell.Network.Registrations — which registration of a name the lookups and
the handler threads go by, over every sequence of registrations.

The registry only grows at its end, and a lookup takes the first entry of
the name. `registryMachine` adds to it what a caller may expect: for each
name, what it was registered with last. `lastWins_iff_newOrSame` says when
the two agree.
-/
import Ceell.Lib.Machine
import Ceell.Network.Deadline

namespace Ceell.Network

open Ceell.Lib Ceell.Core

variable {ν : Type}

/-! ## The registrations -/

/-- A call of `ceell_service_register` or `ceell_service_register_sla`. -/
inductive RegisterAct (ν : Type) where
  | register (name : Option (List Char)) (handler : Option ν)
  | registerSla (name : Option (List Char)) (handler : Option ν) (priority : UInt8)
      (deadlineMs : UInt16)

namespace RegisterAct

def name : RegisterAct ν → Option (List Char)
  | register name _ => name
  | registerSla name _ _ _ => name

/-- What the name is registered with; the wrapper fills in NORMAL and no
deadline. -/
def registration : RegisterAct ν → Registration ν
  | register _ handler => ⟨handler, 1, 0⟩
  | registerSla _ handler priority deadlineMs => ⟨handler, priority, deadlineMs⟩

def call (k : Kconfig) (services : Registry ν) : RegisterAct ν → Registry ν × Int
  | register name handler => ceellServiceRegister k name handler services
  | registerSla name handler priority deadlineMs =>
      ceellServiceRegisterSla k name handler priority deadlineMs services

end RegisterAct

/-- The registry, and what each name of at most 31 bytes was last
registered with. -/
structure RegistryRun (ν : Type) where
  services : Registry ν
  latest : List Char → Option (Registration ν)

/-- A successful registration is recorded, if its name fits an entry. -/
def recordRegistration (name : Option (List Char)) (r : Registration ν)
    (latest : List Char → Option (Registration ν)) : List Char → Option (Registration ν) :=
  match name with
  | some name =>
      if (cstr name).length ≤ 31 then Function.update latest (cstr name) (some r) else latest
  | none => latest

def registryStep (k : Kconfig) (s : RegistryRun ν) (a : RegisterAct ν) : Option (RegistryRun ν) :=
  let r := a.call k s.services
  some ⟨r.1, if r.2 = 0 then recordRegistration a.name a.registration s.latest else s.latest⟩

/-- Registrations in any order from the empty registry. -/
def registryMachine (k : Kconfig) (ν : Type) : Machine (RegistryRun ν) (RegisterAct ν) where
  init := ⟨ceellServiceInit, fun _ => none⟩
  step := registryStep k

/-- The lookups of a name give what it was registered with last, and every
handler thread answers its requests by that handler, unless their deadline
has passed. -/
def LastWins (s : RegistryRun ν) : Prop :=
  ∀ name r, s.latest name = some r → lookupService s.services name = r ∧
    ∀ (w : World ν) (p : MsgPriority) (item : MsgDispatchItem), w.registry = s.services →
      item.toSvc.str = name → deadlinePassed w.now item = false →
      handlerThreadFn w p item = lookupReply w p item r.handler

/-- A name that is registered is new to the registry, or its entry has the
same handler, priority and deadline. -/
def NewOrSame (k : Kconfig) (s : RegistryRun ν) (a : RegisterAct ν) : Prop :=
  ∀ name ∈ a.name, s.services.length < k.maxServices → (cstr name).length ≤ 31 →
    ∀ e ∈ findEntry s.services name, e.registration = a.registration

instance [DecidableEq ν] (k : Kconfig) (s : RegistryRun ν) (a : RegisterAct ν) :
    Decidable (NewOrSame k s a) := by
  unfold NewOrSame; infer_instance

/-- The names on record are C strings, and in the registry. -/
def Recorded (s : RegistryRun ν) : Prop :=
  ∀ name r, s.latest name = some r → nul ∉ name ∧ (findEntry s.services name).isSome = true

/-! ## One registration -/

section Step

variable {k : Kconfig} {s s' : RegistryRun ν} {a : RegisterAct ν}

/-- The thread asks the registry for the handler. -/
theorem handlerThreadFn_lookup {w : World ν} {item : MsgDispatchItem} {name : List Char}
    (p : MsgPriority) (hsvc : item.toSvc.str = name) (hdue : deadlinePassed w.now item = false) :
    handlerThreadFn w p item = lookupReply w p item (lookupService w.registry name).handler := by
  rw [handlerThreadFn_eq, hdue, hsvc]
  rfl

theorem lastWins_iff : LastWins s ↔
    ∀ name r, s.latest name = some r → lookupService s.services name = r := by
  constructor
  · exact fun h name r hr => (h name r hr).1
  · intro h name r hr
    refine ⟨h name r hr, fun w p item hw hsvc hdue => ?_⟩
    rw [handlerThreadFn_lookup p hsvc hdue, hw, h name r hr]

/-- **What a registration can do**: nothing, or append an entry of its name. -/
theorem registryStep_cases (hs : registryStep k s a = some s') :
    (s' = s ∧ ∀ name ∈ a.name, ¬ s.services.length < k.maxServices) ∨
    ∃ name, a.name = some name ∧ s.services.length < k.maxServices ∧
      s'.services = s.services ++ [newEntry name a.registration] ∧
      s'.latest = recordRegistration (some name) a.registration s.latest := by
  have hcall : a.call k s.services = ceellServiceRegisterSla k a.name a.registration.handler
      a.registration.priority a.registration.deadlineMs s.services := by
    cases a <;> rfl
  obtain rfl := Option.some.inj hs
  rw [hcall]
  cases hname : a.name with
  | none =>
    refine Or.inl ⟨?_, by simp⟩
    simp [ceellServiceRegisterSla, EINVAL]
  | some name =>
    rw [registerSla_eq]
    by_cases hroom : s.services.length < k.maxServices
    · rw [if_pos hroom]
      exact Or.inr ⟨name, rfl, hroom, rfl, by simp⟩
    · rw [if_neg hroom]
      refine Or.inl ⟨by simp [ENOMEM], fun _ _ => hroom⟩

/-- What is on record after a registration. -/
theorem recordRegistration_cases {name : List Char} {r : Registration ν}
    {latest : List Char → Option (Registration ν)} {x : List Char} {y : Registration ν}
    (h : recordRegistration (some name) r latest x = some y) :
    ((cstr name).length ≤ 31 ∧ x = cstr name ∧ y = r) ∨
      (latest x = some y ∧ ((cstr name).length ≤ 31 → x ≠ cstr name)) := by
  unfold recordRegistration at h
  dsimp only at h
  split at h
  · rename_i hlen
    by_cases hx : x = cstr name
    · subst hx
      rw [Function.update_self] at h
      exact Or.inl ⟨hlen, rfl, (Option.some.inj h).symm⟩
    · rw [Function.update_of_ne hx] at h
      exact Or.inr ⟨h, fun _ => hx⟩
  · rename_i hlen
    exact Or.inr ⟨h, fun hle => absurd hle hlen⟩

/-- A name that fits an entry is stored whole. -/
theorem take_cstr {name : List Char} (hlen : (cstr name).length ≤ 31) :
    (cstr name).take 31 = cstr (cstr name) := by
  rw [List.take_of_length_le hlen, cstr_eq_self (nul_notMem_cstr name)]

theorem recorded_step (hi : Recorded s) (hs : registryStep k s a = some s') : Recorded s' := by
  rcases registryStep_cases hs with ⟨rfl, _⟩ | ⟨name, _, _, hservices, hlatest⟩
  · exact hi
  · intro x y hx
    rw [hlatest] at hx
    rw [hservices, findEntry_append]
    rcases recordRegistration_cases hx with ⟨hlen, rfl, _⟩ | ⟨hold, _⟩
    · refine ⟨nul_notMem_cstr name, ?_⟩
      rw [if_pos (take_cstr hlen), Option.isSome_or, Option.isSome_some, Bool.or_true]
    · obtain ⟨hnul, hfound⟩ := hi x y hold
      refine ⟨hnul, ?_⟩
      rw [Option.isSome_or, hfound, Bool.true_or]

/-- One registration keeps the last one of every name in force exactly if
its own name is new, or registered the same. -/
theorem lastWins_step_iff (hi : Recorded s) (hp : LastWins s) (hs : registryStep k s a = some s') :
    LastWins s' ↔ NewOrSame k s a := by
  rw [lastWins_iff] at hp ⊢
  rcases registryStep_cases hs with ⟨rfl, hfull⟩ | ⟨name, hname, hroom, hservices, hlatest⟩
  · refine iff_of_true hp ?_
    intro name hname hroom
    exact absurd hroom (hfull name hname)
  · -- the entries of the names on record stay in front of the new one
    have hold : ∀ x e, findEntry s.services x = some e → lookupService s'.services x
        = lookupService s.services x := by
      intro x e he
      rw [lookupService_of_findEntry he, hservices]
      refine lookupService_of_findEntry ?_
      rw [findEntry_append, he, Option.some_or]
    have hfind : findEntry s.services (cstr name) = findEntry s.services name := by
      rw [findEntry, cstr_eq_self (nul_notMem_cstr name)]
      rfl
    constructor
    · intro h name' hname' _ hlen e he
      obtain rfl : name = name' := Option.some.inj (hname.symm.trans hname')
      have he' : findEntry s.services (cstr name) = some e := hfind.trans he
      rw [← lookupService_of_findEntry he', ← hold _ e he']
      refine h (cstr name) a.registration ?_
      rw [hlatest, recordRegistration, if_pos hlen, Function.update_self]
    · intro hsame x y hx
      rw [hlatest] at hx
      rcases recordRegistration_cases hx with ⟨hlen, rfl, rfl⟩ | ⟨hrec, _⟩
      · cases he : findEntry s.services (cstr name) with
        | some e =>
          rw [hold _ e he, lookupService_of_findEntry he]
          exact hsame name hname hroom hlen e (hfind ▸ he)
        | none =>
          rw [hservices]
          have hnew : findEntry (s.services ++ [newEntry name a.registration]) (cstr name)
              = some (newEntry name a.registration) := by
            rw [findEntry_append, he, Option.none_or, if_pos (take_cstr hlen)]
          exact lookupService_of_findEntry hnew
      · obtain ⟨e, he⟩ := Option.isSome_iff_exists.mp (hi x y hrec).2
        rw [hold x e he]
        exact hp x y hrec

end Step

/-- **Over every sequence of registrations**: every name is looked up as it
was registered last, and dispatched so, exactly if each registration of a
name that the registry has already repeats its entry. -/
theorem lastWins_iff_newOrSame (k : Kconfig) (as : List (RegisterAct ν)) (t : RegistryRun ν)
    (hrun : (registryMachine k ν).run as = some t) :
    (∀ u ∈ (registryMachine k ν).visited (registryMachine k ν).init as, LastWins u) ↔
      (registryMachine k ν).AllSteps (NewOrSame k) (registryMachine k ν).init as :=
  Machine.forall_visited_iff_allSteps (A := fun _ => True)
    (fun _ _ _ _ hi hs => recorded_step hi hs)
    (fun _ _ _ _ hi hp hs => lastWins_step_iff hi hp hs)
    as _ t (fun _ _ => trivial) (fun _ _ h => by cases h) (fun _ _ h => by cases h) hrun

/-- A configuration names the service `echo`; `main` registers that without
a handler, and then its own echo service. -/
def configuredEcho : List (RegisterAct Unit) :=
  [.register (some "echo".toList) none, .register (some "echo".toList) (some ())]

/-- A request to `echo`. -/
def echoItem : MsgDispatchItem :=
  dispatchItem ⟨some "req".toList, 1, 2, some "echo".toList, some ['x'], 1, 0, 0⟩ ⟨1, 2⟩

/-- Both registrations return 0, and the node answers that it does not know
the service. -/
theorem configuredEcho_unknown :
    ∃ t, (registryMachine {} Unit).run configuredEcho = some t ∧
      t.latest "echo".toList = some ⟨some (), 1, 0⟩ ∧
      ceellServiceGetHandler t.services "echo".toList = none ∧
      (handlerThreadFn ⟨0, t.services, fun _ _ => .empty 0⟩ .normal echoItem).status = -ENOENT ∧
      ¬ LastWins t := by
  obtain ⟨t, ht⟩ : ∃ t, (registryMachine {} Unit).run configuredEcho = some t :=
    Option.isSome_iff_exists.mp (by decide)
  have hend : ((registryMachine {} Unit).run configuredEcho).map (fun t =>
      (t.latest "echo".toList, ceellServiceGetHandler t.services "echo".toList,
        (handlerThreadFn ⟨0, t.services, fun _ _ => .empty 0⟩ .normal echoItem).status))
      = some (some ⟨some (), 1, 0⟩, none, -ENOENT) := by decide
  simp only [ht, Option.map_some, Option.some.injEq, Prod.mk.injEq] at hend
  obtain ⟨hlatest, hhandler, hstatus⟩ := hend
  refine ⟨t, ht, hlatest, hhandler, hstatus, fun h => ?_⟩
  have hlast := congrArg Registration.handler (h _ _ hlatest).1
  cases hhandler.symm.trans hlast

/-- A service with its own deadline, the two that are built in, and the
first once more as it is. -/
def distinctServices : List (RegisterAct Unit) :=
  [.registerSla (some "brake".toList) none 0 50, .register (some "echo".toList) (some ()),
   .register (some "ota".toList) (some ()), .registerSla (some "brake".toList) none 0 50]

/-- Every name is new or the same, so every lookup has what was registered
last. -/
theorem lastWins_iff_newOrSame_distinct :
    (registryMachine {} Unit).AllSteps (NewOrSame {}) (registryMachine {} Unit).init
        distinctServices ∧
      (∀ u ∈ (registryMachine {} Unit).visited (registryMachine {} Unit).init distinctServices,
        LastWins u) ∧
      ((registryMachine {} Unit).run distinctServices).map (fun t =>
          (t.services.length, lookupService t.services "brake".toList,
            lookupService t.services "ota".toList)) =
        some (4, ⟨none, 0, 50⟩, ⟨some (), 1, 0⟩) := by
  obtain ⟨t, ht⟩ : ∃ t, (registryMachine {} Unit).run distinctServices = some t :=
    Option.isSome_iff_exists.mp (by decide +kernel)
  have hnew : (registryMachine {} Unit).AllSteps (NewOrSame {}) (registryMachine {} Unit).init
      distinctServices := by
    decide +kernel
  exact ⟨hnew, (lastWins_iff_newOrSame {} distinctServices t ht).mpr hnew, by decide +kernel⟩

end Ceell.Network
