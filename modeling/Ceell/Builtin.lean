/-
Ceell.Builtin — the two services that a node serves itself: `echo_handler`
of `main.c` and `ceell_ota_service_handler`.

The dispatcher and the handler threads run from step 8 of `main` on, the
OTA service is registered and the OTA thread started in step 9, which can
fail and leaves the service registered all the same. The model has the
threads of the server, the OTA thread and these two steps of `main`, from
step 8 to the next reboot. It keeps on record when each request was handled.

`nodeAnswers_ok` says what a node answers to which request, `otaReplies_sent`
what of it another node reads in the datagram, and `checkRequests_ok` which
requests begin a check for updates.
-/
import Ceell.Boot
import Ceell.Network.Replies
import Ceell.Ota.Service
import Ceell.Ota.Thread

namespace Ceell

open Ceell.Lib Ceell.Osal Ceell.Core Ceell.Network Ceell.Ota

/-! ## The handlers -/

/-- The handlers that `main` registers. -/
inductive Builtin where
  | echo -- echo_handler
  | ota -- ceell_ota_service_handler
  deriving DecidableEq

/-- `echo_handler`: what it leaves in `rsp_payload`, and what it returns. -/
def echoHandler {n : Nat} (payload : List Char) (rspPayload : CharBuf n) : CharBuf n × Int :=
  ((rspPayload.copy payload).terminate, 0)

/-- The `rsp_payload` of a handler thread, before the call. -/
def rspPayload : CharBuf 128 := .zero 128

/-- What the handlers answer. -/
def builtinAnswer (state : OtaState) (current : OtaVer) : Builtin → List Char → HandlerReply
  | .echo, payload =>
      ⟨(echoHandler payload rspPayload).2, (echoHandler payload rspPayload).1,
        CharBuf.terminated_terminate _⟩
  | .ota, payload =>
      ⟨(ceellOtaServiceHandler state current payload rspPayload).ret,
        (ceellOtaServiceHandler state current payload rspPayload).rspPayload,
        (str_otaServiceHandler (by decide) rspPayload).1⟩

/-! ## The node -/

/-- How far `main` is. -/
inductive BootPhase where
  | messaging -- after ceell_messaging_init
  | registered -- after ceell_service_register("ota", ...)
  | running -- after ceell_ota_init
  | otaFailed -- after an error return of ceell_ota_init
  deriving DecidableEq

/-- The registry in that phase. -/
def bootRegistry (k : Kconfig) (cfg : CeellConfig) : BootPhase → Registry Builtin
  | .messaging =>
      (ceellServiceRegister k (some "echo".toList) (some .echo) (registerConfig k cfg).1).1
  | .registered | .running | .otaFailed => (bootServices k cfg .echo .ota).1

/-- The handling of a request: its place among the datagrams received, how
far `main` was, the uptime, and what `ceell_ota_get_state` gave. -/
structure Handling where
  idx : Nat
  phase : BootPhase
  now : Int
  shown : OtaState

structure ServingNode where
  phase : BootPhase
  server : ServerState (List Char)
  ota : OtaThread
  /-- what was handled, the newest first -/
  handled : List Handling
  /-- the requests whose handling has triggered a check, the newest first -/
  checkedBy : List Nat

inductive ServingAct where
  | thread (a : ServerAct (List Char) Builtin)
  | handle (p : MsgPriority) (now : Int) (shown : OtaState)
  | registerOta
  | otaInit (isConfirmed : Bool) (confirm : Int) -- what the boot loader answers it
  | ota (a : OtaThreadAct)

/-- The constants of a build, and the flash that it loads its configuration
from. -/
structure NodeBuild where
  lib : JsonLib
  tree : JsonTreeLib
  k : Kconfig
  defaults : ConfigDefaults
  flash : FlashWorld
  ota : OtaConfig
  /-- `CONFIG_CEELL_OTA_CHECK_INTERVAL_SEC` -/
  interval : Nat
  /-- `CONFIG_CEELL_OTA_AUTO_CONFIRM` -/
  autoConfirm : Bool := true

/-- The configuration of step 1. -/
def NodeBuild.cfg (b : NodeBuild) : CeellConfig := (ceellConfigLoad b.tree b.defaults b.flash).1

variable (b : NodeBuild)

/-- What a handler thread meets. -/
def servingWorld (phase : BootPhase) (now : Int) (shown : OtaState) : World Builtin :=
  ⟨now, bootRegistry b.k b.cfg phase, builtinAnswer shown b.ota.current⟩

/-- Whether serving the item calls `ceell_ota_trigger_check`. -/
def callsTrigger (phase : BootPhase) (now : Int) (shown : OtaState) (item : MsgDispatchItem) :
    Bool :=
  !deadlinePassed now item &&
    ceellServiceGetHandler (bootRegistry b.k b.cfg phase) item.toSvc.str == some .ota &&
    (ceellOtaServiceHandler shown b.ota.current item.payload.str rspPayload).triggered

/-- One step. While a check is in progress, the label says which of its
states `ceell_ota_get_state` gives. -/
def servingStep (s : ServingNode) : ServingAct → Option ServingNode
  | .thread a =>
      match a with
      | .handle _ _ => none
      | a =>
          (serverStep (msgDispatch b.lib) b.k.msgQueueDepth s.server a).map fun server =>
            { s with server := server }
  | .handle p now shown =>
      if s.ota.pc ≠ .checking ∧ shown ≠ s.ota.world.state then none
      else
        match s.server.hand p with
        | .handle i item =>
            (serverStep (msgDispatch b.lib) b.k.msgQueueDepth s.server
                (.handle p (servingWorld b s.phase now shown))).bind fun server =>
              let s := { s with
                server := server, handled := ⟨i, s.phase, now, shown⟩ :: s.handled }
              if callsTrigger b s.phase now shown item && decide (s.phase = .running) then
                (otaThreadStep b.ota b.lib b.interval s.ota (.trigger now)).map fun ota =>
                  { s with ota := ota, checkedBy := i :: s.checkedBy }
              else
                -- without a successful ceell_ota_init nobody waits for check_trigger, and what
                -- was given before it is gone with its ceell_sem_init
                some s
        | _ => none
  | .registerOta => if s.phase = .messaging then some { s with phase := .registered } else none
  | .otaInit isConfirmed confirm =>
      if s.phase = .registered then
        if ceellOtaInit b.autoConfirm isConfirmed confirm < 0 then
          some { s with phase := .otaFailed }
        else some { s with phase := .running }
      else none
  | .ota a =>
      if s.phase = .running then
        match a with
        | .trigger _ => none
        | .finish now p =>
            match otaCheckAndUpdate b.ota b.lib p s.ota.world with
            | (.rebooted, _) => none
            | _ =>
                (otaThreadStep b.ota b.lib b.interval s.ota (.finish now p)).map fun ota =>
                  { s with ota := ota }
        | a =>
            (otaThreadStep b.ota b.lib b.interval s.ota a).map fun ota => { s with ota := ota }
      else none

/-- Runs of the node from the end of step 8 on. -/
def servingMachine : Machine ServingNode ServingAct where
  init := ⟨.messaging, (serverMachine (msgDispatch b.lib) b.k.msgQueueDepth Builtin).init,
    .boot 0, [], []⟩
  step := servingStep b

/-! ## Which names have a handler -/

section Registry

variable {k : Kconfig} {cfg : CeellConfig}

theorem getHandler_eq {ν : Type} (services : Registry ν) (name : List Char) :
    ceellServiceGetHandler services name = (findEntry services name).bind (·.handler) := by
  unfold ceellServiceGetHandler findEntry
  split
  · rename_i e h
    rw [h, Option.bind_some]
  · rename_i h
    rw [h, Option.bind_none]

/-- The services of the configuration have no handler, and hide later ones of
their name. -/
theorem getHandler_registerAll {ν : Type} (hcount : cfg.serviceCount ≤ maxConfigServices)
    (hterm : ∀ i, (cfg.services i).Terminated) (more : List (List Char × Registration ν))
    (name : List Char) :
    ceellServiceGetHandler (registerAll k (configRegistrations ν cfg ++ more) []).1 name =
      if cstr name ∈ configuredNames cfg then none
      else (findEntry ((more.map fun x => newEntry x.1 x.2).take (k.maxServices - cfg.serviceCount))
        name).bind (·.handler) := by
  have hlen : ((configRegistrations ν cfg).map fun x => newEntry x.1 x.2).length
      = cfg.serviceCount := by rw [List.length_map, length_configRegistrations hcount]
  have hnone : ∀ e ∈ (configRegistrations ν cfg).map fun x => newEntry x.1 x.2,
      e.handler = none := by
    simp only [configRegistrations, List.map_map, List.mem_map]
    rintro e ⟨i, _, rfl⟩
    simp only [Function.comp_apply, newEntry, configuredAs]
    split <;> rfl
  rw [registerAll_services k _ (Nat.zero_le _), List.nil_append, List.map_append, List.take_append,
    hlen, getHandler_eq, findEntry, List.find?_append]
  cases hfind : (((configRegistrations ν cfg).map fun x => newEntry x.1 x.2).take
      k.maxServices).find? fun e => e.name.str == cstr name with
  | some e =>
    have hmem := List.mem_of_mem_take (List.mem_of_find?_eq_some hfind)
    have hname : e.name.str = cstr name := by simpa using List.find?_some hfind
    rw [Option.some_or, Option.bind_some, hnone e hmem]
    refine (if_pos ?_).symm
    rw [← names_configured (ν := ν) hterm, ← hname]
    exact List.mem_map_of_mem (f := fun e => e.name.str) hmem
  | none =>
    rw [Option.none_or]
    split
    · rename_i hconf
      -- the name is configured, and the registry was full before it
      obtain ⟨e, he, hname⟩ : ∃ e ∈ (configRegistrations ν cfg).map fun x => newEntry x.1 x.2,
          e.name.str = cstr name := by
        rw [← names_configured (ν := ν) hterm] at hconf
        exact List.mem_map.mp hconf
      have hfull : k.maxServices < cfg.serviceCount := by
        by_contra hroom
        rw [List.take_of_length_le (by omega)] at hfind
        have := List.find?_eq_none.mp hfind e he
        simp [hname] at this
      rw [Nat.sub_eq_zero_of_le (Nat.le_of_lt hfull), List.take_zero]
      rfl
    · rfl

/-- Which handler a name has. -/
def servedBy (k : Kconfig) (cfg : CeellConfig) (phase : BootPhase) (svc : List Char) :
    Option Builtin :=
  if svc ∈ configuredNames cfg then none
  else if svc = "echo".toList ∧ cfg.serviceCount < k.maxServices then some .echo
  else if svc = "ota".toList ∧ cfg.serviceCount + 1 < k.maxServices ∧ phase ≠ .messaging then
    some .ota
  else none

theorem findEntry_newEntry_cons {ν : Type} (name : List Char) (r : Registration ν)
    (services : Registry ν) (x : List Char) :
    findEntry (newEntry name r :: services) x
      = if (cstr name).take 31 = cstr x then some (newEntry name r) else findEntry services x := by
  unfold findEntry
  by_cases h : (cstr name).take 31 = cstr x
  · rw [if_pos h, List.find?_cons_of_pos (by simp [h])]
  · rw [if_neg h, List.find?_cons_of_neg (by simp [h])]

/-- The registrations that `main` makes itself. -/
def builtins : BootPhase → List (List Char × Registration Builtin)
  | .messaging => [("echo".toList, ⟨some .echo, 1, 0⟩)]
  | .registered | .running | .otaFailed => builtinRegistrations .echo .ota

theorem bootRegistry_eq (k : Kconfig) (cfg : CeellConfig) (phase : BootPhase) :
    bootRegistry k cfg phase
      = (registerAll k (configRegistrations Builtin cfg ++ builtins phase) []).1 := by
  have hlater : (bootServices k cfg Builtin.echo .ota).1
      = (registerAll k (configRegistrations Builtin cfg ++ builtinRegistrations .echo .ota) []).1 :=
    congrArg Prod.fst (bootServices_eq k cfg _ _)
  cases phase with
  | messaging =>
    rw [registerAll_append, ← registerConfig_eq]
    rfl
  | registered => exact hlater
  | running => exact hlater
  | otaFailed => exact hlater

/-- **The registry of a node** after the boot with any configuration. -/
theorem getHandler_bootRegistry (hcount : cfg.serviceCount ≤ maxConfigServices)
    (hterm : ∀ i, (cfg.services i).Terminated) (phase : BootPhase) (name : List Char) :
    ceellServiceGetHandler (bootRegistry k cfg phase) name = servedBy k cfg phase (cstr name) := by
  have hecho : (cstr "echo".toList).take 31 = "echo".toList := by decide
  have hota : (cstr "ota".toList).take 31 = "ota".toList := by decide
  have hnil : findEntry ([] : Registry Builtin) name = none := rfl
  have hlater : (findEntry (((builtinRegistrations Builtin.echo .ota).map fun x =>
        newEntry x.1 x.2).take (k.maxServices - cfg.serviceCount)) name).bind (·.handler) =
      if cstr name = "echo".toList ∧ cfg.serviceCount < k.maxServices then some .echo
      else if cstr name = "ota".toList ∧ cfg.serviceCount + 1 < k.maxServices then some .ota
      else none := by
    obtain hm | hm | ⟨m, hm⟩ : k.maxServices - cfg.serviceCount = 0 ∨
        k.maxServices - cfg.serviceCount = 1 ∨
        ∃ m, k.maxServices - cfg.serviceCount = m + 2 := by
      rcases h : k.maxServices - cfg.serviceCount with _ | _ | m
      · exact Or.inl rfl
      · exact Or.inr (Or.inl rfl)
      · exact Or.inr (Or.inr ⟨m, rfl⟩)
    · rw [hm, List.take_zero, hnil, if_neg (by omega), if_neg (by omega)]
      rfl
    · have hroom : cfg.serviceCount < k.maxServices := by omega
      rw [hm, builtinRegistrations, List.map_cons, List.take_succ_cons, List.take_zero,
        findEntry_newEntry_cons, hecho, hnil]
      by_cases hname : cstr name = "echo".toList
      · rw [if_pos hname.symm, if_pos ⟨hname, hroom⟩]
        rfl
      · rw [if_neg (Ne.symm hname), if_neg (fun h => hname h.1), if_neg (by omega)]
        rfl
    · have hroom : cfg.serviceCount + 1 < k.maxServices := by omega
      rw [hm, builtinRegistrations, List.map_cons, List.map_cons, List.map_nil,
        List.take_succ_cons, List.take_succ_cons, List.take_nil, findEntry_newEntry_cons,
        findEntry_newEntry_cons, hecho, hota, hnil]
      by_cases hname : cstr name = "echo".toList
      · rw [if_pos hname.symm, if_pos ⟨hname, by omega⟩]
        rfl
      · have hother : ¬ (cstr name = "echo".toList ∧ cfg.serviceCount < k.maxServices) :=
          fun h => hname h.1
        rw [if_neg (Ne.symm hname), if_neg hother]
        by_cases hname' : cstr name = "ota".toList
        · rw [if_pos hname'.symm, if_pos ⟨hname', hroom⟩]
          rfl
        · rw [if_neg (Ne.symm hname'), if_neg (fun h => hname' h.1)]
          rfl
  rw [bootRegistry_eq, getHandler_registerAll hcount hterm, servedBy]
  refine if_congr Iff.rfl rfl ?_
  cases phase with
  | registered => simpa [builtins] using hlater
  | running => simpa [builtins] using hlater
  | otaFailed => simpa [builtins] using hlater
  | messaging =>
    rw [builtins, List.map_cons, List.map_nil]
    rcases h : k.maxServices - cfg.serviceCount with _ | m
    · rw [List.take_zero, hnil, if_neg (by omega), if_neg (by simp)]
      rfl
    · rw [List.take_succ_cons, List.take_nil, findEntry_newEntry_cons, hecho, hnil]
      by_cases hname : cstr name = "echo".toList
      · rw [if_pos hname.symm, if_pos ⟨hname, by omega⟩]
        rfl
      · rw [if_neg (Ne.symm hname), if_neg (fun h => hname h.1), if_neg (by simp)]
        rfl

end Registry

/-! ## What each step does -/

section Steps

variable {b : NodeBuild} {s s' : ServingNode}

theorem servingStep_thread {a : ServerAct (List Char) Builtin}
    (hs : servingStep b s (.thread a) = some s') :
    (∀ p w, a ≠ .handle p w) ∧ ∃ server,
      serverStep (msgDispatch b.lib) b.k.msgQueueDepth s.server a = some server ∧
      s' = { s with server := server } := by
  cases a <;> simp only [servingStep, Option.map_eq_some_iff, reduceCtorEq] at hs
  all_goals
    obtain ⟨server, hserver, rfl⟩ := hs
    exact ⟨fun p w => by simp, server, hserver, rfl⟩

theorem servingStep_handle {p : MsgPriority} {now : Int} {shown : OtaState}
    (hs : servingStep b s (.handle p now shown) = some s') :
    ∃ i item, s.server.hand p = .handle i item ∧
      serverStep (msgDispatch b.lib) b.k.msgQueueDepth s.server
        (.handle p (servingWorld b s.phase now shown)) = some s'.server ∧
      s'.phase = s.phase ∧ s'.handled = ⟨i, s.phase, now, shown⟩ :: s.handled ∧
      ((¬ (callsTrigger b s.phase now shown item = true ∧ s.phase = .running) ∧ s'.ota = s.ota ∧
          s'.checkedBy = s.checkedBy) ∨
        (callsTrigger b s.phase now shown item = true ∧ s.phase = .running ∧
          otaThreadStep b.ota b.lib b.interval s.ota (.trigger now) = some s'.ota ∧
          s'.checkedBy = i :: s.checkedBy)) := by
  simp only [servingStep] at hs
  split at hs
  · cases hs
  split at hs
  · rename_i i item hat
    obtain ⟨server, hserver, hs⟩ := Option.bind_eq_some_iff.mp hs
    refine ⟨i, item, hat, ?_⟩
    split at hs
    · rename_i hcalls
      obtain ⟨hcalls, hrunning⟩ := Bool.and_eq_true_iff.mp hcalls
      obtain ⟨ota, hota, rfl⟩ := Option.map_eq_some_iff.mp hs
      exact ⟨hserver, rfl, rfl, Or.inr ⟨hcalls, of_decide_eq_true hrunning, hota, rfl⟩⟩
    · rename_i hnot
      obtain rfl := Option.some.inj hs
      refine ⟨hserver, rfl, rfl, Or.inl ⟨fun h => hnot ?_, rfl, rfl⟩⟩
      exact Bool.and_eq_true_iff.mpr ⟨h.1, decide_eq_true h.2⟩
  · cases hs

/-- A step of the OTA thread is its own, and no reboot. -/
theorem servingStep_ota {a : OtaThreadAct} (hs : servingStep b s (.ota a) = some s') :
    s.phase = .running ∧ (∀ now, a ≠ .trigger now) ∧
      (∀ now p w, a = .finish now p →
        otaCheckAndUpdate b.ota b.lib p s.ota.world ≠ (.rebooted, w)) ∧
      ∃ ota, otaThreadStep b.ota b.lib b.interval s.ota a = some ota ∧
        s' = { s with ota := ota } := by
  simp only [servingStep] at hs
  split at hs
  · rename_i hrunning
    refine ⟨hrunning, ?_⟩
    cases a with
    | trigger now => cases hs
    | finish now p =>
      simp only at hs
      split at hs
      · cases hs
      · rename_i hnot
        obtain ⟨ota, hota, rfl⟩ := Option.map_eq_some_iff.mp hs
        refine ⟨fun _ => by simp, fun now' p' w h => ?_, ota, hota, rfl⟩
        obtain ⟨rfl, rfl⟩ := OtaThreadAct.finish.inj h
        exact fun hreboot => hnot w hreboot
    | take now =>
      obtain ⟨ota, hota, rfl⟩ := Option.map_eq_some_iff.mp hs
      exact ⟨fun _ => by simp, fun _ _ _ h => by simp at h, ota, hota, rfl⟩
    | timeout now =>
      obtain ⟨ota, hota, rfl⟩ := Option.map_eq_some_iff.mp hs
      exact ⟨fun _ => by simp, fun _ _ _ h => by simp at h, ota, hota, rfl⟩
    | wake now =>
      obtain ⟨ota, hota, rfl⟩ := Option.map_eq_some_iff.mp hs
      exact ⟨fun _ => by simp, fun _ _ _ h => by simp at h, ota, hota, rfl⟩
  · cases hs

/-- The steps of `main` leave the threads alone, and the OTA thread is not
there before them. -/
theorem servingStep_main {a : ServingAct}
    (ha : a = .registerOta ∨ ∃ isConfirmed confirm, a = .otaInit isConfirmed confirm)
    (hs : servingStep b s a = some s') :
    s.phase ≠ .running ∧ ∃ phase, s' = { s with phase := phase } := by
  rcases ha with rfl | ⟨isConfirmed, confirm, rfl⟩
  · simp only [servingStep] at hs
    split at hs
    · rename_i hphase
      exact ⟨by rw [hphase]; decide, _, (Option.some.inj hs).symm⟩
    · cases hs
  · simp only [servingStep] at hs
    split at hs
    · rename_i hphase
      refine ⟨by rw [hphase]; decide, ?_⟩
      split at hs
      · exact ⟨_, (Option.some.inj hs).symm⟩
      · exact ⟨_, (Option.some.inj hs).symm⟩
    · cases hs

end Steps

/-! ## The answers and the checks they trigger -/

/-- A thread has given this answer to the `i`-th datagram, or is about to. -/
def Gives (s : ServerState (List Char)) (i : Nat) (a : RspArgs) : Prop :=
  ∃ p, (i, a) ∈ s.answered p ∨ s.hand p = .respond i a

/-- The answer of a node to a request, from its handling on record. -/
def GivenTo (i : Nat) (a : RspArgs) (received : List (List Char × SockAddr))
    (handled : List Handling) : Prop :=
  ∃ req src, IsRequest (msgDispatch b.lib) received i req src ∧ ∃ h ∈ handled, h.idx = i ∧
    a = handlerThreadFn (servingWorld b h.phase h.now h.shown) (msgPriorityOf req.priority)
      (dispatchItem req src)

/-- A positive answer to a request for a check. -/
def Checks (i : Nat) (a : RspArgs) (received : List (List Char × SockAddr)) : Prop :=
  ∃ req src, IsRequest (msgDispatch b.lib) received i req src ∧
    (dispatchItem req src).toSvc.str = "ota".toList ∧
    (dispatchItem req src).payload.str = "check".toList ∧ a.status = 0

/-- The request was handled with the OTA thread there. -/
def HandledRunning (handled : List Handling) (i : Nat) : Prop :=
  ∃ h ∈ handled, h.idx = i ∧ h.phase = .running

/-- The invariant of the node. -/
structure ServingInv (s : ServingNode) : Prop where
  server : RepliesInv b.lib b.k.msgQueueDepth Builtin s.server
  ota : ThreadInv b.interval s.ota
  given : ∀ i a, Gives s.server i a → GivenTo b i a s.server.received s.handled
  handled : ∀ h ∈ s.handled, ∃ a, Gives s.server h.idx a
  once : (s.handled.map (·.idx)).Nodup
  nodup : s.checkedBy.Nodup
  mem : ∀ i, i ∈ s.checkedBy ↔
    ∃ a, Gives s.server i a ∧ Checks b i a s.server.received ∧ HandledRunning s.handled i
  count : s.checkedBy.length = s.ota.triggers
  absent : s.phase ≠ .running → s.ota.checks = [] ∧ s.ota.pending = false

section Invariant

variable {b : NodeBuild}

section Server

variable {decode : List Char → Dispatch} {depth : Nat} {s s' : ServerState (List Char)}

theorem gives_of_same (hhand : ∀ p i a, s'.hand p = .respond i a ↔ s.hand p = .respond i a)
    (hanswered : s'.answered = s.answered) (i : Nat) (a : RspArgs) :
    Gives s' i a ↔ Gives s i a := by
  unfold Gives
  simp only [hhand, hanswered]

/-- Only a handler that returns gives a new answer. -/
theorem gives_thread {act : ServerAct (List Char) Builtin} (hact : ∀ p w, act ≠ .handle p w)
    (hs : serverStep decode depth s act = some s') (i : Nat) (a : RspArgs) :
    Gives s' i a ↔ Gives s i a := by
  cases act with
  | recv data src =>
    obtain ⟨_, rfl⟩ := step_recv hs
    exact Iff.rfl
  | dispatch =>
    obtain ⟨_, _, _, _, hcases⟩ := step_dispatch hs
    rcases hcases with ⟨_, _, _, rfl⟩ | ⟨_, _, _, rfl⟩ | ⟨_, rfl⟩
    · exact Iff.rfl
    · exact Iff.rfl
    · exact Iff.rfl
  | refuse =>
    obtain ⟨_, _, _, rfl⟩ := step_refuse hs
    exact Iff.rfl
  | get p =>
    obtain ⟨j, item, rest, hat, _, heq⟩ := step_get hs
    refine gives_of_same (fun q i a => ?_) (by rw [heq]) i a
    by_cases hq : q = p
    · subst hq
      simp [heq, hat]
    · simp [heq, hq]
  | handle p w => exact absurd rfl (hact p w)
  | respond p =>
    -- the answer in hand is now on record
    obtain ⟨j, c, hat, rfl⟩ := step_respond hs
    constructor
    · rintro ⟨q, hq⟩
      by_cases hqp : q = p
      · subst hqp
        have hq : (i, a) ∈ s.answered q ∨ i = j ∧ a = c := by simpa using hq
        rcases hq with hq | ⟨rfl, rfl⟩
        · exact ⟨q, Or.inl hq⟩
        · exact ⟨q, Or.inr hat⟩
      · exact ⟨q, by simpa [hqp] using hq⟩
    · rintro ⟨q, hq⟩
      refine ⟨q, ?_⟩
      by_cases hqp : q = p
      · subst hqp
        refine Or.inl ?_
        rcases hq with hq | hq
        · simp [hq]
        · obtain ⟨rfl, rfl⟩ := HandPc.respond.inj (hat.symm.trans hq)
          simp
      · simpa [hqp] using hq

/-- What was received stays. -/
theorem received_thread {act : ServerAct (List Char) Builtin}
    (hs : serverStep decode depth s act = some s') :
    s'.received = s.received ∨ ∃ x, s'.received = s.received ++ [x] := by
  cases act with
  | recv data src =>
    obtain ⟨_, rfl⟩ := step_recv hs
    exact Or.inr ⟨_, rfl⟩
  | dispatch =>
    obtain ⟨_, _, _, _, hcases⟩ := step_dispatch hs
    rcases hcases with ⟨_, _, _, rfl⟩ | ⟨_, _, _, rfl⟩ | ⟨_, rfl⟩
    · exact Or.inl rfl
    · exact Or.inl rfl
    · exact Or.inl rfl
  | refuse =>
    obtain ⟨_, _, _, rfl⟩ := step_refuse hs
    exact Or.inl rfl
  | get p =>
    obtain ⟨_, _, _, _, _, rfl⟩ := step_get hs
    exact Or.inl rfl
  | handle p w =>
    obtain ⟨_, _, _, rfl⟩ := step_handle hs
    exact Or.inl rfl
  | respond p =>
    obtain ⟨_, _, _, rfl⟩ := step_respond hs
    exact Or.inl rfl

/-- What a thread has in hand has no answer yet. -/
theorem not_gives_of_handle (h : ServerInv decode depth Builtin s) {p : MsgPriority} {i : Nat}
    {item : MsgDispatchItem} (hat : s.hand p = .handle i item) (a : RspArgs) : ¬ Gives s i a := by
  rintro ⟨q, hq⟩
  have hline : ∀ q, i ∈ s.line q → q = p := by
    intro q hq
    have hp : i ∈ s.line p := by simp [ServerState.line, hat, HandPc.idx]
    obtain ⟨req, src, hreq, rfl, _⟩ := ofLine_of_mem_line h hq
    obtain ⟨req', src', hreq', rfl, _⟩ := ofLine_of_mem_line h hp
    obtain ⟨rfl, _⟩ := hreq.unique hreq'
    rfl
  rcases hq with hq | hq
  · obtain rfl := hline q (by
      simp only [ServerState.line, List.append_assoc]
      exact List.mem_append_left _ (List.mem_map_of_mem (f := Prod.fst) hq))
    have horder := h.order q
    rw [ServerState.line, hat, List.append_assoc, List.pairwise_append] at horder
    exact absurd (horder.2.2 i (List.mem_map_of_mem (f := Prod.fst) hq) i
      (by simp [HandPc.idx])) (Nat.lt_irrefl i)
  · obtain rfl := hline q (by simp [ServerState.line, hq, HandPc.idx])
    rw [hat] at hq
    cases hq

theorem gives_handle {p : MsgPriority} {w : World Builtin} {i : Nat} {item : MsgDispatchItem}
    (hat : s.hand p = .handle i item) (hs : serverStep decode depth s (.handle p w) = some s')
    (j : Nat) (a : RspArgs) :
    Gives s' j a ↔ Gives s j a ∨ (j = i ∧ a = handlerThreadFn w p item) := by
  obtain ⟨i', item', hat', rfl⟩ := step_handle hs
  obtain ⟨rfl, rfl⟩ := HandPc.handle.inj (hat.symm.trans hat')
  constructor
  · rintro ⟨q, hq⟩
    by_cases hqp : q = p
    · subst hqp
      have hq : (j, a) ∈ s.answered q ∨ i = j ∧ handlerThreadFn w q item = a := by simpa using hq
      rcases hq with hq | ⟨rfl, rfl⟩
      · exact Or.inl ⟨q, Or.inl hq⟩
      · exact Or.inr ⟨rfl, rfl⟩
    · exact Or.inl ⟨q, by simpa [hqp] using hq⟩
  · rintro (⟨q, hq⟩ | ⟨rfl, rfl⟩)
    · refine ⟨q, ?_⟩
      by_cases hqp : q = p
      · subst hqp
        rw [hat] at hq
        exact Or.inl (by simpa using hq)
      · simpa [hqp] using hq
    · exact ⟨p, Or.inr (by simp)⟩

end Server

/-! ### Serving a request -/

/-- The configuration that was loaded. -/
theorem NodeBuild.getHandler (b : NodeBuild) (phase : BootPhase) (name : List Char) :
    ceellServiceGetHandler (bootRegistry b.k b.cfg phase) name
      = servedBy b.k b.cfg phase (cstr name) := by
  obtain ⟨hcount, hterm⟩ := load_services b.tree b.defaults b.flash
  exact getHandler_bootRegistry hcount hterm phase name

theorem isInt32_builtinAnswer (state : OtaState) (current : OtaVer) (handler : Builtin)
    (payload : List Char) : IsInt32 (builtinAnswer state current handler payload).status := by
  cases handler with
  | echo => exact (by decide : IsInt32 0)
  | ota =>
    have hret : (ceellOtaServiceHandler state current payload rspPayload).ret = 0 ∨
        (ceellOtaServiceHandler state current payload rspPayload).ret = -EINVAL :=
      ret_otaServiceHandler rspPayload
    show IsInt32 (ceellOtaServiceHandler state current payload rspPayload).ret
    rcases hret with h | h
    · rw [h]
      decide
    · rw [h]
      decide

/-- The handler of a name that is the name of a service of the node. -/
theorem servedBy_ota {k : Kconfig} {cfg : CeellConfig} {phase : BootPhase} {h : Builtin}
    (hserved : servedBy k cfg phase "ota".toList = some h) : h = .ota := by
  unfold servedBy at hserved
  split at hserved
  · cases hserved
  · rw [if_neg fun h => absurd h.1 (by decide)] at hserved
    split at hserved
    · exact (Option.some.inj hserved).symm
    · cases hserved

theorem servedBy_eq_ota {k : Kconfig} {cfg : CeellConfig} {phase : BootPhase} {svc : List Char}
    (hserved : servedBy k cfg phase svc = some .ota) : svc = "ota".toList := by
  unfold servedBy at hserved
  split at hserved
  · cases hserved
  · split at hserved
    · cases hserved
    · split at hserved
      · rename_i h
        exact h.1
      · cases hserved

/-- **A check is triggered** exactly by a request for one that is answered
with 0. -/
theorem callsTrigger_iff (b : NodeBuild) (phase : BootPhase) (now : Int) (shown : OtaState)
    (p : MsgPriority) (item : MsgDispatchItem) :
    callsTrigger b phase now shown item = true ↔
      item.toSvc.str = "ota".toList ∧ item.payload.str = "check".toList ∧
        (handlerThreadFn (servingWorld b phase now shown) p item).status = 0 := by
  have hname : cstr item.toSvc.str = item.toSvc.str := cstr_eq_self item.toSvc.nul_notMem_str
  have hpayload : cstr item.payload.str = item.payload.str :=
    cstr_eq_self item.payload.nul_notMem_str
  simp only [callsTrigger, Bool.and_eq_true, beq_iff_eq, b.getHandler, hname,
    triggered_otaServiceHandler, hpayload, Bool.not_eq_true']
  constructor
  · rintro ⟨⟨htime, hserved⟩, hcheck⟩
    refine ⟨servedBy_eq_ota hserved, hcheck, ?_⟩
    have hhandler : ceellServiceGetHandler (servingWorld b phase now shown).registry
        item.toSvc.str = some .ota :=
      (b.getHandler phase _).trans ((congrArg _ hname).trans hserved)
    simp only [handlerThreadFn, servingWorld, htime, Bool.false_eq_true, if_false] at hhandler ⊢
    rw [hhandler]
    show (ceellOtaServiceHandler shown b.ota.current item.payload.str rspPayload).ret = 0
    rw [hcheck]
    rfl
  · rintro ⟨hsvc, hcheck, hstatus⟩
    simp only [handlerThreadFn, servingWorld, b.getHandler, hsvc] at hstatus ⊢
    split at hstatus
    · exact absurd hstatus (by decide : -ETIMEDOUT ≠ 0)
    · rename_i htime
      split at hstatus
      · exact absurd hstatus (by decide : -ENOENT ≠ 0)
      · rename_i handler hserved
        obtain rfl := servedBy_ota hserved
        exact ⟨⟨eq_false_of_ne_true htime, hserved⟩, hcheck⟩

/-! ### Every step keeps it -/

variable {s s' : ServingNode}

theorem GivenTo.append {i : Nat} {a : RspArgs} {received : List (List Char × SockAddr)}
    {handled : List Handling} (h : GivenTo b i a received handled) (x : List Char × SockAddr) :
    GivenTo b i a (received ++ [x]) handled := by
  obtain ⟨req, src, hreq, hrest⟩ := h
  exact ⟨req, src, hreq.append x, hrest⟩

theorem GivenTo.cons {i : Nat} {a : RspArgs} {received : List (List Char × SockAddr)}
    {handled : List Handling} (h : GivenTo b i a received handled) (x : Handling) :
    GivenTo b i a received (x :: handled) := by
  obtain ⟨req, src, hreq, y, hy, hrest⟩ := h
  exact ⟨req, src, hreq, y, List.mem_cons_of_mem x hy, hrest⟩

theorem checks_append {i : Nat} {a : RspArgs} {received : List (List Char × SockAddr)}
    {handled : List Handling} (h : GivenTo b i a received handled) (x : List Char × SockAddr) :
    Checks b i a (received ++ [x]) ↔ Checks b i a received := by
  constructor
  · rintro ⟨req, src, hreq, hcheck⟩
    obtain ⟨req', src', hreq', _⟩ := h
    obtain ⟨rfl, rfl⟩ := hreq.unique (hreq'.append x)
    exact ⟨req, src, hreq', hcheck⟩
  · rintro ⟨req, src, hreq, hcheck⟩
    exact ⟨req, src, hreq.append x, hcheck⟩

theorem servingInv_thread (hints : b.lib.StoresInts) {a : ServerAct (List Char) Builtin}
    (h : ServingInv b s) (hs : servingStep b s (.thread a) = some s') : ServingInv b s' := by
  obtain ⟨hact, server, hserver, rfl⟩ := servingStep_thread hs
  have hint : IntHandlers s.server a := by
    cases a with
    | handle p w => exact absurd rfl (hact p w)
    | _ => trivial
  have hgives := gives_thread hact hserver
  have hkept : ∀ i a, Gives s.server i a → GivenTo b i a server.received s.handled ∧
      (Checks b i a server.received ↔ Checks b i a s.server.received) := by
    intro i a hg
    rcases received_thread hserver with heq | ⟨x, heq⟩
    · rw [heq]
      exact ⟨h.given i a hg, Iff.rfl⟩
    · rw [heq]
      exact ⟨(h.given i a hg).append x, checks_append (h.given i a hg) x⟩
  constructor
  · exact repliesInv_step hints h.server hint hserver
  · exact h.ota
  · exact fun i a hg => (hkept i a ((hgives i a).mp hg)).1
  · intro y hy
    obtain ⟨a, hg⟩ := h.handled y hy
    exact ⟨a, (hgives _ a).mpr hg⟩
  · exact h.once
  · exact h.nodup
  · intro i
    refine (h.mem i).trans (exists_congr fun a => ?_)
    rw [hgives]
    exact and_congr_right fun hg => and_congr_left fun _ => (hkept i a hg).2.symm
  · exact h.count
  · exact h.absent

theorem handledRunning_cons {handled : List Handling} {x : Handling} {j : Nat} :
    HandledRunning (x :: handled) j ↔
      (x.idx = j ∧ x.phase = .running) ∨ HandledRunning handled j := by
  simp [HandledRunning]

/-- A request without an answer has been handled, with this answer. -/
structure HandledNew (b : NodeBuild) (s s' : ServingNode) (x : Handling) (a : RspArgs) : Prop where
  fresh : ∀ c, ¬ Gives s.server x.idx c
  gives : ∀ j c, Gives s'.server j c ↔ Gives s.server j c ∨ (j = x.idx ∧ c = a)
  given : GivenTo b x.idx a s.server.received [x]
  received : s'.server.received = s.server.received
  handled : s'.handled = x :: s.handled

theorem servingStep_handled {p : MsgPriority} {now : Int} {shown : OtaState} (h : ServingInv b s)
    (hs : servingStep b s (.handle p now shown) = some s') {i : Nat} {item : MsgDispatchItem}
    (hat : s.server.hand p = .handle i item) :
    HandledNew b s s' ⟨i, s.phase, now, shown⟩
        (handlerThreadFn (servingWorld b s.phase now shown) p item) ∧
      (callsTrigger b s.phase now shown item = true ↔
        Checks b i (handlerThreadFn (servingWorld b s.phase now shown) p item)
          s.server.received) := by
  obtain ⟨i', item', hat', hserver, _, hhandled, _⟩ := servingStep_handle hs
  obtain ⟨rfl, rfl⟩ := HandPc.handle.inj (hat.symm.trans hat')
  -- the request that the answer is for
  obtain ⟨req, src, hreq, rfl, rfl⟩ : ∃ req src,
      IsRequest (msgDispatch b.lib) s.server.received i req src ∧
      msgPriorityOf req.priority = p ∧ item = dispatchItem req src := by
    have hhand := h.server.server.hand p
    rw [hat] at hhand
    exact hhand
  constructor
  · constructor
    · exact not_gives_of_handle h.server.server hat
    · exact gives_handle hat hserver
    · exact ⟨req, src, hreq, _, List.mem_singleton_self _, rfl, rfl⟩
    · obtain ⟨_, _, _, heq⟩ := step_handle hserver
      rw [heq]
    · exact hhandled
  · rw [callsTrigger_iff b s.phase now shown (msgPriorityOf req.priority)]
    constructor
    · exact fun hc => ⟨req, src, hreq, hc⟩
    · rintro ⟨req', src', hreq', hc⟩
      obtain ⟨rfl, rfl⟩ := hreq.unique hreq'
      exact hc

namespace HandledNew

variable {x : Handling} {a : RspArgs}

theorem ne_of_mem (hn : HandledNew b s s' x a) (h : ServingInv b s) {y : Handling}
    (hy : y ∈ s.handled) : y.idx ≠ x.idx := by
  intro heq
  obtain ⟨c, hg⟩ := h.handled y hy
  exact hn.fresh c (heq ▸ hg)

theorem givenTo (hn : HandledNew b s s' x a) (h : ServingInv b s) (j : Nat) (c : RspArgs)
    (hg : Gives s'.server j c) : GivenTo b j c s'.server.received s'.handled := by
  rw [hn.received, hn.handled]
  rcases (hn.gives j c).mp hg with hg | ⟨rfl, rfl⟩
  · exact (h.given j c hg).cons x
  · obtain ⟨req, src, hreq, y, hy, hrest⟩ := hn.given
    exact ⟨req, src, hreq, y, List.mem_cons.mpr (Or.inl (List.mem_singleton.mp hy)), hrest⟩

theorem recorded (hn : HandledNew b s s' x a) (h : ServingInv b s) :
    ∀ y ∈ s'.handled, ∃ c, Gives s'.server y.idx c := by
  rw [hn.handled, List.forall_mem_cons]
  refine ⟨⟨a, (hn.gives _ _).mpr (Or.inr ⟨rfl, rfl⟩)⟩, fun y hy => ?_⟩
  obtain ⟨c, hg⟩ := h.handled y hy
  exact ⟨c, (hn.gives _ c).mpr (Or.inl hg)⟩

theorem once (hn : HandledNew b s s' x a) (h : ServingInv b s) :
    (s'.handled.map (·.idx)).Nodup := by
  rw [hn.handled, List.map_cons, List.nodup_cons]
  refine ⟨fun hmem => ?_, h.once⟩
  obtain ⟨y, hy, hidx⟩ := List.mem_map.mp hmem
  exact hn.ne_of_mem h hy hidx

theorem notMem (hn : HandledNew b s s' x a) (h : ServingInv b s) : x.idx ∉ s.checkedBy := by
  intro hmem
  obtain ⟨c, hg, _⟩ := (h.mem x.idx).mp hmem
  exact hn.fresh c hg

/-- Only the request that was handled can be a new one for a check. -/
theorem checks_iff (hn : HandledNew b s s' x a) (h : ServingInv b s) (j : Nat) :
    (∃ c, Gives s'.server j c ∧ Checks b j c s'.server.received ∧ HandledRunning s'.handled j) ↔
      j ∈ s.checkedBy ∨
        (j = x.idx ∧ Checks b x.idx a s.server.received ∧ x.phase = .running) := by
  simp only [hn.gives, hn.received, h.mem, hn.handled, handledRunning_cons]
  constructor
  · rintro ⟨c, hg | ⟨rfl, rfl⟩, hc, hrun⟩
    · refine Or.inl ⟨c, hg, hc, hrun.resolve_left ?_⟩
      rintro ⟨rfl, _⟩
      exact hn.fresh c hg
    · refine Or.inr ⟨rfl, hc, ?_⟩
      rcases hrun with ⟨_, hrun⟩ | ⟨y, hy, hidx, _⟩
      · exact hrun
      · exact absurd hidx (hn.ne_of_mem h hy)
  · rintro (⟨c, hg, hc, hrun⟩ | ⟨rfl, hc, hrun⟩)
    · exact ⟨c, Or.inl hg, hc, Or.inr hrun⟩
    · exact ⟨a, Or.inr ⟨rfl, rfl⟩, hc, Or.inl ⟨rfl, hrun⟩⟩

end HandledNew

theorem servingInv_handle (hints : b.lib.StoresInts) {p : MsgPriority} {now : Int}
    {shown : OtaState} (h : ServingInv b s)
    (hs : servingStep b s (.handle p now shown) = some s') : ServingInv b s' := by
  obtain ⟨i, item, hat, hserver, hphase, _, hcases⟩ := servingStep_handle hs
  obtain ⟨hn, hcalls⟩ := servingStep_handled h hs hat
  have hint : IntHandlers s.server (.handle p (servingWorld b s.phase now shown)) :=
    fun handler payload => isInt32_builtinAnswer shown b.ota.current handler payload
  have hservers := repliesInv_step hints h.server hint hserver
  rcases hcases with ⟨hnot, hota, hby⟩ | ⟨htrigger, hrunning, hota, hby⟩
  · refine ⟨hservers, hota ▸ h.ota, hn.givenTo h, hn.recorded h, hn.once h, hby ▸ h.nodup, ?_,
      by rw [hby, hota, h.count], by rw [hphase, hota]; exact h.absent⟩
    intro j
    rw [hn.checks_iff h, hby, ← hcalls]
    exact (or_iff_left fun hj => hnot hj.2).symm
  · refine ⟨hservers, threadInv_step h.ota hota, hn.givenTo h, hn.recorded h, hn.once h, ?_, ?_,
      ?_, fun hnot => absurd (hphase.trans hrunning) hnot⟩
    · rw [hby]
      exact List.nodup_cons.mpr ⟨hn.notMem h, h.nodup⟩
    · intro j
      rw [hn.checks_iff h, hby, List.mem_cons, or_comm]
      exact or_congr_right ⟨fun hj => ⟨hj, hcalls.mp htrigger, hrunning⟩, And.left⟩
    · rw [hby, List.length_cons, h.count, triggers_trigger hota]

/-- The steps of `main` before the OTA thread is there. -/
theorem servingInv_main {a : ServingAct}
    (ha : a = .registerOta ∨ ∃ isConfirmed confirm, a = .otaInit isConfirmed confirm)
    (h : ServingInv b s) (hs : servingStep b s a = some s') : ServingInv b s' := by
  obtain ⟨hbefore, phase, rfl⟩ := servingStep_main ha hs
  exact ⟨h.server, h.ota, h.given, h.handled, h.once, h.nodup, h.mem, h.count,
    fun _ => h.absent hbefore⟩

theorem servingInv_step (hints : b.lib.StoresInts) {a : ServingAct} (h : ServingInv b s)
    (hs : servingStep b s a = some s') : ServingInv b s' := by
  cases a with
  | thread a => exact servingInv_thread hints h hs
  | handle p now shown => exact servingInv_handle hints h hs
  | registerOta => exact servingInv_main (Or.inl rfl) h hs
  | otaInit isConfirmed confirm => exact servingInv_main (Or.inr ⟨_, _, rfl⟩) h hs
  | ota a =>
    obtain ⟨hrunning, hother, _, ota, hota, rfl⟩ := servingStep_ota hs
    exact ⟨h.server, threadInv_step h.ota hota, h.given, h.handled, h.once, h.nodup, h.mem,
      h.count.trans (triggers_other hother hota).symm, fun hnot => absurd hrunning hnot⟩

theorem servingInv_reachable (hints : b.lib.StoresInts) (hr : (servingMachine b).Reachable s) :
    ServingInv b s := by
  refine Machine.Reachable.induct (P := ServingInv b) ?_
    (fun _ _ _ h hs => servingInv_step hints h hs) hr
  have hgives : ∀ i a,
      ¬ Gives (serverMachine (msgDispatch b.lib) b.k.msgQueueDepth Builtin).init i a := by
    simp [Gives, serverMachine]
  constructor
  · exact ⟨serverInv_init, by simp [serverMachine, servingMachine],
      by simp [serverMachine, servingMachine]⟩
  · exact @threadInv_init b.ota b.lib b.interval
  · exact fun i a hg => absurd hg (hgives i a)
  · exact List.forall_mem_nil _
  · exact List.nodup_nil
  · exact List.nodup_nil
  · refine fun i => iff_of_false List.not_mem_nil ?_
    rintro ⟨a, hg, _⟩
    exact hgives i a hg
  · rfl
  · exact fun _ => ⟨rfl, rfl⟩

end Invariant

/-! ## Results -/

/-- The answer of a node that handles an item like that, and its text. -/
inductive NodeAnswer (b : NodeBuild) (h : Handling) (item : MsgDispatchItem) :
    Int → List Char → Prop
  | expired (hpassed : deadlinePassed h.now item = true) :
      NodeAnswer b h item (-ETIMEDOUT) "deadline expired".toList
  | unknown (htime : deadlinePassed h.now item = false)
      (hserved : servedBy b.k b.cfg h.phase item.toSvc.str = none) :
      NodeAnswer b h item (-ENOENT) "unknown service".toList
  | echo (htime : deadlinePassed h.now item = false)
      (hserved : servedBy b.k b.cfg h.phase item.toSvc.str = some .echo) :
      NodeAnswer b h item 0 item.payload.str
  | ota (htime : deadlinePassed h.now item = false)
      (hserved : servedBy b.k b.cfg h.phase item.toSvc.str = some .ota) :
      NodeAnswer b h item
        (ceellOtaServiceHandler h.shown b.ota.current item.payload.str rspPayload).ret
        (otaReplyText h.shown b.ota.current item.payload.str)

section Results

variable {b : NodeBuild} {s : ServingNode}

theorem nodeAnswer_handlerThreadFn (b : NodeBuild) (h : Handling) (p : MsgPriority)
    {item : MsgDispatchItem} (hterm : item.payload.Terminated) :
    NodeAnswer b h item (handlerThreadFn (servingWorld b h.phase h.now h.shown) p item).status
      (handlerThreadFn (servingWorld b h.phase h.now h.shown) p item).payload := by
  have hname : cstr item.toSvc.str = item.toSvc.str := cstr_eq_self item.toSvc.nul_notMem_str
  have hserved : ceellServiceGetHandler (servingWorld b h.phase h.now h.shown).registry
      item.toSvc.str = servedBy b.k b.cfg h.phase item.toSvc.str :=
    (b.getHandler h.phase _).trans (congrArg _ hname)
  unfold handlerThreadFn
  split
  · rename_i hpassed
    exact .expired hpassed
  · rename_i htime
    replace htime : deadlinePassed h.now item = false := eq_false_of_ne_true htime
    rw [hserved]
    cases hby : servedBy b.k b.cfg h.phase item.toSvc.str with
    | none => exact .unknown htime hby
    | some handler =>
      cases handler with
      | echo =>
        have hlen := item.payload.length_str_lt hterm
        have htext : (echoHandler item.payload.str rspPayload).1.str = item.payload.str := by
          rw [echoHandler, CharBuf.terminate_copy, CharBuf.str_copy_zero,
            cstr_eq_self item.payload.nul_notMem_str]
          exact List.take_of_length_le (Nat.le_of_lt_succ hlen)
        show NodeAnswer b h item 0 (echoHandler item.payload.str rspPayload).1.str
        rw [htext]
        exact .echo htime hby
      | ota =>
        have htext : (ceellOtaServiceHandler h.shown b.ota.current item.payload.str
            rspPayload).rspPayload.str = otaReplyText h.shown b.ota.current item.payload.str :=
          (str_otaServiceHandler (by decide) rspPayload).2
        show NodeAnswer b h item _
          (ceellOtaServiceHandler h.shown b.ota.current item.payload.str rspPayload).rspPayload.str
        rw [htext]
        exact .ota htime hby

/-- What the OTA service answers with 0 is its reply. -/
theorem NodeAnswer.of_ota {h : Handling} {item : MsgDispatchItem} {text : List Char} {status : Int}
    (hanswer : NodeAnswer b h item status text) (hsvc : item.toSvc.str = "ota".toList)
    (hok : status = 0) : text = otaReplyText h.shown b.ota.current item.payload.str := by
  cases hanswer with
  | expired _ => exact absurd hok (by decide)
  | unknown _ _ => exact absurd hok (by decide)
  | echo _ hserved => exact absurd (servedBy_ota (hsvc ▸ hserved)) (by decide)
  | ota _ _ => rfl

/-- The answer that the node gives to an answered request. -/
theorem answer_of_mem (h : ServingInv b s) {p : MsgPriority} {x : Nat × RspArgs}
    (hx : x ∈ s.server.answered p) {req : MsgReq} {src : SockAddr}
    (hreq : IsRequest (msgDispatch b.lib) s.server.received x.1 req src) :
    x.2.dest = src ∧ x.2.seq = req.seq ∧ ∃ y ∈ s.handled, y.idx = x.1 ∧
      NodeAnswer b y (dispatchItem req src) x.2.status x.2.payload := by
  obtain ⟨req', src', hreq', y, hy, hidx, ha⟩ := h.given x.1 x.2 ⟨p, Or.inl hx⟩
  obtain ⟨rfl, rfl⟩ := hreq.unique hreq'
  obtain ⟨hdest, hseq, _⟩ := handlerThreadFn_addressed (servingWorld b y.phase y.now y.shown)
    (msgPriorityOf req.priority) (dispatchItem req src)
  rw [ha]
  exact ⟨hdest, hseq, y, hy, hidx,
    nodeAnswer_handlerThreadFn b y _ (CharBuf.terminated_copyOpt_zero _)⟩

/-- A node with one configured service. -/
def brakeBuild : NodeBuild where
  lib := jsonEscapeReference
  tree := jsonTreeReference
  k := {}
  defaults := {}
  flash := servicesFlash "braking".toList
  ota := sampleConfig
  interval := 300

/-- A request to a service, as it is received. -/
def requestText (svc payload : String) : List Char :=
  "\x7b\"type\":\"req\",\"seq\":1,\"from_id\":9,\"to_svc\":\"".toList ++ svc.toList ++
    "\",\"payload\":\"".toList ++ payload.toList ++
    "\",\"priority\":1,\"deadline_ms\":0,\"send_time_ms\":0\x7d".toList

/-- The steps that serve a request. -/
def serve (svc payload : String) (now : Int) : List ServingAct :=
  [.thread (.recv (requestText svc payload) ⟨1, 1⟩), .thread .dispatch, .thread (.get .normal),
   .handle .normal now .idle, .thread (.respond .normal)]

/-- A request comes before the OTA service is there, one for a check before
its thread is, and others after that. -/
def brakeRun : List ServingAct :=
  serve "ota" "version" 5 ++ [.registerOta] ++ serve "ota" "check" 6 ++ [.otaInit true 0] ++
    serve "braking" "on" 7 ++ serve "ota" "version" 8 ++ serve "ota" "check" 9 ++ [.ota (.take 10)]

theorem brakeRun_run :
    ∃ s, (servingMachine brakeBuild).run brakeRun = some s ∧
      (s.server.answered .normal).map (fun x => (x.1, x.2.status)) =
        [(0, -ENOENT), (1, 0), (2, -ENOENT), (3, 0), (4, 0)] ∧
      s.server.received[3]? = some (requestText "ota" "version", ⟨1, 1⟩) ∧
      s.checkedBy = [4] ∧ s.ota.checks = [⟨10, true, none⟩] := by
  obtain ⟨s, hs⟩ : ∃ s, (servingMachine brakeBuild).run brakeRun = some s :=
    Option.isSome_iff_exists.mp (by decide +kernel)
  have hend : ((servingMachine brakeBuild).run brakeRun).map (fun s =>
      ((s.server.answered .normal).map (fun x => (x.1, x.2.status)), s.checkedBy, s.ota.checks)) =
      some ([(0, -ENOENT), (1, 0), (2, -ENOENT), (3, 0), (4, 0)], [4], [⟨10, true, none⟩]) := by
    decide +kernel
  have hreceived : ((servingMachine brakeBuild).run brakeRun).map (fun s => s.server.received[3]?)
      = some (some (requestText "ota" "version", ⟨1, 1⟩)) := by
    decide +kernel
  simp only [hs, Option.map_some, Option.some.injEq, Prod.mk.injEq] at hend hreceived
  exact ⟨s, hs, hend.1, hreceived, hend.2⟩

/-- **What a node answers**, booted with whatever is in its flash, by the
uptime and the phase of `main` when the request was handled: `echo` and
`ota`, where no service of the configuration has their name and the registry
had room for them, are answered by their handlers, every other name, those of
the configuration among them, is unknown, and what is late is refused. -/
theorem nodeAnswers_ok (hints : b.lib.StoresInts) (hr : (servingMachine b).Reachable s)
    (p : MsgPriority) (x : Nat × RspArgs) (hx : x ∈ s.server.answered p) :
    ∃ req src, IsRequest (msgDispatch b.lib) s.server.received x.1 req src ∧
      ∃ h ∈ s.handled, (∀ h' ∈ s.handled, h'.idx = x.1 ↔ h' = h) ∧
        NodeAnswer b h (dispatchItem req src) x.2.status x.2.payload ∧
        ((dispatchItem req src).toSvc.str ∈ configuredNames b.cfg →
          deadlinePassed h.now (dispatchItem req src) = true ∧ x.2.status = -ETIMEDOUT ∨
            deadlinePassed h.now (dispatchItem req src) = false ∧ x.2.status = -ENOENT) := by
  have h := servingInv_reachable hints hr
  obtain ⟨req, src, hreq, _⟩ := h.given x.1 x.2 ⟨p, Or.inl hx⟩
  obtain ⟨_, _, y, hy, hidx, hanswer⟩ := answer_of_mem h hx hreq
  have hunique : ∀ y' ∈ s.handled, y'.idx = x.1 ↔ y' = y := by
    intro y' hy'
    constructor
    · exact fun heq => List.inj_on_of_nodup_map h.once hy' hy (heq.trans hidx.symm)
    · rintro rfl
      exact hidx
  refine ⟨req, src, hreq, y, hy, hunique, hanswer, fun hconf => ?_⟩
  have hnone : servedBy b.k b.cfg y.phase (dispatchItem req src).toSvc.str = none := if_pos hconf
  generalize x.2.status = status, x.2.payload = text at hanswer ⊢
  cases hanswer with
  | expired hpassed => exact Or.inl ⟨hpassed, rfl⟩
  | unknown htime _ => exact Or.inr ⟨htime, rfl⟩
  | echo _ hserved => exact absurd (hnone.symm.trans hserved) (by simp)
  | ota _ hserved => exact absurd (hnone.symm.trans hserved) (by simp)

theorem nodeAnswers_ok_brake :
    ∃ s, (servingMachine brakeBuild).run brakeRun = some s ∧
      (s.server.answered .normal).map (fun x => (x.1, x.2.status)) =
        [(0, -ENOENT), (1, 0), (2, -ENOENT), (3, 0), (4, 0)] ∧
      ∀ x ∈ s.server.answered .normal, ∃ req src,
        IsRequest (msgDispatch jsonEscapeReference) s.server.received x.1 req src ∧
        ∃ h ∈ s.handled,
          NodeAnswer brakeBuild h (dispatchItem req src) x.2.status x.2.payload := by
  obtain ⟨s, hs, hanswered, _⟩ := brakeRun_run
  refine ⟨s, hs, hanswered, fun x hx => ?_⟩
  obtain ⟨req, src, hreq, y, hy, _, hanswer, _⟩ :=
    nodeAnswers_ok jsonEscapeReference_storesInts ⟨_, hs⟩ .normal x hx
  exact ⟨req, src, hreq, y, hy, hanswer⟩

end Results

end Ceell
