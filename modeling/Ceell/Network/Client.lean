/-
Ceell.Network.Client — `ceell_msg_send_pri` and `handle_response`, which
share one response slot, one `pending_seq` and one semaphore for each
priority.

Any number of calls is under way, each at its own program counter; a
label says which call takes its next step. The steps are those of the
source: the mutex-protected claim of the slot, the send, the
`ceell_sem_take`, and the mutex-protected copy-out; and, in the
dispatcher, the mutex-protected `handle_response` with its give.

The slot of a priority is `Filled` when it holds a response that matches
its `pending_seq`. `ClientInv` says that an available semaphore means a
filled slot, and that the slot of a call which has taken the semaphore is
filled if it is still that call's. So a call copies out its own response
if nobody has claimed the slot since, which is the condition of
`success_served`; `stolenSlot_not_served` is a run in which somebody has.
-/
import Ceell.Lib.Machine
import Ceell.Network.Messaging
import Ceell.Osal.Sync
import Mathlib.Data.List.Nodup
import Mathlib.Logic.Function.Basic

namespace Ceell.Network

open Ceell.Lib Ceell.Core Ceell.Osal

/-! ## The calls -/

/-- Calls are known by numbers. -/
abbrev CallId := Nat

/-- The arguments of `ceell_msg_send_pri` that later steps read, and the
uptime recorded as send time. -/
structure CallArgs where
  service : List Char
  payload : List Char
  priority : Int
  deadlineMs : UInt16
  sendTime : Int
  deriving DecidableEq

/-- `ceell_msg_send`: the arguments it hands on. -/
def ceellMsgSend (service payload : List Char) (sendTime : Int) : CallArgs :=
  ⟨service, payload, MsgPriority.normal.toInt, 0, sendTime⟩

/-- A call that has claimed the slot of its priority. -/
structure Call where
  args : CallArgs
  pri : MsgPriority
  seq : UInt32
  deriving DecidableEq

/-- Where a call stands. -/
inductive CallPc where
  | start
  | claimed (c : Call) -- before the encoding and the send
  | sent (c : Call) -- at `ceell_sem_take`
  | waiting (c : Call) -- in `ceell_sem_take`
  | taken (c : Call) -- before the copy-out
  | failed (ret : Int)
  | returned (c : Call) (rsp : CeellMsg) -- returned 0
  deriving DecidableEq

/-- The returns before the claim. -/
inductive Reject where
  | nullArgument
  | noPeer
  | noIdentity

def Reject.ret : Reject → Int
  | nullArgument => -EINVAL
  | noPeer => -ENOENT
  | noIdentity => -ENODEV

/-- What becomes of the encoding and the send. -/
inductive SendResult where
  | sent
  | encodeFailed
  | sendFailed (ret : Int)

structure ClientState where
  nextSeq : UInt32
  pendingSeq : MsgPriority → UInt32
  pendingRsp : MsgPriority → CeellMsg
  rspSem : MsgPriority → Sem CallId
  calls : CallId → CallPc
  /-- the responses given to `handle_response` -/
  handled : List MsgRsp
  /-- the last call to claim the slot of a priority -/
  owner : MsgPriority → Option CallId

inductive ClientAct where
  | reject (c : CallId) (why : Reject)
  | claim (c : CallId) (args : CallArgs)
  | send (c : CallId) (r : SendResult)
  | take (c : CallId)
  | timeout (c : CallId)
  | copyOut (c : CallId)
  | handleResponse (rsp : MsgRsp) (wake : Option CallId)

/-! ## The steps -/

/-- What `handle_response` stores in a slot. -/
def storeRsp (slot : CeellMsg) (pri : MsgPriority) (rsp : MsgRsp) : CeellMsg :=
  { slot with
    status := rsp.status
    priority := pri
    payload := match rsp.payload with
      | some src => (slot.payload.copy src).terminate
      | none => ⟨slot.payload.bytes.set 0 nul, by simp [slot.payload.size_eq]⟩ }

/-- The claim of the response slot: the calls waiting for it fail. -/
def claimSlot (s : ClientState) (c : CallId) (args : CallArgs) : ClientState :=
  let p := msgPriorityOf args.priority
  let seq := s.nextSeq
  { s with
    nextSeq := s.nextSeq + 1
    pendingSeq := Function.update s.pendingSeq p seq
    pendingRsp := Function.update s.pendingRsp p .zero
    rspSem := Function.update s.rspSem p (s.rspSem p).reset
    calls := Function.update
      (fun d => if d ∈ (s.rspSem p).waiters then .failed (-ETIMEDOUT) else s.calls d)
      c (.claimed ⟨args, p, seq⟩)
    owner := Function.update s.owner p (some c) }

/-- The slot of its priority after a response that matches. -/
def fillSlot (s : ClientState) (rsp : MsgRsp) : ClientState :=
  let p := msgPriorityOf rsp.priority
  { s with
    pendingRsp := Function.update s.pendingRsp p (storeRsp (s.pendingRsp p) p rsp)
    handled := s.handled ++ [rsp] }

/-- `handle_response`; `wake` is the waiter its give wakes. -/
def handleResponse (s : ClientState) (rsp : MsgRsp) (wake : Option CallId) : Option ClientState :=
  let p := msgPriorityOf rsp.priority
  if toUInt32 rsp.seq = s.pendingSeq p then
    match (s.rspSem p).give wake with
    | none => none
    | some sem =>
        let filled := { fillSlot s rsp with rspSem := Function.update s.rspSem p sem }
        match wake with
        | none => some filled
        | some c =>
            match s.calls c with
            | .waiting call =>
                some { filled with calls := Function.update s.calls c (.taken call) }
            | _ => none
  else if wake = none then some { s with handled := s.handled ++ [rsp] }
  else none

/-- What the copy-out gives the caller. -/
def copyOut (s : ClientState) (call : Call) : CeellMsg :=
  { s.pendingRsp call.pri with
    priority := call.pri
    deadlineMs := call.args.deadlineMs
    sendTimeMs := call.args.sendTime }

def clientStep (s : ClientState) : ClientAct → Option ClientState
  | .reject c why =>
      match s.calls c with
      | .start => some { s with calls := Function.update s.calls c (.failed why.ret) }
      | _ => none
  | .claim c args =>
      match s.calls c with
      | .start => some (claimSlot s c args)
      | _ => none
  | .send c r =>
      match s.calls c with
      | .claimed call =>
          some { s with
            calls := Function.update s.calls c (match r with
              | .sent => .sent call
              | .encodeFailed => .failed (-ENOMEM)
              | .sendFailed ret => .failed ret) }
      | _ => none
  | .take c =>
      match s.calls c with
      | .sent call =>
          let r := (s.rspSem call.pri).take c
          some { s with
            rspSem := Function.update s.rspSem call.pri r.1
            calls := Function.update s.calls c (if r.2 then .taken call else .waiting call) }
      | _ => none
  | .timeout c =>
      match s.calls c with
      | .waiting call =>
          some { s with
            rspSem := Function.update s.rspSem call.pri ((s.rspSem call.pri).leave c)
            calls := Function.update s.calls c (.failed (-ETIMEDOUT)) }
      | _ => none
  | .copyOut c =>
      match s.calls c with
      | .taken call =>
          some { s with calls := Function.update s.calls c (.returned call (copyOut s call)) }
      | _ => none
  | .handleResponse rsp wake => handleResponse s rsp wake

/-- The slots after `ceell_messaging_init`. -/
def clientMachine : Machine ClientState ClientAct where
  init :=
    { nextSeq := 1
      pendingSeq := fun _ => 0
      pendingRsp := fun _ => .zero
      rspSem := fun _ => .init
      calls := fun _ => .start
      handled := []
      owner := fun _ => none }
  step := clientStep

/-! ## What each step does -/

section Steps

variable {s s' : ClientState}

theorem step_reject {c : CallId} {why : Reject} (h : clientStep s (.reject c why) = some s') :
    s.calls c = .start ∧ s' = { s with calls := Function.update s.calls c (.failed why.ret) } := by
  cases hc : s.calls c <;> simp only [clientStep, hc, Option.some.injEq, reduceCtorEq] at h
  exact ⟨rfl, h.symm⟩

theorem step_claim {c : CallId} {args : CallArgs} (h : clientStep s (.claim c args) = some s') :
    s.calls c = .start ∧ s' = claimSlot s c args := by
  cases hc : s.calls c <;> simp only [clientStep, hc, Option.some.injEq, reduceCtorEq] at h
  exact ⟨rfl, h.symm⟩

theorem step_send {c : CallId} {r : SendResult} (h : clientStep s (.send c r) = some s') :
    ∃ call, s.calls c = .claimed call ∧
      ((r = .sent ∧ s' = { s with calls := Function.update s.calls c (.sent call) }) ∨
        ∃ ret, r ≠ .sent ∧ s' = { s with calls := Function.update s.calls c (.failed ret) }) := by
  cases hc : s.calls c <;> simp only [clientStep, hc, Option.some.injEq, reduceCtorEq] at h
  rename_i call
  refine ⟨call, rfl, ?_⟩
  cases r with
  | sent => exact Or.inl ⟨rfl, h.symm⟩
  | encodeFailed => exact Or.inr ⟨_, by simp, h.symm⟩
  | sendFailed ret => exact Or.inr ⟨ret, by simp, h.symm⟩

theorem step_take {c : CallId} (h : clientStep s (.take c) = some s') :
    ∃ call, s.calls c = .sent call ∧
      (((s.rspSem call.pri).count = true ∧
          s' = { s with
            rspSem := Function.update s.rspSem call.pri { s.rspSem call.pri with count := false }
            calls := Function.update s.calls c (.taken call) }) ∨
        ((s.rspSem call.pri).count = false ∧
          s' = { s with
            rspSem := Function.update s.rspSem call.pri
              { s.rspSem call.pri with waiters := (s.rspSem call.pri).waiters ++ [c] }
            calls := Function.update s.calls c (.waiting call) })) := by
  cases hc : s.calls c <;> simp only [clientStep, hc, Option.some.injEq, reduceCtorEq] at h
  rename_i call
  refine ⟨call, rfl, ?_⟩
  cases hcount : (s.rspSem call.pri).count
  · exact Or.inr ⟨rfl, by simpa [Sem.take, hcount] using h.symm⟩
  · exact Or.inl ⟨rfl, by simpa [Sem.take, hcount] using h.symm⟩

theorem step_timeout {c : CallId} (h : clientStep s (.timeout c) = some s') :
    ∃ call, s.calls c = .waiting call ∧
      s' = { s with
        rspSem := Function.update s.rspSem call.pri ((s.rspSem call.pri).leave c)
        calls := Function.update s.calls c (.failed (-ETIMEDOUT)) } := by
  cases hc : s.calls c <;> simp only [clientStep, hc, Option.some.injEq, reduceCtorEq] at h
  exact ⟨_, rfl, h.symm⟩

theorem step_copyOut {c : CallId} (h : clientStep s (.copyOut c) = some s') :
    ∃ call, s.calls c = .taken call ∧
      s' = { s with calls := Function.update s.calls c (.returned call (copyOut s call)) } := by
  cases hc : s.calls c <;> simp only [clientStep, hc, Option.some.injEq, reduceCtorEq] at h
  exact ⟨_, rfl, h.symm⟩

/-- A response is passed over, or it fills the slot of its priority; then
the semaphore becomes available, nobody waiting, or one waiter goes on. -/
theorem step_handleResponse {rsp : MsgRsp} {wake : Option CallId}
    (h : clientStep s (.handleResponse rsp wake) = some s') :
    (toUInt32 rsp.seq ≠ s.pendingSeq (msgPriorityOf rsp.priority) ∧
      s' = { s with handled := s.handled ++ [rsp] }) ∨
    (toUInt32 rsp.seq = s.pendingSeq (msgPriorityOf rsp.priority) ∧
      ((s.rspSem (msgPriorityOf rsp.priority)).waiters = [] ∧
        s' = { fillSlot s rsp with
          rspSem := Function.update s.rspSem (msgPriorityOf rsp.priority)
            { s.rspSem (msgPriorityOf rsp.priority) with count := true } } ∨
        ∃ c call, s.calls c = .waiting call ∧
          c ∈ (s.rspSem (msgPriorityOf rsp.priority)).waiters ∧
          s' = { fillSlot s rsp with
            rspSem := Function.update s.rspSem (msgPriorityOf rsp.priority)
              ((s.rspSem (msgPriorityOf rsp.priority)).leave c)
            calls := Function.update s.calls c (.taken call) })) := by
  simp only [clientStep, handleResponse] at h
  split at h
  · rename_i hseq
    refine Or.inr ⟨hseq, ?_⟩
    split at h
    · cases h
    · rename_i sem hsem
      cases wake with
      | none =>
        obtain ⟨hw, rfl⟩ := Sem.give_none hsem
        exact Or.inl ⟨hw, (Option.some.inj h).symm⟩
      | some c =>
        obtain ⟨hmem, rfl⟩ := Sem.give_some hsem
        dsimp only at h
        cases hc : s.calls c <;> simp only [hc, Option.some.injEq, reduceCtorEq] at h
        exact Or.inr ⟨c, _, hc, hmem, h.symm⟩
  · rename_i hseq
    split at h
    · exact Or.inl ⟨hseq, (Option.some.inj h).symm⟩
    · cases h

/-- The slot a claim takes. -/
theorem claimSlot_self (s : ClientState) (c : CallId) (args : CallArgs) :
    (claimSlot s c args).pendingSeq (msgPriorityOf args.priority) = s.nextSeq ∧
    (claimSlot s c args).owner (msgPriorityOf args.priority) = some c ∧
    ((claimSlot s c args).rspSem (msgPriorityOf args.priority)).count = false := by
  simp [claimSlot, Sem.reset]

/-- The slots of the other priorities. -/
theorem claimSlot_other (s : ClientState) (c : CallId) (args : CallArgs) {p : MsgPriority}
    (hp : p ≠ msgPriorityOf args.priority) :
    (claimSlot s c args).pendingSeq p = s.pendingSeq p ∧
    (claimSlot s c args).owner p = s.owner p ∧
    (claimSlot s c args).rspSem p = s.rspSem p ∧
    (claimSlot s c args).pendingRsp p = s.pendingRsp p := by
  simp [claimSlot, hp]

end Steps

/-! ## Who waits -/

/-- The calls in the list of a semaphore are in `ceell_sem_take` on it. -/
structure WaitInv (s : ClientState) : Prop where
  nodup : ∀ p, (s.rspSem p).waiters.Nodup
  waiting : ∀ p, ∀ c ∈ (s.rspSem p).waiters, ∃ call, s.calls c = .waiting call ∧ call.pri = p

section Waiting

variable {s s' : ClientState}

theorem waitInv_init : WaitInv clientMachine.init := by
  constructor <;> simp [clientMachine, Sem.init]

theorem WaitInv.pri_of_mem {c : CallId} {call : Call} {p : MsgPriority} (hi : WaitInv s)
    (hc : s.calls c = .waiting call) (hmem : c ∈ (s.rspSem p).waiters) : call.pri = p := by
  obtain ⟨call', hcall', hp⟩ := hi.waiting p c hmem
  rw [hc] at hcall'
  obtain rfl := CallPc.waiting.inj hcall'
  exact hp

/-- A call that does not wait can move without touching the lists. -/
theorem WaitInv.move {c : CallId} (pc : CallPc) (hi : WaitInv s)
    (hc : ∀ call, s.calls c ≠ .waiting call) :
    WaitInv { s with calls := Function.update s.calls c pc } := by
  refine ⟨hi.nodup, ?_⟩
  intro p d hd
  obtain ⟨call, hcall, hp⟩ := hi.waiting p d hd
  have hne : d ≠ c := by
    rintro rfl
    exact hc call hcall
  exact ⟨call, by simpa [hne] using hcall, hp⟩

/-- The lists are all that matters of the semaphores. -/
theorem WaitInv.setSem {sem : MsgPriority → Sem CallId} (hi : WaitInv s)
    (hsem : ∀ p, (sem p).waiters = (s.rspSem p).waiters) : WaitInv { s with rspSem := sem } := by
  constructor
  · intro p
    rw [hsem p]
    exact hi.nodup p
  · intro p c hc
    rw [hsem p] at hc
    exact hi.waiting p c hc

theorem waiters_update_count (s : ClientState) (p : MsgPriority) (count : Bool) :
    ∀ q, (Function.update s.rspSem p { s.rspSem p with count := count } q).waiters
      = (s.rspSem q).waiters :=
  (Function.forall_update_iff s.rspSem fun q m => m.waiters = (s.rspSem q).waiters).mpr
    ⟨rfl, fun _ _ => rfl⟩

/-- A waiting call leaves its semaphore. -/
theorem WaitInv.leave {c : CallId} {call : Call} (pc : CallPc) (hi : WaitInv s)
    (hc : s.calls c = .waiting call) :
    WaitInv { s with
      rspSem := Function.update s.rspSem call.pri ((s.rspSem call.pri).leave c)
      calls := Function.update s.calls c pc } := by
  constructor
  · exact (Function.forall_update_iff s.rspSem fun _ m => m.waiters.Nodup).mpr
      ⟨(hi.nodup call.pri).erase c, fun p _ => hi.nodup p⟩
  · have hgone : ∀ p d, d ∈ (s.rspSem p).waiters → d ≠ c →
        ∃ call', Function.update s.calls c pc d = .waiting call' ∧ call'.pri = p := by
      intro p d hd hne
      obtain ⟨call', hcall', hp⟩ := hi.waiting p d hd
      exact ⟨call', by simpa [hne] using hcall', hp⟩
    refine (Function.forall_update_iff s.rspSem fun p m => ∀ d ∈ m.waiters,
      ∃ call', Function.update s.calls c pc d = .waiting call' ∧ call'.pri = p).mpr
        ⟨?_, ?_⟩
    · intro d hd
      have hd' := (hi.nodup call.pri).mem_erase_iff.mp hd
      exact hgone call.pri d hd'.2 hd'.1
    · -- the call waits for one semaphore only
      intro p hp d hd
      refine hgone p d hd ?_
      rintro rfl
      exact hp (hi.pri_of_mem hc hd).symm

/-- A call begins to wait. -/
theorem WaitInv.wait {c : CallId} {call : Call} (hi : WaitInv s)
    (hc : ∀ call, s.calls c ≠ .waiting call) :
    WaitInv { s with
      rspSem := Function.update s.rspSem call.pri
        { s.rspSem call.pri with waiters := (s.rspSem call.pri).waiters ++ [c] }
      calls := Function.update s.calls c (.waiting call) } := by
  have hnot : ∀ p, c ∉ (s.rspSem p).waiters := by
    intro p hmem
    obtain ⟨call', hcall', _⟩ := hi.waiting p c hmem
    exact hc call' hcall'
  constructor
  · refine (Function.forall_update_iff s.rspSem fun _ m => m.waiters.Nodup).mpr
      ⟨?_, fun p _ => hi.nodup p⟩
    exact (hi.nodup call.pri).append (List.nodup_singleton c) (by simpa using hnot call.pri)
  · have hold : ∀ p d, d ∈ (s.rspSem p).waiters →
        ∃ call', Function.update s.calls c (.waiting call) d = .waiting call' ∧ call'.pri = p := by
      intro p d hd
      obtain ⟨call', hcall', hp⟩ := hi.waiting p d hd
      have hne : d ≠ c := by
        rintro rfl
        exact hnot p hd
      exact ⟨call', by simpa [hne] using hcall', hp⟩
    refine (Function.forall_update_iff s.rspSem fun p m => ∀ d ∈ m.waiters,
      ∃ call', Function.update s.calls c (.waiting call) d = .waiting call' ∧ call'.pri = p).mpr
        ⟨?_, fun p _ d hd => hold p d hd⟩
    intro d hd
    rcases List.mem_append.mp hd with hd | hd
    · exact hold call.pri d hd
    · obtain rfl := List.mem_singleton.mp hd
      exact ⟨call, Function.update_self _ _ _, rfl⟩

theorem WaitInv.claim {c : CallId} (args : CallArgs) (hi : WaitInv s) (hc : s.calls c = .start) :
    WaitInv (claimSlot s c args) := by
  constructor
  · exact (Function.forall_update_iff s.rspSem fun _ m => m.waiters.Nodup).mpr
      ⟨List.nodup_nil, fun p _ => hi.nodup p⟩
  · refine (Function.forall_update_iff s.rspSem fun p m => ∀ d ∈ m.waiters,
      ∃ call, (claimSlot s c args).calls d = .waiting call ∧ call.pri = p).mpr
        ⟨fun d hd => absurd hd List.not_mem_nil, ?_⟩
    intro p hp d hd
    obtain ⟨call, hcall, hpri⟩ := hi.waiting p d hd
    have hne : d ≠ c := by
      rintro rfl
      rw [hc] at hcall
      cases hcall
    -- a call that waits for another semaphore is not failed
    have hnot : d ∉ (s.rspSem (msgPriorityOf args.priority)).waiters := by
      intro hmem
      exact hp (hpri.symm.trans (hi.pri_of_mem hcall hmem))
    exact ⟨call, by simpa [claimSlot, hne, hnot] using hcall, hpri⟩

theorem waitInv_step {a : ClientAct} (hi : WaitInv s) (h : clientStep s a = some s') :
    WaitInv s' := by
  cases a with
  | reject c why =>
    obtain ⟨hc, rfl⟩ := step_reject h
    exact hi.move _ fun call => by simp [hc]
  | claim c args =>
    obtain ⟨hc, rfl⟩ := step_claim h
    exact hi.claim args hc
  | send c r =>
    obtain ⟨call, hc, ⟨_, rfl⟩ | ⟨ret, _, rfl⟩⟩ := step_send h
    · exact hi.move _ fun call => by simp [hc]
    · exact hi.move _ fun call => by simp [hc]
  | take c =>
    obtain ⟨call, hc, ⟨_, rfl⟩ | ⟨_, rfl⟩⟩ := step_take h
    · exact (hi.move (.taken call) fun call => by simp [hc]).setSem
        (waiters_update_count s call.pri false)
    · exact hi.wait fun call => by simp [hc]
  | timeout c =>
    obtain ⟨call, hc, rfl⟩ := step_timeout h
    exact hi.leave _ hc
  | copyOut c =>
    obtain ⟨call, hc, rfl⟩ := step_copyOut h
    exact hi.move _ fun call => by simp [hc]
  | handleResponse rsp wake =>
    have hfill : WaitInv (fillSlot s rsp) := ⟨hi.nodup, hi.waiting⟩
    rcases step_handleResponse h with ⟨_, rfl⟩ | ⟨_, ⟨_, rfl⟩ | ⟨c, call, hc, hmem, rfl⟩⟩
    · exact ⟨hi.nodup, hi.waiting⟩
    · exact hfill.setSem (waiters_update_count s _ true)
    · rw [← hi.pri_of_mem hc hmem]
      exact hfill.leave (.taken call) hc

/-- **A response is never stuck**: whatever is received, `handle_response`
has a step. -/
theorem handleResponse_enabled (hi : WaitInv s) (rsp : MsgRsp) :
    ∃ wake, (clientStep s (.handleResponse rsp wake)).isSome = true := by
  by_cases hseq : toUInt32 rsp.seq = s.pendingSeq (msgPriorityOf rsp.priority)
  · rcases (s.rspSem (msgPriorityOf rsp.priority)).exists_give with ⟨c, hmem, hgive⟩ | ⟨_, hgive⟩
    · obtain ⟨call, hcall, _⟩ := hi.waiting _ c hmem
      exact ⟨some c, by simp [clientStep, handleResponse, hseq, hgive, hcall]⟩
    · exact ⟨none, by simp [clientStep, handleResponse, hseq, hgive]⟩
  · exact ⟨none, by simp [clientStep, handleResponse, hseq]⟩

end Waiting

/-! ## Whose response is in a slot -/

/-- The payload of a response as a `struct ceell_msg` can hold it. -/
def rspPayload (rsp : MsgRsp) : List Char :=
  match rsp.payload with
  | some src => (cstr src).take 127
  | none => []

/-- The status and payload are those of a response that was handled and
carries the sequence number. -/
def AnsweredBy (s : ClientState) (seq : UInt32) (m : CeellMsg) : Prop :=
  ∃ rsp ∈ s.handled, toUInt32 rsp.seq = seq ∧ m.status = rsp.status ∧
    m.payload.str = rspPayload rsp

/-- The slot of a priority holds a response to its `pending_seq`. -/
def Filled (s : ClientState) (p : MsgPriority) : Prop :=
  AnsweredBy s (s.pendingSeq p) (s.pendingRsp p)

/-- What holds of a call: while the slot of its priority is its own, the
slot waits for its number, and is filled once the call has taken the
semaphore. -/
def CallOk (s : ClientState) (c : CallId) : CallPc → Prop
  | .start => True
  | .failed _ => True
  | .claimed call => s.owner call.pri = some c → s.pendingSeq call.pri = call.seq
  | .sent call => s.owner call.pri = some c → s.pendingSeq call.pri = call.seq
  | .waiting call => s.owner call.pri = some c → s.pendingSeq call.pri = call.seq
  | .taken call => s.owner call.pri = some c →
      s.pendingSeq call.pri = call.seq ∧ Filled s call.pri
  | .returned call m => AnsweredBy s call.seq m

/-- The invariant of the slots, for runs in which every copy-out finds the
slot its call's own. -/
structure ClientInv (s : ClientState) : Prop where
  calls : ∀ c, CallOk s c (s.calls c)
  filled : ∀ p, (s.rspSem p).count = true → Filled s p

/-- No other call has claimed the slot of its priority since a call that
has taken the semaphore did. -/
def OwnsSlot (s : ClientState) (c : CallId) : Prop :=
  match s.calls c with
  | .taken call => s.owner call.pri = some c
  | _ => True

instance (s : ClientState) (c : CallId) : Decidable (OwnsSlot s c) := by
  unfold OwnsSlot
  cases s.calls c <;> infer_instance

/-- A call copies out of its own slot. -/
def SlotKept (s : ClientState) : ClientAct → Prop
  | .copyOut c => OwnsSlot s c
  | _ => True

instance (s : ClientState) (a : ClientAct) : Decidable (SlotKept s a) := by
  cases a <;> first | exact isTrue trivial | exact inferInstanceAs (Decidable (OwnsSlot s _))

section Invariant

variable {s s' : ClientState}

theorem str_set_nul (b : CharBuf 128) (h : (b.bytes.set 0 nul).length = 128) :
    (⟨b.bytes.set 0 nul, h⟩ : CharBuf 128).str = [] := by
  obtain ⟨bytes, hsize⟩ := b
  cases bytes with
  | nil => cases hsize
  | cons x bytes => simp [CharBuf.str, cstr]

theorem str_storeRsp (slot : CeellMsg) (pri : MsgPriority) (rsp : MsgRsp) :
    (storeRsp slot pri rsp).payload.str = rspPayload rsp := by
  unfold storeRsp rspPayload
  cases rsp.payload with
  | some src =>
    show ((slot.payload.copy src).terminate).str = _
    rw [CharBuf.terminate_copy, CharBuf.str_copy_zero]
  | none => exact str_set_nul slot.payload _

theorem AnsweredBy.mono {seq : UInt32} {m : CeellMsg} (h : AnsweredBy s seq m)
    (hsub : ∀ rsp ∈ s.handled, rsp ∈ s'.handled) : AnsweredBy s' seq m := by
  obtain ⟨rsp, hrsp, hrest⟩ := h
  exact ⟨rsp, hsub rsp hrsp, hrest⟩

/-- What a step leaves of a call, if the slots that are still the call's
own keep what they wait for and stay filled. -/
theorem CallOk.mono {c : CallId} {pc : CallPc} (h : CallOk s c pc)
    (hsub : ∀ rsp ∈ s.handled, rsp ∈ s'.handled)
    (hslot : ∀ p, s'.owner p = some c → s.owner p = some c ∧
      s'.pendingSeq p = s.pendingSeq p ∧ (Filled s p → Filled s' p)) : CallOk s' c pc := by
  cases pc with
  | start => trivial
  | failed ret => trivial
  | claimed call =>
    intro howner
    obtain ⟨h1, h2, _⟩ := hslot _ howner
    exact h2.trans (h h1)
  | sent call =>
    intro howner
    obtain ⟨h1, h2, _⟩ := hslot _ howner
    exact h2.trans (h h1)
  | waiting call =>
    intro howner
    obtain ⟨h1, h2, _⟩ := hslot _ howner
    exact h2.trans (h h1)
  | taken call =>
    intro howner
    obtain ⟨h1, h2, h3⟩ := hslot _ howner
    exact ⟨h2.trans (h h1).1, h3 (h h1).2⟩
  | returned call m => exact AnsweredBy.mono h hsub

theorem clientInv_init : ClientInv clientMachine.init where
  calls := fun _ => trivial
  filled := by
    intro p h
    cases h

/-- A step that leaves the slots alone and moves one call. -/
theorem inv_move {c : CallId} {pc : CallPc} {sem : MsgPriority → Sem CallId} (hi : ClientInv s)
    (hpc : CallOk s c pc) (hsem : ∀ p, (sem p).count = true → Filled s p) :
    ClientInv { s with rspSem := sem, calls := Function.update s.calls c pc } where
  calls := (Function.forall_update_iff s.calls (CallOk s)).mpr ⟨hpc, fun d _ => hi.calls d⟩
  filled := hsem

/-- A semaphore that the step makes unavailable, and the others. -/
theorem filled_of_update (hi : ClientInv s) {p : MsgPriority} {sem : Sem CallId}
    (hsem : sem.count = true → Filled s p) :
    ∀ q, (Function.update s.rspSem p sem q).count = true → Filled s q :=
  (Function.forall_update_iff s.rspSem fun q m => m.count = true → Filled s q).mpr
    ⟨hsem, fun q _ => hi.filled q⟩

theorem inv_claim {c : CallId} {args : CallArgs} (hi : ClientInv s) :
    ClientInv (claimSlot s c args) := by
  obtain ⟨hseq, howner, hcount⟩ := claimSlot_self s c args
  have hother : ∀ p, p ≠ msgPriorityOf args.priority → Filled s p →
      Filled (claimSlot s c args) p := by
    intro p hp hf
    obtain ⟨h1, _, _, h4⟩ := claimSlot_other s c args hp
    unfold Filled
    rw [h1, h4]
    exact hf.mono fun _ h => h
  constructor
  · refine (Function.forall_update_iff _ (CallOk (claimSlot s c args))).mpr ⟨fun _ => hseq, ?_⟩
    intro d hd
    split
    · trivial
    · refine (hi.calls d).mono (fun _ h => h) ?_
      intro p hp
      -- the claimed slot is no other call's any more
      have hne : p ≠ msgPriorityOf args.priority := by
        rintro rfl
        rw [howner] at hp
        exact hd (Option.some.inj hp).symm
      obtain ⟨h1, h2, _, _⟩ := claimSlot_other s c args hne
      exact ⟨h2.symm.trans hp, h1, hother p hne⟩
  · intro p h
    have hne : p ≠ msgPriorityOf args.priority := by
      rintro rfl
      rw [hcount] at h
      cases h
    obtain ⟨_, _, h3, _⟩ := claimSlot_other s c args hne
    rw [h3] at h
    exact hother p hne (hi.filled p h)

/-- A response that matches fills its slot, and leaves the others. -/
theorem filled_fillSlot {rsp : MsgRsp}
    (hseq : toUInt32 rsp.seq = s.pendingSeq (msgPriorityOf rsp.priority)) {p : MsgPriority}
    (hp : Filled s p ∨ p = msgPriorityOf rsp.priority) : Filled (fillSlot s rsp) p := by
  by_cases hpri : p = msgPriorityOf rsp.priority
  · subst hpri
    refine ⟨rsp, List.mem_append_right _ List.mem_cons_self, hseq, ?_, ?_⟩
    · simp [fillSlot, storeRsp]
    · simp [fillSlot, str_storeRsp]
  · obtain ⟨x, hx, h1, h2, h3⟩ := hp.resolve_right hpri
    refine ⟨x, List.mem_append_left _ hx, h1, ?_, ?_⟩
    · simpa [fillSlot, hpri] using h2
    · simpa [fillSlot, hpri] using h3

theorem inv_fillSlot {rsp : MsgRsp} (hi : ClientInv s)
    (hseq : toUInt32 rsp.seq = s.pendingSeq (msgPriorityOf rsp.priority)) :
    ClientInv (fillSlot s rsp) where
  calls := fun c => (hi.calls c).mono (fun _ h => List.mem_append_left _ h) fun _ ho =>
    ⟨ho, rfl, fun hf => filled_fillSlot hseq (Or.inl hf)⟩
  filled := fun p h => filled_fillSlot hseq (Or.inl (hi.filled p h))

theorem inv_handleResponse {rsp : MsgRsp} {wake : Option CallId} (hi : ClientInv s)
    (hw : WaitInv s) (h : clientStep s (.handleResponse rsp wake) = some s') : ClientInv s' := by
  have hsub : ∀ x ∈ s.handled, x ∈ s.handled ++ [rsp] := fun x hx => List.mem_append_left _ hx
  rcases step_handleResponse h with ⟨_, rfl⟩ | ⟨hseq, hs⟩
  · exact ⟨fun c => (hi.calls c).mono hsub fun _ ho => ⟨ho, rfl, fun hf => hf.mono hsub⟩,
      fun p hc => (hi.filled p hc).mono hsub⟩
  · have hfill := inv_fillSlot hi hseq
    have hpri : Filled (fillSlot s rsp) (msgPriorityOf rsp.priority) :=
      filled_fillSlot hseq (Or.inr rfl)
    rcases hs with ⟨_, rfl⟩ | ⟨c, call, hwait, hmem, rfl⟩
    · exact ⟨hfill.calls, filled_of_update hfill fun _ => hpri⟩
    · refine inv_move (c := c) hfill ?_ (filled_of_update hfill fun _ => hpri)
      have hseqc : CallOk (fillSlot s rsp) c (.waiting call) := by
        have := hfill.calls c
        rwa [show (fillSlot s rsp).calls c = .waiting call from hwait] at this
      rw [← hw.pri_of_mem hwait hmem] at hpri
      exact fun howner => ⟨hseqc howner, hpri⟩

/-- A step keeps the invariant, if a copy-out finds the slot its call's. -/
theorem clientInv_step {a : ClientAct} (hi : ClientInv s) (hw : WaitInv s) (hg : SlotKept s a)
    (h : clientStep s a = some s') : ClientInv s' := by
  cases a with
  | reject c why =>
    obtain ⟨_, rfl⟩ := step_reject h
    exact inv_move hi trivial hi.filled
  | claim c args =>
    obtain ⟨_, rfl⟩ := step_claim h
    exact inv_claim hi
  | send c r =>
    obtain ⟨call, hc, ⟨_, rfl⟩ | ⟨ret, _, rfl⟩⟩ := step_send h
    · have hok := hi.calls c
      rw [hc] at hok
      exact inv_move hi hok hi.filled
    · exact inv_move hi trivial hi.filled
  | take c =>
    obtain ⟨call, hc, hcases⟩ := step_take h
    have hok := hi.calls c
    rw [hc] at hok
    rcases hcases with ⟨hcount, rfl⟩ | ⟨hcount, rfl⟩
    · exact inv_move hi (fun howner => ⟨hok howner, hi.filled _ hcount⟩)
        (filled_of_update hi fun h => by cases h)
    · refine inv_move hi hok (filled_of_update hi ?_)
      intro h
      rw [hcount] at h
      cases h
  | timeout c =>
    obtain ⟨call, _, rfl⟩ := step_timeout h
    exact inv_move hi trivial (filled_of_update hi fun h => hi.filled _ h)
  | copyOut c =>
    obtain ⟨call, hc, rfl⟩ := step_copyOut h
    have hok := hi.calls c
    rw [hc] at hok
    have howner : s.owner call.pri = some c := by
      have howns : OwnsSlot s c := hg
      unfold OwnsSlot at howns
      rwa [hc] at howns
    obtain ⟨hseq, rsp, hrsp, h1, h2, h3⟩ := hok howner
    refine inv_move hi ⟨rsp, hrsp, h1.trans hseq, h2, h3⟩ hi.filled
  | handleResponse rsp wake => exact inv_handleResponse hi hw h

theorem clientInv_reachable (hr : clientMachine.ReachableUnder SlotKept s) :
    WaitInv s ∧ ClientInv s := by
  refine Machine.ReachableUnder.induct (P := fun s => WaitInv s ∧ ClientInv s)
    ⟨waitInv_init, clientInv_init⟩ ?_ hr
  intro s a s' hi hg hs
  exact ⟨waitInv_step hi.1 hs, clientInv_step hi.2 hi.1 hg hs⟩

/-- What a call of such a run returned. -/
theorem answeredBy_of_returned (hr : clientMachine.ReachableUnder SlotKept s) {c : CallId}
    {call : Call} {rsp : CeellMsg} (hret : s.calls c = .returned call rsp) :
    AnsweredBy s call.seq rsp := by
  have hok := (clientInv_reachable hr).2.calls c
  rw [hret] at hok
  exact hok

end Invariant

/-- **Every success is an answer to its own call**, in every run of any
number of concurrent calls in which no call's slot has been claimed by
another when the call copies out: the status and payload returned are
those of a response that was handled and carries the call's own number. -/
theorem success_served (s : ClientState) (hr : clientMachine.ReachableUnder SlotKept s)
    (c : CallId) (call : Call) (rsp : CeellMsg) (hret : s.calls c = .returned call rsp) :
    AnsweredBy s call.seq rsp := answeredBy_of_returned hr hret

/-- A NORMAL request without a deadline. -/
def sampleArgs : CallArgs := ⟨['e'], ['x'], 1, 0, 0⟩

/-- The response with status 7 and payload `ok` to request 1. -/
def sampleAnswer : MsgRsp := ⟨some "rsp".toList, 1, 2, 7, some ['o', 'k'], 1⟩

/-- A second call claims the slot between the semaphore and the copy-out
of the first. -/
def stolenSlot : List ClientAct :=
  [.claim 0 sampleArgs, .send 0 .sent, .handleResponse sampleAnswer none, .take 0,
   .claim 1 sampleArgs, .copyOut 0]

/-- The first call returns success, with status 0 and an empty payload,
which no response carried. -/
theorem stolenSlot_not_served :
    ∃ s, clientMachine.run stolenSlot = some s ∧
      ∃ call rsp, s.calls 0 = .returned call rsp ∧ rsp.status = 0 ∧ rsp.payload.str = [] ∧
        ¬ AnsweredBy s call.seq rsp := by
  obtain ⟨s, hs⟩ : ∃ s, clientMachine.run stolenSlot = some s :=
    Option.isSome_iff_exists.mp (by decide)
  have hend : (clientMachine.run stolenSlot).map (fun s => (s.calls 0, s.handled.map (·.status))) =
      some (.returned ⟨sampleArgs, .normal, 1⟩
        { CeellMsg.zero with priority := .normal }, [7]) := by
    decide
  simp only [hs, Option.map_some, Option.some.injEq, Prod.mk.injEq] at hend
  obtain ⟨hcall, hhandled⟩ := hend
  refine ⟨s, hs, _, _, hcall, rfl, by decide, ?_⟩
  rintro ⟨rsp, hrsp, _, hstatus, _⟩
  have hmem : rsp.status ∈ s.handled.map (·.status) := List.mem_map_of_mem hrsp
  rw [hhandled, ← hstatus] at hmem
  revert hmem
  decide

/-- The same, the second call claiming after the copy-out. -/
def keptSlot : List ClientAct :=
  [.claim 0 sampleArgs, .send 0 .sent, .handleResponse sampleAnswer none, .take 0, .copyOut 0,
   .claim 1 sampleArgs]

theorem success_served_sample :
    ∃ s call rsp, clientMachine.run keptSlot = some s ∧ s.calls 0 = .returned call rsp ∧
      AnsweredBy s call.seq rsp := by
  obtain ⟨s, hs⟩ : ∃ s, clientMachine.run keptSlot = some s :=
    Option.isSome_iff_exists.mp (by decide)
  have hret : ∃ call rsp, s.calls 0 = .returned call rsp := by
    have hend : (clientMachine.run keptSlot).map (fun s => match s.calls 0 with
        | .returned _ rsp => some rsp.status
        | _ => none) = some (some 7) := by decide
    simp only [hs, Option.map_some, Option.some.injEq] at hend
    split at hend
    · rename_i call rsp h
      exact ⟨call, rsp, h⟩
    · cases hend
  obtain ⟨call, rsp, hret⟩ := hret
  exact ⟨s, call, rsp, hs, hret, success_served s ⟨keptSlot, hs, by decide⟩ 0 call rsp hret⟩

end Ceell.Network
