/-
Ceell.Network.SendBuffer — the static buffer of `send_response`, shared
by the dispatcher and the three handler threads.

`Server` takes a `send_response` for one step. Here it is two: the
encoding into the buffer, and the `ceell_sendto` from it, with the steps
of other threads in between. `sendBuffer_simulation` says that nothing
else changes: every finer run is a run of `Server`, whose law therefore
still holds. What does change is what the datagrams carry:
`ownResponses_iff_undisturbed` says exactly when each is the response of
the call that sends it.
-/
import Ceell.Lib.SharedBuffer
import Ceell.Network.Server
import Ceell.Osal.JsonReference

namespace Ceell.Network

open Ceell.Lib Ceell.Core Ceell.Osal

/-! ## Two steps for a response -/

/-- The threads that call `send_response`. -/
inductive Sender where
  | dispatcher
  | handler (p : MsgPriority)
  deriving DecidableEq

structure SendState (δ : Type) where
  core : ServerState δ
  /-- `buf`, up to its terminator -/
  buf : List Char
  /-- what `json_obj_encode_buf` returned to a thread about to act on it -/
  encoded : Sender → Option Int
  /-- the datagrams sent, each with the arguments of the call that sent it -/
  wire : List (RspArgs × Packet)
  /-- the arguments of the call that encoded into `buf` last -/
  lastEncode : Option RspArgs

inductive SendAct (δ ν : Type) where
  | thread (a : ServerAct δ ν) -- any step outside `send_response`
  | encode (t : Sender)
  | sendto (t : Sender)

/-- The arguments of the `send_response` a thread is in. -/
def sendArgs {δ : Type} (s : ServerState δ) : Sender → Option RspArgs
  | .dispatcher => match s.disp with
      | .refuse _ a => some a
      | _ => none
  | .handler p => match s.hand p with
      | .respond _ a => some a
      | _ => none

/-- The step of `Server` that a `send_response` ends with. -/
def finishAct {δ ν : Type} : Sender → ServerAct δ ν
  | .dispatcher => .refuse
  | .handler p => .respond p

variable {δ ν : Type} (lib : JsonLib) (me : Identity) (decode : δ → Dispatch) (depth : Nat)

/-- `json_obj_encode_buf` of a response. -/
def encodeRsp (a : RspArgs) : Int × List Char := lib.encodeBuf (rspFields me a) msgBufSize

def sendStep (s : SendState δ) : SendAct δ ν → Option (SendState δ)
  | .thread .refuse => none
  | .thread (.respond _) => none
  | .thread a => (serverStep decode depth s.core a).map fun c => { s with core := c }
  | .encode t =>
      match sendArgs s.core t, s.encoded t with
      | some a, none =>
          some { s with
            buf := cstr (encodeRsp lib me a).2
            encoded := Function.update s.encoded t (some (encodeRsp lib me a).1)
            lastEncode := some a }
      | _, _ => none
  | .sendto t =>
      match sendArgs s.core t, s.encoded t with
      | some a, some ret =>
          (serverStep decode depth s.core (finishAct t : ServerAct δ ν)).map fun c =>
            { s with
              core := c
              encoded := Function.update s.encoded t none
              wire := if ret = 0 then s.wire ++ [(a, ⟨a.dest, s.buf⟩)] else s.wire }
      | _, _ => none

def sendMachine (ν : Type) : Machine (SendState δ) (SendAct δ ν) where
  init := ⟨(serverMachine decode depth ν).init, [], fun _ => none, [], none⟩
  step := sendStep lib me decode depth

/-! ## The finer runs are runs of the pipeline -/

/-- What a step of the finer machine is to the pipeline. -/
def pipelineLabels : SendAct δ ν → List (ServerAct δ ν)
  | .thread a => [a]
  | .encode _ => []
  | .sendto t => [finishAct t]

section Simulation

variable {lib me decode depth} {s s' : SendState δ}

theorem step_thread {a : ServerAct δ ν} (h : sendStep lib me decode depth s (.thread a) = some s') :
    a ≠ .refuse ∧ (∀ p, a ≠ .respond p) ∧
      ∃ c, serverStep decode depth s.core a = some c ∧ s' = { s with core := c } := by
  cases a with
  | refuse => cases h
  | respond p => cases h
  | recv data src =>
    obtain ⟨c, hc, rfl⟩ := Option.map_eq_some_iff.mp h
    exact ⟨by simp, by simp, c, hc, rfl⟩
  | dispatch =>
    obtain ⟨c, hc, rfl⟩ := Option.map_eq_some_iff.mp h
    exact ⟨by simp, by simp, c, hc, rfl⟩
  | get p =>
    obtain ⟨c, hc, rfl⟩ := Option.map_eq_some_iff.mp h
    exact ⟨by simp, by simp, c, hc, rfl⟩
  | handle p w =>
    obtain ⟨c, hc, rfl⟩ := Option.map_eq_some_iff.mp h
    exact ⟨by simp, by simp, c, hc, rfl⟩

theorem step_encode {t : Sender}
    (h : sendStep lib me decode depth s (.encode t : SendAct δ ν) = some s') :
    ∃ a, sendArgs s.core t = some a ∧ s.encoded t = none ∧
      s' = { s with
        buf := cstr (encodeRsp lib me a).2
        encoded := Function.update s.encoded t (some (encodeRsp lib me a).1)
        lastEncode := some a } := by
  simp only [sendStep] at h
  split at h
  · rename_i a ha he
    exact ⟨a, ha, he, (Option.some.inj h).symm⟩
  · cases h

theorem step_sendto {t : Sender}
    (h : sendStep lib me decode depth s (.sendto t : SendAct δ ν) = some s') :
    ∃ a ret c, sendArgs s.core t = some a ∧ s.encoded t = some ret ∧
      serverStep decode depth s.core (finishAct t : ServerAct δ ν) = some c ∧
      s' = { s with
        core := c
        encoded := Function.update s.encoded t none
        wire := if ret = 0 then s.wire ++ [(a, ⟨a.dest, s.buf⟩)] else s.wire } := by
  simp only [sendStep] at h
  split at h
  · rename_i a ret ha he
    obtain ⟨c, hc, rfl⟩ := Option.map_eq_some_iff.mp h
    exact ⟨a, ret, c, ha, he, hc, rfl⟩
  · cases h

theorem sendStep_core {a : SendAct δ ν} (h : sendStep lib me decode depth s a = some s') :
    (serverMachine decode depth ν).runFrom s.core (pipelineLabels a) = some s'.core := by
  cases a with
  | thread a =>
    obtain ⟨_, _, c, hc, rfl⟩ := step_thread h
    exact Machine.runFrom_cons hc
  | encode t =>
    obtain ⟨_, _, _, rfl⟩ := step_encode h
    rfl
  | sendto t =>
    obtain ⟨_, _, c, _, _, hc, rfl⟩ := step_sendto h
    exact Machine.runFrom_cons hc

/-- The pipeline does not see the buffer. -/
def sendBuffer_simulation :
    Machine.Simulation (sendMachine lib me decode depth ν) (serverMachine decode depth ν)
      fun _ _ => True where
  abs := SendState.core
  labels := fun _ a => pipelineLabels a
  init := rfl
  step := fun _ _ _ _ h => ⟨sendStep_core h, Machine.allSteps_true _ _⟩

theorem core_reachable (hr : (sendMachine lib me decode depth ν).Reachable s) :
    (serverMachine decode depth ν).Reachable s.core :=
  (sendBuffer_simulation.reachable hr).reachable

end Simulation

/-! ## What the datagrams carry -/

/-- Every datagram goes where its own call sends it and carries its own
call's response. -/
def OwnResponses (s : SendState δ) : Prop :=
  ∀ x ∈ s.wire, x.2 = ⟨x.1.dest, cstr (encodeRsp lib me x.1).2⟩

instance (s : SendState δ) : Decidable (OwnResponses lib me s) := by
  unfold OwnResponses; infer_instance

/-- The two responses are the same message. -/
def SameMessage (a b : RspArgs) : Prop :=
  a.seq = b.seq ∧ a.status = b.status ∧ a.payload = b.payload ∧ a.priority = b.priority

/-- When a thread is about to send what it has encoded, no other thread
has encoded a different message since. -/
def Undisturbed (s : SendState δ) : SendAct δ ν → Prop
  | .sendto t => ∀ a last, sendArgs s.core t = some a → s.encoded t = some 0 →
      s.lastEncode = some last → SameMessage last a
  | _ => True

/-- What is in the buffer, and what the threads that have encoded know. -/
structure BufferInv (s : SendState δ) : Prop where
  buf : ∀ a, s.lastEncode = some a → s.buf = cstr (encodeRsp lib me a).2
  encoded : ∀ t ret, s.encoded t = some ret →
    s.lastEncode.isSome ∧ ∃ a, sendArgs s.core t = some a ∧ ret = (encodeRsp lib me a).1

section Own

variable {lib me decode depth} {s s' : SendState δ}

theorem sameMessage_iff {a b : RspArgs} :
    rspFields me a = rspFields me b ↔ SameMessage a b := by
  have hpri : a.priority.toInt = b.priority.toInt ↔ a.priority = b.priority := by
    cases a.priority <;> cases b.priority <;> decide
  simp [rspFields, SameMessage, hpri]

/-- A thread in `send_response` takes no step outside it, and the steps of
the others leave its arguments alone. -/
theorem sendArgs_thread {core c : ServerState δ} {a : ServerAct δ ν} {t : Sender} {x : RspArgs}
    (ha : a ≠ .refuse) (ha' : ∀ p, a ≠ .respond p)
    (h : serverStep decode depth core a = some c) (hx : sendArgs core t = some x) :
    sendArgs c t = some x := by
  cases a with
  | recv data src =>
    obtain ⟨hd, rfl⟩ := step_recv h
    cases t with
    | dispatcher => simp [sendArgs, hd] at hx
    | handler p => exact hx
  | dispatch =>
    obtain ⟨i, data, src, hd, hcases⟩ := step_dispatch h
    cases t with
    | dispatcher => simp [sendArgs, hd] at hx
    | handler p => rcases hcases with ⟨_, _, _, rfl⟩ | ⟨_, _, _, rfl⟩ | ⟨_, rfl⟩ <;> exact hx
  | refuse => exact absurd rfl ha
  | get p =>
    obtain ⟨i, item, rest, hh, _, rfl⟩ := step_get h
    cases t with
    | dispatcher => exact hx
    | handler q =>
      have hqp : q ≠ p := by
        rintro rfl
        simp [sendArgs, hh] at hx
      simpa [sendArgs, hqp] using hx
  | handle p w =>
    obtain ⟨i, item, hh, rfl⟩ := step_handle h
    cases t with
    | dispatcher => exact hx
    | handler q =>
      have hqp : q ≠ p := by
        rintro rfl
        simp [sendArgs, hh] at hx
      simpa [sendArgs, hqp] using hx
  | respond p => exact absurd rfl (ha' p)

/-- Ending one call leaves the calls of the other threads as they are. -/
theorem sendArgs_finish {core c : ServerState δ} {t u : Sender} (hne : u ≠ t)
    (h : serverStep decode depth core (finishAct t : ServerAct δ ν) = some c) :
    sendArgs c u = sendArgs core u := by
  cases t with
  | dispatcher =>
    obtain ⟨i, a, _, rfl⟩ := step_refuse h
    cases u with
    | dispatcher => exact absurd rfl hne
    | handler q => rfl
  | handler p =>
    obtain ⟨i, a, _, rfl⟩ := step_respond h
    cases u with
    | dispatcher => rfl
    | handler q =>
      have hqp : q ≠ p := fun h => hne (congrArg Sender.handler h)
      simp [sendArgs, hqp]

theorem BufferInv.encodes (hi : BufferInv lib me s) :
    Encoded (fun t a => sendArgs s.core t = some a) (fun a => (encodeRsp lib me a).1)
      s.lastEncode s.encoded :=
  hi.encoded

theorem bufferInv_init : BufferInv lib me (sendMachine lib me decode depth ν).init where
  buf := by
    intro a h
    cases h
  encoded := Encoded.init

theorem bufferInv_step {a : SendAct δ ν} (hi : BufferInv lib me s)
    (h : sendStep lib me decode depth s a = some s') : BufferInv lib me s' := by
  cases a with
  | thread a =>
    obtain ⟨ha, ha', c, hc, rfl⟩ := step_thread h
    refine ⟨hi.buf, ?_⟩
    exact hi.encodes.mono fun t x hx => sendArgs_thread ha ha' hc hx
  | encode t =>
    obtain ⟨x, hx, _, rfl⟩ := step_encode h
    constructor
    · intro y hy
      obtain rfl := Option.some.inj hy
      rfl
    · exact hi.encodes.encode hx
  | sendto t =>
    obtain ⟨x, ret, c, _, _, hc, rfl⟩ := step_sendto h
    refine ⟨hi.buf, ?_⟩
    refine hi.encodes.finish fun u hne y hy => ?_
    rwa [sendArgs_finish hne hc]

/-- One step keeps every datagram its own call's exactly if it is
undisturbed. -/
theorem ownResponses_step_iff {a : SendAct δ ν} (hlib : lib.Unambiguous) (hi : BufferInv lib me s)
    (hp : OwnResponses lib me s) (h : sendStep lib me decode depth s a = some s') :
    OwnResponses lib me s' ↔ Undisturbed s a := by
  cases a with
  | thread a =>
    obtain ⟨_, _, c, _, rfl⟩ := step_thread h
    exact iff_of_true hp trivial
  | encode t =>
    obtain ⟨_, _, _, rfl⟩ := step_encode h
    exact iff_of_true hp trivial
  | sendto t =>
    obtain ⟨x, ret, c, hx, he, _, rfl⟩ := step_sendto h
    obtain ⟨hlast, y, hy, hret⟩ := hi.encoded t ret he
    obtain rfl : x = y := Option.some.inj (hx.symm.trans hy)
    obtain ⟨last, hl⟩ := Option.isSome_iff_exists.mp hlast
    by_cases hzero : ret = 0
    · subst hzero
      -- the datagram is the text in the buffer, which is that of `last`
      have hnew : OwnResponses lib me { s with
            core := c
            encoded := Function.update s.encoded t none
            wire := s.wire ++ [(x, ⟨x.dest, s.buf⟩)] } ↔
          cstr (encodeRsp lib me last).2 = cstr (encodeRsp lib me x).2 := by
        rw [← hi.buf last hl]
        constructor
        · intro hall
          have := hall (x, ⟨x.dest, s.buf⟩) (List.mem_append_right _ List.mem_cons_self)
          exact (Packet.mk.inj this).2
        · intro heq z hz
          rcases List.mem_append.mp hz with hz | hz
          · exact hp z hz
          · obtain rfl := List.mem_singleton.mp hz
            exact congrArg (Packet.mk x.dest) heq
      rw [if_pos rfl, hnew]
      constructor
      · intro heq a' last' ha' _ hl'
        obtain rfl : x = a' := Option.some.inj (hx.symm.trans ha')
        obtain rfl : last = last' := Option.some.inj (hl.symm.trans hl')
        exact sameMessage_iff.mp (hlib _ _ _ hret.symm heq)
      · intro hsame
        have hfields : rspFields me last = rspFields me x :=
          sameMessage_iff.mpr (hsame x last hx he hl)
        rw [encodeRsp, encodeRsp, hfields]
    · rw [if_neg hzero]
      refine iff_of_true hp ?_
      intro a' last' _ he' _
      exact absurd (Option.some.inj (he.symm.trans he')) hzero

end Own

/-- **Under every schedule of the two halves of `send_response`**, each
datagram sent carries the seq, status, payload and priority of the call
that sends it, to the address of that call, exactly if no thread encodes a
different message between the two halves of another's call. -/
theorem ownResponses_iff_undisturbed (lib : JsonLib) (hlib : lib.Unambiguous) (me : Identity)
    (decode : δ → Dispatch) (depth : Nat) (as : List (SendAct δ ν)) (t : SendState δ)
    (hrun : (sendMachine lib me decode depth ν).run as = some t) :
    (∀ u ∈ (sendMachine lib me decode depth ν).visited (sendMachine lib me decode depth ν).init as,
        OwnResponses lib me u) ↔
      (sendMachine lib me decode depth ν).AllSteps Undisturbed
        (sendMachine lib me decode depth ν).init as :=
  Machine.forall_visited_iff_allSteps (A := fun _ => True)
    (fun _ _ _ _ hi hs => bufferInv_step hi hs)
    (fun _ _ _ _ hi hp hs => ownResponses_step_iff hlib hi hp hs)
    as _ t (fun _ _ => trivial) bufferInv_init (by simp [OwnResponses, sendMachine]) hrun

/-- A world in which every handler answers `ok`. -/
def sampleWorld : World Unit :=
  { now := 0
    registry := [⟨(CharBuf.zero 32).copy ['e'], some (), 1, 0⟩]
    answer := fun _ _ => ⟨0, (CharBuf.zero 128).copy ['o', 'k'], CharBuf.terminated_copy_zero _⟩ }

/-- A request for the service `e`. -/
def sampleReq (seq pri : Int) : Dispatch :=
  .request ⟨some "req".toList, seq, 7, some ['e'], some ['x'], pri, 0, 0⟩

/-- Node `A` has a NORMAL request handled and its answer encoded; before it
is sent, a CRITICAL request of node `B` comes in and is answered. -/
def preempted : List (SendAct Dispatch Unit) :=
  [.thread (.recv (sampleReq 1 1) ⟨0xA, 5556⟩), .thread .dispatch, .thread (.get .normal),
   .thread (.handle .normal sampleWorld), .encode (.handler .normal),
   .thread (.recv (sampleReq 2 0) ⟨0xB, 5556⟩), .thread .dispatch, .thread (.get .critical),
   .thread (.handle .critical sampleWorld), .encode (.handler .critical),
   .sendto (.handler .critical), .sendto (.handler .normal)]

/-- Node `A` gets the answer to the request of node `B`. -/
theorem preempted_not_own :
    ∃ t, (sendMachine jsonReference ⟨7⟩ id 8 Unit).run preempted = some t ∧
      t.wire.map (·.2) =
        [⟨⟨0xB, 5556⟩, renderObj (rspFields ⟨7⟩ ⟨⟨0xB, 5556⟩, 2, 0, ['o', 'k'], .critical⟩)⟩,
         ⟨⟨0xA, 5556⟩, renderObj (rspFields ⟨7⟩ ⟨⟨0xB, 5556⟩, 2, 0, ['o', 'k'], .critical⟩)⟩] ∧
      ¬ OwnResponses jsonReference ⟨7⟩ t := by
  obtain ⟨t, ht⟩ : ∃ t, (sendMachine jsonReference ⟨7⟩ id 8 Unit).run preempted = some t :=
    Option.isSome_iff_exists.mp (by decide)
  have hwire : ((sendMachine jsonReference ⟨7⟩ id 8 Unit).run preempted).map (fun t => t.wire) =
      some [(⟨⟨0xB, 5556⟩, 2, 0, ['o', 'k'], .critical⟩,
          ⟨⟨0xB, 5556⟩, renderObj (rspFields ⟨7⟩ ⟨⟨0xB, 5556⟩, 2, 0, ['o', 'k'], .critical⟩)⟩),
        (⟨⟨0xA, 5556⟩, 1, 0, ['o', 'k'], .normal⟩,
          ⟨⟨0xA, 5556⟩,
            renderObj (rspFields ⟨7⟩ ⟨⟨0xB, 5556⟩, 2, 0, ['o', 'k'], .critical⟩)⟩)] := by
    decide
  simp only [ht, Option.map_some, Option.some.injEq] at hwire
  refine ⟨t, ht, by rw [hwire]; rfl, ?_⟩
  intro hown
  have := hown _ (by rw [hwire]; exact List.mem_cons_of_mem _ List.mem_cons_self)
  revert this
  decide

/-- The same two requests, of which the CRITICAL one is answered first, and
each answer is sent as soon as it is encoded. -/
def unhurried : List (SendAct Dispatch Unit) :=
  [.thread (.recv (sampleReq 1 1) ⟨0xA, 5556⟩), .thread .dispatch, .thread (.get .normal),
   .thread (.handle .normal sampleWorld), .thread (.recv (sampleReq 2 0) ⟨0xB, 5556⟩),
   .thread .dispatch, .thread (.get .critical), .thread (.handle .critical sampleWorld),
   .encode (.handler .critical), .sendto (.handler .critical), .encode (.handler .normal),
   .sendto (.handler .normal)]

/-- Nobody is disturbed, and both nodes get their own answers. -/
theorem ownResponses_iff_undisturbed_sample :
    (sendMachine jsonReference ⟨7⟩ id 8 Unit).AllSteps Undisturbed
        (sendMachine jsonReference ⟨7⟩ id 8 Unit).init unhurried ∧
      (∀ u ∈ (sendMachine jsonReference ⟨7⟩ id 8 Unit).visited
        (sendMachine jsonReference ⟨7⟩ id 8 Unit).init unhurried,
        OwnResponses jsonReference ⟨7⟩ u) ∧
      ((sendMachine jsonReference ⟨7⟩ id 8 Unit).run unhurried).map (fun t => t.wire.map (·.2)) =
        some
          [⟨⟨0xB, 5556⟩, renderObj (rspFields ⟨7⟩ ⟨⟨0xB, 5556⟩, 2, 0, ['o', 'k'], .critical⟩)⟩,
           ⟨⟨0xA, 5556⟩, renderObj (rspFields ⟨7⟩ ⟨⟨0xA, 5556⟩, 1, 0, ['o', 'k'], .normal⟩)⟩] := by
  obtain ⟨t, ht⟩ : ∃ t, (sendMachine jsonReference ⟨7⟩ id 8 Unit).run unhurried = some t :=
    Option.isSome_iff_exists.mp (by decide +kernel)
  have hown : ∀ u ∈ (sendMachine jsonReference ⟨7⟩ id 8 Unit).visited
      (sendMachine jsonReference ⟨7⟩ id 8 Unit).init unhurried,
      OwnResponses jsonReference ⟨7⟩ u := by
    decide +kernel
  have hiff :=
    ownResponses_iff_undisturbed jsonReference jsonReference_unambiguous ⟨7⟩ id 8 unhurried t ht
  exact ⟨hiff.mp hown, hown, by decide +kernel⟩

end Ceell.Network
