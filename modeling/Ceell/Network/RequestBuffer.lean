/-
Ceell.Network.RequestBuffer — the static buffer of `ceell_msg_send_pri`,
shared by all of its callers.

`Client` takes the encoding and the send of a request for one step. Here
they are two, with the steps of other calls in between, and the peer
lookup before them is a step of its own. `requestBuffer_simulation` says
that every finer run is a run of `Client`. What the datagrams carry is
`ownRequests_iff_undisturbed`: the slots of the priorities keep the calls
apart, the buffer does not.
-/
import Ceell.Lib.SharedBuffer
import Ceell.Network.Client
import Ceell.Network.Escapes
import Ceell.Network.ServiceDiscovery
import Ceell.Osal.JsonReference

namespace Ceell.Network

open Ceell.Lib Ceell.Core Ceell.Osal

/-! ## The steps of a send -/

/-- `CONFIG_CEELL_MSG_PORT` -/
def msgPort : UInt16 := 5556

/-- The locals of a call that has found a peer. -/
structure ResolvedCall where
  args : CallArgs
  peerIp : CharBuf 16

/-- A datagram, with the call that has sent it and its `peer_ip`. -/
structure SentRequest where
  id : CallId
  call : Call
  peerIp : CharBuf 16
  packet : Packet

structure RequestState where
  core : ClientState
  /-- `buf`, up to its terminator -/
  buf : List Char
  resolved : CallId → Option ResolvedCall
  /-- what `json_obj_encode_buf` returned to a call about to act on it -/
  encoded : CallId → Option Int
  /-- the datagrams sent -/
  wire : List SentRequest
  /-- the call that encoded into `buf` last -/
  lastEncode : Option Call

inductive RequestAct (k : Kconfig) where
  | resolve (c : CallId) (args : CallArgs) (t : PeerTable k.discoveryMaxPeers) (ip : CharBuf 16)
  | claim (c : CallId)
  | encode (c : CallId)
  | sendto (c : CallId) (ret : Int) -- what `ceell_sendto` answers, if it is called
  | other (a : ClientAct) -- any other step of a call or of the dispatcher

/-- What becomes of a send, by the results of its two calls. -/
def sendResult (encodeRet sendRet : Int) : SendResult :=
  if encodeRet ≠ 0 then .encodeFailed
  else if sendRet < 0 then .sendFailed sendRet
  else .sent

/-- `json_obj_encode_buf` of a request. -/
def encodeReq (lib : JsonLib) (me : Identity) (call : Call) : Int × List Char :=
  lib.encodeBuf (reqFields me call) msgBufSize

/-- The datagram of a send, if both of its calls succeed. -/
def sentNow (inetPton : List Char → UInt32) (s : RequestState) (c : CallId) (call : Call)
    (peerIp : CharBuf 16) (encodeRet ret : Int) : List SentRequest :=
  if encodeRet = 0 ∧ 0 ≤ ret then [⟨c, call, peerIp, ⟨⟨inetPton peerIp.str, msgPort⟩, s.buf⟩⟩]
  else []

variable (lib : JsonLib) (k : Kconfig) (me : Identity) (inetPton : List Char → UInt32)

def requestStep (s : RequestState) : RequestAct k → Option RequestState
  | .resolve c args t ip =>
      match s.core.calls c, s.resolved c,
          ceellServiceFindPeer k t (some args.service) (some ip) with
      | .start, none, (some peerIp, ret) =>
          if ret = 0 then
            some { s with resolved := Function.update s.resolved c (some ⟨args, peerIp⟩) }
          else none -- rejected
      | _, _, _ => none
  | .claim c =>
      match s.resolved c with
      | some r => (clientStep s.core (.claim c r.args)).map fun core => { s with core := core }
      | none => none
  | .encode c =>
      match s.core.calls c, s.encoded c with
      | .claimed call, none =>
          some { s with
            buf := cstr (encodeReq lib me call).2
            encoded := Function.update s.encoded c (some (encodeReq lib me call).1)
            lastEncode := some call }
      | _, _ => none
  | .sendto c ret =>
      match s.core.calls c, s.encoded c, s.resolved c with
      | .claimed call, some encodeRet, some r =>
          (clientStep s.core (.send c (sendResult encodeRet ret))).map fun core =>
            { s with
              core := core
              encoded := Function.update s.encoded c none
              wire := s.wire ++ sentNow inetPton s c call r.peerIp encodeRet ret }
      | _, _, _ => none
  | .other (.claim _ _) => none
  | .other (.send _ _) => none
  | .other a => (clientStep s.core a).map fun core => { s with core := core }

def requestMachine : Machine RequestState (RequestAct k) where
  init := ⟨clientMachine.init, [], fun _ => none, fun _ => none, [], none⟩
  step := requestStep lib k me inetPton

/-- The label of `Client` for a step. -/
def clientLabels (s : RequestState) : RequestAct k → List ClientAct
  | .resolve _ _ _ _ => []
  | .claim c => ((s.resolved c).map fun r => ClientAct.claim c r.args).toList
  | .encode _ => []
  | .sendto c ret => ((s.encoded c).map fun e => ClientAct.send c (sendResult e ret)).toList
  | .other a => [a]

/-! ## What each step does -/

section Steps

variable {lib k me inetPton} {s s' : RequestState}

/-- `ceell_service_find_peer` has found the address for the service. -/
def Resolves (k : Kconfig) (service : List Char) (peerIp : CharBuf 16) : Prop :=
  ∃ (t : PeerTable k.discoveryMaxPeers) (ip : CharBuf 16),
    ceellServiceFindPeer k t (some service) (some ip) = (some peerIp, 0)

theorem step_resolve {c : CallId} {args : CallArgs} {t : PeerTable k.discoveryMaxPeers}
    {ip : CharBuf 16} (h : requestStep lib k me inetPton s (.resolve c args t ip) = some s') :
    ∃ peerIp, s.core.calls c = .start ∧ s.resolved c = none ∧
      Resolves k args.service peerIp ∧
      s' = { s with resolved := Function.update s.resolved c (some ⟨args, peerIp⟩) } := by
  simp only [requestStep] at h
  split at h
  · rename_i peerIp ret hc hr hfind
    split at h
    · rename_i hret
      subst hret
      exact ⟨peerIp, hc, hr, ⟨t, ip, hfind⟩, (Option.some.inj h).symm⟩
    · cases h
  · cases h

theorem step_claimResolved {c : CallId}
    (h : requestStep lib k me inetPton s (.claim c : RequestAct k) = some s') :
    ∃ r, s.resolved c = some r ∧ s.core.calls c = .start ∧
      s' = { s with core := claimSlot s.core c r.args } := by
  simp only [requestStep] at h
  split at h
  · rename_i r hr
    obtain ⟨core, hcore, rfl⟩ := Option.map_eq_some_iff.mp h
    obtain ⟨hc, rfl⟩ := step_claim hcore
    exact ⟨r, hr, hc, rfl⟩
  · cases h

theorem step_encodeReq {c : CallId}
    (h : requestStep lib k me inetPton s (.encode c : RequestAct k) = some s') :
    ∃ call, s.core.calls c = .claimed call ∧ s.encoded c = none ∧
      s' = { s with
        buf := cstr (encodeReq lib me call).2
        encoded := Function.update s.encoded c (some (encodeReq lib me call).1)
        lastEncode := some call } := by
  simp only [requestStep] at h
  split at h
  · rename_i call hc he
    exact ⟨call, hc, he, (Option.some.inj h).symm⟩
  · cases h

theorem step_sendReq {c : CallId} {ret : Int}
    (h : requestStep lib k me inetPton s (.sendto c ret : RequestAct k) = some s') :
    ∃ call encodeRet r pc, s.core.calls c = .claimed call ∧ s.encoded c = some encodeRet ∧
      s.resolved c = some r ∧ (∀ call, pc ≠ .claimed call) ∧ pc ≠ .start ∧
      clientStep s.core (.send c (sendResult encodeRet ret))
        = some { s.core with calls := Function.update s.core.calls c pc } ∧
      s' = { s with
        core := { s.core with calls := Function.update s.core.calls c pc }
        encoded := Function.update s.encoded c none
        wire := s.wire ++ sentNow inetPton s c call r.peerIp encodeRet ret } := by
  simp only [requestStep] at h
  split at h
  · rename_i call encodeRet r hc he hr
    obtain ⟨core, hcore, rfl⟩ := Option.map_eq_some_iff.mp h
    obtain ⟨call', hc', ⟨_, rfl⟩ | ⟨ret', _, rfl⟩⟩ := step_send hcore
    · exact ⟨call, encodeRet, r, .sent call', hc, he, hr, by simp, by simp, hcore, rfl⟩
    · exact ⟨call, encodeRet, r, .failed ret', hc, he, hr, by simp, by simp, hcore, rfl⟩
  · cases h

/-- A call between two of its later steps moves. -/
theorem move_pc {calls : CallId → CallPc} {c : CallId} {pc : CallPc}
    (hold : ∀ call, calls c ≠ .claimed call) (hnew : ∀ call, pc ≠ .claimed call)
    (hstart : pc ≠ .start) :
    (∀ d call, Function.update calls c pc d = .claimed call ↔ calls d = .claimed call) ∧
    ∀ d, Function.update calls c pc d = .start → calls d = .start := by
  constructor
  · intro d call
    by_cases hd : d = c
    · subst hd
      rw [Function.update_self]
      exact iff_of_false (hnew call) (hold call)
    · rw [Function.update_of_ne hd]
  · intro d h
    by_cases hd : d = c
    · subst hd
      rw [Function.update_self] at h
      exact absurd h hstart
    · rwa [Function.update_of_ne hd] at h

/-- The other steps claim no slot and send nothing; the calls that are
between the two keep still. -/
theorem step_other {a : ClientAct}
    (h : requestStep lib k me inetPton s (.other a : RequestAct k) = some s') :
    ∃ core, clientStep s.core a = some core ∧ s' = { s with core := core } ∧
      (∀ c call, core.calls c = .claimed call ↔ s.core.calls c = .claimed call) ∧
      ∀ c, core.calls c = .start → s.core.calls c = .start := by
  cases a with
  | claim c args => cases h
  | send c r => cases h
  | reject c why =>
    obtain ⟨core, hcore, rfl⟩ := Option.map_eq_some_iff.mp h
    obtain ⟨hc, rfl⟩ := step_reject hcore
    exact ⟨_, hcore, rfl, move_pc (by simp [hc]) (by simp) (by simp)⟩
  | take c =>
    obtain ⟨core, hcore, rfl⟩ := Option.map_eq_some_iff.mp h
    obtain ⟨call, hc, ⟨_, rfl⟩ | ⟨_, rfl⟩⟩ := step_take hcore
    · exact ⟨_, hcore, rfl, move_pc (by simp [hc]) (by simp) (by simp)⟩
    · exact ⟨_, hcore, rfl, move_pc (by simp [hc]) (by simp) (by simp)⟩
  | timeout c =>
    obtain ⟨core, hcore, rfl⟩ := Option.map_eq_some_iff.mp h
    obtain ⟨call, hc, rfl⟩ := step_timeout hcore
    exact ⟨_, hcore, rfl, move_pc (by simp [hc]) (by simp) (by simp)⟩
  | copyOut c =>
    obtain ⟨core, hcore, rfl⟩ := Option.map_eq_some_iff.mp h
    obtain ⟨call, hc, rfl⟩ := step_copyOut hcore
    exact ⟨_, hcore, rfl, move_pc (by simp [hc]) (by simp) (by simp)⟩
  | handleResponse rsp wake =>
    obtain ⟨core, hcore, rfl⟩ := Option.map_eq_some_iff.mp h
    rcases step_handleResponse hcore with ⟨_, rfl⟩ | ⟨_, ⟨_, rfl⟩ | ⟨c, call, hc, _, rfl⟩⟩
    · exact ⟨_, hcore, rfl, fun _ _ => Iff.rfl, fun _ h => h⟩
    · exact ⟨_, hcore, rfl, fun _ _ => Iff.rfl, fun _ h => h⟩
    · exact ⟨_, hcore, rfl, move_pc (by simp [hc]) (by simp) (by simp)⟩

/-- A claim leaves the calls that are claimed already: none of them waits. -/
theorem claimed_claimSlot {core : ClientState} {c : CallId} (args : CallArgs) (hw : WaitInv core)
    {d : CallId} (hne : d ≠ c) :
    (∀ call, (claimSlot core c args).calls d = .claimed call ↔ core.calls d = .claimed call) ∧
    ((claimSlot core c args).calls d = .start → core.calls d = .start) := by
  by_cases hmem : d ∈ (core.rspSem (msgPriorityOf args.priority)).waiters
  · obtain ⟨call', hcall', _⟩ := hw.waiting _ d hmem
    simp [claimSlot, hne, hmem, hcall']
  · simp [claimSlot, hne, hmem]

/-- The step of `Client` that a step is. -/
theorem requestStep_core {a : RequestAct k} (h : requestStep lib k me inetPton s a = some s') :
    clientMachine.runFrom s.core (clientLabels k s a) = some s'.core := by
  cases a with
  | resolve c args t ip =>
    obtain ⟨_, _, _, _, rfl⟩ := step_resolve h
    rfl
  | claim c =>
    obtain ⟨r, hr, hc, rfl⟩ := step_claimResolved h
    simp only [clientLabels, hr, Option.map_some, Option.toList_some]
    have hstep : clientMachine.step s.core (.claim c r.args)
        = some (claimSlot s.core c r.args) := by
      show clientStep s.core (.claim c r.args) = _
      simp only [clientStep, hc]
    exact Machine.runFrom_cons hstep
  | encode c =>
    obtain ⟨_, _, _, rfl⟩ := step_encodeReq h
    rfl
  | sendto c ret =>
    obtain ⟨call, encodeRet, r, pc, _, he, _, _, _, hcore, rfl⟩ := step_sendReq h
    simp only [clientLabels, he, Option.map_some, Option.toList_some]
    exact Machine.runFrom_cons hcore
  | other a =>
    obtain ⟨core, hcore, rfl, _⟩ := step_other h
    exact Machine.runFrom_cons hcore

/-- The slots do not see the buffer. -/
def requestBuffer_simulation :
    Machine.Simulation (requestMachine lib k me inetPton) clientMachine fun _ _ => True where
  abs := RequestState.core
  labels := clientLabels k
  init := rfl
  step := fun _ _ _ _ h => ⟨requestStep_core h, Machine.allSteps_true _ _⟩

end Steps

/-! ## What the datagrams carry -/

/-- Every datagram goes to the peer found for the service of its own call
and carries its own call's request, and no call sends two. -/
def OwnRequests (s : RequestState) : Prop :=
  (s.wire.map (·.id)).Nodup ∧
  ∀ x ∈ s.wire, Resolves k x.call.args.service x.peerIp ∧
    x.packet = ⟨⟨inetPton x.peerIp.str, msgPort⟩, cstr (encodeReq lib me x.call).2⟩

/-- The two calls make the same request. -/
def SameRequest (a b : Call) : Prop :=
  a.seq = b.seq ∧ a.args.service = b.args.service ∧ a.args.payload = b.args.payload ∧
    a.pri = b.pri ∧ a.args.deadlineMs = b.args.deadlineMs ∧
    toInt32 a.args.sendTime = toInt32 b.args.sendTime

instance (a b : Call) : Decidable (SameRequest a b) := by
  unfold SameRequest; infer_instance

/-- When a call is about to send what it has encoded, no other call has
encoded a different request since. -/
def RequestUndisturbed (s : RequestState) : RequestAct k → Prop
  | .sendto c ret => ∀ call last, s.core.calls c = .claimed call → s.encoded c = some 0 →
      0 ≤ ret → s.lastEncode = some last → SameRequest last call
  | _ => True

instance (s : RequestState) : ∀ a, Decidable (RequestUndisturbed k s a)
  | .sendto c ret =>
      match hc : s.core.calls c with
      | .claimed call =>
          decidable_of_iff
            (s.encoded c = some 0 → 0 ≤ ret → ∀ last ∈ s.lastEncode, SameRequest last call)
            ⟨fun h call' last hc' he hret hl =>
                CallPc.claimed.inj (hc.symm.trans hc') ▸ h he hret last hl,
              fun h he hret last hl => h call last hc he hret hl⟩
      | .start | .sent _ | .waiting _ | .taken _ | .failed _ | .returned _ _ =>
          .isTrue fun _ _ hc' => by cases hc.symm.trans hc'
  | .resolve _ _ _ _ | .claim _ | .encode _ | .other _ => .isTrue trivial

/-- What is in the buffer, and what the calls that have encoded know. -/
structure RequestInv (s : RequestState) : Prop where
  waits : WaitInv s.core
  buf : ∀ call, s.lastEncode = some call → s.buf = cstr (encodeReq lib me call).2
  encoded : ∀ c ret, s.encoded c = some ret →
    s.lastEncode.isSome ∧ ∃ call, s.core.calls c = .claimed call ∧ ret = (encodeReq lib me call).1
  resolved : ∀ c r, s.resolved c = some r → Resolves k r.args.service r.peerIp
  claimed : ∀ c call, s.core.calls c = .claimed call →
    ∃ r, s.resolved c = some r ∧ r.args = call.args
  nodup : (s.wire.map (·.id)).Nodup
  sent : ∀ x ∈ s.wire, Resolves k x.call.args.service x.peerIp ∧ s.core.calls x.id ≠ .start ∧
    ∀ call, s.core.calls x.id ≠ .claimed call

section Own

variable {lib k me inetPton} {s s' : RequestState}

theorem sameRequest_iff {a b : Call} : reqFields me a = reqFields me b ↔ SameRequest a b := by
  have hpri : a.pri.toInt = b.pri.toInt ↔ a.pri = b.pri := by
    cases a.pri <;> cases b.pri <;> decide
  have hseq : ofUInt32 a.seq = ofUInt32 b.seq ↔ a.seq = b.seq := by
    constructor
    · intro h
      rw [← toUInt32_ofUInt32 a.seq, h, toUInt32_ofUInt32]
    · exact congrArg ofUInt32
  have hdeadline : (a.args.deadlineMs.toNat : Int) = b.args.deadlineMs.toNat ↔
      a.args.deadlineMs = b.args.deadlineMs := by
    rw [Int.ofNat_inj, UInt16.toNat_inj]
  simp [reqFields, SameRequest, hpri, hseq, hdeadline]

theorem RequestInv.encodes (hi : RequestInv lib k me s) :
    Encoded (fun c call => s.core.calls c = .claimed call) (fun call => (encodeReq lib me call).1)
      s.lastEncode s.encoded :=
  hi.encoded

theorem requestInv_init : RequestInv lib k me (requestMachine lib k me inetPton).init where
  waits := waitInv_init
  buf := by
    intro call h
    cases h
  encoded := Encoded.init
  resolved := by
    intro c r h
    cases h
  claimed := by
    intro c call h
    cases h
  nodup := List.nodup_nil
  sent := by
    intro x hx
    cases hx

theorem inv_resolve {c : CallId} {r : ResolvedCall} (hi : RequestInv lib k me s)
    (hc : s.core.calls c = .start) (hfound : Resolves k r.args.service r.peerIp) :
    RequestInv lib k me { s with resolved := Function.update s.resolved c (some r) } where
  waits := hi.waits
  buf := hi.buf
  encoded := hi.encoded
  resolved := by
    refine (Function.forall_update_iff s.resolved fun _ o => ∀ r', o = some r' →
      Resolves k r'.args.service r'.peerIp).mpr ⟨?_, fun d _ r' hr' => hi.resolved d r' hr'⟩
    intro r' hr'
    obtain rfl := Option.some.inj hr'
    exact hfound
  claimed := by
    intro d call hd
    have hne : d ≠ c := by
      rintro rfl
      rw [hc] at hd
      cases hd
    obtain ⟨r', hr', hargs⟩ := hi.claimed d call hd
    exact ⟨r', by simpa [hne] using hr', hargs⟩
  nodup := hi.nodup
  sent := hi.sent

theorem inv_claimResolved {c : CallId} {r : ResolvedCall} (hi : RequestInv lib k me s)
    (hr : s.resolved c = some r) (hc : s.core.calls c = .start) :
    RequestInv lib k me { s with core := claimSlot s.core c r.args } where
  waits := hi.waits.claim r.args hc
  buf := hi.buf
  encoded := by
    refine hi.encodes.mono fun d call hcall => ?_
    have hne : d ≠ c := by
      rintro rfl
      rw [hc] at hcall
      cases hcall
    exact ((claimed_claimSlot r.args hi.waits hne).1 call).mpr hcall
  resolved := hi.resolved
  claimed := by
    intro d call hd
    by_cases hne : d = c
    · subst hne
      have hself : (claimSlot s.core d r.args).calls d
          = .claimed ⟨r.args, msgPriorityOf r.args.priority, s.core.nextSeq⟩ := by
        simp [claimSlot]
      obtain rfl := CallPc.claimed.inj (hself.symm.trans hd)
      exact ⟨r, hr, rfl⟩
    · exact hi.claimed d call (((claimed_claimSlot r.args hi.waits hne).1 call).mp hd)
  nodup := hi.nodup
  sent := by
    intro x hx
    obtain ⟨hfound, hstart, hclaimed⟩ := hi.sent x hx
    have hne : x.id ≠ c := by
      intro heq
      exact hstart (heq ▸ hc)
    obtain ⟨h1, h2⟩ := claimed_claimSlot r.args hi.waits hne
    exact ⟨hfound, fun h => hstart (h2 h), fun call h => hclaimed call ((h1 call).mp h)⟩

theorem inv_encodeReq {c : CallId} {call : Call} (hi : RequestInv lib k me s)
    (hc : s.core.calls c = .claimed call) :
    RequestInv lib k me { s with
      buf := cstr (encodeReq lib me call).2
      encoded := Function.update s.encoded c (some (encodeReq lib me call).1)
      lastEncode := some call } where
  waits := hi.waits
  buf := by
    intro call' h
    obtain rfl := Option.some.inj h
    rfl
  encoded := hi.encodes.encode hc
  resolved := hi.resolved
  claimed := hi.claimed
  nodup := hi.nodup
  sent := hi.sent

/-- The end of a send; `sent` is the datagram, if one was sent. -/
theorem inv_sendReq {c : CallId} {call : Call} {pc : CallPc} {sent : List SentRequest}
    (hi : RequestInv lib k me s) (hc : s.core.calls c = .claimed call)
    (hclaimed : ∀ call, pc ≠ .claimed call) (hstart : pc ≠ .start)
    (hwaits : WaitInv { s.core with calls := Function.update s.core.calls c pc })
    (hlen : sent.length ≤ 1)
    (hsent : ∀ x ∈ sent, x.id = c ∧ Resolves k x.call.args.service x.peerIp) :
    RequestInv lib k me { s with
      core := { s.core with calls := Function.update s.core.calls c pc }
      encoded := Function.update s.encoded c none
      wire := s.wire ++ sent } where
  waits := hwaits
  buf := hi.buf
  encoded := by
    refine hi.encodes.finish fun d hne call' hd => ?_
    exact (Function.update_of_ne hne pc s.core.calls).trans hd
  resolved := hi.resolved
  claimed := by
    intro d call' hd
    by_cases hne : d = c
    · subst hne
      exact absurd ((Function.update_self d pc s.core.calls).symm.trans hd) (hclaimed call')
    · exact hi.claimed d call' ((Function.update_of_ne hne pc s.core.calls).symm.trans hd)
  nodup := by
    rw [List.map_append]
    refine hi.nodup.append ?_ ?_
    · have hle : (sent.map (·.id)).length ≤ 1 := by rwa [List.length_map]
      exact List.nodup_iff_sublist.mpr fun a h => absurd h.length_le (by simp; omega)
    · -- a call that is about to send has not sent before
      intro d hd hd'
      obtain ⟨x, hx, rfl⟩ := List.mem_map.mp hd
      obtain ⟨y, hy, hid⟩ := List.mem_map.mp hd'
      refine (hi.sent x hx).2.2 call ?_
      rw [← hid, (hsent y hy).1]
      exact hc
  sent := by
    intro x hx
    rcases List.mem_append.mp hx with hx | hx
    · obtain ⟨hfound, hs, hcl⟩ := hi.sent x hx
      have hne : x.id ≠ c := by
        intro heq
        exact hcl call (heq ▸ hc)
      refine ⟨hfound, ?_⟩
      show Function.update s.core.calls c pc x.id ≠ .start ∧
        ∀ call, Function.update s.core.calls c pc x.id ≠ .claimed call
      rw [Function.update_of_ne hne]
      exact ⟨hs, hcl⟩
    · obtain ⟨hid, hfound⟩ := hsent x hx
      refine ⟨hfound, ?_⟩
      show Function.update s.core.calls c pc x.id ≠ .start ∧
        ∀ call, Function.update s.core.calls c pc x.id ≠ .claimed call
      rw [hid, Function.update_self]
      exact ⟨hstart, hclaimed⟩

theorem inv_other {core : ClientState} (hi : RequestInv lib k me s) (hwaits : WaitInv core)
    (hclaimed : ∀ c call, core.calls c = .claimed call ↔ s.core.calls c = .claimed call)
    (hstart : ∀ c, core.calls c = .start → s.core.calls c = .start) :
    RequestInv lib k me { s with core := core } where
  waits := hwaits
  buf := hi.buf
  encoded := hi.encodes.mono fun c call hcall => (hclaimed c call).mpr hcall
  resolved := hi.resolved
  claimed := fun c call h => hi.claimed c call ((hclaimed c call).mp h)
  nodup := hi.nodup
  sent := by
    intro x hx
    obtain ⟨hfound, hs, hcl⟩ := hi.sent x hx
    exact ⟨hfound, fun h => hs (hstart _ h), fun call h => hcl call ((hclaimed _ call).mp h)⟩

theorem requestInv_step {a : RequestAct k} (hi : RequestInv lib k me s)
    (h : requestStep lib k me inetPton s a = some s') : RequestInv lib k me s' := by
  cases a with
  | resolve c args t ip =>
    obtain ⟨peerIp, hc, _, hfound, rfl⟩ := step_resolve h
    exact inv_resolve hi hc hfound
  | claim c =>
    obtain ⟨r, hr, hc, rfl⟩ := step_claimResolved h
    exact inv_claimResolved hi hr hc
  | encode c =>
    obtain ⟨call, hc, _, rfl⟩ := step_encodeReq h
    exact inv_encodeReq hi hc
  | sendto c ret =>
    obtain ⟨call, encodeRet, r, pc, hc, _, hr, hclaimed, hstart, hcore, rfl⟩ := step_sendReq h
    obtain ⟨r', hr', hargs⟩ := hi.claimed c call hc
    obtain rfl : r = r' := Option.some.inj (hr.symm.trans hr')
    refine inv_sendReq hi hc hclaimed hstart (waitInv_step hi.waits hcore) ?_ ?_
    · unfold sentNow
      split <;> simp
    · intro x hx
      unfold sentNow at hx
      split at hx
      · obtain rfl := List.mem_singleton.mp hx
        exact ⟨rfl, hargs ▸ hi.resolved c r hr⟩
      · cases hx
  | other a =>
    obtain ⟨core, hcore, rfl, hclaimed, hstart⟩ := step_other h
    exact inv_other hi (waitInv_step hi.waits hcore) hclaimed hstart

/-- One step keeps every datagram its own call's exactly if it is
undisturbed. -/
theorem ownRequests_step_iff {a : RequestAct k} (hlib : lib.Unambiguous)
    (hi : RequestInv lib k me s) (hp : OwnRequests lib k me inetPton s)
    (h : requestStep lib k me inetPton s a = some s') :
    OwnRequests lib k me inetPton s' ↔ RequestUndisturbed k s a := by
  have hi' := requestInv_step hi h
  cases a with
  | resolve c args t ip =>
    obtain ⟨_, _, _, _, rfl⟩ := step_resolve h
    exact iff_of_true hp trivial
  | claim c =>
    obtain ⟨_, _, _, rfl⟩ := step_claimResolved h
    exact iff_of_true hp trivial
  | encode c =>
    obtain ⟨_, _, _, rfl⟩ := step_encodeReq h
    exact iff_of_true hp trivial
  | other a =>
    obtain ⟨_, _, rfl, _⟩ := step_other h
    exact iff_of_true hp trivial
  | sendto c ret =>
    obtain ⟨call, encodeRet, r, pc, hc, he, _, _, _, _, rfl⟩ := step_sendReq h
    obtain ⟨hlast, call', hc', hret⟩ := hi.encoded c encodeRet he
    obtain rfl := CallPc.claimed.inj (hc.symm.trans hc')
    obtain ⟨last, hl⟩ := Option.isSome_iff_exists.mp hlast
    by_cases hgoes : encodeRet = 0 ∧ 0 ≤ ret
    · rw [sentNow, if_pos hgoes] at hi' ⊢
      -- the datagram is the text in the buffer, which is that of `last`
      have hnew : OwnRequests lib k me inetPton { s with
            core := { s.core with calls := Function.update s.core.calls c pc }
            encoded := Function.update s.encoded c none
            wire := s.wire ++ [⟨c, call, r.peerIp, ⟨⟨inetPton r.peerIp.str, msgPort⟩, s.buf⟩⟩] } ↔
          cstr (encodeReq lib me last).2 = cstr (encodeReq lib me call).2 := by
        rw [← hi.buf last hl]
        constructor
        · rintro ⟨_, hall⟩
          exact (Packet.mk.inj (hall _ (List.mem_append_right _ List.mem_cons_self)).2).2
        · intro heq
          refine ⟨hi'.nodup, fun x hx => ⟨(hi'.sent x hx).1, ?_⟩⟩
          rcases List.mem_append.mp hx with hx | hx
          · exact (hp.2 x hx).2
          · obtain rfl := List.mem_singleton.mp hx
            exact congrArg (Packet.mk _) heq
      rw [hnew]
      constructor
      · intro heq call' last' hcall' _ _ hl'
        obtain rfl := CallPc.claimed.inj (hc.symm.trans hcall')
        obtain rfl : last = last' := Option.some.inj (hl.symm.trans hl')
        exact sameRequest_iff.mp (hlib _ _ _ (hret.symm.trans hgoes.1) heq)
      · intro hsame
        have hfields : reqFields me last = reqFields me call :=
          sameRequest_iff.mpr (hsame call last hc (hgoes.1 ▸ he) hgoes.2 hl)
        rw [encodeReq, encodeReq, hfields]
    · rw [sentNow, if_neg hgoes, List.append_nil]
      refine iff_of_true hp ?_
      intro call' last' _ he' hret' _
      exact absurd ⟨Option.some.inj (he.symm.trans he'), hret'⟩ hgoes

end Own

/-- The number of a dotted address. -/
def dottedAddr (ip : List Char) : UInt32 :=
  (pieces '.' ip).foldl (fun addr part =>
    addr * 256 + part.foldl (fun n c => n * 10 + (c.toNat - 48).toUInt32) 0) 0

/-- Two nodes, one with the lights and one with the brakes. -/
def twoPeers : PeerTable 8 :=
  updatePeer none 0 ⟨2, none, none, some "10.0.0.2".toList, some "brake".toList⟩ <|
    updatePeer none 0 ⟨1, none, none, some "10.0.0.1".toList, some "lights".toList⟩ (.empty 8)

/-- A NORMAL call to the lights, and a CRITICAL one to the brakes. -/
def lightsArgs : CallArgs := ⟨"lights".toList, "on".toList, 1, 0, 5⟩

def brakeArgs : CallArgs := ⟨"brake".toList, "hold".toList, 0, 50, 6⟩

/-- The CRITICAL call runs between the encoding of the NORMAL one and its
`ceell_sendto`. -/
def overtaken : List (RequestAct {}) :=
  [.resolve 0 lightsArgs twoPeers (.zero 16), .claim 0, .encode 0,
   .resolve 1 brakeArgs twoPeers (.zero 16), .claim 1, .encode 1, .sendto 1 150, .sendto 0 150]

/-- The same two calls, one after the other. -/
def inTurn : List (RequestAct {}) :=
  [.resolve 0 lightsArgs twoPeers (.zero 16), .claim 0, .encode 0, .sendto 0 150,
   .resolve 1 brakeArgs twoPeers (.zero 16), .claim 1, .encode 1, .sendto 1 150]

end Ceell.Network
