/-
Ceell.Network.EndToEnd — a client and a server over a network that loses,
duplicates, delays and reorders.

The client makes its calls one after another, at any priorities; the
server runs the dispatcher and the handler threads of `Server`. Between
them the network keeps every datagram ever sent, and a delivery takes one
of them, any number of times and in any order: a datagram never taken is
lost. A datagram is what it decodes to, a response reaches
`handle_response`, and a `send_response` is one step.

* `clientSimulation` — the client's half of a run is a run of
  `clientMachine` in which every call copies out of its own slot, because
  the calls are serial. So a success has the status and payload of a
  handled response that carries the call's number.
* `NetInv` — every response was made for a request that was received, and
  every request is that of an issued call. Among fewer than 2^32 calls the
  number tells which.
* `call_answered` — the two together.
-/
import Ceell.Network.Deadline
import Ceell.Network.Server

namespace Ceell.Network

open Ceell.Lib Ceell.Core Ceell.Osal

/-! ## The system -/

/-- The two nodes and what is fixed between them. -/
structure Link where
  client : Identity
  clientAddr : SockAddr
  server : Identity
  /-- `CONFIG_CEELL_MSG_QUEUE_DEPTH` -/
  depth : Nat
  /-- what a 32-bit number makes of the `int64_t` send time -/
  wire : Int → Int

/-- The response `send_response` encodes, as the receiver decodes it. -/
def sentRsp (server : Identity) (a : RspArgs) : MsgRsp :=
  { type := some "rsp".toList
    seq := a.seq
    fromId := ofUInt32 server.nodeId
    status := a.status
    payload := some a.payload
    priority := a.priority.toInt }

structure NetState (ν : Type) where
  client : ClientState
  /-- the calls begun; the last one has the number before it -/
  started : Nat
  /-- the calls that have claimed a slot, in order -/
  issued : List Call
  server : ServerState MsgReq
  /-- the requests sent -/
  requests : List MsgReq
  /-- the responses sent -/
  responses : List RspArgs
  /-- the worlds the handler threads have met -/
  worlds : List (World ν)

inductive NetAct (ν : Type) where
  | reject (why : Reject)
  | claim (args : CallArgs)
  | send (r : SendResult)
  | take
  | timeout
  | copyOut
  | deliverRequest (i : Nat)
  | dispatch
  | refuse
  | get (p : MsgPriority)
  | handle (p : MsgPriority) (w : World ν)
  | respond (p : MsgPriority)
  | deliverResponse (i : Nat) (wake : Option CallId)

/-- The call has returned. -/
def CallPc.ended : CallPc → Bool
  | .failed _ => true
  | .returned _ _ => true
  | _ => false

/-- What a send puts on the network. -/
def CallPc.request (k : Link) : CallPc → SendResult → List MsgReq
  | .claimed call, .sent => [sentReq k.wire k.client call]
  | _, _ => []

/-- What the dispatcher's `send_response` puts on the network. -/
def DispPc.response {δ : Type} : DispPc δ → List RspArgs
  | .refuse _ a => [a]
  | _ => []

/-- What a handler thread's `send_response` puts on the network. -/
def HandPc.response : HandPc → List RspArgs
  | .respond _ a => [a]
  | _ => []

variable {ν : Type}

namespace NetState

/-- The call under way, or the last one. -/
def current (s : NetState ν) : Nat := s.started - 1

/-- No call is under way. -/
def idle (s : NetState ν) : Bool := s.started = 0 || (s.client.calls s.current).ended

end NetState

/-- A step of the client that begins no call. -/
def stepClient (s : NetState ν) (a : ClientAct) : Option (NetState ν) :=
  (clientStep s.client a).map fun client => { s with client := client }

/-- A step of the server. -/
def stepServer (k : Link) (s : NetState ν) (a : ServerAct MsgReq ν) : Option (NetState ν) :=
  (serverStep .request k.depth s.server a).map fun server => { s with server := server }

def netStep (k : Link) (s : NetState ν) : NetAct ν → Option (NetState ν)
  | .reject why =>
      if s.idle then
        (stepClient s (.reject s.started why)).map fun t => { t with started := s.started + 1 }
      else none
  | .claim args =>
      if s.idle then
        (stepClient s (.claim s.started args)).map fun t =>
          { t with
            started := s.started + 1
            issued := s.issued ++ [⟨args, msgPriorityOf args.priority, s.client.nextSeq⟩] }
      else none
  | .send r =>
      (stepClient s (.send s.current r)).map fun t =>
        { t with requests := s.requests ++ (s.client.calls s.current).request k r }
  | .take => stepClient s (.take s.current)
  | .timeout => stepClient s (.timeout s.current)
  | .copyOut => stepClient s (.copyOut s.current)
  | .deliverRequest i =>
      match s.requests[i]? with
      | some req => stepServer k s (.recv req k.clientAddr)
      | none => none
  | .dispatch => stepServer k s .dispatch
  | .refuse =>
      (stepServer k s .refuse).map fun t =>
        { t with responses := s.responses ++ s.server.disp.response }
  | .get p => stepServer k s (.get p)
  | .handle p w =>
      (stepServer k s (.handle p w)).map fun t => { t with worlds := s.worlds ++ [w] }
  | .respond p =>
      (stepServer k s (.respond p)).map fun t =>
        { t with responses := s.responses ++ (s.server.hand p).response }
  | .deliverResponse i wake =>
      match s.responses[i]? with
      | some a =>
          if a.dest = k.clientAddr then stepClient s (.handleResponse (sentRsp k.server a) wake)
          else none
      | none => none

/-- Both nodes after `ceell_messaging_init`, and nothing sent. -/
def netMachine (ν : Type) (k : Link) : Machine (NetState ν) (NetAct ν) where
  init :=
    { client := clientMachine.init
      started := 0
      issued := []
      server := (serverMachine .request k.depth ν).init
      requests := []
      responses := []
      worlds := [] }
  step := netStep k

/-! ## What the steps do -/

section Steps

variable {k : Link} {s s' : NetState ν}

theorem stepClient_eq {a : ClientAct} (h : stepClient s a = some s') :
    ∃ client, clientStep s.client a = some client ∧ s' = { s with client := client } := by
  obtain ⟨client, hc, rfl⟩ := Option.map_eq_some_iff.mp h
  exact ⟨client, hc, rfl⟩

theorem stepServer_eq {a : ServerAct MsgReq ν} (h : stepServer k s a = some s') :
    ∃ server, serverStep .request k.depth s.server a = some server ∧
      s' = { s with server := server } := by
  obtain ⟨server, hs, rfl⟩ := Option.map_eq_some_iff.mp h
  exact ⟨server, hs, rfl⟩

/-- The call a program counter belongs to, while it is under way. -/
def CallPc.active : CallPc → Option Call
  | .claimed call => some call
  | .sent call => some call
  | .waiting call => some call
  | .taken call => some call
  | _ => none

/-- The calls are serial: only the last one begun can be under way, and it
owns the slot of its priority. -/
def Serial (started : Nat) (s : ClientState) : Prop :=
  ∀ (c : Nat) call, (s.calls c).active = some call → c + 1 = started ∧ s.owner call.pri = some c

theorem CallPc.active_of_ended {pc : CallPc} (h : pc.ended = true) : pc.active = none := by
  cases pc <;> first | rfl | cases h

/-- Between two calls none is under way. -/
theorem Serial.none_active (h : Serial s.started s.client) (hidle : s.idle = true) (c : CallId) :
    (s.client.calls c).active = none := by
  cases ha : (s.client.calls c).active with
  | none => rfl
  | some call =>
    obtain ⟨hc, _⟩ := h c call ha
    have hcur : s.current = c := by
      show s.started - 1 = c
      omega
    have hended : (s.client.calls c).ended = true := by
      have hne : s.started ≠ 0 := by omega
      simpa [NetState.idle, hne, hcur] using hidle
    rw [CallPc.active_of_ended hended] at ha
    cases ha

/-- The call a program counter belongs to, whether under way or returned. -/
def CallPc.call : CallPc → Option Call
  | .returned call _ => some call
  | pc => pc.active

/-- What every step of the client but a claim leaves as it is: the owners
of the slots, the next number, and which calls there are. -/
structure ClientMoves (s s' : ClientState) : Prop where
  owner : s'.owner = s.owner
  nextSeq : s'.nextSeq = s.nextSeq
  active : ∀ c call, (s'.calls c).active = some call → (s.calls c).active = some call
  call : ∀ c call, (s'.calls c).call = some call → (s.calls c).call = some call

/-- One call moves along, or ends. -/
theorem ClientMoves.of_update {s s' : ClientState} {c : CallId} {pc : CallPc}
    (hcalls : s'.calls = Function.update s.calls c pc) (howner : s'.owner = s.owner)
    (hnext : s'.nextSeq = s.nextSeq)
    (hactive : ∀ call, pc.active = some call → (s.calls c).active = some call)
    (hcall : ∀ call, pc.call = some call → (s.calls c).call = some call) : ClientMoves s s' := by
  refine ⟨howner, hnext, ?_, ?_⟩
  · rw [hcalls]
    exact (Function.forall_update_iff s.calls fun c pc => ∀ call, pc.active = some call →
      (s.calls c).active = some call).mpr ⟨hactive, fun _ _ _ h => h⟩
  · rw [hcalls]
    exact (Function.forall_update_iff s.calls fun c pc => ∀ call, pc.call = some call →
      (s.calls c).call = some call).mpr ⟨hcall, fun _ _ _ h => h⟩

theorem clientMoves_step {s s' : ClientState} {a : ClientAct} (ha : ∀ c args, a ≠ .claim c args)
    (hs : clientStep s a = some s') : ClientMoves s s' := by
  cases a with
  | reject c why =>
    obtain ⟨_, rfl⟩ := step_reject hs
    exact .of_update rfl rfl rfl (fun _ h => by cases h) fun _ h => by cases h
  | claim c args => exact absurd rfl (ha c args)
  | send c r =>
    obtain ⟨call, hc, ⟨_, rfl⟩ | ⟨ret, _, rfl⟩⟩ := step_send hs
    · exact .of_update rfl rfl rfl (fun _ h => by rw [hc]; exact h) fun _ h => by rw [hc]; exact h
    · exact .of_update rfl rfl rfl (fun _ h => by cases h) fun _ h => by cases h
  | take c =>
    obtain ⟨call, hc, ⟨_, rfl⟩ | ⟨_, rfl⟩⟩ := step_take hs
    · exact .of_update rfl rfl rfl (fun _ h => by rw [hc]; exact h) fun _ h => by rw [hc]; exact h
    · exact .of_update rfl rfl rfl (fun _ h => by rw [hc]; exact h) fun _ h => by rw [hc]; exact h
  | timeout c =>
    obtain ⟨call, _, rfl⟩ := step_timeout hs
    exact .of_update rfl rfl rfl (fun _ h => by cases h) fun _ h => by cases h
  | copyOut c =>
    obtain ⟨call, hc, rfl⟩ := step_copyOut hs
    exact .of_update rfl rfl rfl (fun _ h => by cases h) fun _ h => by rw [hc]; exact h
  | handleResponse rsp wake =>
    rcases step_handleResponse hs with ⟨_, rfl⟩ | ⟨_, ⟨_, rfl⟩ | ⟨c, call, hc, _, rfl⟩⟩
    · exact ⟨rfl, rfl, fun _ _ h => h, fun _ _ h => h⟩
    · exact ⟨rfl, rfl, fun _ _ h => h, fun _ _ h => h⟩
    · exact .of_update rfl rfl rfl (fun _ h => by rw [hc]; exact h) fun _ h => by rw [hc]; exact h

/-- Every step but a claim keeps the calls serial. -/
theorem Serial.moves {n : Nat} {s s' : ClientState} (h : Serial n s) (hm : ClientMoves s s') :
    Serial n s' := by
  intro c call hc
  rw [hm.owner]
  exact h c call (hm.active c call hc)

/-- What a step gives to `handle_response`. -/
def ClientAct.gives : ClientAct → List MsgRsp
  | .handleResponse rsp _ => [rsp]
  | _ => []

theorem handled_step {s s' : ClientState} {a : ClientAct} (hs : clientStep s a = some s') :
    s'.handled = s.handled ++ a.gives := by
  cases a with
  | reject c why =>
    obtain ⟨_, rfl⟩ := step_reject hs
    exact (List.append_nil _).symm
  | claim c args =>
    obtain ⟨_, rfl⟩ := step_claim hs
    exact (List.append_nil _).symm
  | send c r =>
    obtain ⟨_, _, ⟨_, rfl⟩ | ⟨_, _, rfl⟩⟩ := step_send hs
    · exact (List.append_nil _).symm
    · exact (List.append_nil _).symm
  | take c =>
    obtain ⟨_, _, ⟨_, rfl⟩ | ⟨_, rfl⟩⟩ := step_take hs
    · exact (List.append_nil _).symm
    · exact (List.append_nil _).symm
  | timeout c =>
    obtain ⟨_, _, rfl⟩ := step_timeout hs
    exact (List.append_nil _).symm
  | copyOut c =>
    obtain ⟨_, _, rfl⟩ := step_copyOut hs
    exact (List.append_nil _).symm
  | handleResponse rsp wake =>
    rcases step_handleResponse hs with ⟨_, rfl⟩ | ⟨_, ⟨_, rfl⟩ | ⟨_, _, _, _, rfl⟩⟩
    · rfl
    · rfl
    · rfl

end Steps

/-! ## The client's half -/

/-- The steps of the client in a step of the system. -/
def clientActs (k : Link) (s : NetState ν) : NetAct ν → List ClientAct
  | .reject why => [.reject s.started why]
  | .claim args => [.claim s.started args]
  | .send r => [.send s.current r]
  | .take => [.take s.current]
  | .timeout => [.timeout s.current]
  | .copyOut => [.copyOut s.current]
  | .deliverResponse i wake =>
      (s.responses[i]?).toList.map fun a => .handleResponse (sentRsp k.server a) wake
  | _ => []

section Client

variable {k : Link} {s s' : NetState ν}

/-- A claim between two calls keeps them serial. -/
theorem Serial.claim {client : ClientState} {args : CallArgs} (h : Serial s.started s.client)
    (hidle : s.idle = true) (hs : clientStep s.client (.claim s.started args) = some client) :
    Serial (s.started + 1) client := by
  obtain ⟨_, rfl⟩ := step_claim hs
  intro d call hd
  by_cases hdc : d = s.started
  · subst hdc
    have hcall : call = ⟨args, msgPriorityOf args.priority, s.client.nextSeq⟩ := by
      simpa [claimSlot, CallPc.active, eq_comm] using hd
    subst hcall
    exact ⟨rfl, (claimSlot_self s.client s.started args).2.1⟩
  · have hnone := h.none_active hidle d
    simp only [claimSlot, Function.update_of_ne hdc] at hd
    split at hd
    · cases hd
    · rw [hnone] at hd
      cases hd

/-- A step that begins no call, seen from the client. -/
theorem stepClient_run {a : ClientAct} (h : stepClient s a = some s') (hg : SlotKept s.client a) :
    clientMachine.runFrom s.client [a] = some s'.client ∧
      clientMachine.AllSteps SlotKept s.client [a] := by
  obtain ⟨client, hc, rfl⟩ := stepClient_eq h
  exact ⟨Machine.runFrom_cons hc, hg, fun _ _ => trivial⟩

/-- A call copies out of its own slot. -/
theorem Serial.slotKept (h : Serial s.started s.client) (c : Nat) :
    SlotKept s.client (.copyOut c) := by
  show OwnsSlot s.client c
  unfold OwnsSlot
  cases hc : s.client.calls c with
  | taken call => exact (h c call (by rw [hc]; rfl)).2
  | start => trivial
  | claimed call => trivial
  | sent call => trivial
  | waiting call => trivial
  | failed ret => trivial
  | returned call rsp => trivial

/-- A step of the client that is no claim. -/
theorem stepClient_ok {a : ClientAct} (h : Serial s.started s.client)
    (ha : ∀ c args, a ≠ .claim c args) (hg : SlotKept s.client a) (hs : stepClient s a = some s') :
    clientMachine.runFrom s.client [a] = some s'.client ∧
      clientMachine.AllSteps SlotKept s.client [a] ∧ Serial s'.started s'.client := by
  obtain ⟨hrun, hall⟩ := stepClient_run hs hg
  obtain ⟨client, hc, rfl⟩ := stepClient_eq hs
  exact ⟨hrun, hall, h.moves (clientMoves_step ha hc)⟩

/-- The server's steps leave the client alone. -/
theorem stepServer_ok {a : ServerAct MsgReq ν} (h : Serial s.started s.client)
    (hs : stepServer k s a = some s') :
    clientMachine.runFrom s.client [] = some s'.client ∧
      clientMachine.AllSteps SlotKept s.client [] ∧ Serial s'.started s'.client := by
  obtain ⟨server, _, rfl⟩ := stepServer_eq hs
  exact ⟨rfl, trivial, h⟩

/-- The client's steps in a step of the system: every copy-out finds its
own slot, and the calls stay serial. -/
theorem netStep_client {a : NetAct ν} (h : Serial s.started s.client)
    (hs : netStep k s a = some s') :
    clientMachine.runFrom s.client (clientActs k s a) = some s'.client ∧
      clientMachine.AllSteps SlotKept s.client (clientActs k s a) ∧
      Serial s'.started s'.client := by
  cases a with
  | reject why =>
    simp only [netStep] at hs
    split at hs
    · rename_i hidle
      obtain ⟨t, ht, rfl⟩ := Option.map_eq_some_iff.mp hs
      obtain ⟨hrun, hall⟩ := stepClient_run ht trivial
      obtain ⟨client, hc, rfl⟩ := stepClient_eq ht
      refine ⟨hrun, hall, ?_⟩
      obtain ⟨_, rfl⟩ := step_reject hc
      intro d call hd
      by_cases hdc : d = s.started
      · subst hdc
        simp [CallPc.active] at hd
      · have hnone := h.none_active hidle d
        simp only [Function.update_of_ne hdc, hnone] at hd
        cases hd
    · cases hs
  | claim args =>
    simp only [netStep] at hs
    split at hs
    · rename_i hidle
      obtain ⟨t, ht, rfl⟩ := Option.map_eq_some_iff.mp hs
      obtain ⟨hrun, hall⟩ := stepClient_run ht trivial
      obtain ⟨client, hc, rfl⟩ := stepClient_eq ht
      exact ⟨hrun, hall, h.claim hidle hc⟩
    · cases hs
  | send r =>
    obtain ⟨t, ht, rfl⟩ := Option.map_eq_some_iff.mp hs
    have hok := stepClient_ok (a := .send s.current r) h (by simp) trivial ht
    exact hok
  | take => exact stepClient_ok h (by simp) trivial hs
  | timeout => exact stepClient_ok h (by simp) trivial hs
  | copyOut => exact stepClient_ok h (by simp) (h.slotKept _) hs
  | deliverRequest i =>
    simp only [netStep] at hs
    split at hs
    · exact stepServer_ok h hs
    · cases hs
  | dispatch => exact stepServer_ok h hs
  | refuse =>
    obtain ⟨t, ht, rfl⟩ := Option.map_eq_some_iff.mp hs
    have hok := stepServer_ok h ht
    exact hok
  | get p => exact stepServer_ok h hs
  | handle p w =>
    obtain ⟨t, ht, rfl⟩ := Option.map_eq_some_iff.mp hs
    have hok := stepServer_ok h ht
    exact hok
  | respond p =>
    obtain ⟨t, ht, rfl⟩ := Option.map_eq_some_iff.mp hs
    have hok := stepServer_ok h ht
    exact hok
  | deliverResponse i wake =>
    simp only [netStep] at hs
    split at hs
    · rename_i a ha
      split at hs
      · have hok := stepClient_ok (a := .handleResponse (sentRsp k.server a) wake) h (by simp)
          trivial hs
        simpa [clientActs, ha] using hok
      · cases hs
    · cases hs

theorem serial_reachable (hr : (netMachine ν k).Reachable s) : Serial s.started s.client := by
  refine hr.induct (P := fun s => Serial s.started s.client) ?_ ?_
  · intro c call hc
    cases hc
  · intro s a s' h hs
    exact (netStep_client h hs).2.2

/-- **The client's half of a run is a run of `clientMachine`** in which no
slot is taken away before its copy-out. -/
def clientSimulation (ν : Type) (k : Link) :
    Machine.Simulation (netMachine ν k) clientMachine SlotKept where
  abs := NetState.client
  labels := clientActs k
  init := rfl
  step := fun _ _ _ hr hs =>
    have h := netStep_client (serial_reachable hr) hs
    ⟨h.1, h.2.1⟩

end Client

/-! ## Where a response comes from -/

/-- A reply to a request: the dispatcher's refusal, or what a handler
thread made of it in one of the worlds it has met. -/
def Reply (k : Link) (worlds : List (World ν)) (req : MsgReq) (a : RspArgs) : Prop :=
  a = queueFull req k.clientAddr ∨
    ∃ w ∈ worlds,
      a = handlerThreadFn w (msgPriorityOf req.priority) (dispatchItem req k.clientAddr)

/-- There is a request that was received and of which this holds. -/
def OfReceived (k : Link) (server : ServerState MsgReq) (P : MsgReq → Prop) : Prop :=
  ∃ req, (req, k.clientAddr) ∈ server.received ∧ P req

/-- What the dispatcher holds comes from a request received. -/
def DispFrom (k : Link) (worlds : List (World ν)) (server : ServerState MsgReq) :
    DispPc MsgReq → Prop
  | .recv => True
  | .got _ req src => (req, src) ∈ server.received ∧ src = k.clientAddr
  | .refuse _ a => OfReceived k server fun req => Reply k worlds req a

/-- What a handler thread holds comes from a request of its priority. -/
def HandFrom (k : Link) (worlds : List (World ν)) (server : ServerState MsgReq)
    (p : MsgPriority) : HandPc → Prop
  | .get => True
  | .handle _ item => OfReceived k server fun req =>
      msgPriorityOf req.priority = p ∧ item = dispatchItem req k.clientAddr
  | .respond _ a => OfReceived k server fun req => Reply k worlds req a

/-- The invariant of the server. -/
structure ServerFrom (k : Link) (worlds : List (World ν)) (server : ServerState MsgReq) : Prop where
  disp : DispFrom k worlds server server.disp
  queue : ∀ p, ∀ x ∈ server.queue p, OfReceived k server fun req =>
    msgPriorityOf req.priority = p ∧ x.2 = dispatchItem req k.clientAddr
  hand : ∀ p, HandFrom k worlds server p (server.hand p)

section Origin

variable {k : Link} {worlds worlds' : List (World ν)} {server server' : ServerState MsgReq}

theorem Reply.mono {req : MsgReq} {a : RspArgs} (h : Reply k worlds req a)
    (hsub : worlds ⊆ worlds') : Reply k worlds' req a := by
  rcases h with h | ⟨w, hw, h⟩
  · exact Or.inl h
  · exact Or.inr ⟨w, hsub hw, h⟩

theorem OfReceived.mono {P Q : MsgReq → Prop} (h : OfReceived k server P)
    (hsub : server.received ⊆ server'.received) (himp : ∀ req, P req → Q req) :
    OfReceived k server' Q := by
  obtain ⟨req, hreq, hP⟩ := h
  exact ⟨req, hsub hreq, himp req hP⟩

theorem DispFrom.mono {pc : DispPc MsgReq} (h : DispFrom k worlds server pc)
    (hrec : server.received ⊆ server'.received) (hw : worlds ⊆ worlds') :
    DispFrom k worlds' server' pc := by
  cases pc with
  | recv => trivial
  | got i req src => exact ⟨hrec h.1, h.2⟩
  | refuse i a => exact OfReceived.mono h hrec fun req hr => hr.mono hw

theorem HandFrom.mono {p : MsgPriority} {pc : HandPc} (h : HandFrom k worlds server p pc)
    (hrec : server.received ⊆ server'.received) (hw : worlds ⊆ worlds') :
    HandFrom k worlds' server' p pc := by
  cases pc with
  | get => trivial
  | handle i item => exact OfReceived.mono h hrec fun req hr => hr
  | respond i a => exact OfReceived.mono h hrec fun req hr => hr.mono hw

theorem serverFrom_init :
    ServerFrom k ([] : List (World ν)) (serverMachine .request k.depth ν).init := by
  refine ⟨trivial, ?_, fun _ => trivial⟩
  intro p x hx
  exact absurd hx List.not_mem_nil

/-- What a step receives: the client's requests and nothing else. -/
def FromClient (k : Link) : ServerAct MsgReq ν → Prop
  | .recv _ src => src = k.clientAddr
  | _ => True

/-- The world a step meets. -/
def ServerAct.meets : ServerAct MsgReq ν → List (World ν)
  | .handle _ w => [w]
  | _ => []

theorem serverFrom_step {a : ServerAct MsgReq ν} (h : ServerFrom k worlds server)
    (ha : FromClient k a) (hs : serverStep .request k.depth server a = some server') :
    ServerFrom k (worlds ++ a.meets) server' ∧ server.received ⊆ server'.received := by
  cases a with
  | recv req src =>
    obtain ⟨_, rfl⟩ := step_recv hs
    have hrec : server.received ⊆ server.received ++ [(req, src)] := List.subset_append_left _ _
    refine ⟨⟨⟨List.mem_append_right _ List.mem_cons_self, ha⟩, ?_, ?_⟩, hrec⟩
    · intro p x hx
      exact (h.queue p x hx).mono hrec fun _ hr => hr
    · intro p
      exact (h.hand p).mono hrec (List.subset_append_left _ _)
  | dispatch =>
    obtain ⟨i, req, src, hd, hcases⟩ := step_dispatch hs
    have hgot := h.disp
    rw [hd] at hgot
    obtain ⟨hreq, rfl⟩ := hgot
    simp only [ServerAct.meets, List.append_nil]
    rcases hcases with ⟨req', hdec, _, rfl⟩ | ⟨req', hdec, _, rfl⟩ | ⟨_, rfl⟩
    · obtain rfl := Dispatch.request.inj hdec
      refine ⟨⟨trivial, ?_, h.hand⟩, List.Subset.refl _⟩
      refine (Function.forall_update_iff server.queue fun p q => ∀ x ∈ q, OfReceived k server
        fun r => msgPriorityOf r.priority = p ∧ x.2 = dispatchItem r k.clientAddr).mpr ⟨?_, ?_⟩
      · intro x hx
        rcases List.mem_append.mp hx with hx | hx
        · exact h.queue _ x hx
        · obtain rfl := List.mem_singleton.mp hx
          exact ⟨req, hreq, rfl, rfl⟩
      · exact fun p _ => h.queue p
    · obtain rfl := Dispatch.request.inj hdec
      exact ⟨⟨⟨req, hreq, Or.inl rfl⟩, h.queue, h.hand⟩, List.Subset.refl _⟩
    · exact ⟨⟨trivial, h.queue, h.hand⟩, List.Subset.refl _⟩
  | refuse =>
    obtain ⟨i, a, _, rfl⟩ := step_refuse hs
    simp only [ServerAct.meets, List.append_nil]
    exact ⟨⟨trivial, h.queue, h.hand⟩, List.Subset.refl _⟩
  | get p =>
    obtain ⟨i, item, rest, _, hq, rfl⟩ := step_get hs
    simp only [ServerAct.meets, List.append_nil]
    have hfront := h.queue p (i, item) (by rw [hq]; exact List.mem_cons_self)
    refine ⟨⟨h.disp, ?_, ?_⟩, List.Subset.refl _⟩
    · refine (Function.forall_update_iff server.queue fun p q => ∀ x ∈ q, OfReceived k server
        fun r => msgPriorityOf r.priority = p ∧ x.2 = dispatchItem r k.clientAddr).mpr ⟨?_, ?_⟩
      · intro x hx
        exact h.queue p x (by rw [hq]; exact List.mem_cons_of_mem _ hx)
      · exact fun p _ => h.queue p
    · exact (Function.forall_update_iff server.hand fun p pc => HandFrom k worlds server p pc).mpr
        ⟨hfront, fun p _ => h.hand p⟩
  | handle p w =>
    obtain ⟨i, item, hh, rfl⟩ := step_handle hs
    have hhand := h.hand p
    rw [hh] at hhand
    have hsub : worlds ⊆ worlds ++ [w] := List.subset_append_left _ _
    refine ⟨⟨h.disp.mono (List.Subset.refl _) hsub, h.queue, ?_⟩, List.Subset.refl _⟩
    refine (Function.forall_update_iff server.hand
      fun p pc => HandFrom k (worlds ++ [w]) server p pc).mpr ⟨?_, ?_⟩
    · obtain ⟨req, hreq, rfl, rfl⟩ := hhand
      exact ⟨req, hreq, Or.inr ⟨w, List.mem_append_right _ List.mem_cons_self, rfl⟩⟩
    · exact fun p _ => (h.hand p).mono (List.Subset.refl _) hsub
  | respond p =>
    obtain ⟨i, a, _, rfl⟩ := step_respond hs
    simp only [ServerAct.meets, List.append_nil]
    refine ⟨⟨h.disp, h.queue, ?_⟩, List.Subset.refl _⟩
    exact (Function.forall_update_iff server.hand fun p pc => HandFrom k worlds server p pc).mpr
      ⟨trivial, fun p _ => h.hand p⟩

end Origin

/-! ## The invariant -/

/-- The calls that have claimed a slot carry the numbers from 1 on. -/
structure Issued (s : NetState ν) : Prop where
  count : s.issued.length ≤ s.started
  nextSeq : s.client.nextSeq = .ofNat (s.issued.length + 1)
  seqs : ∀ j (call : Call), s.issued[j]? = some call → call.seq = .ofNat (j + 1)
  calls : ∀ c call, (s.client.calls c).call = some call → call ∈ s.issued

/-- What is on the network, and what has been taken from it. -/
structure Wire (k : Link) (s : NetState ν) : Prop where
  requests : ∀ req ∈ s.requests, ∃ call ∈ s.issued, req = sentReq k.wire k.client call
  received : ∀ x ∈ s.server.received, x.1 ∈ s.requests
  responses : ∀ a ∈ s.responses, OfReceived k s.server fun req => Reply k s.worlds req a
  handled : ∀ rsp ∈ s.client.handled, ∃ a ∈ s.responses, rsp = sentRsp k.server a

/-- The invariant of the system. -/
structure NetInv (k : Link) (s : NetState ν) : Prop where
  issued : Issued s
  server : ServerFrom k s.worlds s.server
  wire : Wire k s

section Invariant

variable {k : Link} {s s' : NetState ν}

theorem netInv_init : NetInv k (netMachine ν k).init where
  issued := by
    refine ⟨Nat.le_refl 0, rfl, ?_, ?_⟩
    · intro j call h
      simp [netMachine] at h
    · intro c call h
      cases h
  server := serverFrom_init
  wire := by
    constructor
    · exact fun _ h => absurd h List.not_mem_nil
    · exact fun _ h => absurd h List.not_mem_nil
    · exact fun _ h => absurd h List.not_mem_nil
    · exact fun _ h => absurd h List.not_mem_nil

/-- A claim issues the next number. -/
theorem Issued.claim {client : ClientState} {args : CallArgs} (h : Issued s)
    (hs : clientStep s.client (.claim s.started args) = some client) :
    Issued { s with
      client := client
      started := s.started + 1
      issued := s.issued ++ [⟨args, msgPriorityOf args.priority, s.client.nextSeq⟩] } := by
  obtain ⟨_, rfl⟩ := step_claim hs
  refine ⟨?_, ?_, ?_, ?_⟩
  · show (s.issued ++ [_]).length ≤ s.started + 1
    have := h.count
    rw [List.length_append, List.length_singleton]
    omega
  · show s.client.nextSeq + 1 = UInt32.ofNat ((s.issued ++ [_]).length + 1)
    rw [h.nextSeq, List.length_append, List.length_singleton]
    exact (UInt32.ofNat_add (s.issued.length + 1) 1).symm
  · intro j call hj
    rcases Nat.lt_trichotomy j s.issued.length with hlt | heq | hgt
    · exact h.seqs j call (by rwa [List.getElem?_append_left hlt] at hj)
    · subst heq
      rw [List.getElem?_append_right (Nat.le_refl _), Nat.sub_self, List.getElem?_cons_zero,
        Option.some.injEq] at hj
      rw [← hj]
      exact h.nextSeq
    · rw [List.getElem?_eq_none (by simp; omega)] at hj
      cases hj
  · intro c call hc
    by_cases hcs : c = s.started
    · subst hcs
      have hcall : call = ⟨args, msgPriorityOf args.priority, s.client.nextSeq⟩ := by
        simpa [claimSlot, CallPc.call, CallPc.active, eq_comm] using hc
      exact List.mem_append_right _ (by rw [hcall]; exact List.mem_cons_self)
    · simp only [claimSlot, Function.update_of_ne hcs] at hc
      split at hc
      · cases hc
      · exact List.mem_append_left _ (h.calls c call hc)

/-- Every other step of the client leaves the numbers alone. -/
theorem Issued.moves {client : ClientState} {started : Nat} (h : Issued s)
    (hm : ClientMoves s.client client) (hstarted : s.started ≤ started) :
    Issued { s with client := client, started := started } where
  count := h.count.trans hstarted
  nextSeq := hm.nextSeq.trans h.nextSeq
  seqs := h.seqs
  calls := fun c call hc => h.calls c call (hm.call c call hc)

/-- A step of the client puts requests of issued calls on the network, and
takes responses from it. -/
theorem Wire.client {client : ClientState} {rsps : List MsgRsp} (h : Wire k s) (started : Nat)
    (calls : List Call) (reqs : List MsgReq)
    (hreqs : ∀ req ∈ reqs, ∃ call ∈ s.issued, req = sentReq k.wire k.client call)
    (hhandled : client.handled = s.client.handled ++ rsps)
    (hrsps : ∀ rsp ∈ rsps, ∃ a ∈ s.responses, rsp = sentRsp k.server a) :
    Wire k { s with
      client := client, started := started, issued := s.issued ++ calls
      requests := s.requests ++ reqs } where
  requests req hreq := by
    have hold : ∃ call ∈ s.issued, req = sentReq k.wire k.client call := by
      rcases List.mem_append.mp hreq with hreq | hreq
      · exact h.requests req hreq
      · exact hreqs req hreq
    obtain ⟨call, hcall, heq⟩ := hold
    exact ⟨call, List.mem_append_left _ hcall, heq⟩
  received x hx := List.mem_append_left _ (h.received x hx)
  responses := h.responses
  handled rsp hrsp := by
    rw [hhandled] at hrsp
    rcases List.mem_append.mp hrsp with hrsp | hrsp
    · exact h.handled rsp hrsp
    · exact hrsps rsp hrsp

/-- A step of the server takes requests from the network, and puts replies
to what it has received on it. -/
theorem Wire.server {server : ServerState MsgReq} {ws : List (World ν)} {rsps : List RspArgs}
    (h : Wire k s) (hsub : s.server.received ⊆ server.received)
    (hrecv : ∀ x ∈ server.received, x ∈ s.server.received ∨ x.1 ∈ s.requests)
    (hrsps : ∀ a ∈ rsps, OfReceived k server fun req => Reply k (s.worlds ++ ws) req a) :
    Wire k { s with
      server := server, responses := s.responses ++ rsps, worlds := s.worlds ++ ws } where
  requests := h.requests
  received x hx := by
    rcases hrecv x hx with hx | hx
    · exact h.received x hx
    · exact hx
  responses a ha := by
    rcases List.mem_append.mp ha with ha | ha
    · exact (h.responses a ha).mono hsub fun _ hr => hr.mono (List.subset_append_left _ _)
    · exact hrsps a ha
  handled rsp hrsp := by
    obtain ⟨a, ha, heq⟩ := h.handled rsp hrsp
    exact ⟨a, List.mem_append_left _ ha, heq⟩

/-- A step of the client that begins no call and sends nothing. -/
theorem NetInv.of_stepClient {a : ClientAct} (h : NetInv k s) (ha : ∀ c args, a ≠ .claim c args)
    (hgives : ∀ rsp ∈ a.gives, ∃ x ∈ s.responses, rsp = sentRsp k.server x)
    (hs : stepClient s a = some s') : NetInv k s' := by
  obtain ⟨client, hc, rfl⟩ := stepClient_eq hs
  refine ⟨h.issued.moves (clientMoves_step ha hc) (Nat.le_refl _), h.server, ?_⟩
  have hwire := h.wire.client s.started [] []
    (fun _ hreq => absurd hreq List.not_mem_nil) (handled_step hc) hgives
  simpa using hwire

/-- A step of the server that receives nothing and sends `rsps`. -/
theorem NetInv.of_stepServer {a : ServerAct MsgReq ν} {rsps : List RspArgs} {t : NetState ν}
    (h : NetInv k s) (hs : stepServer k s a = some t) (ha : FromClient k a)
    (hrecv : ∀ x ∈ t.server.received, x ∈ s.server.received ∨ x.1 ∈ s.requests)
    (hrsps : ∀ x ∈ rsps, OfReceived k s.server fun req => Reply k s.worlds req x) :
    NetInv k { t with responses := s.responses ++ rsps, worlds := s.worlds ++ a.meets } := by
  obtain ⟨server, hv, rfl⟩ := stepServer_eq hs
  obtain ⟨hserver, hsub⟩ := serverFrom_step h.server ha hv
  refine ⟨⟨h.issued.count, h.issued.nextSeq, h.issued.seqs, h.issued.calls⟩, hserver,
    h.wire.server hsub hrecv ?_⟩
  intro x hx
  exact (hrsps x hx).mono hsub fun _ hr => hr.mono (List.subset_append_left _ _)

/-- What the server holds at a `send_response` is a reply. -/
theorem ServerFrom.disp_response (h : ServerFrom k s.worlds s.server) :
    ∀ x ∈ s.server.disp.response, OfReceived k s.server fun req => Reply k s.worlds req x := by
  have hdisp := h.disp
  cases hd : s.server.disp with
  | recv => exact fun _ hx => absurd hx List.not_mem_nil
  | got i req src => exact fun _ hx => absurd hx List.not_mem_nil
  | refuse i a =>
    rw [hd] at hdisp
    intro x hx
    obtain rfl := List.mem_singleton.mp hx
    exact hdisp

theorem ServerFrom.hand_response (h : ServerFrom k s.worlds s.server) (p : MsgPriority) :
    ∀ x ∈ (s.server.hand p).response, OfReceived k s.server fun req => Reply k s.worlds req x := by
  have hhand := h.hand p
  cases hh : s.server.hand p with
  | get => exact fun _ hx => absurd hx List.not_mem_nil
  | handle i item => exact fun _ hx => absurd hx List.not_mem_nil
  | respond i a =>
    rw [hh] at hhand
    intro x hx
    obtain rfl := List.mem_singleton.mp hx
    exact hhand

theorem received_serverStep {server v : ServerState MsgReq} {a : ServerAct MsgReq ν}
    (ha : ∀ req src, a ≠ .recv req src) (hs : serverStep .request k.depth server a = some v) :
    v.received = server.received := by
  cases a with
  | recv req src => exact absurd rfl (ha req src)
  | dispatch =>
    obtain ⟨_, _, _, _, ⟨_, _, _, rfl⟩ | ⟨_, _, _, rfl⟩ | ⟨_, rfl⟩⟩ := step_dispatch hs
    · rfl
    · rfl
    · rfl
  | refuse =>
    obtain ⟨_, _, _, rfl⟩ := step_refuse hs
    rfl
  | get p =>
    obtain ⟨_, _, _, _, _, rfl⟩ := step_get hs
    rfl
  | handle p w =>
    obtain ⟨_, _, _, rfl⟩ := step_handle hs
    rfl
  | respond p =>
    obtain ⟨_, _, _, rfl⟩ := step_respond hs
    rfl

/-- The same for a step that takes nothing from the network. -/
theorem NetInv.of_stepServer_quiet {a : ServerAct MsgReq ν} {rsps : List RspArgs} {t : NetState ν}
    (h : NetInv k s) (hs : stepServer k s a = some t) (ha : ∀ req src, a ≠ .recv req src)
    (hrsps : ∀ x ∈ rsps, OfReceived k s.server fun req => Reply k s.worlds req x) :
    NetInv k { t with responses := s.responses ++ rsps, worlds := s.worlds ++ a.meets } := by
  refine h.of_stepServer hs ?_ ?_ hrsps
  · cases a with
    | recv req src => exact absurd rfl (ha req src)
    | dispatch => trivial
    | refuse => trivial
    | get p => trivial
    | handle p w => trivial
    | respond p => trivial
  · obtain ⟨server, hv, rfl⟩ := stepServer_eq hs
    intro x hx
    exact Or.inl (received_serverStep ha hv ▸ hx)

theorem netInv_step {a : NetAct ν} (h : NetInv k s) (hs : netStep k s a = some s') :
    NetInv k s' := by
  have hnone : ∀ x ∈ ([] : List RspArgs),
      OfReceived k s.server fun req => Reply k s.worlds req x :=
    fun _ hx => absurd hx List.not_mem_nil
  cases a with
  | reject why =>
    simp only [netStep] at hs
    split at hs
    · obtain ⟨t, ht, rfl⟩ := Option.map_eq_some_iff.mp hs
      obtain ⟨client, hc, rfl⟩ := stepClient_eq ht
      have hmoves := clientMoves_step (by simp) hc
      refine ⟨h.issued.moves hmoves (Nat.le_succ _), h.server, ?_⟩
      have hwire := h.wire.client (s.started + 1) [] []
        (fun _ hreq => absurd hreq List.not_mem_nil) (handled_step hc)
        fun _ hr => absurd hr List.not_mem_nil
      simpa using hwire
    · cases hs
  | claim args =>
    simp only [netStep] at hs
    split at hs
    · obtain ⟨t, ht, rfl⟩ := Option.map_eq_some_iff.mp hs
      obtain ⟨client, hc, rfl⟩ := stepClient_eq ht
      refine ⟨⟨(h.issued.claim hc).count, (h.issued.claim hc).nextSeq, (h.issued.claim hc).seqs,
        (h.issued.claim hc).calls⟩, h.server, ?_⟩
      have hwire := h.wire.client (s.started + 1)
        [⟨args, msgPriorityOf args.priority, s.client.nextSeq⟩] []
        (fun _ hreq => absurd hreq List.not_mem_nil) (handled_step hc)
        fun _ hr => absurd hr List.not_mem_nil
      simpa using hwire
    · cases hs
  | send r =>
    obtain ⟨t, ht, rfl⟩ := Option.map_eq_some_iff.mp hs
    obtain ⟨client, hc, rfl⟩ := stepClient_eq ht
    have hmoves := h.issued.moves (clientMoves_step (by simp) hc) (Nat.le_refl s.started)
    refine ⟨⟨hmoves.count, hmoves.nextSeq, hmoves.seqs, hmoves.calls⟩, h.server, ?_⟩
    have hwire := h.wire.client s.started [] ((s.client.calls s.current).request k r) ?_
      (handled_step hc)
      fun _ hr => absurd hr List.not_mem_nil
    · simpa using hwire
    · obtain ⟨call, hcall, _⟩ := step_send hc
      intro req hreq
      have hmem : call ∈ s.issued := h.issued.calls s.current call (by rw [hcall]; rfl)
      rw [hcall] at hreq
      cases r with
      | sent => exact ⟨call, hmem, List.mem_singleton.mp hreq⟩
      | encodeFailed => exact absurd hreq List.not_mem_nil
      | sendFailed ret => exact absurd hreq List.not_mem_nil
  | take => exact h.of_stepClient (by simp) (fun _ hr => absurd hr List.not_mem_nil) hs
  | timeout => exact h.of_stepClient (by simp) (fun _ hr => absurd hr List.not_mem_nil) hs
  | copyOut => exact h.of_stepClient (by simp) (fun _ hr => absurd hr List.not_mem_nil) hs
  | deliverRequest i =>
    simp only [netStep] at hs
    split at hs
    · rename_i req hreq
      have hok := h.of_stepServer (a := .recv req k.clientAddr) hs rfl ?_ hnone
      · obtain ⟨server, _, rfl⟩ := stepServer_eq hs
        simpa [ServerAct.meets] using hok
      · obtain ⟨server, hv, rfl⟩ := stepServer_eq hs
        obtain ⟨_, rfl⟩ := step_recv hv
        intro x hx
        rcases List.mem_append.mp hx with hx | hx
        · exact Or.inl hx
        · obtain rfl := List.mem_singleton.mp hx
          exact Or.inr (List.mem_of_getElem? hreq)
    · cases hs
  | dispatch =>
    have hok := h.of_stepServer_quiet (a := .dispatch) hs (by simp) hnone
    obtain ⟨server, _, rfl⟩ := stepServer_eq hs
    simpa [ServerAct.meets] using hok
  | refuse =>
    obtain ⟨t, ht, rfl⟩ := Option.map_eq_some_iff.mp hs
    have hok := h.of_stepServer_quiet (a := .refuse) ht (by simp) h.server.disp_response
    obtain ⟨server, _, rfl⟩ := stepServer_eq ht
    simpa [ServerAct.meets] using hok
  | get p =>
    have hok := h.of_stepServer_quiet (a := .get p) hs (by simp) hnone
    obtain ⟨server, _, rfl⟩ := stepServer_eq hs
    simpa [ServerAct.meets] using hok
  | handle p w =>
    obtain ⟨t, ht, rfl⟩ := Option.map_eq_some_iff.mp hs
    have hok := h.of_stepServer_quiet (a := .handle p w) ht (by simp) hnone
    obtain ⟨server, _, rfl⟩ := stepServer_eq ht
    simpa [ServerAct.meets] using hok
  | respond p =>
    obtain ⟨t, ht, rfl⟩ := Option.map_eq_some_iff.mp hs
    have hok := h.of_stepServer_quiet (a := .respond p) ht (by simp) (h.server.hand_response p)
    obtain ⟨server, _, rfl⟩ := stepServer_eq ht
    simpa [ServerAct.meets] using hok
  | deliverResponse i wake =>
    simp only [netStep] at hs
    split at hs
    · rename_i a ha
      split at hs
      · refine h.of_stepClient (a := .handleResponse (sentRsp k.server a) wake) (by simp) ?_ hs
        intro rsp hrsp
        obtain rfl := List.mem_singleton.mp hrsp
        exact ⟨a, List.mem_of_getElem? ha, rfl⟩
      · cases hs
    · cases hs

theorem netInv_reachable (hr : (netMachine ν k).Reachable s) : NetInv k s :=
  hr.induct netInv_init fun _ _ _ h hs => netInv_step h hs

/-- Among fewer than 2^32 calls, the number tells which call it is. -/
theorem Issued.seq_injective (h : Issued s) (hcount : s.started < 2 ^ 32) {call call' : Call}
    (hcall : call ∈ s.issued) (hcall' : call' ∈ s.issued) (hseq : call.seq = call'.seq) :
    call = call' := by
  obtain ⟨i, hi⟩ := List.mem_iff_getElem?.mp hcall
  obtain ⟨j, hj⟩ := List.mem_iff_getElem?.mp hcall'
  have hile : i < s.issued.length := (List.getElem?_eq_some_iff.mp hi).1
  have hjle : j < s.issued.length := (List.getElem?_eq_some_iff.mp hj).1
  have hlen := h.count
  rw [h.seqs i call hi, h.seqs j call' hj] at hseq
  have hnat : (i + 1) % 2 ^ 32 = (j + 1) % 2 ^ 32 := by
    simpa using congrArg UInt32.toNat hseq
  have hij : i = j := by omega
  rw [hij, hj, Option.some.injEq] at hi
  exact hi.symm

end Invariant

/-! ## What a call returns -/

/-- What the server can make of a request for `service` with `payload`, in
one of the worlds its threads have met: the registered handler's status
and payload, or one of the three refusals. -/
inductive Served (worlds : List (World ν)) (service payload : List Char) :
    Int → List Char → Prop where
  | handled {w handler} (hw : w ∈ worlds)
      (hhandler : ceellServiceGetHandler w.registry service = some handler) :
      Served worlds service payload (w.answer handler payload).status
        (w.answer handler payload).payload.str
  | unknown {w} (hw : w ∈ worlds) (hnone : ceellServiceGetHandler w.registry service = none) :
      Served worlds service payload (-ENOENT) "unknown service".toList
  | expired : Served worlds service payload (-ETIMEDOUT) "deadline expired".toList
  | queueFull : Served worlds service payload (-ENOMEM) "queue full".toList

section Results

variable {k : Link} {worlds : List (World ν)}

/-- A reply goes out under the number of its request. -/
theorem Reply.seq {req : MsgReq} {a : RspArgs} (h : Reply k worlds req a) : a.seq = req.seq := by
  rcases h with rfl | ⟨w, _, rfl⟩
  · rfl
  · exact (handlerThreadFn_addressed w _ _).2.1

/-- A dispatch item holds 127 bytes of the payload and 31 of the name. -/
theorem Reply.served {call : Call} {a : RspArgs}
    (h : Reply k worlds (sentReq k.wire k.client call) a) :
    Served worlds ((cstr call.args.service).take 31) ((cstr call.args.payload).take 127)
      a.status a.payload := by
  rcases h with rfl | ⟨w, hw, rfl⟩
  · exact .queueFull
  · have hpayload : (dispatchItem (sentReq k.wire k.client call) k.clientAddr).payload.str =
        (cstr call.args.payload).take 127 := str_payload_dispatchItem k.clientAddr rfl
    have hsvc : (dispatchItem (sentReq k.wire k.client call) k.clientAddr).toSvc.str =
        (cstr call.args.service).take 31 := str_toSvc_dispatchItem k.clientAddr rfl
    unfold handlerThreadFn
    split
    · exact .expired
    · rw [hpayload, hsvc]
      split
      · rename_i hnone
        exact .unknown hw hnone
      · rename_i handler hhandler
        exact .handled hw hhandler

/-- What the server answers fits the client's slot. -/
theorem Served.fits {service payload text : List Char} {status : Int}
    (h : Served worlds service payload status text) : (cstr text).take 127 = text := by
  cases h with
  | @handled w handler hw hhandler =>
    have hlen :=
      (w.answer handler payload).payload.length_str_lt (w.answer handler payload).terminated
    rw [cstr_eq_self (CharBuf.nul_notMem_str _), List.take_of_length_le (by omega)]
  | unknown => decide
  | expired => decide
  | queueFull => decide

end Results

/-- **A success is an answer to its own call.** In every run of fewer than
2^32 serial calls over a network that loses, duplicates, delays and
reorders, a call that returns 0 returns the status and payload of a reply
that the server sent to a copy of this very request: the registered
handler's, for the part of the payload and of the service name that a
dispatch item holds, or those of a refusal. No other call has its number,
so no late or duplicated reply to another call can be what it returns. -/
theorem call_answered (k : Link) (s : NetState ν) (hr : (netMachine ν k).Reachable s)
    (hcount : s.started < 2 ^ 32) (c : CallId) (call : Call) (m : CeellMsg)
    (hret : s.client.calls c = .returned call m) :
    (sentReq k.wire k.client call, k.clientAddr) ∈ s.server.received ∧
    (∀ call' ∈ s.issued, call'.seq = call.seq → call' = call) ∧
    (∃ a ∈ s.responses, Reply k s.worlds (sentReq k.wire k.client call) a ∧
      m.status = a.status ∧ m.payload.str = a.payload) ∧
    Served s.worlds ((cstr call.args.service).take 31) ((cstr call.args.payload).take 127)
      m.status m.payload.str := by
  have hi := netInv_reachable hr
  have hissued : call ∈ s.issued := hi.issued.calls c call (by rw [hret]; rfl)
  have hunique : ∀ call' ∈ s.issued, call'.seq = call.seq → call' = call :=
    fun call' hcall' hseq => hi.issued.seq_injective hcount hcall' hissued hseq
  obtain ⟨rsp, hrsp, hseq, hstatus, hpayload⟩ :=
    answeredBy_of_returned ((clientSimulation ν k).reachable hr) hret
  obtain ⟨a, ha, rfl⟩ := hi.wire.handled rsp hrsp
  obtain ⟨req, hreq, hreply⟩ := hi.wire.responses a ha
  obtain ⟨call', hcall', rfl⟩ := hi.wire.requests req (hi.wire.received _ hreq)
  have hnumber : call'.seq = call.seq := by
    rw [← hseq, ← toUInt32_ofUInt32 call'.seq]
    exact congrArg toUInt32 hreply.seq.symm
  obtain rfl := hunique call' hcall' hnumber
  have hserved := hreply.served
  have hstatus' : m.status = a.status := hstatus
  have hpayload' : m.payload.str = a.payload := hpayload.trans hserved.fits
  refine ⟨hreq, hunique, ⟨a, ha, hreply, hstatus', hpayload'⟩, ?_⟩
  rw [hstatus', hpayload']
  exact hserved

/-- Two nodes, and a server whose service `e` answers with the length of
the payload. -/
def sampleLink : Link := ⟨⟨1⟩, ⟨1, 1⟩, ⟨2⟩, 8, id⟩

def lengthWorld : World Unit :=
  ⟨0, [⟨(CharBuf.zero 32).copy ['e'], some (), 1, 0⟩], fun _ payload => .empty payload.length⟩

/-- A first call times out; its reply comes during the second call and is
passed over; the second call gets its own. -/
def lateReply (payload : List Char) : List (NetAct Unit) :=
  let args : CallArgs := ⟨['e'], payload, 1, 0, 0⟩
  [.claim args, .send .sent, .deliverRequest 0, .dispatch, .get .normal,
   .handle .normal lengthWorld,
   .respond .normal, .take, .timeout,
   .claim args, .send .sent, .deliverResponse 0 none, .deliverRequest 1, .dispatch, .get .normal,
   .handle .normal lengthWorld, .respond .normal, .take, .deliverResponse 1 (some 1), .copyOut]

/-- What the second call of such a run returned: its arguments and status. -/
def secondCall (s : NetState Unit) : Option (List Char × List Char × Int) :=
  match s.client.calls 1 with
  | .returned call m => some (call.args.service, call.args.payload, m.status)
  | _ => none

theorem secondCall_eq_some {s : NetState Unit} {service payload : List Char} {status : Int}
    (h : secondCall s = some (service, payload, status)) :
    ∃ call m, s.client.calls 1 = .returned call m ∧ call.args.service = service ∧
      call.args.payload = payload ∧ m.status = status := by
  unfold secondCall at h
  split at h
  · rename_i call m hret
    simp only [Option.some.injEq, Prod.mk.injEq] at h
    exact ⟨call, m, hret, h.1, h.2.1, h.2.2⟩
  · cases h

/-- A payload of 130 bytes: the handler sees 127 of them, and its answer is
none of the full payload's. -/
theorem longPayload_not_served :
    ∃ s call m, (netMachine Unit sampleLink).run (lateReply (List.replicate 130 'x')) = some s ∧
      s.client.calls 1 = .returned call m ∧
      ¬ Served s.worlds call.args.service call.args.payload m.status m.payload.str := by
  obtain ⟨s, hs⟩ : ∃ s, (netMachine Unit sampleLink).run (lateReply (List.replicate 130 'x')) =
      some s := Option.isSome_iff_exists.mp (by decide +kernel)
  have hworlds : ((netMachine Unit sampleLink).run (lateReply (List.replicate 130 'x'))).map
      (·.worlds) = some [lengthWorld, lengthWorld] := by rfl
  have hcall : ((netMachine Unit sampleLink).run (lateReply (List.replicate 130 'x'))).map
      secondCall = some (some (['e'], List.replicate 130 'x', 127)) := by decide +kernel
  rw [hs, Option.map_some, Option.some.injEq] at hworlds hcall
  obtain ⟨call, m, hret, hservice, hpayload, hstatus⟩ := secondCall_eq_some hcall
  refine ⟨s, call, m, hs, hret, ?_⟩
  rw [hservice, hpayload, hstatus, hworlds]
  generalize hst : (127 : Int) = status
  generalize m.payload.str = text
  intro h
  cases h with
  | @handled w handler hw hhandler =>
    obtain rfl : w = lengthWorld := by simpa using hw
    simp [lengthWorld, HandlerReply.empty] at hst
  | unknown => revert hst; decide
  | expired => revert hst; decide
  | queueFull => revert hst; decide

/-- The same run with a payload that fits. -/
theorem call_answered_sample :
    ∃ s call m, (netMachine Unit sampleLink).run (lateReply ['h', 'i']) = some s ∧
      s.client.calls 1 = .returned call m ∧ m.status = 2 ∧
      Served s.worlds ((cstr call.args.service).take 31) ((cstr call.args.payload).take 127)
        m.status m.payload.str := by
  obtain ⟨s, hs⟩ : ∃ s, (netMachine Unit sampleLink).run (lateReply ['h', 'i']) = some s :=
    Option.isSome_iff_exists.mp (by decide +kernel)
  have hcall : ((netMachine Unit sampleLink).run (lateReply ['h', 'i'])).map
      (fun s => (s.started, secondCall s)) = some (2, some (['e'], ['h', 'i'], 2)) := by
    decide +kernel
  rw [hs, Option.map_some, Option.some.injEq, Prod.mk.injEq] at hcall
  obtain ⟨hstarted, hcall⟩ := hcall
  obtain ⟨call, m, hret, _, _, hstatus⟩ := secondCall_eq_some hcall
  exact ⟨s, call, m, hs, hret, hstatus,
    (call_answered sampleLink s ⟨_, hs⟩ (by rw [hstarted]; decide) 1 call m hret).2.2.2⟩

end Ceell.Network
