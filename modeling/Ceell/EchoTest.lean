/-
Ceell.EchoTest — the echo test of `ceell_lifecycle_run`, which makes the only
calls of `ceell_msg_send` in the program.

Nodes that `main` has booted run all threads of messaging, the OTA thread and
the lifecycle loop, and send each other the requests of the test; what
discovery has in its tables is free. `echoTest_ok` says that every request
gets the answer it should, and that the test never passes: each tick that
finds a peer with the service makes one more call.
-/
import Ceell.Builtin
import Ceell.Network.Mesh
import Ceell.Network.ServiceDiscovery

namespace Ceell

open Ceell.Lib Ceell.Osal Ceell.Core Ceell.Network Ceell.Ota

/-! ## The lifecycle loop -/

/-- Where `ceell_lifecycle_run` is. -/
inductive LifecyclePc where
  | boot -- not called yet
  | tick -- at ceell_discovery_peer_count
  | found -- at ceell_msg_send
  | calling (c : CallId) -- in ceell_msg_send, behind the claim or its refusal
  | sleeping -- at ceell_sleep
  deriving DecidableEq

structure EchoLoop where
  pc : LifecyclePc
  echoTested : Bool
  /-- the calls of `ceell_msg_send` so far -/
  calls : Nat
  /-- the ticks so far that have found a peer with the service -/
  found : Nat

section Loop

variable (k : Kconfig) (counted table : PeerTable k.discoveryMaxPeers)

/-- `ceell_service_find_peer` for the service of the test, with `peer_ip`. -/
def findEcho : Int := (ceellServiceFindPeer k table (some "echo".toList) (some (.zero 16))).2

/-- A tick finds a peer; the table may change between the two calls. -/
def tickFinds : Bool := decide (0 < ceellDiscoveryPeerCount counted) && findEcho k table == 0

/-- The part of a tick behind the report, up to the call or the sleep. -/
def EchoLoop.tick (l : EchoLoop) : EchoLoop :=
  { l with
    pc := if !l.echoTested && tickFinds k counted table then .found else .sleeping
    found := l.found + (tickFinds k counted table).toNat }

/-- How `ceell_msg_send` begins. -/
def echoCall (sendTime : Int) (c : CallId) : ClientAct :=
  if findEcho k table < 0 then .reject c .noPeer
  else .claim c (ceellMsgSend "echo".toList "hello-ceell".toList sendTime)

end Loop

/-- A later step of the call. -/
def echoCallStep (c : CallId) : ClientAct → Bool
  | .send d _ | .take d | .timeout d | .copyOut d => d == c
  | _ => false

/-- `ceell_msg_send` has returned. -/
def EchoLoop.leave (l : EchoLoop) : CallPc → Option EchoLoop
  | .failed _ => some { l with pc := .sleeping }
  | .returned _ _ => some { l with pc := .sleeping, echoTested := true }
  | _ => none

/-! ## The nodes -/

structure BootedNode where
  serving : ServingNode
  client : ClientState
  loop : EchoLoop

/-- The nodes, and what they have encoded so far. -/
structure BootedNet (ι : Type) where
  nodes : ι → BootedNode
  texts : List (List Char)

/-- What the nodes are for the network. -/
def BootedNet.mesh {ι : Type} (s : BootedNet ι) : Mesh ι where
  nodes i := ⟨(s.nodes i).client, (s.nodes i).serving.server⟩
  texts := s.texts

/-- One build for all nodes, and the flash of each. -/
structure NetBuild (ι : Type) where
  lib : JsonLib
  tree : JsonTreeLib
  k : Kconfig
  defaults : ConfigDefaults
  ota : OtaConfig
  interval : Nat
  flash : ι → FlashWorld
  autoConfirm : Bool := true

namespace NetBuild

variable {ι : Type} (b : NetBuild ι)

def node (i : ι) : NodeBuild where
  lib := b.lib
  tree := b.tree
  k := b.k
  defaults := b.defaults
  flash := b.flash i
  ota := b.ota
  interval := b.interval
  autoConfirm := b.autoConfirm

/-- `ceell_identity_get`, after step 3. -/
def identity (i : ι) : Identity := ⟨(b.node i).cfg.nodeId⟩

end NetBuild

inductive BootedAct (k : Kconfig) (ι : Type) where
  | serving (i : ι) (a : ServingAct)
  | deliver (i : ι) (wake : Option CallId) -- a response, by the dispatcher
  | run (i : ι) -- step 10 of main
  | tick (i : ι) (counted table : PeerTable k.discoveryMaxPeers)
  | enter (i : ι) (table : PeerTable k.discoveryMaxPeers) (sendTime : Int)
  | call (i : ι) (a : ClientAct)
  | leave (i : ι)
  | wake (i : ι)

section Model

variable {ι : Type} [DecidableEq ι] (b : NetBuild ι)

/-- Whether the node may make the step: the datagrams are those that nodes
have encoded, and `main` makes its own steps before the loop. -/
def servingMay (s : BootedNet ι) (i : ι) : ServingAct → Prop
  | .thread a => threadMay b.lib s.mesh i a
  | .registerOta | .otaInit _ _ => (s.nodes i).loop.pc = .boot
  | _ => True

instance (s : BootedNet ι) (i : ι) (a : ServingAct) : Decidable (servingMay b s i a) := by
  cases a <;> unfold servingMay <;> infer_instance

/-- The text that a step of the node encodes. -/
def servingText (i : ι) (server : ServerState (List Char)) : ServingAct → Option (List Char)
  | .thread a => threadText b.lib (b.identity i) server a
  | _ => none

/-- A node has moved and encoded a text, or none. -/
def BootedNet.put (s : BootedNet ι) (i : ι) (n : BootedNode) (text : Option (List Char)) :
    BootedNet ι :=
  { nodes := Function.update s.nodes i n, texts := text.toList ++ s.texts }

def bootedStep (s : BootedNet ι) : BootedAct b.k ι → Option (BootedNet ι)
  | .serving i a =>
      if servingMay b s i a then
        (servingStep (b.node i) (s.nodes i).serving a).map fun serving =>
          s.put i { s.nodes i with serving := serving }
            (servingText b i (s.nodes i).serving.server a)
      else none
  | .deliver i wake =>
      (heldResponse b.lib (s.nodes i).serving.server).bind fun rsp =>
        (handleResponse (s.nodes i).client rsp wake).bind fun client =>
          (servingStep (b.node i) (s.nodes i).serving (.thread .dispatch)).map fun serving =>
            s.put i { s.nodes i with serving := serving, client := client } none
  | .run i =>
      -- an error of ceell_ota_init is logged only
      let phase := (s.nodes i).serving.phase
      if (phase = .running ∨ phase = .otaFailed) ∧ (s.nodes i).loop.pc = .boot then
        some (s.put i { s.nodes i with loop := { (s.nodes i).loop with pc := .tick } } none)
      else none
  | .tick i counted table =>
      if (s.nodes i).loop.pc = .tick then
        some (s.put i { s.nodes i with loop := (s.nodes i).loop.tick b.k counted table } none)
      else none
  | .enter i table sendTime =>
      let l := (s.nodes i).loop
      if l.pc = .found then
        (clientStep (s.nodes i).client (echoCall b.k table sendTime l.calls)).map fun client =>
          s.put i { s.nodes i with
            client := client
            loop := { l with pc := .calling l.calls, calls := l.calls + 1 } } none
      else none
  | .call i a =>
      match (s.nodes i).loop.pc with
      | .calling c =>
          if echoCallStep c a && callMay b.lib b.identity s.mesh i a then
            (clientStep (s.nodes i).client a).map fun client =>
              s.put i { s.nodes i with client := client }
                (callText b.lib (b.identity i) (s.nodes i).client a)
          else none
      | _ => none
  | .leave i =>
      match (s.nodes i).loop.pc with
      | .calling c =>
          ((s.nodes i).loop.leave ((s.nodes i).client.calls c)).map fun l =>
            s.put i { s.nodes i with loop := l } none
      | _ => none
  | .wake i =>
      if (s.nodes i).loop.pc = .sleeping then
        some (s.put i { s.nodes i with loop := { (s.nodes i).loop with pc := .tick } } none)
      else none

/-- Runs of the nodes from the end of step 8 of `main` on, up to a reboot. -/
def bootedMachine : Machine (BootedNet ι) (BootedAct b.k ι) where
  init :=
    { nodes := fun i =>
        ⟨(servingMachine (b.node i)).init, clientMachine.init, ⟨.boot, false, 0, 0⟩⟩
      texts := [] }
  step := bootedStep b

end Model

/-! ## The messages of the nodes -/

section Steps

variable {ι : Type} [DecidableEq ι] {b : NetBuild ι} {s s' : BootedNet ι}

theorem mesh_put (s : BootedNet ι) (i : ι) (n : BootedNode) (text : Option (List Char)) :
    (s.put i n text).mesh =
      { nodes := Function.update s.mesh.nodes i ⟨n.client, n.serving.server⟩
        texts := text.toList ++ s.mesh.texts } := by
  refine congrArg (Mesh.mk · _) (funext fun j => ?_)
  by_cases hj : j = i
  · subst hj
    simp [BootedNet.put]
  · simp [BootedNet.put, BootedNet.mesh, hj]

/-- Messaging does not see a step of the rest of a node. -/
theorem mesh_put_self {i : ι} {n : BootedNode} (hclient : n.client = (s.nodes i).client)
    (hserver : n.serving.server = (s.nodes i).serving.server) :
    (s.put i n none).mesh = s.mesh := by
  rw [mesh_put, hclient, hserver]
  exact congrArg (Mesh.mk · _) (Function.update_eq_self i s.mesh.nodes)

theorem bootedStep_serving {i : ι} {a : ServingAct} (hs : bootedStep b s (.serving i a) = some s') :
    servingMay b s i a ∧ ∃ serving,
      servingStep (b.node i) (s.nodes i).serving a = some serving ∧
      s' = s.put i { s.nodes i with serving := serving }
        (servingText b i (s.nodes i).serving.server a) := by
  simp only [bootedStep] at hs
  split at hs
  · rename_i hmay
    obtain ⟨serving, hserving, rfl⟩ := Option.map_eq_some_iff.mp hs
    exact ⟨hmay, serving, hserving, rfl⟩
  · cases hs

theorem bootedStep_enter {i : ι} {table : PeerTable b.k.discoveryMaxPeers} {sendTime : Int}
    (hs : bootedStep b s (.enter i table sendTime) = some s') :
    (s.nodes i).loop.pc = .found ∧ ∃ client,
      clientStep (s.nodes i).client (echoCall b.k table sendTime (s.nodes i).loop.calls) =
        some client ∧
      s' = s.put i { s.nodes i with
        client := client
        loop := { (s.nodes i).loop with
          pc := .calling (s.nodes i).loop.calls, calls := (s.nodes i).loop.calls + 1 } } none := by
  simp only [bootedStep] at hs
  split at hs
  · rename_i hpc
    obtain ⟨client, hclient, rfl⟩ := Option.map_eq_some_iff.mp hs
    exact ⟨hpc, client, hclient, rfl⟩
  · cases hs

theorem bootedStep_call {i : ι} {a : ClientAct} (hs : bootedStep b s (.call i a) = some s') :
    ∃ c, (s.nodes i).loop.pc = .calling c ∧ echoCallStep c a = true ∧
      callMay b.lib b.identity s.mesh i a = true ∧ ∃ client,
        clientStep (s.nodes i).client a = some client ∧
        s' = s.put i { s.nodes i with client := client }
          (callText b.lib (b.identity i) (s.nodes i).client a) := by
  simp only [bootedStep] at hs
  split at hs
  · rename_i c hpc
    split at hs
    · rename_i hmay
      obtain ⟨hin, hmay⟩ := Bool.and_eq_true_iff.mp hmay
      obtain ⟨client, hclient, rfl⟩ := Option.map_eq_some_iff.mp hs
      exact ⟨c, hpc, hin, hmay, client, hclient, rfl⟩
    · cases hs
  · cases hs

/-- A step of a loop outside its calls: it goes to `ceell_discovery_peer_count`,
looks for a peer, or goes on behind a call. -/
theorem bootedStep_loop {i : ι} {a : BootedAct b.k ι}
    (ha : a = .run i ∨ (∃ counted table, a = .tick i counted table) ∨ a = .leave i ∨ a = .wake i)
    (hs : bootedStep b s a = some s') :
    ∃ l, s' = s.put i { s.nodes i with loop := l } none ∧
      (((s.nodes i).loop.pc = .boot ∨ (s.nodes i).loop.pc = .sleeping) ∧
          l = { (s.nodes i).loop with pc := .tick } ∨
        (∃ counted table, (s.nodes i).loop.pc = .tick ∧
          l = (s.nodes i).loop.tick b.k counted table) ∨
        ∃ c, (s.nodes i).loop.pc = .calling c ∧
          (s.nodes i).loop.leave ((s.nodes i).client.calls c) = some l) := by
  rcases ha with rfl | ⟨counted, table, rfl⟩ | rfl | rfl
  all_goals simp only [bootedStep] at hs
  · split at hs
    · rename_i hpc
      exact ⟨_, (Option.some.inj hs).symm, Or.inl ⟨Or.inl hpc.2, rfl⟩⟩
    · cases hs
  · split at hs
    · rename_i hpc
      exact ⟨_, (Option.some.inj hs).symm, Or.inr (Or.inl ⟨counted, table, hpc, rfl⟩)⟩
    · cases hs
  · split at hs
    · rename_i c hpc
      obtain ⟨l, hl, rfl⟩ := Option.map_eq_some_iff.mp hs
      exact ⟨l, rfl, Or.inr (Or.inr ⟨c, hpc, hl⟩)⟩
    · cases hs
  · split at hs
    · rename_i hpc
      exact ⟨_, (Option.some.inj hs).symm, Or.inl ⟨Or.inr hpc, rfl⟩⟩
    · cases hs

/-- What messaging sees of a step: one of its own steps, or nothing. -/
def MeshMoves (b : NetBuild ι) (s s' : BootedNet ι) : Prop :=
  s'.mesh = s.mesh ∨ ∃ m : MeshAct ι Builtin, CValues s.mesh m ∧
    meshStep b.lib b.k.msgQueueDepth b.identity s.mesh m = some s'.mesh

theorem meshMoves_serving {i : ι} {a : ServingAct}
    (hs : bootedStep b s (.serving i a) = some s') : MeshMoves b s s' := by
  obtain ⟨hmay, serving, hserving, rfl⟩ := bootedStep_serving hs
  cases a with
  | thread a =>
    obtain ⟨hact, server, hserver, rfl⟩ := servingStep_thread hserving
    refine Or.inr ⟨.thread i a, ?_, ?_⟩
    · cases a with
      | handle p w => exact absurd rfl (hact p w)
      | _ => trivial
    · have hmay : threadMay b.lib s.mesh i a := hmay
      have hserver : serverStep (msgDispatch b.lib) b.k.msgQueueDepth (s.mesh.nodes i).server a
          = some server := hserver
      rw [mesh_put, meshStep, if_pos hmay, hserver]
      rfl
  | handle p now shown =>
    obtain ⟨_, _, _, hserver, _⟩ := servingStep_handle hserving
    refine Or.inr ⟨.thread i (.handle p (servingWorld (b.node i) (s.nodes i).serving.phase now
      shown)), ?_, ?_⟩
    · exact fun handler payload => isInt32_builtinAnswer shown b.ota.current handler payload
    · have hserver : serverStep (msgDispatch b.lib) b.k.msgQueueDepth (s.mesh.nodes i).server
          (.handle p (servingWorld (b.node i) (s.nodes i).serving.phase now shown))
          = some serving.server := hserver
      have hmay : threadMay b.lib s.mesh i
          (.handle p (servingWorld (b.node i) (s.nodes i).serving.phase now shown)) := trivial
      rw [mesh_put, meshStep, if_pos hmay, hserver]
      rfl
  | registerOta =>
    obtain ⟨_, phase, rfl⟩ := servingStep_main (Or.inl rfl) hserving
    exact Or.inl (mesh_put_self rfl rfl)
  | otaInit isConfirmed confirm =>
    obtain ⟨_, phase, rfl⟩ := servingStep_main (Or.inr ⟨_, _, rfl⟩) hserving
    exact Or.inl (mesh_put_self rfl rfl)
  | ota a =>
    obtain ⟨_, _, _, ota, _, rfl⟩ := servingStep_ota hserving
    exact Or.inl (mesh_put_self rfl rfl)

theorem meshMoves_enter {i : ι} {table : PeerTable b.k.discoveryMaxPeers} {sendTime : Int}
    (hs : bootedStep b s (.enter i table sendTime) = some s') : MeshMoves b s s' := by
  obtain ⟨_, client, hclient, rfl⟩ := bootedStep_enter hs
  have hclient : clientStep (s.mesh.nodes i).client
      (echoCall b.k table sendTime (s.nodes i).loop.calls) = some client := hclient
  refine Or.inr ⟨.call i (echoCall b.k table sendTime (s.nodes i).loop.calls), ?_, ?_⟩
  · unfold echoCall
    split
    · trivial
    · exact (by decide : nul ∉ "echo".toList ∧ nul ∉ "hello-ceell".toList)
  · have hmay : callMay b.lib b.identity s.mesh i
        (echoCall b.k table sendTime (s.nodes i).loop.calls) = true := by
      unfold echoCall
      split <;> rfl
    have htext : callText b.lib (b.identity i) (s.mesh.nodes i).client
        (echoCall b.k table sendTime (s.nodes i).loop.calls) = none := by
      unfold echoCall
      split <;> rfl
    rw [mesh_put, meshStep, if_pos hmay, hclient, htext]
    rfl

/-- **Every step** is one of messaging, or it does not see it. -/
theorem bootedStep_mesh {a : BootedAct b.k ι} (hs : bootedStep b s a = some s') :
    MeshMoves b s s' := by
  cases a with
  | serving i a => exact meshMoves_serving hs
  | deliver i wake =>
    simp only [bootedStep] at hs
    obtain ⟨rsp, hrsp, hs⟩ := Option.bind_eq_some_iff.mp hs
    obtain ⟨client, hclient, hs⟩ := Option.bind_eq_some_iff.mp hs
    obtain ⟨serving, hserving, rfl⟩ := Option.map_eq_some_iff.mp hs
    obtain ⟨_, server, hserver, rfl⟩ := servingStep_thread hserving
    refine Or.inr ⟨.deliver i wake, trivial, ?_⟩
    have hrsp : heldResponse b.lib (s.mesh.nodes i).server = some rsp := hrsp
    have hclient : handleResponse (s.mesh.nodes i).client rsp wake = some client := hclient
    have hserver : serverStep (msgDispatch b.lib) b.k.msgQueueDepth (s.mesh.nodes i).server
        (.dispatch : ServerAct (List Char) Builtin) = some server := hserver
    rw [mesh_put, meshStep, hrsp, Option.bind_some, hclient, Option.bind_some, hserver]
    rfl
  | enter i table sendTime => exact meshMoves_enter hs
  | call i a =>
    obtain ⟨c, _, hin, hmay, client, hclient, rfl⟩ := bootedStep_call hs
    refine Or.inr ⟨.call i a, ?_, ?_⟩
    · cases a with
      | claim d args => cases hin
      | _ => trivial
    · have hclient : clientStep (s.mesh.nodes i).client a = some client := hclient
      rw [mesh_put, meshStep, if_pos hmay, hclient]
      rfl
  | run i =>
    obtain ⟨l, rfl, _⟩ := bootedStep_loop (Or.inl rfl) hs
    exact Or.inl (mesh_put_self rfl rfl)
  | tick i counted table =>
    obtain ⟨l, rfl, _⟩ := bootedStep_loop (Or.inr (Or.inl ⟨_, _, rfl⟩)) hs
    exact Or.inl (mesh_put_self rfl rfl)
  | leave i =>
    obtain ⟨l, rfl, _⟩ := bootedStep_loop (Or.inr (Or.inr (Or.inl rfl))) hs
    exact Or.inl (mesh_put_self rfl rfl)
  | wake i =>
    obtain ⟨l, rfl, _⟩ := bootedStep_loop (Or.inr (Or.inr (Or.inr rfl))) hs
    exact Or.inl (mesh_put_self rfl rfl)

end Steps

/-! ## One call at a time -/

/-- The arguments of the test. -/
def IsEchoCall (call : Call) : Prop :=
  ∃ sendTime, call.args = ceellMsgSend "echo".toList "hello-ceell".toList sendTime

/-- The loop and its calls: they are made one by one and have failed. -/
structure LoopInv (client : ClientState) (l : EchoLoop) : Prop where
  waits : WaitInv client
  untested : l.echoTested = false
  retried : l.found = l.calls + if l.pc = .found then 1 else 0
  current : ∀ c : Nat, l.pc = .calling c → c + 1 = l.calls
  later : ∀ c : Nat, l.calls ≤ c → client.calls c = .start
  ended : ∀ c : Nat, c < l.calls → l.pc ≠ .calling c → ∃ ret, client.calls c = .failed ret
  args : ∀ c call, client.calls c = .claimed call → IsEchoCall call

section Calls

variable {k : Kconfig} {client client' : ClientState} {l l' : EchoLoop}

theorem loopInv_init : LoopInv clientMachine.init ⟨.boot, false, 0, 0⟩ where
  waits := waitInv_init
  untested := rfl
  retried := rfl
  current _ h := by cases h
  later _ _ := rfl
  ended _ h := absurd h (Nat.not_lt_zero _)
  args _ _ h := by cases h

/-- The loop moves on when its calls have ended. -/
theorem LoopInv.loop (h : LoopInv client l)
    (hended : ∀ c : Nat, c < l.calls → ∃ ret, client.calls c = .failed ret)
    (htested : l'.echoTested = false) (hcalls : l'.calls = l.calls)
    (hfound : l'.found = l.calls + if l'.pc = .found then 1 else 0)
    (hpc : ∀ c, l'.pc ≠ .calling c) : LoopInv client l' where
  waits := h.waits
  untested := htested
  retried := by rw [hcalls]; exact hfound
  current c hc := absurd hc (hpc c)
  later := by rw [hcalls]; exact h.later
  ended c hlt _ := hended c (hcalls ▸ hlt)
  args := h.args

theorem LoopInv.again (h : LoopInv client l) (hpc : l.pc = .boot ∨ l.pc = .sleeping) :
    LoopInv client { l with pc := .tick } := by
  refine h.loop (fun c hc => h.ended c hc ?_) h.untested rfl ?_ (by simp)
  · rcases hpc with hpc | hpc
    · simp [hpc]
    · simp [hpc]
  · rcases hpc with hpc | hpc
    · simpa [hpc] using h.retried
    · simpa [hpc] using h.retried

theorem LoopInv.tick (h : LoopInv client l) (hpc : l.pc = .tick)
    (counted table : PeerTable k.discoveryMaxPeers) : LoopInv client (l.tick k counted table) := by
  have hended : ∀ c : Nat, c < l.calls → ∃ ret, client.calls c = .failed ret :=
    fun c hc => h.ended c hc (by simp [hpc])
  have hfound : l.found = l.calls := by simpa [hpc] using h.retried
  refine h.loop hended h.untested rfl ?_ ?_
  · cases hf : tickFinds k counted table <;> simp [EchoLoop.tick, hf, h.untested, hfound]
  · intro c
    cases hf : tickFinds k counted table <;> simp [EchoLoop.tick, hf, h.untested]

/-- A call has returned, and not 0. -/
theorem LoopInv.leave (h : LoopInv client l) (hunanswered : Unanswered client) {c : CallId}
    (hpc : l.pc = .calling c) (hl : l.leave (client.calls c) = some l') : LoopInv client l' := by
  have hun := hunanswered.calls c
  unfold EchoLoop.leave at hl
  split at hl
  · rename_i ret hfailed
    obtain rfl := Option.some.inj hl
    refine h.loop (fun d hd => ?_) h.untested rfl ?_ (by simp)
    · by_cases hdc : d = c
      · exact ⟨ret, hdc ▸ hfailed⟩
      · exact h.ended d hd (by simpa [hpc] using Ne.symm hdc)
    · simpa [hpc] using h.retried
  · rename_i hreturned
    rw [hreturned] at hun
    exact hun.elim
  · cases hl

/-- A later step of a call is about that call, which claims nothing. -/
theorem calls_echoCallStep {c : CallId} {a : ClientAct} (hin : echoCallStep c a = true)
    (hs : clientStep client a = some client') :
    (∀ d, d ≠ c → client'.calls d = client.calls d) ∧ ∀ call, client'.calls c ≠ .claimed call := by
  cases a with
  | send d r =>
    obtain rfl : d = c := eq_of_beq hin
    obtain ⟨call, _, ⟨_, rfl⟩ | ⟨ret, _, rfl⟩⟩ := step_send hs
    · exact ⟨fun e he => Function.update_of_ne he _ _, fun call' => by simp⟩
    · exact ⟨fun e he => Function.update_of_ne he _ _, fun call' => by simp⟩
  | take d =>
    obtain rfl : d = c := eq_of_beq hin
    obtain ⟨call, _, ⟨_, rfl⟩ | ⟨_, rfl⟩⟩ := step_take hs
    · exact ⟨fun e he => Function.update_of_ne he _ _, fun call' => by simp⟩
    · exact ⟨fun e he => Function.update_of_ne he _ _, fun call' => by simp⟩
  | timeout d =>
    obtain rfl : d = c := eq_of_beq hin
    obtain ⟨call, _, rfl⟩ := step_timeout hs
    exact ⟨fun e he => Function.update_of_ne he _ _, fun call' => by simp⟩
  | copyOut d =>
    obtain rfl : d = c := eq_of_beq hin
    obtain ⟨call, _, rfl⟩ := step_copyOut hs
    exact ⟨fun e he => Function.update_of_ne he _ _, fun call' => by simp⟩
  | reject d why => cases hin
  | claim d args => cases hin
  | handleResponse rsp wake => cases hin

theorem LoopInv.call (h : LoopInv client l) {c : CallId} (hpc : l.pc = .calling c) {a : ClientAct}
    (hin : echoCallStep c a = true) (hs : clientStep client a = some client') :
    LoopInv client' l := by
  obtain ⟨hother, hclaimed⟩ := calls_echoCallStep hin hs
  have hlast := h.current c hpc
  constructor
  · exact waitInv_step h.waits hs
  · exact h.untested
  · exact h.retried
  · exact h.current
  · intro d hd
    have hne : d ≠ c := by
      rintro rfl
      omega
    rw [hother d hne]
    exact h.later d hd
  · intro d hd hdc
    rw [hother d (by rintro rfl; exact hdc hpc)]
    exact h.ended d hd hdc
  · intro d call hd
    by_cases hdc : d = c
    · exact absurd (hdc ▸ hd) (hclaimed call)
    · rw [hother d hdc] at hd
      exact h.args d call hd

/-- What the beginning of a call does to the calls. -/
theorem calls_echoCall {table : PeerTable k.discoveryMaxPeers} {sendTime : Int} {c : CallId}
    (hs : clientStep client (echoCall k table sendTime c) = some client') :
    (∀ d, d ≠ c → client'.calls d = client.calls d ∨
      (∃ p, d ∈ (client.rspSem p).waiters) ∧ client'.calls d = .failed (-ETIMEDOUT)) ∧
    ∀ call, client'.calls c = .claimed call → IsEchoCall call := by
  unfold echoCall at hs
  split at hs
  · obtain ⟨_, rfl⟩ := step_reject hs
    exact ⟨fun d hd => Or.inl (Function.update_of_ne hd _ _), fun call hcall => by simp at hcall⟩
  · obtain ⟨_, rfl⟩ := step_claim hs
    constructor
    · intro d hd
      simp only [claimSlot, Function.update_of_ne hd]
      split
      · rename_i hwaits
        exact Or.inr ⟨⟨_, hwaits⟩, rfl⟩
      · exact Or.inl rfl
    · intro call hcall
      simp only [claimSlot, Function.update_self, CallPc.claimed.injEq] at hcall
      exact ⟨sendTime, hcall ▸ rfl⟩

theorem LoopInv.enter (h : LoopInv client l) (hpc : l.pc = .found)
    {table : PeerTable k.discoveryMaxPeers} {sendTime : Int}
    (hs : clientStep client (echoCall k table sendTime l.calls) = some client') :
    LoopInv client' { l with pc := .calling l.calls, calls := l.calls + 1 } := by
  obtain ⟨hother, hargs⟩ := calls_echoCall hs
  constructor
  · exact waitInv_step h.waits hs
  · exact h.untested
  · simpa [hpc] using h.retried
  · intro c hc
    obtain rfl := LifecyclePc.calling.inj hc
    rfl
  · intro d hd
    have hd : l.calls < d := hd
    rcases hother d (Nat.ne_of_gt hd) with heq | ⟨⟨p, hwaits⟩, _⟩
    · rw [heq]
      exact h.later d (by omega)
    · -- it would wait without having begun
      obtain ⟨call, hcall, _⟩ := h.waits.waiting p d hwaits
      rw [h.later d (by omega)] at hcall
      cases hcall
  · intro d hd hdc
    have hd : d < l.calls + 1 := hd
    have hne : d ≠ l.calls := by
      rintro rfl
      exact hdc rfl
    rcases hother d hne with heq | ⟨_, hfailed⟩
    · rw [heq]
      exact h.ended d (Nat.lt_of_le_of_ne (Nat.le_of_lt_succ hd) hne) (by simp [hpc])
    · exact ⟨_, hfailed⟩
  · intro d call hd
    by_cases hdc : d = l.calls
    · exact hargs call (hdc ▸ hd)
    · rcases hother d hdc with heq | ⟨_, hfailed⟩
      · exact h.args d call (heq ▸ hd)
      · rw [hfailed] at hd
        cases hd

end Calls

/-! ## The requests and their answers -/

/-- What is taken for a request is one of the test. -/
def EchoText (lib : JsonLib) (data : List Char) : Prop :=
  ∀ req, msgDispatch lib data = .request req → req.deadlineMs = 0 ∧ ∀ src,
    (dispatchItem req src).toSvc.str = "echo".toList ∧
    (dispatchItem req src).payload.str = "hello-ceell".toList

/-- Whether `echo_handler` was registered, and is what the name stands for. -/
def ServesEcho (k : Kconfig) (cfg : CeellConfig) : Prop :=
  "echo".toList ∉ configuredNames cfg ∧ cfg.serviceCount < k.maxServices

theorem servedBy_echo (k : Kconfig) (cfg : CeellConfig) (phase : BootPhase) :
    (ServesEcho k cfg → servedBy k cfg phase "echo".toList = some .echo) ∧
    (¬ ServesEcho k cfg → servedBy k cfg phase "echo".toList = none) := by
  constructor
  · rintro ⟨hnew, hroom⟩
    rw [servedBy, if_neg hnew, if_pos ⟨rfl, hroom⟩]
  · intro hnot
    unfold servedBy
    split
    · rfl
    · rename_i hnew
      have hfull : ¬ ("echo".toList = "echo".toList ∧ cfg.serviceCount < k.maxServices) :=
        fun h => hnot ⟨hnew, h.2⟩
      rw [if_neg hfull, if_neg fun h => absurd h.1 (by decide)]

section Answers

variable {lib : JsonLib} {me : Identity} {n : MeshNode} {text : List Char}

theorem echoText_of_ignored {data : List Char} (h : msgDispatch lib data = .ignored) :
    EchoText lib data := by
  intro req hreq
  rw [h] at hreq
  cases hreq

theorem echoText_callText (hlib : lib.EscapesStrings) (hwithin : lib.EncodesWithin)
    (h : Unanswered n.client)
    (hargs : ∀ c call, n.client.calls c = .claimed call → IsEchoCall call) {a : ClientAct}
    (htext : callText lib me n.client a = some text) :
    EchoText lib (text.take (msgBufSize - 1)) := by
  obtain ⟨c, call, req, hclaimed, hreq, hsvc, hpayload, hdeadline⟩ :=
    msgDispatch_callText hlib hwithin h htext
  obtain ⟨sendTime, hcall⟩ := hargs c call hclaimed
  rw [hcall] at hsvc hpayload hdeadline
  intro req' hreq'
  obtain rfl := Dispatch.request.inj (hreq.symm.trans hreq')
  refine ⟨hdeadline, fun src => ⟨?_, ?_⟩⟩
  · rw [str_toSvc_dispatchItem src hsvc]
    exact (by decide : (cstr (jsonEscape.str "echo".toList)).take 31 = "echo".toList)
  · rw [str_payload_dispatchItem src hpayload]
    exact (by decide :
      (cstr (jsonEscape.str "hello-ceell".toList)).take 127 = "hello-ceell".toList)

/-- **The answer to a request of the test**: the payload, from a node that has
the service. -/
theorem answer_echoText (b : NodeBuild) {data : List Char} {req : MsgReq} {src : SockAddr}
    (htext : EchoText lib data) (hreq : msgDispatch lib data = .request req)
    {phase : BootPhase} {now : Int} {shown : OtaState} {a : RspArgs}
    (ha : a = handlerThreadFn (servingWorld b phase now shown) (msgPriorityOf req.priority)
      (dispatchItem req src)) :
    (ServesEcho b.k b.cfg → a.status = 0 ∧ a.payload = "hello-ceell".toList) ∧
    (¬ ServesEcho b.k b.cfg → a.status = -ENOENT) := by
  obtain ⟨hdeadline, hitem⟩ := htext req hreq
  obtain ⟨hsvc, hpayload⟩ := hitem src
  have hno : ¬ deadlinePassed (servingWorld b phase now shown).now (dispatchItem req src) =
      true := by
    simp [deadlinePassed, dispatchItem, hdeadline]
  have hhandler : ceellServiceGetHandler (servingWorld b phase now shown).registry
      (dispatchItem req src).toSvc.str = servedBy b.k b.cfg phase "echo".toList := by
    have hname : cstr "echo".toList = "echo".toList := by decide
    rw [hsvc, ← hname]
    exact b.getHandler phase _
  obtain ⟨hserved, hnone⟩ := servedBy_echo b.k b.cfg phase
  rw [handlerThreadFn, if_neg hno, hhandler, hpayload] at ha
  constructor
  · intro h
    rw [hserved h] at ha
    subst ha
    exact ⟨rfl, (by decide :
      (echoHandler "hello-ceell".toList rspPayload).1.str = "hello-ceell".toList)⟩
  · intro h
    rw [hnone h] at ha
    subst ha
    rfl

end Answers

/-! ## Every step keeps it -/

structure BootedNodeOk (b : NodeBuild) (n : BootedNode) : Prop where
  serving : ServingInv b n.serving
  loop : LoopInv n.client n.loop
  received : ∀ x ∈ n.serving.server.received, EchoText b.lib x.1

structure BootedInv {ι : Type} (b : NetBuild ι) (s : BootedNet ι) : Prop where
  mesh : MeshInv b.lib b.k.msgQueueDepth Builtin s.mesh
  nodes : ∀ i, BootedNodeOk (b.node i) (s.nodes i)
  texts : ∀ text ∈ s.texts, EchoText b.lib (text.take (msgBufSize - 1))

section Invariant

/-- What a node has received after a step. -/
theorem received_serving {b : NodeBuild} {s s' : ServingNode} {a : ServingAct}
    (hs : servingStep b s a = some s') :
    s'.server.received = s.server.received ∨ ∃ data src, a = .thread (.recv data src) ∧
      s'.server.received = s.server.received ++ [(data, src)] := by
  cases a with
  | thread a =>
    obtain ⟨_, server, hserver, rfl⟩ := servingStep_thread hs
    rcases received_step hserver with heq | ⟨data, src, rfl, heq⟩
    · exact Or.inl heq
    · exact Or.inr ⟨data, src, rfl, heq⟩
  | handle p now shown =>
    obtain ⟨_, _, _, hserver, _⟩ := servingStep_handle hs
    obtain ⟨_, _, _, heq⟩ := step_handle hserver
    exact Or.inl (by rw [heq])
  | registerOta =>
    obtain ⟨_, _, rfl⟩ := servingStep_main (Or.inl rfl) hs
    exact Or.inl rfl
  | otaInit isConfirmed confirm =>
    obtain ⟨_, _, rfl⟩ := servingStep_main (Or.inr ⟨_, _, rfl⟩) hs
    exact Or.inl rfl
  | ota a =>
    obtain ⟨_, _, _, _, _, rfl⟩ := servingStep_ota hs
    exact Or.inl rfl

variable {ι : Type} [DecidableEq ι] {b : NetBuild ι} {s s' : BootedNet ι}

theorem BootedInv.put (h : BootedInv b s) {i : ι} {n : BootedNode} {text : Option (List Char)}
    (hmesh : MeshInv b.lib b.k.msgQueueDepth Builtin (s.put i n text).mesh)
    (hnode : BootedNodeOk (b.node i) n)
    (htext : ∀ t, text = some t → EchoText b.lib (t.take (msgBufSize - 1))) :
    BootedInv b (s.put i n text) where
  mesh := hmesh
  nodes := (Function.forall_update_iff s.nodes fun j n => BootedNodeOk (b.node j) n).mpr
    ⟨hnode, fun j _ => h.nodes j⟩
  texts := by
    intro t ht
    rcases List.mem_append.mp ht with hnew | hold
    · exact htext t (Option.mem_toList.mp hnew)
    · exact h.texts t hold

/-- **Every request is one of the test.** -/
theorem bootedInv_step (hlib : b.lib.EscapesStrings) (hspoils : b.lib.SpoilsStrings)
    (hwithin : b.lib.EncodesWithin) (hints : b.lib.StoresInts) {a : BootedAct b.k ι}
    (h : BootedInv b s) (hs : bootedStep b s a = some s') : BootedInv b s' := by
  have hmesh : MeshInv b.lib b.k.msgQueueDepth Builtin s'.mesh := by
    rcases bootedStep_mesh hs with heq | ⟨m, hc, hm⟩
    · rw [heq]
      exact h.mesh
    · exact meshInv_step hlib hspoils hwithin hints h.mesh hc hm
  have hunanswered : ∀ i, Unanswered (s.nodes i).client := fun i => (h.mesh.nodes i).client
  have hloop : ∀ {i : ι}, (a = .run i ∨ (∃ counted table, a = .tick i counted table) ∨
      a = .leave i ∨ a = .wake i) → BootedInv b s' := by
    intro i ha
    obtain ⟨l, rfl, hl⟩ := bootedStep_loop ha hs
    refine h.put hmesh ⟨(h.nodes i).serving, ?_, (h.nodes i).received⟩ (fun _ ht => by cases ht)
    rcases hl with ⟨hpc, rfl⟩ | ⟨counted, table, hpc, rfl⟩ | ⟨c, hpc, hl⟩
    · exact (h.nodes i).loop.again hpc
    · exact (h.nodes i).loop.tick hpc counted table
    · exact (h.nodes i).loop.leave (hunanswered i) hpc hl
  cases a with
  | serving i a =>
    obtain ⟨hmay, serving, hserving, rfl⟩ := bootedStep_serving hs
    refine h.put hmesh ⟨?_, (h.nodes i).loop, ?_⟩ ?_
    · exact servingInv_step hints (h.nodes i).serving hserving
    · rcases received_serving hserving with heq | ⟨data, src, rfl, heq⟩
      · rw [heq]
        exact (h.nodes i).received
      · obtain ⟨text, hmem, rfl⟩ := hmay
        intro x hx
        rw [heq] at hx
        rcases List.mem_append.mp hx with hold | hnew
        · exact (h.nodes i).received x hold
        · obtain rfl := List.mem_singleton.mp hnew
          exact h.texts text hmem
    · intro t ht
      cases a with
      | thread a => exact echoText_of_ignored (msgDispatch_threadText hlib hspoils hwithin hints
          (n := s.mesh.nodes i) (h.nodes i).serving.server ht)
      | handle p now shown => cases ht
      | registerOta => cases ht
      | otaInit isConfirmed confirm => cases ht
      | ota a => cases ht
  | deliver i wake =>
    have hheld : heldResponse b.lib (s.nodes i).serving.server = none :=
      (h.mesh.nodes i).heldResponse
    simp only [bootedStep, hheld, Option.bind_none, reduceCtorEq] at hs
  | enter i table sendTime =>
    obtain ⟨hpc, client, hclient, rfl⟩ := bootedStep_enter hs
    exact h.put hmesh ⟨(h.nodes i).serving, (h.nodes i).loop.enter hpc hclient,
      (h.nodes i).received⟩ (fun _ ht => by cases ht)
  | call i a =>
    obtain ⟨c, hpc, hin, _, client, hclient, rfl⟩ := bootedStep_call hs
    refine h.put hmesh ⟨(h.nodes i).serving, (h.nodes i).loop.call hpc hin hclient,
      (h.nodes i).received⟩ fun t ht => ?_
    exact echoText_callText (n := s.mesh.nodes i) hlib hwithin (hunanswered i)
      (h.nodes i).loop.args ht
  | run i => exact hloop (Or.inl rfl)
  | tick i counted table => exact hloop (Or.inr (Or.inl ⟨_, _, rfl⟩))
  | leave i => exact hloop (Or.inr (Or.inr (Or.inl rfl)))
  | wake i => exact hloop (Or.inr (Or.inr (Or.inr rfl)))

/-! ## The result -/

/-- What becomes of the test at a node: its own calls fail, each tick that
finds a peer makes one, and the requests of others get their answers. -/
structure EchoOutcome (b : NodeBuild) (n : BootedNode) : Prop where
  untested : n.loop.echoTested = false
  unheard : n.client.handled = []
  retried : n.loop.found = n.loop.calls + if n.loop.pc = .found then 1 else 0
  failed : ∀ c : Nat, c < n.loop.calls → n.loop.pc ≠ .calling c →
    ∃ ret, n.client.calls c = .failed ret
  served : ServesEcho b.k b.cfg → ∀ i a, Gives n.serving.server i a →
    a.status = 0 ∧ a.payload = "hello-ceell".toList
  unknown : ¬ ServesEcho b.k b.cfg → ∀ i a, Gives n.serving.server i a → a.status = -ENOENT

/-- **The echo test**, over every run of nodes booted with whatever is in
their flashes: every node that has the service answers each request with 0
and the payload, and the test never passes at any node. Each tick that finds
a peer makes one more call, after the one before has failed. -/
theorem echoTest_ok (hlib : b.lib.EscapesStrings) (hspoils : b.lib.SpoilsStrings)
    (hwithin : b.lib.EncodesWithin) (hints : b.lib.StoresInts)
    (hr : (bootedMachine b).Reachable s) (i : ι) : EchoOutcome (b.node i) (s.nodes i) := by
  have hinv : BootedInv b s := by
    have hmesh : MeshInv b.lib b.k.msgQueueDepth Builtin (bootedMachine b).init.mesh :=
      @meshInv_init Builtin b.lib b.k.msgQueueDepth ι _ b.identity
    refine Machine.Reachable.induct (P := BootedInv b)
      ⟨hmesh, fun j => ⟨?_, loopInv_init, ?_⟩, ?_⟩
      (fun _ _ _ h hs => bootedInv_step hlib hspoils hwithin hints h hs) hr
    · exact servingInv_reachable hints Machine.Reachable.init
    · exact fun _ hx => absurd hx List.not_mem_nil
    · exact fun _ ht => absurd ht List.not_mem_nil
  obtain ⟨hserving, hloop, hreceived⟩ := hinv.nodes i
  have hanswer : ∀ j a, Gives (s.nodes i).serving.server j a →
      (ServesEcho (b.node i).k (b.node i).cfg → a.status = 0 ∧ a.payload = "hello-ceell".toList) ∧
      (¬ ServesEcho (b.node i).k (b.node i).cfg → a.status = -ENOENT) := by
    intro j a hg
    obtain ⟨req, src, ⟨data, hdata, hreq⟩, _, _, _, ha⟩ := hserving.given j a hg
    exact answer_echoText (b.node i) (hreceived _ (List.mem_of_getElem? hdata)) hreq ha
  exact
    { untested := hloop.untested
      unheard := (hinv.mesh.nodes i).client.handled
      retried := hloop.retried
      failed := hloop.ended
      served := fun h j a hg => (hanswer j a hg).1 h
      unknown := fun h j a hg => (hanswer j a hg).2 h }

end Invariant

/-- A node with its defaults, and one that its flash makes node 2. -/
def echoBuild : NetBuild Bool where
  lib := jsonEscapeReference
  tree := jsonTreeReference
  k := {}
  defaults := { nodeId := 1 }
  ota := sampleConfig
  interval := 300
  flash
    | true => { servicesFlash [] with openRet := -ENODEV }
    | false => servicesFlash "braking".toList

/-- Node 2 is known, with its services. -/
def echoPeers : PeerTable 8 :=
  updatePeer none 0 ⟨2, none, none, some "10.0.0.2".toList, some "braking,echo".toList⟩ (.empty 8)

/-- A call whose request is served and whose answer arrives, and a tick after
it. -/
def echoRun : List (BootedAct {} Bool) :=
  let req : List Char :=
    "\x7b\"type\":\"req\",\"seq\":1,\"from_id\":1,\"to_svc\":\"echo\",".toList ++
      "\"payload\":\"hello-ceell\",\"priority\":1,\"deadline_ms\":0,".toList ++
      "\"send_time_ms\":5\x7d".toList
  let rsp : List Char :=
    "\x7b\"type\":\"rsp\",\"seq\":1,\"from_id\":2,\"status\":0,".toList ++
      "\"payload\":\"hello-ceell\",\"priority\":1\x7d".toList
  [.serving true .registerOta, .serving true (.otaInit true 0), .run true,
   .tick true echoPeers echoPeers, .enter true echoPeers 5, .call true (.send 0 .sent),
   .call true (.take 0), .serving false (.thread (.recv req ⟨1, 1⟩)),
   .serving false (.thread .dispatch), .serving false (.thread (.get .normal)),
   .serving false (.handle .normal 6 .idle), .serving false (.thread (.respond .normal)),
   .serving true (.thread (.recv rsp ⟨2, 2⟩)), .serving true (.thread .dispatch),
   .call true (.timeout 0), .leave true, .wake true, .tick true echoPeers echoPeers]

/-- The answer is right, and the test is about to be made again. -/
theorem echoTest_ok_twoNodes :
    ∃ s : BootedNet Bool, (bootedMachine echoBuild).run echoRun = some s ∧
      ((s.nodes false).serving.server.answered .normal).map (fun x => (x.2.status, x.2.payload)) =
        [(0, "hello-ceell".toList)] ∧
      (s.nodes true).loop.pc = .found ∧ (s.nodes true).loop.calls = 1 ∧
      EchoOutcome (echoBuild.node true) (s.nodes true) := by
  have hend : ((bootedMachine echoBuild).run echoRun).map (fun s =>
      (((s.nodes false).serving.server.answered .normal).map (fun x => (x.2.status, x.2.payload)),
        (s.nodes true).loop.pc, (s.nodes true).loop.calls)) =
      some ([(0, "hello-ceell".toList)], .found, 1) := by decide +kernel
  obtain ⟨s, hs, hvalues⟩ := Option.map_eq_some_iff.mp hend
  obtain ⟨hanswered, hloop⟩ := Prod.mk.inj hvalues
  obtain ⟨hpc, hcalls⟩ := Prod.mk.inj hloop
  exact ⟨s, hs, hanswered, hpc, hcalls, echoTest_ok jsonEscapeReference_escapesStrings
    jsonEscapeReference_spoilsStrings jsonEscapeReference_encodesWithin
    jsonEscapeReference_storesInts ⟨_, hs⟩ true⟩

end Ceell
