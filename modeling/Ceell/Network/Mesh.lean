/-
Ceell.Network.Mesh — nodes that call each other's services through the
wire: every node with its calls, its dispatcher and its handler threads.

What a node encodes may be sent to any node, at any time, more than once or
never; that covers a static buffer that another thread has filled again
before the send. `mesh_noSuccess` is what `ResponsePath` comes to for the
system: `handle_response` is never called and no `ceell_msg_send_pri`
returns 0, whatever the calls, the handlers and the network do.
-/
import Ceell.Network.Client
import Ceell.Network.Replies

namespace Ceell.Network

open Ceell.Lib Ceell.Core Ceell.Osal

/-! ## A response in the dispatcher -/

/-- The dispatcher ignores a response, whatever its payload. -/
theorem msgDispatch_rsp_escaped {lib : JsonLib} (hlib : lib.EscapesStrings)
    (hspoils : lib.SpoilsStrings) (id : Identity) {a : RspArgs} (ha : SmallReply a) :
    msgDispatch lib (renderObj ((rspFields id a).map escapeField)) = .ignored := by
  have hstr := string_rspFields id ha
  obtain ⟨_, hval⟩ := hlib.parse_raw msgReqDescr (rspFields id a) (rspFields_ne_nil id a) hstr
    (nodup_rspFields id a) (matches_rspFields id a)
  have hbuf := hspoils.parse_spoils msgReqDescr (rspFields id a) (rspFields_ne_nil id a) hstr
    (nodup_rspFields id a) (matches_rspFields id a)
  have htype : strIs ((lib.parse msgReqDescr
      (renderObj ((rspFields id a).map escapeField))).str "type") "req" = false := by
    have hstored : (lib.parse msgReqDescr (renderObj ((rspFields id a).map escapeField))).str
        "type" = some (jsonEscape.str "rsp".toList) :=
      JsonParsed.str_of_val (hval ⟨"type".toList, .string⟩ (by decide))
    rw [hstored]
    decide
  have hspoiled : ∃ rest, spoiledObj msgReqDescr ((rspFields id a).map escapeField)
      = '{' :: '"' :: "type".toList ++ '"' :: ':' :: '"' :: "rsp".toList ++ nul :: rest :=
    ⟨_, rfl⟩
  have hfail : (lib.parse msgRspDescr (lib.parse msgReqDescr
      (renderObj ((rspFields id a).map escapeField))).buf).ret < 0 := by
    obtain ⟨rest, hrest⟩ := hspoiled
    rw [hbuf, hrest]
    exact hspoils.parse_nul msgRspDescr "type".toList "rsp".toList rest (by decide) (by decide)
  unfold msgDispatch
  simp only [MsgReq.ofJson, htype, Bool.false_eq_true, and_false, if_false]
  rw [if_neg]
  intro h
  omega

/-! ## The nodes and the wire -/

structure MeshNode where
  client : ClientState
  server : ServerState (List Char)

/-- The nodes, and what they have encoded so far. -/
structure Mesh (ι : Type) where
  nodes : ι → MeshNode
  texts : List (List Char)

inductive MeshAct (ι ν : Type) where
  | call (i : ι) (a : ClientAct)
  | thread (i : ι) (a : ServerAct (List Char) ν)
  | deliver (i : ι) (wake : Option CallId) -- a response, by the dispatcher

section Model

variable {ι ν : Type} [DecidableEq ι] (lib : JsonLib) (depth : Nat) (id : ι → Identity)

/-- The text that `ceell_msg_send_pri` has encoded when it sends. -/
def callText (me : Identity) (client : ClientState) : ClientAct → Option (List Char)
  | .send c _ =>
      match client.calls c with
      | .claimed call => ceellMsgSendPriData lib me call
      | _ => none
  | _ => none

/-- The text of the `send_response` that a thread is at. -/
def threadText (me : Identity) (server : ServerState (List Char)) :
    ServerAct (List Char) ν → Option (List Char)
  | .respond p =>
      match server.hand p with
      | .respond _ a => (sendResponse lib (some me) a).map (·.data)
      | _ => none
  | .refuse =>
      match server.disp with
      | .refuse _ a => (sendResponse lib (some me) a).map (·.data)
      | _ => none
  | _ => none

/-- The response that a dispatcher holds. -/
def heldResponse (server : ServerState (List Char)) : Option MsgRsp :=
  match server.disp with
  | .got _ data _ =>
      match msgDispatch lib data with
      | .response rsp => some rsp
      | _ => none
  | _ => none

/-- Whether the environment lets a thread make the step: what it receives
was encoded by a node and is cut to the buffer, and a response is taken to
`handle_response` before it is passed over. -/
def threadMay (s : Mesh ι) (i : ι) : ServerAct (List Char) ν → Prop
  | .recv data _ => ∃ text ∈ s.texts, data = text.take (msgBufSize - 1)
  | .dispatch => heldResponse lib (s.nodes i).server = none
  | _ => True

instance (s : Mesh ι) (i : ι) (a : ServerAct (List Char) ν) : Decidable (threadMay lib s i a) := by
  cases a <;> unfold threadMay <;> infer_instance

/-- Whether a call may make the step: its send fails for the encoder
exactly if that has failed, and `handle_response` is not a call's. -/
def callMay (s : Mesh ι) (i : ι) : ClientAct → Bool
  | .handleResponse _ _ => false
  | .send c r =>
      match r with
      | .encodeFailed => (callText lib (id i) (s.nodes i).client (.send c r)).isNone
      | _ => (callText lib (id i) (s.nodes i).client (.send c r)).isSome
  | _ => true

def meshStep (s : Mesh ι) : MeshAct ι ν → Option (Mesh ι)
  | .call i a =>
      if callMay lib id s i a then
        (clientStep (s.nodes i).client a).map fun client =>
          { nodes := Function.update s.nodes i { s.nodes i with client := client }
            texts := (callText lib (id i) (s.nodes i).client a).toList ++ s.texts }
      else none
  | .thread i a =>
      if threadMay lib s i a then
        (serverStep (msgDispatch lib) depth (s.nodes i).server a).map fun server =>
          { nodes := Function.update s.nodes i { s.nodes i with server := server }
            texts := (threadText lib (id i) (s.nodes i).server a).toList ++ s.texts }
      else none
  | .deliver i wake =>
      (heldResponse lib (s.nodes i).server).bind fun rsp =>
        (handleResponse (s.nodes i).client rsp wake).bind fun client =>
          (serverStep (msgDispatch lib) depth (s.nodes i).server
              (.dispatch : ServerAct (List Char) ν)).map fun server =>
            { s with nodes := Function.update s.nodes i ⟨client, server⟩ }

/-- Runs of the nodes from `ceell_messaging_init` on. -/
def meshMachine (ν : Type) : Machine (Mesh ι) (MeshAct ι ν) where
  init :=
    { nodes := fun _ => ⟨clientMachine.init, (serverMachine (msgDispatch lib) depth ν).init⟩
      texts := [] }
  step := meshStep lib depth id

end Model

/-- The calls pass C strings, and the handlers return an `int`. -/
def CValues {ι ν : Type} (s : Mesh ι) : MeshAct ι ν → Prop
  | .call _ (.claim _ args) => nul ∉ args.service ∧ nul ∉ args.payload
  | .thread i a => IntHandlers (s.nodes i).server a
  | _ => True

/-! ## Calls that nobody answers -/

/-- Where a call stands that has had no answer. -/
def CallPc.Unanswered : CallPc → Prop
  | .claimed call => nul ∉ call.args.service ∧ nul ∉ call.args.payload
  | .taken _ => False
  | .returned _ _ => False
  | _ => True

/-- `handle_response` has not been called. -/
structure Unanswered (client : ClientState) : Prop where
  handled : client.handled = []
  sems : ∀ p, (client.rspSem p).count = false
  calls : ∀ c, (client.calls c).Unanswered

section Client

variable {s s' : ClientState}

theorem unanswered_init : Unanswered clientMachine.init :=
  ⟨rfl, fun _ => rfl, fun _ => trivial⟩

/-- One call moves to a place without an answer, and one semaphore stays
unavailable. -/
theorem Unanswered.move (h : Unanswered s) {c : CallId} {pc : CallPc} {p : MsgPriority}
    {sem : Sem CallId} (hpc : pc.Unanswered) (hsem : sem.count = false) :
    Unanswered { s with
      rspSem := Function.update s.rspSem p sem, calls := Function.update s.calls c pc } where
  handled := h.handled
  sems := (Function.forall_update_iff s.rspSem fun _ sem => sem.count = false).mpr
    ⟨hsem, fun q _ => h.sems q⟩
  calls := (Function.forall_update_iff s.calls fun _ pc => pc.Unanswered).mpr
    ⟨hpc, fun d _ => h.calls d⟩

theorem Unanswered.moveCall (h : Unanswered s) {c : CallId} {pc : CallPc}
    (hpc : pc.Unanswered) : Unanswered { s with calls := Function.update s.calls c pc } := by
  have hmove := h.move (p := .normal) (c := c) hpc (h.sems .normal)
  rwa [Function.update_eq_self] at hmove

theorem unanswered_step (h : Unanswered s) {a : ClientAct}
    (hargs : ∀ c args, a = .claim c args → nul ∉ args.service ∧ nul ∉ args.payload)
    (hcall : ∀ rsp wake, a ≠ .handleResponse rsp wake) (hs : clientStep s a = some s') :
    Unanswered s' := by
  cases a with
  | reject c why =>
    obtain ⟨_, rfl⟩ := step_reject hs
    exact h.moveCall trivial
  | claim c args =>
    obtain ⟨_, rfl⟩ := step_claim hs
    refine ⟨h.handled, ?_, ?_⟩
    · exact (Function.forall_update_iff s.rspSem fun _ sem => sem.count = false).mpr
        ⟨rfl, fun q _ => h.sems q⟩
    · refine (Function.forall_update_iff _ fun _ (pc : CallPc) => pc.Unanswered).mpr
        ⟨hargs c args rfl, fun d _ => ?_⟩
      split
      · exact trivial
      · exact h.calls d
  | send c r =>
    obtain ⟨call, _, ⟨_, rfl⟩ | ⟨ret, _, rfl⟩⟩ := step_send hs
    · exact h.moveCall trivial
    · exact h.moveCall trivial
  | take c =>
    obtain ⟨call, _, ⟨havail, _⟩ | ⟨_, rfl⟩⟩ := step_take hs
    · rw [h.sems call.pri] at havail
      cases havail
    · exact h.move trivial (h.sems call.pri)
  | timeout c =>
    obtain ⟨call, _, rfl⟩ := step_timeout hs
    exact h.move trivial (h.sems call.pri)
  | copyOut c =>
    obtain ⟨call, htaken, _⟩ := step_copyOut hs
    have := h.calls c
    rw [htaken] at this
    exact this.elim
  | handleResponse rsp wake => exact absurd rfl (hcall rsp wake)

end Client

/-! ## The invariant -/

/-- The dispatcher takes the text for no response. -/
def NoResponse (lib : JsonLib) (data : List Char) : Prop :=
  ∀ rsp, msgDispatch lib data ≠ .response rsp

structure MeshNodeOk (lib : JsonLib) (depth : Nat) (ν : Type) (n : MeshNode) : Prop where
  client : Unanswered n.client
  replies : RepliesInv lib depth ν n.server
  received : ∀ x ∈ n.server.received, NoResponse lib x.1

structure MeshInv {ι : Type} (lib : JsonLib) (depth : Nat) (ν : Type) (s : Mesh ι) : Prop where
  nodes : ∀ i, MeshNodeOk lib depth ν (s.nodes i)
  texts : ∀ text ∈ s.texts, NoResponse lib (text.take (msgBufSize - 1))

section Invariant

variable {ν : Type} {lib : JsonLib} {depth : Nat} {me : Identity} {n : MeshNode}

theorem MeshNodeOk.heldResponse (h : MeshNodeOk lib depth ν n) :
    heldResponse lib n.server = none := by
  have hdisp := h.replies.server.disp
  unfold Network.heldResponse
  split
  · rename_i i data src hgot
    rw [hgot] at hdisp
    have hno := h.received _ (List.mem_of_getElem? hdisp.2)
    split
    · rename_i rsp hrsp
      exact absurd hrsp (hno rsp)
    · rfl
  · rfl

/-- A call sends a request, with its own arguments. -/
theorem msgDispatch_callText (hlib : lib.EscapesStrings) (hwithin : lib.EncodesWithin)
    (h : Unanswered n.client) {a : ClientAct} {text : List Char}
    (htext : callText lib me n.client a = some text) :
    ∃ c call req, n.client.calls c = .claimed call ∧
      msgDispatch lib (text.take (msgBufSize - 1)) = .request req ∧
      req.toSvc = some (jsonEscape.str call.args.service) ∧
      req.payload = some (jsonEscape.str call.args.payload) ∧
      req.deadlineMs = call.args.deadlineMs.toNat := by
  unfold callText at htext
  split at htext
  · split at htext
    · rename_i c _ _ call hclaimed
      have hargs := h.calls c
      rw [hclaimed] at hargs
      have hlen : text.length < msgBufSize := by
        unfold ceellMsgSendPriData at htext
        dsimp only at htext
        split at htext
        · rename_i hret
          obtain rfl := Option.some.inj htext
          exact hwithin _ _ hret
        · cases htext
      obtain ⟨req, hreq, hsvc, hpayload, hdeadline, _⟩ := msgDispatch_req me hlib hargs.1 hargs.2
      rw [← ceellMsgSendPriData_eq me hlib hargs.1 hargs.2 htext] at hreq
      rw [List.take_of_length_le (Nat.le_sub_one_of_lt hlen)]
      exact ⟨c, call, req, hclaimed, hreq, hsvc, hpayload, hdeadline⟩
    · cases htext
  · cases htext

theorem noResponse_callText (hlib : lib.EscapesStrings) (hwithin : lib.EncodesWithin)
    (h : Unanswered n.client) {a : ClientAct} {text : List Char}
    (htext : callText lib me n.client a = some text) :
    NoResponse lib (text.take (msgBufSize - 1)) := by
  obtain ⟨_, _, req, _, hreq, _⟩ := msgDispatch_callText hlib hwithin h htext
  intro rsp hrsp
  rw [hreq] at hrsp
  cases hrsp

/-- A thread sends a response that the dispatchers ignore. -/
theorem msgDispatch_reply (hlib : lib.EscapesStrings) (hspoils : lib.SpoilsStrings)
    (hwithin : lib.EncodesWithin) {a : RspArgs} (ha : SmallReply a) {text : List Char}
    (htext : (sendResponse lib (some me) a).map (·.data) = some text) :
    msgDispatch lib (text.take (msgBufSize - 1)) = .ignored := by
  obtain ⟨pkt, hpkt, rfl⟩ := Option.map_eq_some_iff.mp htext
  have hlen : pkt.data.length < msgBufSize := by
    obtain ⟨hret, rfl⟩ := sendResponse_eq_some hpkt
    exact hwithin _ _ hret
  rw [List.take_of_length_le (Nat.le_sub_one_of_lt hlen), sendResponse_escaped me hlib ha hpkt,
    msgDispatch_rsp_escaped hlib hspoils me ha]

theorem msgDispatch_threadText (hlib : lib.EscapesStrings) (hspoils : lib.SpoilsStrings)
    (hwithin : lib.EncodesWithin) (hints : lib.StoresInts) (h : RepliesInv lib depth ν n.server)
    {a : ServerAct (List Char) ν} {text : List Char}
    (htext : threadText lib me n.server a = some text) :
    msgDispatch lib (text.take (msgBufSize - 1)) = .ignored := by
  cases a with
  | respond p =>
    simp only [threadText] at htext
    split at htext
    · rename_i i a hhand
      exact msgDispatch_reply hlib hspoils hwithin (h.hand p i a hhand) htext
    · cases htext
  | refuse =>
    simp only [threadText] at htext
    split at htext
    · rename_i i a hdisp
      have hrefuse := h.server.disp
      rw [hdisp] at hrefuse
      obtain ⟨req, src, ⟨data, _, hreq⟩, rfl⟩ := hrefuse
      exact msgDispatch_reply hlib hspoils hwithin
        (smallReply_text "queue full" (isInt32_seq hints hreq) (by decide) (by decide)) htext
    · cases htext
  | recv data src => cases htext
  | dispatch => cases htext
  | get p => cases htext
  | handle p w => cases htext

theorem noResponse_threadText (hlib : lib.EscapesStrings) (hspoils : lib.SpoilsStrings)
    (hwithin : lib.EncodesWithin) (hints : lib.StoresInts) (h : RepliesInv lib depth ν n.server)
    {a : ServerAct (List Char) ν} {text : List Char}
    (htext : threadText lib me n.server a = some text) :
    NoResponse lib (text.take (msgBufSize - 1)) := by
  intro rsp hrsp
  rw [msgDispatch_threadText hlib hspoils hwithin hints h htext] at hrsp
  cases hrsp

/-- What a server has received after a step. -/
theorem received_step {server server' : ServerState (List Char)} {a : ServerAct (List Char) ν}
    (hs : serverStep (msgDispatch lib) depth server a = some server') :
    server'.received = server.received ∨
      ∃ data src, a = .recv data src ∧ server'.received = server.received ++ [(data, src)] := by
  cases a with
  | recv data src =>
    obtain ⟨_, rfl⟩ := step_recv hs
    exact Or.inr ⟨data, src, rfl, rfl⟩
  | dispatch =>
    obtain ⟨_, _, _, _, ⟨_, _, _, rfl⟩ | ⟨_, _, _, rfl⟩ | ⟨_, rfl⟩⟩ := step_dispatch hs
    · exact Or.inl rfl
    · exact Or.inl rfl
    · exact Or.inl rfl
  | refuse =>
    obtain ⟨_, _, _, rfl⟩ := step_refuse hs
    exact Or.inl rfl
  | get p =>
    obtain ⟨_, _, _, _, _, rfl⟩ := step_get hs
    exact Or.inl rfl
  | handle p w =>
    obtain ⟨_, _, _, rfl⟩ := step_handle hs
    exact Or.inl rfl
  | respond p =>
    obtain ⟨_, _, _, rfl⟩ := step_respond hs
    exact Or.inl rfl

variable {ι : Type} [DecidableEq ι] {id : ι → Identity} {s s' : Mesh ι}

/-- One node has moved and encoded a text, or none. -/
theorem MeshInv.move (h : MeshInv lib depth ν s) {i : ι} (hnode : MeshNodeOk lib depth ν n)
    {text : Option (List Char)}
    (htext : ∀ t, text = some t → NoResponse lib (t.take (msgBufSize - 1))) :
    MeshInv lib depth ν
      { nodes := Function.update s.nodes i n, texts := text.toList ++ s.texts } where
  nodes := (Function.forall_update_iff s.nodes fun _ n => MeshNodeOk lib depth ν n).mpr
    ⟨hnode, fun j _ => h.nodes j⟩
  texts := by
    intro t ht
    rcases List.mem_append.mp ht with hnew | hold
    · exact htext t (Option.mem_toList.mp hnew)
    · exact h.texts t hold

/-- **No step calls `handle_response`.** -/
theorem meshInv_step (hlib : lib.EscapesStrings) (hspoils : lib.SpoilsStrings)
    (hwithin : lib.EncodesWithin) (hints : lib.StoresInts) {a : MeshAct ι ν}
    (h : MeshInv lib depth ν s) (hc : CValues s a) (hs : meshStep lib depth id s a = some s') :
    MeshInv lib depth ν s' := by
  cases a with
  | call i a =>
    simp only [meshStep] at hs
    split at hs
    · rename_i hmay
      obtain ⟨client, hclient, rfl⟩ := Option.map_eq_some_iff.mp hs
      have hargs : ∀ c args, a = .claim c args → nul ∉ args.service ∧ nul ∉ args.payload := by
        rintro c args rfl
        exact hc
      have hcall : ∀ rsp wake, a ≠ .handleResponse rsp wake := by
        rintro rsp wake rfl
        exact absurd hmay (by simp [callMay])
      have hnode : MeshNodeOk lib depth ν { s.nodes i with client := client } :=
        { h.nodes i with client := unanswered_step (h.nodes i).client hargs hcall hclient }
      exact h.move hnode fun t ht => noResponse_callText hlib hwithin (h.nodes i).client ht
    · cases hs
  | thread i a =>
    simp only [meshStep] at hs
    split at hs
    · rename_i hmay
      obtain ⟨server, hserver, rfl⟩ := Option.map_eq_some_iff.mp hs
      have hreceived : ∀ x ∈ server.received, NoResponse lib x.1 := by
        rcases received_step hserver with heq | ⟨data, src, rfl, heq⟩
        · rw [heq]
          exact (h.nodes i).received
        · obtain ⟨text, hmem, rfl⟩ := hmay
          intro x hx
          rw [heq] at hx
          rcases List.mem_append.mp hx with hold | hnew
          · exact (h.nodes i).received x hold
          · obtain rfl := List.mem_singleton.mp hnew
            exact h.texts text hmem
      have hnode : MeshNodeOk lib depth ν { s.nodes i with server := server } :=
        ⟨(h.nodes i).client, repliesInv_step hints (h.nodes i).replies hc hserver, hreceived⟩
      exact h.move hnode fun t ht =>
        noResponse_threadText hlib hspoils hwithin hints (h.nodes i).replies ht
    · cases hs
  | deliver i wake =>
    simp only [meshStep, (h.nodes i).heldResponse, Option.bind_none, reduceCtorEq] at hs

theorem meshInv_init : MeshInv lib depth ν (meshMachine lib depth id ν).init where
  nodes _ :=
    { client := unanswered_init
      replies := ⟨serverInv_init, by simp [meshMachine, serverMachine],
        by simp [meshMachine, serverMachine]⟩
      received := fun _ hx => absurd hx List.not_mem_nil }
  texts _ ht := absurd ht List.not_mem_nil

/-- **No call succeeds**: in every run of nodes that call each other, with
any calls, any handlers and any network, no node ever calls
`handle_response`, and no call returns 0. -/
theorem mesh_noSuccess (hlib : lib.EscapesStrings) (hspoils : lib.SpoilsStrings)
    (hwithin : lib.EncodesWithin) (hints : lib.StoresInts)
    (hr : (meshMachine lib depth id ν).ReachableUnder CValues s) (i : ι) :
    (s.nodes i).client.handled = [] ∧
      ∀ c call rsp, (s.nodes i).client.calls c ≠ .returned call rsp := by
  have hinv : MeshInv lib depth ν s := hr.induct meshInv_init fun _ _ _ h hc hs =>
    meshInv_step hlib hspoils hwithin hints h hc hs
  have hnode := (hinv.nodes i).client
  refine ⟨hnode.handled, fun c call rsp hreturned => ?_⟩
  have hpc := hnode.calls c
  rw [hreturned] at hpc
  exact hpc

end Invariant

def meshIds : Bool → Identity
  | true => ⟨1⟩
  | false => ⟨2⟩

/-- A node with the service `e`, which answers `ok`. -/
def okWorld : World Unit :=
  ⟨0, (ceellServiceRegister {} (some ['e']) (some ()) []).1,
    fun _ _ => ⟨0, (CharBuf.zero 128).copy "ok".toList, by decide⟩⟩

/-- A call whose request is served and whose answer arrives. -/
def servedCall : List (MeshAct Bool Unit) :=
  let req : List Char :=
    "\x7b\"type\":\"req\",\"seq\":1,\"from_id\":1,\"to_svc\":\"e\",\"payload\":\"x\"".toList ++
      ",\"priority\":1,\"deadline_ms\":0,\"send_time_ms\":0\x7d".toList
  let rsp : List Char :=
    "\x7b\"type\":\"rsp\",\"seq\":1,\"from_id\":2,\"status\":0,\"payload\":\"ok\"".toList ++
      ",\"priority\":1\x7d".toList
  [.call true (.claim 0 sampleArgs), .call true (.send 0 .sent), .call true (.take 0),
   .thread false (.recv req ⟨1, 1⟩), .thread false .dispatch, .thread false (.get .normal),
   .thread false (.handle .normal okWorld), .thread false (.respond .normal),
   .thread true (.recv rsp ⟨2, 2⟩), .thread true .dispatch, .call true (.timeout 0)]

/-- The service has answered 0, and the call has timed out. -/
theorem mesh_noSuccess_servedCall :
    ∃ s : Mesh Bool, ((s.nodes false).server.answered .normal).map (fun x => x.2.status) = [0] ∧
      (s.nodes true).client.calls 0 = .failed (-ETIMEDOUT) ∧
      (s.nodes true).client.handled = [] := by
  have hend : ((meshMachine jsonEscapeReference 8 meshIds Unit).run servedCall).map (fun s =>
      (((s.nodes false).server.answered .normal).map (fun x => x.2.status),
        (s.nodes true).client.calls 0)) = some ([0], .failed (-ETIMEDOUT)) := by decide +kernel
  obtain ⟨s, hs, hvalues⟩ := Option.map_eq_some_iff.mp hend
  obtain ⟨hanswered, hcall⟩ := Prod.mk.inj hvalues
  have hint : ∀ handler payload, IsInt32 (okWorld.answer handler payload).status :=
    fun _ _ => (by decide : IsInt32 0)
  have hargs : nul ∉ sampleArgs.service ∧ nul ∉ sampleArgs.payload := by decide
  have hr : (meshMachine jsonEscapeReference 8 meshIds Unit).ReachableUnder CValues s :=
    ⟨servedCall, hs, hargs, fun _ _ => ⟨trivial, fun _ _ => ⟨trivial, fun _ _ => ⟨trivial,
      fun _ _ => ⟨trivial, fun _ _ => ⟨trivial, fun _ _ => ⟨hint, fun _ _ => ⟨trivial,
        fun _ _ => ⟨trivial, fun _ _ => ⟨trivial, fun _ _ => ⟨trivial, fun _ _ => trivial⟩⟩⟩⟩⟩⟩⟩⟩⟩⟩⟩
  exact ⟨s, hanswered, hcall, (mesh_noSuccess jsonEscapeReference_escapesStrings
    jsonEscapeReference_spoilsStrings jsonEscapeReference_encodesWithin
    jsonEscapeReference_storesInts hr true).1⟩

end Ceell.Network
