/-
Ceell.Network.Replies — the datagrams that the answers of a node go out in.

When the encoder fails, `send_response` returns without a word, and the
caller of the service waits in vain. `replies_sent` says that this does
not happen, whatever the handlers answer: every answer and every refusal
is sent, to where its request came from, and of the datagrams received
there are as many as datagrams sent, requests in progress and others.
-/
import Ceell.Network.Escapes
import Ceell.Network.Server

namespace Ceell.Network

open Ceell.Lib Ceell.Core Ceell.Osal

/-! ## The datagram of an answer -/

section Reply

variable {lib : JsonLib} (id : Identity) {a : RspArgs}

/-- The text of a response is of 365 bytes at most, with every byte of the
payload escaped. -/
theorem length_rsp_le (h : SmallReply a) :
    (renderObj ((rspFields id a).map escapeField)).length ≤ 365 := by
  have hseq := h.seq.length_intChars_le
  have hid := (isInt32_ofUInt32 id.nodeId).length_intChars_le
  have hstatus := h.status.length_intChars_le
  have hpri := IsInt32.length_intChars_le a.priority.isInt32_toInt
  have htype : (jsonEscape.str "rsp".toList).length = 3 := by decide
  have hpayload := Escape.length_str_le (e := jsonEscape) a.payload
  have hsmall := h.length_payload
  simp [renderObj, renderObjWith, renderMembers, renderField, rspFields, escapeField] at htype ⊢
  omega

/-- A receiver that parses the datagram as a response gets the answer. -/
structure Tells (lib : JsonLib) (id : Identity) (a : RspArgs) (data : List Char) : Prop where
  ret : 0 ≤ (lib.parse msgRspDescr data).ret
  rsp : MsgRsp.ofJson (lib.parse msgRspDescr data) =
    ⟨some "rsp".toList, a.seq, ofUInt32 id.nodeId, a.status, some (jsonEscape.str a.payload),
      a.priority.toInt⟩

/-- **The answer is sent.** -/
theorem sendResponse_small (hlib : lib.EscapesStrings) (hfits : lib.EncodesEscaped)
    (h : SmallReply a) :
    ∃ pkt, sendResponse lib (some id) a = some pkt ∧ pkt.dest = a.dest ∧
      pkt.data.length < msgBufSize ∧ Tells lib id a pkt.data := by
  have hstr := string_rspFields id h
  have hlen : (renderObj ((rspFields id a).map escapeField)).length < msgBufSize :=
    Nat.lt_of_le_of_lt (length_rsp_le id h) (by decide)
  have hret := hfits _ _ (rspFields_ne_nil id a) hstr hlen
  have hsent : sendResponse lib (some id) a
      = some ⟨a.dest, cstr (lib.encodeBuf (rspFields id a) msgBufSize).2⟩ := if_pos hret
  have hdata := sendResponse_escaped id hlib h hsent
  refine ⟨_, hsent, rfl, hdata ▸ hlen, hdata ▸ ?_⟩
  obtain ⟨hparse, hval⟩ := hlib.parse_raw msgRspDescr (rspFields id a) (rspFields_ne_nil id a)
    hstr (nodup_rspFields id a) (matches_descrOf (nodup_rspFields id a))
  refine ⟨hparse, ?_⟩
  have htype : (lib.parse msgRspDescr _).str "type" = some (jsonEscape.str "rsp".toList) :=
    JsonParsed.str_of_val (hval ⟨"type".toList, .string⟩ (by decide))
  have hseq : (lib.parse msgRspDescr _).num "seq" = a.seq :=
    JsonParsed.num_of_val (hval ⟨"seq".toList, .number⟩ (by decide))
  have hfrom : (lib.parse msgRspDescr _).num "from_id" = ofUInt32 id.nodeId :=
    JsonParsed.num_of_val (hval ⟨"from_id".toList, .number⟩ (by decide))
  have hstatus : (lib.parse msgRspDescr _).num "status" = a.status :=
    JsonParsed.num_of_val (hval ⟨"status".toList, .number⟩ (by decide))
  have hpayload : (lib.parse msgRspDescr _).str "payload" = some (jsonEscape.str a.payload) :=
    JsonParsed.str_of_val (hval ⟨"payload".toList, .string⟩ (by decide))
  have hpri : (lib.parse msgRspDescr _).num "priority" = a.priority.toInt :=
    JsonParsed.num_of_val (hval ⟨"priority".toList, .number⟩ (by decide))
  simp only [MsgRsp.ofJson, htype, hseq, hfrom, hstatus, hpayload, hpri]
  rfl

end Reply

/-! ## The answers of a run -/

variable {ν : Type} {lib : JsonLib} {depth : Nat} {s s' : ServerState (List Char)}

/-- The handlers return an `int`. -/
def IntHandlers (_ : ServerState (List Char)) : ServerAct (List Char) ν → Prop
  | .handle _ w => ∀ handler payload, IsInt32 (w.answer handler payload).status
  | _ => True

theorem isInt32_seq (hints : lib.StoresInts) {data : List Char} {req : MsgReq}
    (h : msgDispatch lib data = .request req) : IsInt32 req.seq := by
  unfold msgDispatch at h
  dsimp only at h
  split at h
  · obtain rfl := Dispatch.request.inj h
    exact hints.num msgReqDescr data "seq"
  · split at h <;> cases h

/-- A string that is no longer than its copy in an array. -/
theorem smallReply_text {dest : SockAddr} {seq status : Int} {pri : MsgPriority} (text : String)
    (hseq : IsInt32 seq) (hstatus : IsInt32 status)
    (htext : nul ∉ text.toList ∧ text.toList.length ≤ 127) :
    SmallReply ⟨dest, seq, status, text.toList, pri⟩ :=
  ⟨hseq, hstatus, htext.1, htext.2⟩

theorem smallReply_handler {w : World ν} {pri : MsgPriority} {item : MsgDispatchItem}
    (hseq : IsInt32 item.seq) (hw : ∀ handler payload, IsInt32 (w.answer handler payload).status) :
    SmallReply (handlerThreadFn w pri item) := by
  unfold handlerThreadFn
  split
  · exact smallReply_text "deadline expired" hseq (by decide) (by decide)
  · split
    · exact smallReply_text "unknown service" hseq (by decide) (by decide)
    · rename_i handler _
      have hlt := (w.answer handler item.payload.str).payload.length_str_lt
        (w.answer handler item.payload.str).terminated
      exact ⟨hseq, hw handler _, CharBuf.nul_notMem_str _, Nat.le_of_lt_succ hlt⟩

/-- What the threads answer, and are about to answer, fits a response. -/
structure RepliesInv (lib : JsonLib) (depth : Nat) (ν : Type) (s : ServerState (List Char)) :
    Prop where
  server : ServerInv (msgDispatch lib) depth ν s
  hand : ∀ p i a, s.hand p = .respond i a → SmallReply a
  answered : ∀ p, ∀ x ∈ s.answered p, SmallReply x.2

/-- Steps of the dispatcher leave the handler threads alone. -/
theorem RepliesInv.dispatcher (h : RepliesInv lib depth ν s)
    (hserver : ServerInv (msgDispatch lib) depth ν s') (hhand : s'.hand = s.hand)
    (hanswered : s'.answered = s.answered) : RepliesInv lib depth ν s' where
  server := hserver
  hand := hhand ▸ h.hand
  answered := hanswered ▸ h.answered

theorem repliesInv_step (hints : lib.StoresInts) {act : ServerAct (List Char) ν}
    (h : RepliesInv lib depth ν s) (hact : IntHandlers s act)
    (hs : serverStep (msgDispatch lib) depth s act = some s') : RepliesInv lib depth ν s' := by
  have hserver := serverInv_step h.server hs
  cases act with
  | recv data src =>
    obtain ⟨_, rfl⟩ := step_recv hs
    exact h.dispatcher hserver rfl rfl
  | dispatch =>
    obtain ⟨_, _, _, _, hcases⟩ := step_dispatch hs
    rcases hcases with ⟨_, _, _, rfl⟩ | ⟨_, _, _, rfl⟩ | ⟨_, rfl⟩
    · exact h.dispatcher hserver rfl rfl
    · exact h.dispatcher hserver rfl rfl
    · exact h.dispatcher hserver rfl rfl
  | refuse =>
    obtain ⟨_, _, _, rfl⟩ := step_refuse hs
    exact h.dispatcher hserver rfl rfl
  | get p =>
    obtain ⟨i, item, rest, _, _, rfl⟩ := step_get hs
    refine ⟨hserver, ?_, h.answered⟩
    intro q j a hq
    by_cases hqp : q = p
    · subst hqp
      simp at hq
    · exact h.hand q j a (by simpa [hqp] using hq)
  | handle p w =>
    obtain ⟨i, item, hat, rfl⟩ := step_handle hs
    refine ⟨hserver, ?_, h.answered⟩
    intro q j a hq
    by_cases hqp : q = p
    · subst hqp
      obtain ⟨_, rfl⟩ : i = j ∧ handlerThreadFn w q item = a := by simpa using hq
      have hitem := h.server.hand q
      rw [hat] at hitem
      obtain ⟨req, src, ⟨data, _, hreq⟩, _, rfl⟩ := hitem
      exact smallReply_handler (isInt32_seq hints hreq) hact
    · exact h.hand q j a (by simpa [hqp] using hq)
  | respond p =>
    obtain ⟨i, a, hat, rfl⟩ := step_respond hs
    refine ⟨hserver, ?_, ?_⟩
    · intro q j b hq
      by_cases hqp : q = p
      · subst hqp
        simp at hq
      · exact h.hand q j b (by simpa [hqp] using hq)
    · intro q x hx
      by_cases hqp : q = p
      · subst hqp
        have hx : x ∈ s.answered q ++ [(i, a)] := by simpa using hx
        rcases List.mem_append.mp hx with hx | hx
        · exact h.answered q x hx
        · obtain rfl := List.mem_singleton.mp hx
          exact h.hand q i a hat
      · exact h.answered q x (by simpa [hqp] using hx)

theorem repliesInv_reachable (hints : lib.StoresInts)
    (hr : (serverMachine (msgDispatch lib) depth ν).ReachableUnder IntHandlers s) :
    RepliesInv lib depth ν s := by
  refine hr.induct ?_ fun _ _ _ h hact hs => repliesInv_step hints h hact hs
  exact ⟨serverInv_init, by simp [serverMachine], by simp [serverMachine]⟩

/-! ## The datagrams of a run -/

namespace ServerState

/-- The answers and the refusals so far. -/
def replies (s : ServerState (List Char)) : List (Nat × RspArgs) :=
  MsgPriority.all.flatMap s.answered ++ s.refused

/-- The datagrams sent for them. -/
def packets (lib : JsonLib) (id : Identity) (s : ServerState (List Char)) : List Packet :=
  s.replies.filterMap fun x => sendResponse lib (some id) x.2

/-- The number of datagrams that are with a thread or in a queue. -/
def inProgress (s : ServerState (List Char)) : Nat :=
  s.disp.idx.length + (MsgPriority.all.map fun p => (s.hand p).idx.length + (s.queue p).length).sum

/-- Every datagram is counted in one of four places. -/
theorem length_places (s : ServerState (List Char)) :
    s.places.length = s.replies.length + s.inProgress + s.passed.length := by
  simp only [places, replies, inProgress, line, MsgPriority.all, List.length_append,
    List.flatMap_cons, List.flatMap_nil, List.length_map, List.length_nil, List.map_cons,
    List.map_nil, List.sum_cons, List.sum_nil]
  omega

end ServerState

/-- The sender of the `i`-th datagram gets this answer to it. -/
def Replied (lib : JsonLib) (id : Identity) (received : List (List Char × SockAddr))
    (x : Nat × RspArgs) (pkt : Packet) : Prop :=
  ∃ req src, IsRequest (msgDispatch lib) received x.1 req src ∧ pkt.dest = src ∧
    x.2.seq = req.seq ∧ x.2.priority = msgPriorityOf req.priority ∧
    pkt.data.length < msgBufSize ∧ Tells lib id x.2 pkt.data

/-- **No answer is lost in `send_response`**: in every run of the
dispatcher and the handler threads, whatever the handlers answer, each
answer and each refusal is sent in a datagram that fits the buffer, goes to
the sender of its request and carries it whole. The datagrams sent, the
requests in progress and the datagrams that were no requests are together
as many as the datagrams received. -/
theorem replies_sent (hlib : lib.EscapesStrings) (hfits : lib.EncodesEscaped)
    (hints : lib.StoresInts) (id : Identity)
    (hr : (serverMachine (msgDispatch lib) depth ν).ReachableUnder IntHandlers s) :
    (∀ x ∈ s.replies, ∃ pkt, sendResponse lib (some id) x.2 = some pkt ∧
      Replied lib id s.received x pkt) ∧
    (s.packets lib id).length + s.inProgress + s.passed.length = s.received.length := by
  have h := repliesInv_reachable hints hr
  have hsent : ∀ x ∈ s.replies, ∃ pkt, sendResponse lib (some id) x.2 = some pkt ∧
      Replied lib id s.received x pkt := by
    intro x hx
    rcases List.mem_append.mp hx with hx | hx
    · obtain ⟨p, _, hx⟩ := List.mem_flatMap.mp hx
      obtain ⟨pkt, hpkt, hdest, hlen, htells⟩ :=
        sendResponse_small id hlib hfits (h.answered p x hx)
      obtain ⟨req, src, hreq, rfl, w, ha⟩ := h.server.answered p x hx
      obtain ⟨hto, hseq, hpri⟩ := handlerThreadFn_addressed w (msgPriorityOf req.priority)
        (dispatchItem req src)
      rw [← ha] at hto hseq hpri
      exact ⟨pkt, hpkt, req, src, hreq, hdest.trans hto, hseq, hpri, hlen, htells⟩
    · obtain ⟨req, src, hreq, ha⟩ := h.server.refused x hx
      obtain ⟨data, hget, hdec⟩ := hreq
      have hsmall : SmallReply x.2 := by
        rw [ha]
        exact smallReply_text "queue full" (isInt32_seq hints hdec) (by decide) (by decide)
      obtain ⟨pkt, hpkt, hdest, hlen, htells⟩ := sendResponse_small id hlib hfits hsmall
      have hfull : x.2.dest = src ∧ x.2.seq = req.seq ∧
          x.2.priority = msgPriorityOf req.priority := by
        rw [ha]
        exact ⟨rfl, rfl, rfl⟩
      exact ⟨pkt, hpkt, req, src, ⟨data, hget, hdec⟩, hdest.trans hfull.1, hfull.2.1, hfull.2.2,
        hlen, htells⟩
  refine ⟨hsent, ?_⟩
  have hpackets : (s.packets lib id).length = s.replies.length := by
    have hall : s.replies.filterMap (fun x => sendResponse lib (some id) x.2)
        = s.replies.filterMap fun x =>
            some ((sendResponse lib (some id) x.2).getD ⟨x.2.dest, []⟩) := by
      refine List.filterMap_congr fun x hx => ?_
      obtain ⟨pkt, hpkt, _⟩ := hsent x hx
      rw [hpkt]
      rfl
    rw [ServerState.packets, hall]
    simp
  rw [hpackets, ← ServerState.length_places, h.server.places.length_eq, List.length_range]

/-- A request for a service that answers in quotes, and one that finds the
queue full. -/
def quotedAnswer : List (ServerAct (List Char) Unit) :=
  let req : List Char :=
    "\x7b\"type\":\"req\",\"seq\":7,\"from_id\":2,\"to_svc\":\"e\",\"payload\":\"x\"".toList ++
      ",\"priority\":1,\"deadline_ms\":0,\"send_time_ms\":0\x7d".toList
  let world : World Unit :=
    ⟨0, (ceellServiceRegister {} (some ['e']) (some ()) []).1,
      fun _ _ => ⟨0, (CharBuf.zero 128).copy "\"ok\"".toList, by decide⟩⟩
  [.recv req ⟨1, 1⟩, .dispatch, .recv req ⟨2, 2⟩, .dispatch, .refuse,
   .get .normal, .handle .normal world, .respond .normal]

theorem replies_sent_quoted :
    ∃ s, (serverMachine (msgDispatch jsonEscapeReference) 1 Unit).run quotedAnswer = some s ∧
      s.replies.map (fun x => (x.1, x.2.payload))
        = [(0, "\"ok\"".toList), (1, "queue full".toList)] ∧
      (∀ x ∈ s.replies, ∃ pkt, sendResponse jsonEscapeReference (some ⟨9⟩) x.2 = some pkt ∧
        Replied jsonEscapeReference ⟨9⟩ s.received x pkt) ∧
      (s.packets jsonEscapeReference ⟨9⟩).length + s.inProgress + s.passed.length = 2 := by
  obtain ⟨s, hs⟩ : ∃ s,
      (serverMachine (msgDispatch jsonEscapeReference) 1 Unit).run quotedAnswer = some s :=
    Option.isSome_iff_exists.mp (by decide +kernel)
  have hend : ((serverMachine (msgDispatch jsonEscapeReference) 1 Unit).run quotedAnswer).map
      (fun s => (s.replies.map fun x => (x.1, x.2.payload), s.received.length))
        = some ([(0, "\"ok\"".toList), (1, "queue full".toList)], 2) := by decide +kernel
  rw [hs, Option.map_some, Option.some.injEq, Prod.mk.injEq] at hend
  obtain ⟨hsent, hcount⟩ := replies_sent jsonEscapeReference_escapesStrings
    jsonEscapeReference_encodesEscaped jsonEscapeReference_storesInts ⟨9⟩
    (s := s) ⟨quotedAnswer, hs, by
      refine ⟨trivial, fun _ _ => ⟨trivial, fun _ _ => ⟨trivial, fun _ _ => ⟨trivial, fun _ _ =>
      ⟨trivial, fun _ _ => ⟨trivial, fun _ _ => ⟨fun _ _ => ?_, fun _ _ =>
          ⟨trivial, fun _ _ => trivial⟩⟩⟩⟩⟩⟩⟩⟩
      exact (by decide : IsInt32 0)⟩
  exact ⟨s, hs, hend.1, hsent, hcount.trans hend.2⟩

end Ceell.Network
