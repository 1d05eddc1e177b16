/-
Ceell.Network.Escapes — the strings of a message on the wire.

`ceell_msg_send_pri` and `send_response` hand their strings to an encoder
that escapes them; the dispatcher copies what the parser stored, the text
between the quotes, into arrays of 32 and 128 bytes, and so does
`handle_response`. Nobody undoes the escapes. So what arrives is the
escaped string cut to 31 or 127 bytes, and `strings_intact_iff` says for
which strings that is the string that was sent.
-/
import Ceell.Network.Client
import Ceell.Network.ResponsePath
import Ceell.Osal.JsonEscape

namespace Ceell.Network

open Ceell.Lib Ceell.Core Ceell.Osal

/-! ## The two messages -/

/-- The object `ceell_msg_send_pri` encodes; `JSON_TOK_NUMBER` prints the
low half of `send_time_ms`. -/
def reqFields (id : Identity) (call : Call) : List JsonField :=
  [("type".toList, .str "req".toList), ("seq".toList, .num (ofUInt32 call.seq)),
   ("from_id".toList, .num (ofUInt32 id.nodeId)), ("to_svc".toList, .str call.args.service),
   ("payload".toList, .str call.args.payload), ("priority".toList, .num call.pri.toInt),
   ("deadline_ms".toList, .num call.args.deadlineMs.toNat),
   ("send_time_ms".toList, .num (toInt32 call.args.sendTime))]

/-- The datagram `ceell_msg_send_pri` sends once it has claimed its slot. -/
def ceellMsgSendPriData (lib : JsonLib) (id : Identity) (call : Call) : Option (List Char) :=
  let r := lib.encodeBuf (reqFields id call) msgBufSize
  if r.1 = 0 then some (cstr r.2) else none

/-- The strings of a call are C strings that fit the dispatch item. -/
structure SmallCall (call : Call) : Prop where
  service : nul ∉ call.args.service
  length_service : call.args.service.length ≤ 31
  payload : nul ∉ call.args.payload
  length_payload : call.args.payload.length ≤ 127

/-- The arguments of `send_response` are those of a C call, and the reply
fits its slot. -/
structure SmallReply (a : RspArgs) : Prop where
  seq : IsInt32 a.seq
  status : IsInt32 a.status
  payload : nul ∉ a.payload
  length_payload : a.payload.length ≤ 127

/-- The dispatcher builds an item with the strings of the call. -/
def RequestIntact (lib : JsonLib) (call : Call) (data : List Char) : Prop :=
  ∀ src, ∃ req, msgDispatch lib data = .request req ∧
    (dispatchItem req src).toSvc.str = call.args.service ∧
    (dispatchItem req src).payload.str = call.args.payload

/-- `handle_response` stores the reply, given what the datagram decodes
to, whatever its slot holds. -/
def ReplyIntact (lib : JsonLib) (a : RspArgs) (data : List Char) : Prop :=
  ∀ slot, (storeRsp slot a.priority (MsgRsp.ofJson (lib.parse msgRspDescr data))).payload.str =
    a.payload

/-! ## The fields -/

theorem isInt32_toInt32 (x : Int) : IsInt32 (toInt32 x) := by
  have hpos : 0 < 2 ^ 32 := by decide
  have hle := Int.le_bmod (x := x) hpos
  have hlt := Int.bmod_lt (x := x) hpos
  unfold IsInt32 toInt32
  omega

section Request

variable (id : Identity) {call : Call}

theorem reqFields_ne_nil (call : Call) : reqFields id call ≠ [] := List.cons_ne_nil _ _

theorem nodup_reqFields (call : Call) : ((reqFields id call).map Prod.fst).Nodup := by
  show (msgReqDescr.map (·.fieldName)).Nodup
  decide

theorem matches_reqFields (call : Call) : Matches msgReqDescr (reqFields id call) :=
  matches_descrOf (nodup_reqFields id call)

theorem string_reqFields (hservice : nul ∉ call.args.service)
    (hpayload : nul ∉ call.args.payload) : ∀ f ∈ reqFields id call, StringField f := by
  intro f hf
  have hkeys : ∀ d ∈ msgReqDescr, Plain d.fieldName := by decide
  refine ⟨hkeys _ (mem_descrOf hf), ?_⟩
  simp only [reqFields, List.mem_cons, List.not_mem_nil, or_false] at hf
  rcases hf with rfl | rfl | rfl | rfl | rfl | rfl | rfl | rfl
  · show nul ∉ "req".toList
    decide
  · exact isInt32_ofUInt32 _
  · exact isInt32_ofUInt32 _
  · exact hservice
  · exact hpayload
  · exact call.pri.isInt32_toInt
  · have hlt := call.args.deadlineMs.toNat_lt
    show IsInt32 call.args.deadlineMs.toNat
    unfold IsInt32
    omega
  · exact isInt32_toInt32 _

/-- The datagram is the escaped text of the request. -/
theorem ceellMsgSendPriData_eq {lib : JsonLib} (hlib : lib.EscapesStrings)
    (hservice : nul ∉ call.args.service) (hpayload : nul ∉ call.args.payload)
    {data : List Char} (hsent : ceellMsgSendPriData lib id call = some data) :
    data = renderObj ((reqFields id call).map escapeField) := by
  unfold ceellMsgSendPriData at hsent
  dsimp only at hsent
  split at hsent
  · rename_i hret
    obtain rfl := Option.some.inj hsent
    have hstr := string_reqFields id hservice hpayload
    rw [hlib.encode_escaped _ _ (reqFields_ne_nil id call) hstr hret,
      cstr_eq_self (nul_notMem_renderObj_escaped hstr)]
  · cases hsent

/-- The dispatcher takes it for a request, with the escaped strings and the
numbers as the descriptors carry them. -/
theorem msgDispatch_req {lib : JsonLib} (hlib : lib.EscapesStrings)
    (hservice : nul ∉ call.args.service) (hpayload : nul ∉ call.args.payload) :
    ∃ req, msgDispatch lib (renderObj ((reqFields id call).map escapeField)) = .request req ∧
      req.toSvc = some (jsonEscape.str call.args.service) ∧
      req.payload = some (jsonEscape.str call.args.payload) ∧
      req.deadlineMs = call.args.deadlineMs.toNat ∧
      req.sendTimeMs = int64OfLow (toInt32 call.args.sendTime) := by
  obtain ⟨hret, hval⟩ := hlib.parse_raw msgReqDescr (reqFields id call)
    (reqFields_ne_nil id call) (string_reqFields id hservice hpayload) (nodup_reqFields id call)
    (matches_reqFields id call)
  generalize renderObj ((reqFields id call).map escapeField) = text at hret hval ⊢
  have htype : (lib.parse msgReqDescr text).str "type" = some "req".toList :=
    JsonParsed.str_of_val (hval ⟨"type".toList, .string⟩ (by decide))
  have hsvc : (lib.parse msgReqDescr text).str "to_svc" =
      some (jsonEscape.str call.args.service) :=
    JsonParsed.str_of_val (hval ⟨"to_svc".toList, .string⟩ (by decide))
  have hpayload' : (lib.parse msgReqDescr text).str "payload" =
      some (jsonEscape.str call.args.payload) :=
    JsonParsed.str_of_val (hval ⟨"payload".toList, .string⟩ (by decide))
  have hdeadline : (lib.parse msgReqDescr text).num "deadline_ms" = call.args.deadlineMs.toNat :=
    JsonParsed.num_of_val (hval ⟨"deadline_ms".toList, .number⟩ (by decide))
  have hsend : (lib.parse msgReqDescr text).num "send_time_ms" = toInt32 call.args.sendTime :=
    JsonParsed.num_of_val (hval ⟨"send_time_ms".toList, .number⟩ (by decide))
  refine ⟨MsgReq.ofJson (lib.parse msgReqDescr text), ?_, hsvc, hpayload', hdeadline,
    congrArg int64OfLow hsend⟩
  have hreq : strIs (MsgReq.ofJson (lib.parse msgReqDescr text)).type "req" = true := by
    show strIs ((lib.parse msgReqDescr text).str "type") "req" = true
    rw [htype]
    decide
  unfold msgDispatch
  rw [if_pos ⟨hret, hreq⟩]

end Request

section Reply

variable (id : Identity) {a : RspArgs}

theorem string_rspFields (h : SmallReply a) : ∀ f ∈ rspFields id a, StringField f := by
  intro f hf
  obtain ⟨hkey, hval⟩ := rspFields_cases id h.seq h.status hf
  refine ⟨hkey, ?_⟩
  rcases hval with htype | hpayload | ⟨n, hnum, hint⟩
  · rw [htype]
    show nul ∉ "rsp".toList
    decide
  · rw [hpayload]
    exact h.payload
  · rw [hnum]
    exact hint

theorem sendResponse_escaped {lib : JsonLib} (hlib : lib.EscapesStrings) (h : SmallReply a)
    {p : Packet} (hsent : sendResponse lib (some id) a = some p) :
    p.data = renderObj ((rspFields id a).map escapeField) := by
  obtain ⟨hret, rfl⟩ := sendResponse_eq_some hsent
  have hstr := string_rspFields id h
  show cstr _ = _
  rw [hlib.encode_escaped _ _ (rspFields_ne_nil id a) hstr hret,
    cstr_eq_self (nul_notMem_renderObj_escaped hstr)]

/-- The response decodes to the escaped reply. -/
theorem payload_parse_rsp {lib : JsonLib} (hlib : lib.EscapesStrings) (h : SmallReply a) :
    (MsgRsp.ofJson (lib.parse msgRspDescr (renderObj ((rspFields id a).map escapeField)))).payload =
      some (jsonEscape.str a.payload) := by
  obtain ⟨_, hval⟩ := hlib.parse_raw msgRspDescr (rspFields id a) (rspFields_ne_nil id a)
    (string_rspFields id h) (nodup_rspFields id a) (matches_descrOf (nodup_rspFields id a))
  exact JsonParsed.str_of_val (hval ⟨"payload".toList, .string⟩ (by decide))

end Reply

/-! ## What arrives -/

/-- An escaped string cut to an array is the string, where it is kept. -/
theorem take_cstr_escape_iff {s : List Char} {n : Nat} (hnul : nul ∉ s) (hlen : s.length ≤ n) :
    (cstr (jsonEscape.str s)).take n = s ↔ jsonEscape.Kept n s := by
  rw [cstr_eq_self (nul_notMem_escape hnul)]
  exact Escape.take_str_eq_self_iff hlen

theorem requestIntact_iff {lib : JsonLib} (hlib : lib.EscapesStrings) {id : Identity} {call : Call}
    (h : SmallCall call) {data : List Char}
    (hsent : ceellMsgSendPriData lib id call = some data) :
    RequestIntact lib call data ↔
      jsonEscape.Kept 31 call.args.service ∧ jsonEscape.Kept 127 call.args.payload := by
  obtain ⟨req, hreq, hsvc, hpayload, _⟩ := msgDispatch_req id hlib h.service h.payload
  rw [← ceellMsgSendPriData_eq id hlib h.service h.payload hsent] at hreq
  rw [← take_cstr_escape_iff h.service h.length_service,
    ← take_cstr_escape_iff h.payload h.length_payload]
  constructor
  · intro hintact
    obtain ⟨req', hreq', hsvc', hpayload'⟩ := hintact ⟨0, 0⟩
    obtain rfl : req = req' := Dispatch.request.inj (hreq.symm.trans hreq')
    rw [str_toSvc_dispatchItem _ hsvc] at hsvc'
    rw [str_payload_dispatchItem _ hpayload] at hpayload'
    exact ⟨hsvc', hpayload'⟩
  · intro hkept src
    refine ⟨req, hreq, ?_, ?_⟩
    · rw [str_toSvc_dispatchItem _ hsvc]
      exact hkept.1
    · rw [str_payload_dispatchItem _ hpayload]
      exact hkept.2

theorem replyIntact_iff {lib : JsonLib} (hlib : lib.EscapesStrings) {id : Identity} {a : RspArgs}
    (h : SmallReply a) {p : Packet} (hsent : sendResponse lib (some id) a = some p) :
    ReplyIntact lib a p.data ↔ jsonEscape.Kept 127 a.payload := by
  have hpayload := payload_parse_rsp id hlib h
  rw [← sendResponse_escaped id hlib h hsent] at hpayload
  have hstored : ∀ slot : CeellMsg,
      (storeRsp slot a.priority (MsgRsp.ofJson (lib.parse msgRspDescr p.data))).payload.str =
        (cstr (jsonEscape.str a.payload)).take 127 := by
    intro slot
    rw [str_storeRsp, rspPayload, hpayload]
  rw [← take_cstr_escape_iff h.payload h.length_payload]
  constructor
  · intro hintact
    rw [← hstored .zero]
    exact hintact .zero
  · intro hkept slot
    rw [hstored slot]
    exact hkept

/-- **The strings of a message arrive where their escapes are cut off.**
A request's service and payload, and a reply, are at the other end what
they were exactly if each is kept by the cut to its array: nothing in it
is escaped, or it fills the array and is nothing but backslashes from the
first character on that is. -/
theorem strings_intact_iff (lib : JsonLib) (hlib : lib.EscapesStrings) (id : Identity) :
    (∀ call data, SmallCall call → ceellMsgSendPriData lib id call = some data →
      (RequestIntact lib call data ↔
        jsonEscape.Kept 31 call.args.service ∧ jsonEscape.Kept 127 call.args.payload)) ∧
    (∀ a p, SmallReply a → sendResponse lib (some id) a = some p →
      (ReplyIntact lib a p.data ↔ jsonEscape.Kept 127 a.payload)) :=
  ⟨fun _ _ h hsent => requestIntact_iff hlib h hsent,
    fun _ _ h hsent => replyIntact_iff hlib h hsent⟩

/-- A call to `lights` with this payload. -/
def lightsCall (payload : List Char) : Call :=
  ⟨⟨"lights".toList, payload, 1, 0, 5⟩, .normal, 1⟩

/-- A payload without special characters arrives, and one in quotes does
not; so with replies. -/
theorem strings_intact_iff_lights :
    (∃ data, ceellMsgSendPriData jsonEscapeReference ⟨7⟩ (lightsCall "on".toList) = some data ∧
      RequestIntact jsonEscapeReference (lightsCall "on".toList) data) ∧
    ∃ p, sendResponse jsonEscapeReference (some ⟨7⟩)
        ⟨⟨1, 2⟩, 1, 0, "\"ok\"".toList, .normal⟩ = some p ∧
      ¬ ReplyIntact jsonEscapeReference ⟨⟨1, 2⟩, 1, 0, "\"ok\"".toList, .normal⟩ p.data := by
  obtain ⟨hcalls, hreplies⟩ :=
    strings_intact_iff jsonEscapeReference jsonEscapeReference_escapesStrings ⟨7⟩
  constructor
  · obtain ⟨data, hdata⟩ : ∃ data,
        ceellMsgSendPriData jsonEscapeReference ⟨7⟩ (lightsCall "on".toList) = some data :=
      Option.isSome_iff_exists.mp (by decide +kernel)
    refine ⟨data, hdata, (hcalls _ data ⟨?_, ?_, ?_, ?_⟩ hdata).mpr ⟨Or.inl ?_, Or.inl ?_⟩⟩
    all_goals decide
  · obtain ⟨p, hp⟩ : ∃ p, sendResponse jsonEscapeReference (some ⟨7⟩)
        ⟨⟨1, 2⟩, 1, 0, "\"ok\"".toList, .normal⟩ = some p :=
      Option.isSome_iff_exists.mp (by decide +kernel)
    refine ⟨p, hp, ?_⟩
    rw [hreplies _ p ⟨by decide, by decide, by decide, by decide⟩ hp]
    rintro (hclear | ⟨hlen, _⟩)
    · exact absurd (hclear '"' (by decide)) (by decide)
    · exact absurd hlen (by decide)

/-- What is sent for the payload `"on"`, quotes and all. -/
def quotedData : List Char :=
  "\x7b\"type\":\"req\",\"seq\":1,\"from_id\":7,\"to_svc\":\"lights\",".toList ++
  "\"payload\":\"\\\"on\\\"\",\"priority\":1,\"deadline_ms\":0,\"send_time_ms\":5\x7d".toList

/-- It arrives with a backslash before each quote. -/
theorem quotedPayload_escaped :
    SmallCall (lightsCall "\"on\"".toList) ∧
    ceellMsgSendPriData jsonEscapeReference ⟨7⟩ (lightsCall "\"on\"".toList) = some quotedData ∧
    ¬ RequestIntact jsonEscapeReference (lightsCall "\"on\"".toList) quotedData := by
  refine ⟨⟨by decide, by decide, by decide, by decide⟩, by decide +kernel, ?_⟩
  intro h
  obtain ⟨req, hreq, _, hpayload⟩ := h ⟨1, 2⟩
  have harrived : (match msgDispatch jsonEscapeReference quotedData with
      | .request req => (dispatchItem req ⟨1, 2⟩).payload.str
      | _ => []) = "\\\"on\\\"".toList := by decide +kernel
  rw [hreq] at harrived
  have hsame : "\"on\"".toList = "\\\"on\\\"".toList := hpayload.symm.trans harrived
  exact absurd hsame (by decide)

end Ceell.Network
