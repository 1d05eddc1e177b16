/-
Ceell.Network.ResponsePath — what becomes of a response datagram in the
dispatcher of the node that receives it.

The dispatcher parses every datagram in place as a request first. On a
response that parse succeeds: it stores `type`, and puts a NUL over the
closing quote of its value. The second parse, as a response, then starts
with a string literal that a NUL ends (`spoiled_rsp`), and fails. So no
response is ever handed to `handle_response`.
-/
import Ceell.Network.Messaging
import Ceell.Osal.JsonReference

namespace Ceell.Network

open Ceell.Lib Ceell.Core Ceell.Osal

/-! ## The response object -/

/-- The arguments are those of a C call with a payload that needs no
escape. -/
structure PlainRsp (a : RspArgs) : Prop where
  seq : IsInt32 a.seq
  status : IsInt32 a.status
  payload : Plain a.payload

/-- Every field of the response object is one of the descriptors'. -/
theorem descr_of_mem_rspFields {id : Identity} {a : RspArgs} {f : JsonField}
    (hf : f ∈ rspFields id a) : (⟨f.1, f.2.tok⟩ : JsonObjDescr) ∈ msgRspDescr := mem_descrOf hf

theorem rspFields_ne_nil (id : Identity) (a : RspArgs) : rspFields id a ≠ [] :=
  List.cons_ne_nil _ _

/-- A field of the response object has a plain key and holds the type, the
payload or an `int`. -/
theorem rspFields_cases (id : Identity) {a : RspArgs} (hseq : IsInt32 a.seq)
    (hstatus : IsInt32 a.status) {f : JsonField} (hf : f ∈ rspFields id a) :
    Plain f.1 ∧ (f.2 = .str "rsp".toList ∨ f.2 = .str a.payload ∨
      ∃ n, f.2 = .num n ∧ IsInt32 n) := by
  have hkeys : ∀ d ∈ msgRspDescr, Plain d.fieldName := by decide
  refine ⟨hkeys _ (descr_of_mem_rspFields hf), ?_⟩
  simp only [rspFields, List.mem_cons, List.not_mem_nil, or_false] at hf
  rcases hf with rfl | rfl | rfl | rfl | rfl | rfl
  · exact Or.inl rfl
  · exact Or.inr (Or.inr ⟨_, rfl, hseq⟩)
  · exact Or.inr (Or.inr ⟨_, rfl, isInt32_ofUInt32 _⟩)
  · exact Or.inr (Or.inr ⟨_, rfl, hstatus⟩)
  · exact Or.inr (Or.inl rfl)
  · exact Or.inr (Or.inr ⟨_, rfl, a.priority.isInt32_toInt⟩)

theorem plain_rspFields (id : Identity) {a : RspArgs} (h : PlainRsp a) :
    ∀ f ∈ rspFields id a, PlainField f := by
  intro f hf
  obtain ⟨hkey, hval⟩ := rspFields_cases id h.seq h.status hf
  refine ⟨hkey, ?_⟩
  rcases hval with htype | hpayload | ⟨n, hnum, hint⟩
  · rw [htype]
    show Plain "rsp".toList
    decide
  · rw [hpayload]
    exact h.payload
  · rw [hnum]
    exact hint

theorem nodup_rspFields (id : Identity) (a : RspArgs) :
    ((rspFields id a).map Prod.fst).Nodup := by
  show (msgRspDescr.map (·.fieldName)).Nodup
  decide

/-- The keys of a response that a request has too name fields of the same
kind. -/
theorem matches_rspFields (id : Identity) (a : RspArgs) : Matches msgReqDescr (rspFields id a) := by
  have hshape : ∀ d ∈ msgReqDescr, ∀ g ∈ msgRspDescr, d.fieldName = g.fieldName →
      d.type = g.type := by decide
  intro f hf d hd hname
  exact hshape d hd _ (descr_of_mem_rspFields hf) hname

/-- The first parse leaves a string literal with a NUL in it. -/
theorem spoiled_rsp (id : Identity) (a : RspArgs) :
    ∃ rest, spoiledObj msgReqDescr (rspFields id a)
      = '{' :: '"' :: "type".toList ++ '"' :: ':' :: '"' :: "rsp".toList ++ nul :: rest :=
  ⟨_, rfl⟩

/-- What is sent is the text of a successful encoding. -/
theorem sendResponse_eq_some {lib : JsonLib} {id : Identity} {a : RspArgs} {p : Packet}
    (h : sendResponse lib (some id) a = some p) :
    (lib.encodeBuf (rspFields id a) msgBufSize).1 = 0 ∧
      p = ⟨a.dest, cstr (lib.encodeBuf (rspFields id a) msgBufSize).2⟩ := by
  unfold sendResponse at h
  dsimp only at h
  split at h
  · rename_i hret
    exact ⟨hret, (Option.some.inj h).symm⟩
  · cases h

/-- The datagram a plain response is sent as. -/
theorem sendResponse_data {lib : JsonLib} (hlib : lib.Documented) {id : Identity} {a : RspArgs}
    (ha : PlainRsp a) {p : Packet} (hsent : sendResponse lib (some id) a = some p) :
    p.dest = a.dest ∧ p.data = renderObj (rspFields id a) := by
  obtain ⟨hret, rfl⟩ := sendResponse_eq_some hsent
  have hplain := plain_rspFields id ha
  have htext := hlib.encode_plain (rspFields id a) msgBufSize (rspFields_ne_nil id a) hplain hret
  exact ⟨rfl, by rw [htext, cstr_eq_self (nul_notMem_renderObj hplain)]⟩

/-- The dispatcher ignores the text of a response. -/
theorem msgDispatch_rsp {lib : JsonLib} (hlib : lib.Documented) (id : Identity) {a : RspArgs}
    (ha : PlainRsp a) : msgDispatch lib (renderObj (rspFields id a)) = .ignored := by
  obtain ⟨_, hval, hbuf⟩ := hlib.parse_plain msgReqDescr (rspFields id a) (rspFields_ne_nil id a)
    (plain_rspFields id ha) (nodup_rspFields id a) (matches_rspFields id a)
  -- the first parse reads the type of a response
  have htype : strIs (MsgReq.ofJson (lib.parse msgReqDescr (renderObj (rspFields id a)))).type "req"
      = false := by
    have h := hval ⟨"type".toList, .string⟩ (by decide)
    have hlook : (rspFields id a).lookup "type".toList = some (.str "rsp".toList) := rfl
    have hstr : (lib.parse msgReqDescr (renderObj (rspFields id a))).str "type"
        = some "rsp".toList := JsonParsed.str_of_val (h.trans hlook)
    unfold MsgReq.ofJson
    dsimp only
    rw [hstr]
    decide
  -- the second one fails on what the first left
  have hfail : (lib.parse msgRspDescr
      (lib.parse msgReqDescr (renderObj (rspFields id a))).buf).ret < 0 := by
    obtain ⟨rest, hrest⟩ := spoiled_rsp id a
    rw [hbuf, hrest]
    exact hlib.parse_nul msgRspDescr "type".toList "rsp".toList rest (by decide) (by decide)
  unfold msgDispatch
  simp only [htype, Bool.false_eq_true, and_false, if_false]
  rw [if_neg]
  intro h
  omega

/-- The dispatcher hands `handle_response` the response it was sent. -/
def Delivered (lib : JsonLib) (a : RspArgs) (data : List Char) : Prop :=
  ∃ rsp, msgDispatch lib data = .response rsp ∧ rsp.seq = a.seq ∧ rsp.status = a.status ∧
    rsp.payload = some a.payload ∧ rsp.priority = a.priority.toInt

/-- **No response is delivered**: every datagram `send_response` emits is
ignored by the dispatcher that receives it. -/
theorem response_not_delivered (lib : JsonLib) (hlib : lib.Documented) (id : Identity)
    (a : RspArgs) (ha : PlainRsp a) (p : Packet) (hsent : sendResponse lib (some id) a = some p) :
    msgDispatch lib p.data = .ignored ∧ ¬ Delivered lib a p.data := by
  obtain ⟨_, hdata⟩ := sendResponse_data hlib ha hsent
  have hignored := msgDispatch_rsp hlib id ha
  rw [hdata]
  refine ⟨hignored, ?_⟩
  rintro ⟨rsp, h, _⟩
  rw [hignored] at h
  cases h

/-- The answer `hi` with status 0 to request 1. -/
def sampleRsp : RspArgs := ⟨⟨1, 2⟩, 1, 0, ['h', 'i'], .normal⟩

def sampleRspData : List Char :=
  "\x7b\"type\":\"rsp\",\"seq\":1,\"from_id\":7,\"status\":0,\"payload\":\"hi\",\"priority\":1\x7d"
    |>.toList

/-- It is sent, as the text one expects, and not delivered. -/
theorem sampleRsp_not_delivered :
    sendResponse jsonReference (some ⟨7⟩) sampleRsp = some ⟨⟨1, 2⟩, sampleRspData⟩ ∧
    ¬ Delivered jsonReference sampleRsp sampleRspData := by
  have hignored : msgDispatch jsonReference sampleRspData = .ignored := rfl
  refine ⟨by decide, ?_⟩
  rintro ⟨rsp, h, _⟩
  rw [hignored] at h
  cases h

theorem response_not_delivered_sample :
    ∃ p, sendResponse jsonReference (some ⟨7⟩) sampleRsp = some p ∧
      msgDispatch jsonReference p.data = .ignored := by
  obtain ⟨p, hp⟩ : ∃ p, sendResponse jsonReference (some ⟨7⟩) sampleRsp = some p :=
    Option.isSome_iff_exists.mp (by decide)
  exact ⟨p, hp, (response_not_delivered jsonReference jsonReference_documented ⟨7⟩ sampleRsp
    ⟨by decide, by decide, by decide⟩ p hp).1⟩

end Ceell.Network
