/-
Ceell.Network.Messaging — the functions of `ceell/network/messaging.c`
that need no other thread: the wire messages and their descriptors, what
`send_response` encodes, how the dispatcher decodes a datagram and builds
a dispatch item, and what a handler thread does with one.

The threads themselves are in the modules that import this one. Each
looks at one part of the pipeline: `ResponsePath` at the two parses of the
dispatcher, `Server` at the queues, `SendBuffer` at the static buffer of
`send_response`, `Client` at the response slots of `ceell_msg_send_pri`.
-/
import Ceell.Core.ServiceRegistry
import Ceell.Network.Message
import Ceell.Osal.Json

namespace Ceell.Network

open Ceell.Lib Ceell.Core Ceell.Osal

/-- `MSG_BUF_SIZE` -/
def msgBufSize : Nat := 512

/-! ## The wire messages -/

/-- `struct msg_req_json`, a string absent from the datagram being NULL. -/
structure MsgReq where
  type : Option (List Char)
  seq : Int
  fromId : Int
  toSvc : Option (List Char)
  payload : Option (List Char)
  priority : Int
  deadlineMs : Int
  sendTimeMs : Int

/-- `struct msg_rsp_json`. -/
structure MsgRsp where
  type : Option (List Char)
  seq : Int
  fromId : Int
  status : Int
  payload : Option (List Char)
  priority : Int

/-- `msg_req_descr`. -/
def msgReqDescr : List JsonObjDescr :=
  [⟨"type".toList, .string⟩, ⟨"seq".toList, .number⟩, ⟨"from_id".toList, .number⟩,
   ⟨"to_svc".toList, .string⟩, ⟨"payload".toList, .string⟩, ⟨"priority".toList, .number⟩,
   ⟨"deadline_ms".toList, .number⟩, ⟨"send_time_ms".toList, .number⟩]

/-- `msg_rsp_descr`. -/
def msgRspDescr : List JsonObjDescr :=
  [⟨"type".toList, .string⟩, ⟨"seq".toList, .number⟩, ⟨"from_id".toList, .number⟩,
   ⟨"status".toList, .number⟩, ⟨"payload".toList, .string⟩, ⟨"priority".toList, .number⟩]

/-- The request a parse stored. -/
def MsgReq.ofJson (r : JsonParsed) : MsgReq :=
  { type := r.str "type"
    seq := r.num "seq"
    fromId := r.num "from_id"
    toSvc := r.str "to_svc"
    payload := r.str "payload"
    priority := r.num "priority"
    deadlineMs := r.num "deadline_ms"
    sendTimeMs := r.num64 "send_time_ms" }

/-- The response a parse stored. -/
def MsgRsp.ofJson (r : JsonParsed) : MsgRsp :=
  { type := r.str "type"
    seq := r.num "seq"
    fromId := r.num "from_id"
    status := r.num "status"
    payload := r.str "payload"
    priority := r.num "priority" }

/-! ## send_response -/

/-- The arguments of `send_response`. Every caller passes a string. -/
structure RspArgs where
  dest : SockAddr
  seq : Int
  status : Int
  payload : List Char
  priority : MsgPriority
  deriving DecidableEq

/-- A datagram on its way. -/
structure Packet where
  dest : SockAddr
  data : List Char
  deriving DecidableEq

/-- The object `send_response` encodes. -/
def rspFields (id : Identity) (a : RspArgs) : List JsonField :=
  [("type".toList, .str "rsp".toList), ("seq".toList, .num a.seq),
   ("from_id".toList, .num (ofUInt32 id.nodeId)), ("status".toList, .num a.status),
   ("payload".toList, .str a.payload), ("priority".toList, .num a.priority.toInt)]

/-- `send_response`, when no other thread is in it: the datagram sent. -/
def sendResponse (lib : JsonLib) (id : Option Identity) (a : RspArgs) : Option Packet :=
  match id with
  | none => none
  | some id =>
      let r := lib.encodeBuf (rspFields id a) msgBufSize
      if r.1 = 0 then some ⟨a.dest, cstr r.2⟩ else none

/-! ## The dispatcher -/

/-- What the dispatcher takes a datagram for. -/
inductive Dispatch where
  | request (req : MsgReq)
  | response (rsp : MsgRsp)
  | ignored

/-- `strcmp(s, t) == 0` for a pointer that may be NULL. -/
def strIs (s : Option (List Char)) (t : String) : Bool := s.any fun s => cstr s == t.toList

/-- The two parses of `msg_dispatcher_fn`, the second on the buffer the
first one leaves. -/
def msgDispatch (lib : JsonLib) (buf : List Char) : Dispatch :=
  let r := lib.parse msgReqDescr buf
  let req := MsgReq.ofJson r
  if 0 ≤ r.ret ∧ strIs req.type "req" then .request req
  else
    let r' := lib.parse msgRspDescr r.buf
    let rsp := MsgRsp.ofJson r'
    if 0 ≤ r'.ret ∧ strIs rsp.type "rsp" then .response rsp
    else .ignored

/-- `struct msg_dispatch_item`. -/
structure MsgDispatchItem where
  payload : CharBuf 128
  toSvc : CharBuf 32
  seq : Int
  fromId : Int
  priority : MsgPriority
  deadlineMs : Int
  sendTimeMs : Int
  srcAddr : SockAddr

/-- The item the dispatcher builds for a request. -/
def dispatchItem (req : MsgReq) (src : SockAddr) : MsgDispatchItem :=
  { payload := (CharBuf.zero 128).copyOpt req.payload
    toSvc := (CharBuf.zero 32).copyOpt req.toSvc
    seq := req.seq
    fromId := req.fromId
    priority := msgPriorityOf req.priority
    deadlineMs := req.deadlineMs
    sendTimeMs := req.sendTimeMs
    srcAddr := src }

/-- The refusal of a request whose queue is full. -/
def queueFull (req : MsgReq) (src : SockAddr) : RspArgs :=
  ⟨src, req.seq, -ENOMEM, "queue full".toList, msgPriorityOf req.priority⟩

/-! ## The handler threads -/

/-- What a handler returns, `rsp_payload` being terminated. -/
structure HandlerReply where
  status : Int
  payload : CharBuf 128
  terminated : payload.Terminated

/-- The reply of a handler that writes no payload. -/
def HandlerReply.empty (status : Int) : HandlerReply := ⟨status, .zero 128, CharBuf.terminated_zero⟩

/-- What a handler thread meets while it serves an item: the uptime, the
registry, and what each handler answers to a payload. -/
structure World (ν : Type) where
  now : Int
  registry : Registry ν
  answer : ν → List Char → HandlerReply

variable {ν : Type}

/-- The deadline check of `handler_thread_fn`. -/
def deadlinePassed (now : Int) (item : MsgDispatchItem) : Bool :=
  if item.deadlineMs > 0 then
    ceellMsgDeadlineExpired now (some { CeellMsg.zero with
      deadlineMs := toUInt16 item.deadlineMs
      sendTimeMs := item.sendTimeMs })
  else false

/-- What `handler_thread_fn` does with an item: the arguments of its one
`send_response`. -/
def handlerThreadFn (w : World ν) (pri : MsgPriority) (item : MsgDispatchItem) : RspArgs :=
  if deadlinePassed w.now item then
    ⟨item.srcAddr, item.seq, -ETIMEDOUT, "deadline expired".toList, pri⟩
  else
    match ceellServiceGetHandler w.registry item.toSvc.str with
    | none => ⟨item.srcAddr, item.seq, -ENOENT, "unknown service".toList, pri⟩
    | some handler =>
        let r := w.answer handler item.payload.str
        ⟨item.srcAddr, item.seq, r.status, r.payload.str, pri⟩

/-- Whatever the outcome, the answer goes to the sender of the request,
under its sequence number and the thread's priority. -/
theorem handlerThreadFn_addressed (w : World ν) (pri : MsgPriority) (item : MsgDispatchItem) :
    (handlerThreadFn w pri item).dest = item.srcAddr ∧
    (handlerThreadFn w pri item).seq = item.seq ∧
    (handlerThreadFn w pri item).priority = pri := by
  unfold handlerThreadFn
  split
  · exact ⟨rfl, rfl, rfl⟩
  · split <;> exact ⟨rfl, rfl, rfl⟩

/-- A string of at most 127 bytes fits an item's payload. -/
theorem str_payload_dispatchItem {req : MsgReq} {payload : List Char} (src : SockAddr)
    (hreq : req.payload = some payload) :
    (dispatchItem req src).payload.str = (cstr payload).take 127 := by
  simp only [dispatchItem, hreq, CharBuf.copyOpt]
  exact CharBuf.str_copy_zero payload

theorem str_toSvc_dispatchItem {req : MsgReq} {toSvc : List Char} (src : SockAddr)
    (hreq : req.toSvc = some toSvc) : (dispatchItem req src).toSvc.str = (cstr toSvc).take 31 := by
  simp only [dispatchItem, hreq, CharBuf.copyOpt]
  exact CharBuf.str_copy_zero toSvc

end Ceell.Network
