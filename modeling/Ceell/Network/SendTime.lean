/-
Ceell.Network.SendTime — the deadline of a request between two nodes whose
uptimes agree, through the descriptors of the wire.

`struct msg_req_json` keeps `send_time_ms` as an `int64_t`, and
`msg_req_descr` describes it as a `JSON_TOK_NUMBER`: the encoder prints
the low half of it as an `int`, the parser stores an `int` into the low
half of a zeroed struct. `wire32_int64Low` says what that leaves of a time,
and `droppedExpired_iff` for which requests it makes no difference.
-/
import Ceell.Network.Deadline
import Ceell.Network.Escapes

namespace Ceell.Network

open Ceell.Lib Ceell.Core Ceell.Osal

/-! ## A time on the wire -/

/-- The `int` at the address of an `int64_t` is its value cut to 32 bits. -/
theorem int64Low_eq (x : Int) : int64Low x = toInt32 x := by
  rw [int64Low, toInt32, BitVec.toInt_setWidth, BitVec.toNat_ofInt,
    Int.toNat_of_nonneg (Int.emod_nonneg _ (by decide)), ← Int.emod_bmod,
    Int.emod_emod_of_dvd x (by decide), Int.emod_bmod]

/-- The descriptors carry what `Wire32` says of the wire. -/
theorem wire32_int64Low : Wire32 fun t => int64OfLow (int64Low t) := by
  intro t ht
  have hlow : t.bmod (2 ^ 32) % ((2 ^ 32 : Nat) : Int) = t % (2 ^ 32 : Nat) := Int.bmod_emod
  show int64OfLow (int64Low t) = t % 2 ^ 32
  rw [int64Low_eq, toInt32, int64OfLow, BitVec.toInt_setWidth, BitVec.toNat_ofInt, hlow,
    Int.toNat_of_nonneg (Int.emod_nonneg _ (by decide)), Int.bmod_def]
  omega

/-! ## A request on the wire -/

/-- The dispatcher takes the datagram for a request, and the handler thread
of its priority answers that its deadline has passed. -/
def DroppedExpired {ν : Type} (lib : JsonLib) (w : World ν) (src : SockAddr) (data : List Char) :
    Prop :=
  ∃ req, msgDispatch lib data = .request req ∧
    Rejected w (msgPriorityOf req.priority) (dispatchItem req src)

/-- The test that the datagram of a call comes down to. -/
theorem droppedExpired_iff_stamp {ν : Type} {lib : JsonLib} (hlib : lib.EscapesStrings)
    {id : Identity} {call : Call} (hservice : nul ∉ call.args.service)
    (hpayload : nul ∉ call.args.payload) (hd : call.args.deadlineMs ≠ 0)
    (ht : 0 ≤ call.args.sendTime) {data : List Char}
    (hsent : ceellMsgSendPriData lib id call = some data) {w : World ν} {src : SockAddr} :
    DroppedExpired lib w src data ↔
      call.args.sendTime % 2 ^ 32 + call.args.deadlineMs.toNat ≤ w.now := by
  obtain ⟨req, hreq, _, _, hdeadline, hstamp⟩ := msgDispatch_req id hlib hservice hpayload
  rw [← ceellMsgSendPriData_eq id hlib hservice hpayload hsent] at hreq
  have hwire : req.sendTimeMs = call.args.sendTime % 2 ^ 32 := by
    rw [hstamp, ← int64Low_eq]
    exact wire32_int64Low _ ht
  have hrejected : Rejected w (msgPriorityOf req.priority) (dispatchItem req src) ↔
      req.sendTimeMs + call.args.deadlineMs.toNat ≤ w.now := rejected_iff_received hd hdeadline
  rw [← hwire, ← hrejected]
  constructor
  · rintro ⟨req', hreq', hrej⟩
    obtain rfl : req = req' := Dispatch.request.inj (hreq.symm.trans hreq')
    exact hrej
  · exact fun hrej => ⟨req, hreq, hrej⟩

/-- **The deadline of a request on the wire**: taken at an uptime not before
its own, a request is dropped exactly from its deadline on, if and only if
it was sent in the first 2 ^ 32 milliseconds or is past its deadline. -/
theorem droppedExpired_iff {ν : Type} (lib : JsonLib) (hlib : lib.EscapesStrings) (id : Identity)
    (call : Call) (hservice : nul ∉ call.args.service) (hpayload : nul ∉ call.args.payload)
    (hd : call.args.deadlineMs ≠ 0) (ht : 0 ≤ call.args.sendTime) (data : List Char)
    (hsent : ceellMsgSendPriData lib id call = some data) (src : SockAddr) (w : World ν)
    (hnow : call.args.sendTime ≤ w.now) :
    (DroppedExpired lib w src data ↔
        call.args.sendTime + call.args.deadlineMs.toNat ≤ w.now) ↔
      call.args.sendTime < 2 ^ 32 ∨
        call.args.sendTime + call.args.deadlineMs.toNat ≤ w.now := by
  have hlt := call.args.deadlineMs.toNat_lt
  rw [droppedExpired_iff_stamp hlib hservice hpayload hd ht hsent]
  omega

/-- A call with a deadline of 50 ms, sent at this uptime. -/
def timedCall (sendTime : Int) : Call :=
  ⟨⟨"lights".toList, "on".toList, 1, 50, sendTime⟩, .normal, 1⟩

/-- Sent after 2 ^ 32 ms and taken in the same millisecond, 50 ms before its
deadline, it is dropped. -/
theorem timedCall_dropped :
    ∃ data, ceellMsgSendPriData jsonEscapeReference ⟨7⟩ (timedCall (2 ^ 32)) = some data ∧
      DroppedExpired jsonEscapeReference (echoWorld (2 ^ 32)) ⟨1, 2⟩ data ∧
      ¬ (2 ^ 32 : Int) + 50 ≤ (echoWorld (2 ^ 32)).now := by
  obtain ⟨data, hdata⟩ : ∃ data,
      ceellMsgSendPriData jsonEscapeReference ⟨7⟩ (timedCall (2 ^ 32)) = some data :=
    Option.isSome_iff_exists.mp (by decide +kernel)
  refine ⟨data, hdata, ?_, by decide⟩
  exact (droppedExpired_iff_stamp jsonEscapeReference_escapesStrings (by decide) (by decide)
    (by decide) (by decide) hdata).mpr (by decide)

/-- Sent and taken in the first seconds, it is not. -/
theorem droppedExpired_iff_timedCall :
    ∃ data, ceellMsgSendPriData jsonEscapeReference ⟨7⟩ (timedCall 5000) = some data ∧
      ¬ DroppedExpired jsonEscapeReference (echoWorld 5049) ⟨1, 2⟩ data := by
  obtain ⟨data, hdata⟩ : ∃ data,
      ceellMsgSendPriData jsonEscapeReference ⟨7⟩ (timedCall 5000) = some data :=
    Option.isSome_iff_exists.mp (by decide +kernel)
  have hkept := droppedExpired_iff jsonEscapeReference jsonEscapeReference_escapesStrings ⟨7⟩
    (timedCall 5000) (by decide) (by decide) (by decide) (by decide) data hdata ⟨1, 2⟩
    (echoWorld 5049) (by decide)
  refine ⟨data, hdata, ?_⟩
  rw [hkept.mpr (Or.inl (by decide))]
  decide

end Ceell.Network
