/-
Ceell.Network.Deadline — deadlines between two nodes.

The sender stamps a request with its own uptime, the receiver compares the
stamp with its own, and the two count from different boots. The stamp is
an `int64_t` that travels as a JSON number of 32 bits; what arrives of it
is the parameter `wire`.

`Rejected` and `Reaches` say what becomes of a request by the reply of the
handler thread. `rejected_iff_elapsed` turns the receiver's test into global
time: the deadline is off by the `skew` of the two clocks and of the stamp.
`deadline_iff` is the exact condition under which that makes no difference.
-/
import Ceell.Network.Client

namespace Ceell.Network

open Ceell.Lib Ceell.Core

/-! ## The request of a call -/

/-- The request `ceell_msg_send_pri` encodes, as the receiver decodes it. -/
def sentReq (wire : Int → Int) (me : Identity) (call : Call) : MsgReq :=
  { type := some "req".toList
    seq := ofUInt32 call.seq
    fromId := ofUInt32 me.nodeId
    toSvc := some call.args.service
    payload := some call.args.payload
    priority := call.pri.toInt
    deadlineMs := call.args.deadlineMs.toNat
    sendTimeMs := wire call.args.sendTime }

/-- What a 32-bit number makes of a non-negative stamp: `JSON_TOK_NUMBER`
prints and stores an `int32_t`, the low half of the `int64_t` field, whose
high half stays 0. -/
def Wire32 (wire : Int → Int) : Prop := ∀ t, 0 ≤ t → wire t = t % 2 ^ 32

variable {ν : Type}

/-! ## What the thread answers -/

/-- The reply to an item whose deadline has passed. -/
def expiredReply (p : MsgPriority) (item : MsgDispatchItem) : RspArgs :=
  ⟨item.srcAddr, item.seq, -ETIMEDOUT, "deadline expired".toList, p⟩

/-- The reply that the lookup of the service leads to. -/
def lookupReply (w : World ν) (p : MsgPriority) (item : MsgDispatchItem) : Option ν → RspArgs
  | none => ⟨item.srcAddr, item.seq, -ENOENT, "unknown service".toList, p⟩
  | some f =>
      ⟨item.srcAddr, item.seq, (w.answer f item.payload.str).status,
        (w.answer f item.payload.str).payload.str, p⟩

theorem handlerThreadFn_eq (w : World ν) (p : MsgPriority) (item : MsgDispatchItem) :
    handlerThreadFn w p item =
      if deadlinePassed w.now item then expiredReply p item
      else lookupReply w p item (ceellServiceGetHandler w.registry item.toSvc.str) := by
  unfold handlerThreadFn
  split
  · rfl
  · cases ceellServiceGetHandler w.registry item.toSvc.str <;> rfl

/-- The item is rejected for its deadline: the thread answers it so,
whatever the handlers do. -/
def Rejected (w : World ν) (p : MsgPriority) (item : MsgDispatchItem) : Prop :=
  ∀ answer, handlerThreadFn { w with answer := answer } p item = expiredReply p item

/-- The item reaches the handler: the thread answers it with what that
returns, whatever it is. -/
def Reaches (w : World ν) (p : MsgPriority) (item : MsgDispatchItem) (f : ν) : Prop :=
  ∀ answer, handlerThreadFn { w with answer := answer } p item =
    lookupReply { w with answer := answer } p item (some f)

theorem rejected_iff {w : World ν} {p : MsgPriority} {item : MsgDispatchItem} :
    Rejected w p item ↔ deadlinePassed w.now item = true := by
  constructor
  · intro h
    -- a handler that returns 0 does not answer so, and no lookup does
    have hreply := congrArg RspArgs.status (h fun _ _ => .empty 0)
    rw [handlerThreadFn_eq] at hreply
    split at hreply
    · assumption
    · cases hf : ceellServiceGetHandler w.registry item.toSvc.str with
      | none => simp [hf, lookupReply, expiredReply, ENOENT, ETIMEDOUT] at hreply
      | some f => simp [hf, lookupReply, expiredReply, HandlerReply.empty, ETIMEDOUT] at hreply
  · intro h answer
    rw [handlerThreadFn_eq, if_pos h]

theorem reaches_iff {w : World ν} {p : MsgPriority} {item : MsgDispatchItem} {f : ν} :
    Reaches w p item f ↔ deadlinePassed w.now item = false ∧
      ceellServiceGetHandler w.registry item.toSvc.str = some f := by
  constructor
  · intro h
    cases hpast : deadlinePassed w.now item with
    | true =>
      have hreply := congrArg RspArgs.status (h fun _ _ => .empty 0)
      simp [handlerThreadFn_eq, hpast, lookupReply, expiredReply, HandlerReply.empty, ETIMEDOUT]
        at hreply
    | false =>
      refine ⟨rfl, ?_⟩
      -- handlers that return different values are told apart
      classical
      have hreply := congrArg RspArgs.status (h fun g _ => .empty (if g = f then 0 else 1))
      cases hg : ceellServiceGetHandler w.registry item.toSvc.str with
      | none =>
        simp [handlerThreadFn_eq, hpast, hg, lookupReply, HandlerReply.empty, ENOENT] at hreply
      | some g =>
        by_cases hgf : g = f
        · rw [hgf]
        · simp [handlerThreadFn_eq, hpast, hg, hgf, lookupReply, HandlerReply.empty] at hreply
  · rintro ⟨hpast, hf⟩ answer
    rw [handlerThreadFn_eq, if_neg (by simp [hpast]), hf]

/-- An item for a registered service is rejected or reaches its handler. -/
theorem reaches_iff_not_rejected {w : World ν} {p : MsgPriority} {item : MsgDispatchItem} {f : ν}
    (hf : ceellServiceGetHandler w.registry item.toSvc.str = some f) :
    Reaches w p item f ↔ ¬ Rejected w p item := by
  rw [reaches_iff, rejected_iff, Bool.not_eq_true, and_iff_left hf]

/-! ## The two clocks -/

/-- A request sent at global time `sentAt` by a node booted at `boot₁`, and
taken at `takenAt` by a node booted at `boot₂`. -/
structure Passage where
  boot₁ : Int
  boot₂ : Int
  sentAt : Int
  takenAt : Int
  booted₁ : boot₁ ≤ sentAt
  booted₂ : boot₂ ≤ takenAt
  inOrder : sentAt ≤ takenAt

namespace Passage

/-- The time on the way, as an outside observer has it. -/
def elapsed (t : Passage) : Int := t.takenAt - t.sentAt

/-- By how much the receiver takes the deadline to lie later than it
does: the receiver's boot is later, and the stamp has lost its high half. -/
def skew (t : Passage) : Int := (t.boot₂ - t.boot₁) - 2 ^ 32 * ((t.sentAt - t.boot₁) / 2 ^ 32)

end Passage

/-- The receiver's test on the stamp and the deadline that arrive. -/
theorem rejected_iff_received {req : MsgReq} {d : UInt16} (hd : d ≠ 0)
    (hreq : req.deadlineMs = d.toNat) {src : SockAddr} {w : World ν} {p : MsgPriority} :
    Rejected w p (dispatchItem req src) ↔ req.sendTimeMs + d.toNat ≤ w.now := by
  have hpos : 0 < d.toNat := Nat.pos_of_ne_zero fun h => hd (UInt16.toNat_inj.mp h)
  simp [rejected_iff, deadlinePassed, dispatchItem, hreq, ceellMsgDeadlineExpired, hpos, hd]

/-- The receiver's test on the stamp of a call. -/
theorem rejected_iff_stamp {wire : Int → Int} {me : Identity} {src : SockAddr} {call : Call}
    (hd : call.args.deadlineMs ≠ 0) {w : World ν} {p : MsgPriority} :
    Rejected w p (dispatchItem (sentReq wire me call) src) ↔
      wire call.args.sendTime + call.args.deadlineMs.toNat ≤ w.now :=
  rejected_iff_received hd rfl

/-- The receiver's test in global time. -/
theorem rejected_iff_elapsed {wire : Int → Int} (hwire : Wire32 wire) {me : Identity}
    {src : SockAddr} (t : Passage) {call : Call} (hd : call.args.deadlineMs ≠ 0)
    (hstamp : call.args.sendTime = t.sentAt - t.boot₁) {w : World ν}
    (hnow : w.now = t.takenAt - t.boot₂) {p : MsgPriority} :
    Rejected w p (dispatchItem (sentReq wire me call) src) ↔
      (call.args.deadlineMs.toNat : Int) + t.skew ≤ t.elapsed := by
  have hboot := t.booted₁
  rw [rejected_iff_stamp hd, hstamp, hnow, hwire _ (by omega)]
  unfold Passage.skew Passage.elapsed
  omega

/-- A request is rejected exactly from its deadline on, and reaches its
handler exactly before. -/
def DeadlineKept (w : World ν) (p : MsgPriority) (item : MsgDispatchItem) (elapsed d : Int) :
    Prop :=
  (Rejected w p item ↔ d ≤ elapsed) ∧
  ∀ f, ceellServiceGetHandler w.registry item.toSvc.str = some f →
    (Reaches w p item f ↔ elapsed < d)

/-- **Deadlines between two nodes**, whatever their boot times: a request
is rejected exactly from its deadline on, and reaches its handler exactly
before, if and only if the time it has taken does not lie between its
deadline and that deadline shifted by the skew. -/
theorem deadline_iff (wire : Int → Int) (hwire : Wire32 wire) (me : Identity) (src : SockAddr)
    (t : Passage) (call : Call) (hd : call.args.deadlineMs ≠ 0)
    (hstamp : call.args.sendTime = t.sentAt - t.boot₁) (w : World ν)
    (hnow : w.now = t.takenAt - t.boot₂) (p : MsgPriority) :
    DeadlineKept w p (dispatchItem (sentReq wire me call) src) t.elapsed
        call.args.deadlineMs.toNat ↔
      ¬ (min (call.args.deadlineMs.toNat : Int) (call.args.deadlineMs.toNat + t.skew) ≤ t.elapsed ∧
        t.elapsed <
          max (call.args.deadlineMs.toNat : Int) (call.args.deadlineMs.toNat + t.skew)) := by
  have hrej : Rejected w p (dispatchItem (sentReq wire me call) src) ↔
      (call.args.deadlineMs.toNat : Int) + t.skew ≤ t.elapsed :=
    rejected_iff_elapsed hwire t hd hstamp hnow
  have hagree : (Rejected w p (dispatchItem (sentReq wire me call) src) ↔
      (call.args.deadlineMs.toNat : Int) ≤ t.elapsed) ↔
      ¬ (min (call.args.deadlineMs.toNat : Int) (call.args.deadlineMs.toNat + t.skew) ≤ t.elapsed ∧
        t.elapsed < max (call.args.deadlineMs.toNat : Int)
          (call.args.deadlineMs.toNat + t.skew)) := by
    rw [hrej]
    omega
  rw [← hagree]
  refine ⟨And.left, fun h => ⟨h, fun f hf => ?_⟩⟩
  rw [reaches_iff_not_rejected hf, h]
  omega

/-- A call with a deadline of 50 ms, stamped 5000. -/
def sampleCall : Call := ⟨⟨['e'], ['x'], 1, 50, 5000⟩, .normal, 1⟩

/-- The item the receiver builds for it. -/
def sampleItem : MsgDispatchItem := dispatchItem (sentReq (· % 2 ^ 32) ⟨7⟩ sampleCall) ⟨1, 2⟩

/-- A world with the service `e`, at uptime `now`. -/
def echoWorld (now : Int) : World Unit :=
  ⟨now, [⟨(CharBuf.zero 32).copy ['e'], some (), 1, 0⟩], fun _ _ => .empty 0⟩

/-- The receiver has booted one second after the sender. -/
def laterBoot : Passage := ⟨0, 1000, 5000, 5100, by decide, by decide, by decide⟩

/-- After 100 ms, twice its deadline, the request still reaches its
handler. -/
theorem laterBoot_not_kept :
    Reaches (echoWorld (laterBoot.takenAt - laterBoot.boot₂)) .normal sampleItem () ∧
    ¬ DeadlineKept (echoWorld (laterBoot.takenAt - laterBoot.boot₂)) .normal sampleItem
        laterBoot.elapsed 50 := by
  have hcalled : Reaches (echoWorld (laterBoot.takenAt - laterBoot.boot₂)) .normal sampleItem () :=
    reaches_iff.mpr (by decide)
  refine ⟨hcalled, ?_⟩
  intro h
  have hlt : laterBoot.elapsed < 50 := (h.2 () (by decide)).mp hcalled
  revert hlt
  decide

/-- Between nodes booted together it is rejected. -/
theorem deadline_iff_sample :
    DeadlineKept (echoWorld 5100) .normal sampleItem 100 50 ∧
      Rejected (echoWorld 5100) .normal sampleItem := by
  have h := deadline_iff (· % 2 ^ 32) (fun _ _ => rfl) ⟨7⟩ ⟨1, 2⟩
    ⟨0, 0, 5000, 5100, by decide, by decide, by decide⟩ sampleCall (by decide) (by decide)
    (echoWorld 5100) (by decide) .normal
  have hkept : DeadlineKept (echoWorld 5100) .normal sampleItem 100 50 := h.mpr (by decide)
  exact ⟨hkept, hkept.1.mpr (by decide)⟩

end Ceell.Network
