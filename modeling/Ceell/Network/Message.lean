/-
Ceell.Network.Message — priorities (`msg_priority.h`), the response
message of `messaging.h`, and the two deadline functions of
`msg_deadline.c`, which `deadlineAgrees_iff` compares.
-/
import Ceell.Core.Types
import Ceell.Lib.CString

namespace Ceell.Network

open Ceell.Lib

/-! ## Priorities -/

/-- `enum ceell_msg_priority`. -/
inductive MsgPriority where
  | critical
  | normal
  | bulk
  deriving DecidableEq, Repr

namespace MsgPriority

/-- The value of the enumerator. -/
def toInt : MsgPriority → Int
  | critical => 0
  | normal => 1
  | bulk => 2

/-- Every priority, once. -/
def all : List MsgPriority := [critical, normal, bulk]

@[simp] theorem mem_all (p : MsgPriority) : p ∈ all := by
  cases p <;> decide

theorem isInt32_toInt (p : MsgPriority) : -2 ^ 31 ≤ p.toInt ∧ p.toInt < 2 ^ 31 := by
  cases p <;> decide

end MsgPriority

/-- `ceell_msg_priority_valid`. -/
def ceellMsgPriorityValid (pri : Int) : Bool := 0 ≤ pri ∧ pri < 3

/-- A decoded priority field, NORMAL when it is out of range. -/
def msgPriorityOf (pri : Int) : MsgPriority :=
  if ceellMsgPriorityValid pri then
    if pri = 0 then .critical else if pri = 1 then .normal else .bulk
  else .normal

/-! ## Messages -/

/-- `struct ceell_msg`. -/
structure CeellMsg where
  status : Int
  payload : CharBuf 128
  priority : MsgPriority
  deadlineMs : UInt16
  sendTimeMs : Int
  deriving DecidableEq

/-- `memset(m, 0, sizeof(*m))`. -/
def CeellMsg.zero : CeellMsg := ⟨0, .zero 128, .critical, 0, 0⟩

/-- `struct sockaddr_in`, as far as it tells one sender from another. -/
structure SockAddr where
  addr : UInt32
  port : UInt16
  deriving DecidableEq

/-! ## Deadlines -/

/-- `ceell_msg_deadline_expired` at uptime `now`. -/
def ceellMsgDeadlineExpired (now : Int) (msg : Option CeellMsg) : Bool :=
  match msg with
  | none => false
  | some m =>
      if m.deadlineMs = 0 then false
      else now ≥ m.sendTimeMs + m.deadlineMs.toNat

/-- `ceell_msg_deadline_remaining` at uptime `now`. -/
def ceellMsgDeadlineRemaining (now : Int) (msg : Option CeellMsg) : Int :=
  match msg with
  | none => 0
  | some m =>
      if m.deadlineMs = 0 then 0
      else
        let remaining := m.sendTimeMs + m.deadlineMs.toNat - now
        if remaining > 2 ^ 31 - 1 then 2 ^ 31 - 1
        else if remaining < -2 ^ 31 then -2 ^ 31
        else toInt32 remaining

/-- The two functions agree on a message at uptime `now`: it has expired
exactly if the remaining time is negative, and that is the exact time up to
the bounds of an `int`, and not 0, which stands for no deadline. -/
def DeadlineAgrees (now : Int) (m : CeellMsg) : Prop :=
  (ceellMsgDeadlineExpired now (some m) = true ↔ ceellMsgDeadlineRemaining now (some m) < 0) ∧
  ceellMsgDeadlineRemaining now (some m) ≠ 0 ∧
  ceellMsgDeadlineRemaining now (some m) =
    max (-2 ^ 31) (min (m.sendTimeMs + m.deadlineMs.toNat - now) (2 ^ 31 - 1))

section Deadlines

variable {now : Int} {m : CeellMsg}

theorem expired_iff (hm : m.deadlineMs ≠ 0) :
    ceellMsgDeadlineExpired now (some m) = true ↔ m.sendTimeMs + m.deadlineMs.toNat ≤ now := by
  simp [ceellMsgDeadlineExpired, hm]

/-- The cast keeps the value between the two bounds. -/
theorem remaining_eq (hm : m.deadlineMs ≠ 0) :
    ceellMsgDeadlineRemaining now (some m) =
      max (-2 ^ 31) (min (m.sendTimeMs + m.deadlineMs.toNat - now) (2 ^ 31 - 1)) := by
  simp only [ceellMsgDeadlineRemaining, if_neg hm]
  generalize m.sendTimeMs + m.deadlineMs.toNat - now = remaining
  by_cases hhigh : remaining > 2 ^ 31 - 1
  · rw [if_pos hhigh]
    omega
  · rw [if_neg hhigh]
    by_cases hlow : remaining < -2 ^ 31
    · rw [if_pos hlow]
      omega
    · rw [if_neg hlow, toInt32, Int.bmod_eq_of_le (by omega) (by omega)]
      omega

end Deadlines

/-- **They agree at every instant but the deadline itself**, at which the
message has expired with 0 ms remaining. -/
theorem deadlineAgrees_iff (now : Int) (m : CeellMsg) (hm : m.deadlineMs ≠ 0) :
    DeadlineAgrees now m ↔ now ≠ m.sendTimeMs + m.deadlineMs.toNat := by
  rw [DeadlineAgrees, expired_iff hm, remaining_eq hm]
  generalize m.sendTimeMs + m.deadlineMs.toNat = deadline
  constructor
  · rintro ⟨_, hne, _⟩ rfl
    omega
  · intro hnow
    refine ⟨?_, ?_, rfl⟩
    · omega
    · omega

/-- One millisecond before a deadline of 5 ms. -/
theorem deadlineAgrees_iff_inTime :
    DeadlineAgrees 104 { CeellMsg.zero with deadlineMs := 5, sendTimeMs := 100 } ↔
      (104 : Int) ≠ 100 + (5 : UInt16).toNat :=
  deadlineAgrees_iff 104 { CeellMsg.zero with deadlineMs := 5, sendTimeMs := 100 } (by decide)

/-- At the deadline. -/
theorem deadlineInstant_not_agrees :
    ceellMsgDeadlineExpired 105 (some { CeellMsg.zero with deadlineMs := 5, sendTimeMs := 100 }) =
        true ∧
      ceellMsgDeadlineRemaining 105
        (some { CeellMsg.zero with deadlineMs := 5, sendTimeMs := 100 }) = 0 ∧
      ¬ DeadlineAgrees 105 { CeellMsg.zero with deadlineMs := 5, sendTimeMs := 100 } :=
  ⟨by decide, by decide, fun h => h.2.1 (by decide)⟩

end Ceell.Network
