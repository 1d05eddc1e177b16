/-
Ceell.Core.SafeState — `ceell/core/safe_state.c`: the safe-state flag, its
reason and the transitions reported to the registered callback.

The flag knows nothing of peers: a trigger sets it, a clear unsets it,
and neither looks at who called.
-/
import Ceell.Core.Types

namespace Ceell.Core

/-! ## The data -/

/-- `enum ceell_safe_reason`. -/
inductive SafeReason where
  | none
  | criticalPeerLost
  | deadlineBudgetExceeded
  | commFailure
  deriving DecidableEq, Repr

/-- `safe_active`, `safe_reason_val`, whether `safe_cb` is set,
`safe_initialized`. -/
structure SafeState where
  active : Bool
  reason : SafeReason
  cbRegistered : Bool
  initialized : Bool
  deriving DecidableEq

/-- A call `safe_cb(active, reason)`. -/
structure SafeCall where
  active : Bool
  reason : SafeReason
  deriving DecidableEq

/-! ## The operations -/

/-- `ceell_safe_state_init`. -/
def ceellSafeStateInit : SafeState := ⟨false, .none, false, true⟩

/-- `ceell_safe_state_trigger`: the state and the callback made. -/
def ceellSafeStateTrigger (reason : SafeReason) (s : SafeState) : SafeState × Option SafeCall :=
  if !s.initialized then (s, none)
  else if !s.active then
    ({ s with reason := reason, active := true },
      if s.cbRegistered then some ⟨true, reason⟩ else none)
  else if s.reason ≠ reason then ({ s with reason := reason }, none)
  else (s, none)

/-- `ceell_safe_state_clear`. -/
def ceellSafeStateClear (s : SafeState) : SafeState × Option SafeCall :=
  if !s.initialized then (s, none)
  else if s.active then
    ({ s with active := false, reason := .none },
      if s.cbRegistered then some ⟨false, .none⟩ else none)
  else (s, none)

/-- `ceell_safe_state_active`. -/
def ceellSafeStateActive (s : SafeState) : Bool := s.active

/-- `ceell_safe_state_reason`. -/
def ceellSafeStateReason (s : SafeState) : SafeReason :=
  if !ceellSafeStateActive s then .none else s.reason

/-! ## What they do to the flag -/

section

variable {s : SafeState}

@[simp] theorem active_trigger (h : s.initialized = true) (reason : SafeReason) :
    (ceellSafeStateTrigger reason s).1.active = true := by
  unfold ceellSafeStateTrigger
  cases ha : s.active <;> simp [h]
  split <;> simp [ha]

@[simp] theorem active_clear (h : s.initialized = true) :
    (ceellSafeStateClear s).1.active = false := by
  unfold ceellSafeStateClear
  cases ha : s.active <;> simp [h, ha]

@[simp] theorem initialized_trigger (reason : SafeReason) :
    (ceellSafeStateTrigger reason s).1.initialized = s.initialized := by
  unfold ceellSafeStateTrigger
  split
  · rfl
  · split
    · rfl
    · split <;> rfl

@[simp] theorem initialized_clear : (ceellSafeStateClear s).1.initialized = s.initialized := by
  unfold ceellSafeStateClear
  split
  · rfl
  · split <;> rfl

end

end Ceell.Core
