/-
Ceell.Ota.State — the states of an update (`ceell/ota/ota_state.h`).

`Next` is what the states are for: a check either finds nothing or leads
through download, validation and marking to the reboot, and every stage
after the check can end in the error state. A node checks again from
`idle` and from `error` only.
-/
import Mathlib.Data.List.Chain

namespace Ceell.Ota

/-- `enum ceell_ota_state`. -/
inductive OtaState where
  | idle -- CEELL_OTA_IDLE
  | checking -- CEELL_OTA_CHECKING
  | downloading -- CEELL_OTA_DOWNLOADING
  | validating -- CEELL_OTA_VALIDATING
  | marking -- CEELL_OTA_MARKING
  | rebooting -- CEELL_OTA_REBOOTING
  | error -- CEELL_OTA_ERROR
  deriving DecidableEq, Repr

/-- The state is one in which no update is under way. -/
def OtaState.Settled (s : OtaState) : Prop := s = .idle ∨ s = .error

instance (s : OtaState) : Decidable s.Settled := by unfold OtaState.Settled; infer_instance

/-- The moves an update makes. -/
inductive Next : OtaState → OtaState → Prop where
  | check {s} (h : s.Settled) : Next s .checking
  | nothing : Next .checking .idle
  | download : Next .checking .downloading
  | validate : Next .downloading .validating
  | mark : Next .validating .marking
  | reboot : Next .marking .rebooting
  | downloadFailed : Next .downloading .error
  | validateFailed : Next .validating .error
  | markFailed : Next .marking .error

/-- A path of moves that starts in `s`. -/
def Path (s : OtaState) (states : List OtaState) : Prop := (s :: states).IsChain Next

/-- The state a path from `s` ends in. -/
def pathEnd (s : OtaState) (states : List OtaState) : OtaState := states.getLast?.getD s

theorem pathEnd_append_of_ne_nil (s : OtaState) {states more : List OtaState} (h : more ≠ []) :
    pathEnd s (states ++ more) = pathEnd s more := by
  rw [pathEnd, pathEnd, List.getLast?_append_of_ne_nil _ h]

/-- A path goes on from the state it ends in. -/
theorem Path.append {s t : OtaState} {states more : List OtaState} (h1 : Path s states)
    (hend : pathEnd s states = t) (h2 : Path t more) : Path s (states ++ more) := by
  unfold Path at *
  rw [← List.cons_append, List.isChain_append]
  refine ⟨h1, h2.tail, ?_⟩
  intro x hx y hy
  obtain rfl : t = x := by
    rw [← hend, pathEnd]
    simpa [List.getLast?_cons] using hx
  cases more with
  | nil => simp at hy
  | cons z more =>
    obtain rfl : z = y := by simpa using hy
    exact (List.isChain_cons_cons.mp h2).1

end Ceell.Ota
