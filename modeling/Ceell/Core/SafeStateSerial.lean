/-
Ceell.Core.SafeStateSerial — the atomics of `ceell/core/safe_state.c`
against the sequential functions, in every interleaving.

The operations in the order in which they took `safe_mutex` are replayed on
`SafeState`. `safeState_serial`: whenever nobody holds the mutex, the two
atomics and the calls of the callback are what the replay gives.
`safeReason_regular`: what a reader without a lock returns is the reason
before the operation in progress at its last load, or the one after it.
That is all there is: `newOldInversion` is a run in which of two readers,
one after the other, the first returns the reason of a trigger and the
second that there is none yet.
-/
import Ceell.Core.SafeStateAtomic
import Ceell.Lib.Serial

namespace Ceell.Core

open Ceell.Lib

/-! ## The operations -/

inductive SafeOp where
  | trigger (reason : SafeReason)
  | clear
  deriving DecidableEq

/-- The flag and the reason, and the calls of the callback. -/
structure SafeLog where
  state : SafeState
  calls : List SafeCall

/-- An operation that runs alone. -/
def SafeLog.apply (x : SafeLog) : SafeOp → SafeLog
  | .trigger reason =>
      let r := ceellSafeStateTrigger reason x.state
      ⟨r.1, x.calls ++ r.2.toList⟩
  | .clear =>
      let r := ceellSafeStateClear x.state
      ⟨r.1, x.calls ++ r.2.toList⟩

/-- After `ceell_safe_state_init` and, with `cb`, the registration of a
callback. -/
def SafeLog.init (cb : Bool) : SafeLog := ⟨{ ceellSafeStateInit with cbRegistered := cb }, []⟩

/-- The enumerator of a value. -/
def SafeReason.ofInt (reason : Int) : SafeReason :=
  if reason = 1 then .criticalPeerLost
  else if reason = 2 then .deadlineBudgetExceeded
  else if reason = 3 then .commFailure
  else .none

/-- The operation a label takes the mutex for. -/
def SafeAct.op {ρ : Type} : SafeAct ρ → Option SafeOp
  | .trigger reason => some (.trigger (.ofInt reason))
  | .clear => some .clear
  | _ => none

/-- A trigger is made with an enumerator. -/
def SafeAct.Enumerated {ρ : Type} : SafeAct ρ → Prop
  | .trigger reason => (SafeReason.ofInt reason).toInt = reason
  | _ => True

/-! ## A half-done operation -/

section Rel

variable {ρ : Type} {cb : Bool} {s s' : SafeRun ρ} {x : SafeLog}

/-- The atomics hold the state. -/
structure SafeRun.Holds (s : SafeRun ρ) (x : SafeState) : Prop where
  active : s.active = x.active
  reason : s.reason = x.reason.toInt

/-- A state that the operations lead to. -/
structure SafeState.Ready (x : SafeState) (cb : Bool) : Prop where
  initialized : x.initialized = true
  registered : x.cbRegistered = cb
  reason : x.active = false → x.reason = .none

/-- A trigger on `x`, statement by statement. -/
def InTrigger (x : SafeState) (reason : SafeReason) (s : SafeRun ρ) : Prop :=
  match s.writer with
  | .triggerGetActive r => r = reason.toInt ∧ s.Holds x
  | .triggerSetReason r => r = reason.toInt ∧ s.Holds x ∧ x.active = false
  | .triggerSetActive r =>
      r = reason.toInt ∧ s.active = false ∧ s.reason = r ∧ x.active = false
  | .triggerCb r => r = reason.toInt ∧ s.active = true ∧ s.reason = r ∧ x.active = false
  | .triggerGetReason r => r = reason.toInt ∧ s.Holds x ∧ x.active = true
  | .triggerUpdate r => r = reason.toInt ∧ s.Holds x ∧ x.active = true ∧ x.reason ≠ reason
  | _ => False

/-- A clear on `x`. -/
def InClear (x : SafeState) (s : SafeRun ρ) : Prop :=
  match s.writer with
  | .clearGetActive => s.Holds x
  | .clearGetReason | .clearSetActive => s.Holds x ∧ x.active = true
  | .clearSetReason => s.active = false ∧ s.reason = x.reason.toInt ∧ x.active = true
  | .clearCb => s.active = false ∧ s.reason = safeNone ∧ x.active = true
  | _ => False

/-- Where the machine is, an operation in progress or not. -/
def InOp (x : SafeState) (s : SafeRun ρ) : Option SafeOp → Prop
  | none => (s.writer = .idle ∨ s.writer = .unlock) ∧ s.Holds x
  | some (.trigger reason) => reason ≠ .none ∧ InTrigger x reason s
  | some .clear => InClear x s

/-- The relation of the two levels. -/
structure SafeRel (cb : Bool) (x : SafeLog) (o : Option SafeOp) (s : SafeRun ρ) : Prop where
  ready : x.state.Ready cb
  calls : s.calls = x.calls.map SafeCall.toCb
  op : InOp x.state s o

/-- Readers are of no account. -/
theorem SafeRel.congr {o : Option SafeOp} (h : SafeRel cb x o s) (hactive : s'.active = s.active)
    (hreason : s'.reason = s.reason) (hwriter : s'.writer = s.writer)
    (hcalls : s'.calls = s.calls) : SafeRel cb x o s' := by
  have hholds : ∀ {y : SafeState}, s.Holds y → s'.Holds y := fun hy =>
    ⟨hactive.trans hy.active, hreason.trans hy.reason⟩
  refine ⟨h.ready, hcalls.trans h.calls, ?_⟩
  obtain ⟨active, reason, writer, readers, calls, supplied⟩ := s
  obtain ⟨active', reason', writer', readers', calls', supplied'⟩ := s'
  obtain rfl : active' = active := hactive
  obtain rfl : reason' = reason := hreason
  obtain rfl : writer' = writer := hwriter
  match o, h.op with
  | none, ⟨hw, hop⟩ => exact ⟨hw, hholds hop⟩
  | some (.trigger r), ⟨hne, hop⟩ =>
    refine ⟨hne, ?_⟩
    unfold InTrigger at hop ⊢
    cases writer' <;> first | exact hop | skip
    · exact ⟨hop.1, hholds hop.2⟩
    · exact ⟨hop.1, hholds hop.2.1, hop.2.2⟩
    · exact ⟨hop.1, hholds hop.2.1, hop.2.2⟩
    · exact ⟨hop.1, hholds hop.2.1, hop.2.2⟩
  | some .clear, hop =>
    unfold InOp InClear at hop ⊢
    cases writer' <;> first | exact hop | skip
    · exact hholds hop
    · exact ⟨hholds hop.1, hop.2⟩
    · exact ⟨hholds hop.1, hop.2⟩

/-! ### What an operation amounts to -/

theorem apply_trigger_inactive (h : x.state.Ready cb) (hact : x.state.active = false)
    (reason : SafeReason) :
    x.apply (.trigger reason) = ⟨{ x.state with reason := reason, active := true },
      x.calls ++ if cb then [⟨true, reason⟩] else []⟩ := by
  simp only [SafeLog.apply, ceellSafeStateTrigger, h.initialized, hact, h.registered]
  cases cb <;> rfl

theorem apply_trigger_active (h : x.state.Ready cb) (hact : x.state.active = true)
    (reason : SafeReason) :
    x.apply (.trigger reason) = ⟨{ x.state with reason := reason }, x.calls⟩ := by
  obtain ⟨⟨active, current, registered, initialized⟩, calls⟩ := x
  obtain rfl : initialized = true := h.initialized
  obtain rfl : active = true := hact
  by_cases heq : current = reason
  · simp [SafeLog.apply, ceellSafeStateTrigger, heq]
  · simp [SafeLog.apply, ceellSafeStateTrigger, heq]

theorem apply_clear_active (h : x.state.Ready cb) (hact : x.state.active = true) :
    x.apply .clear = ⟨{ x.state with active := false, reason := .none },
      x.calls ++ if cb then [⟨false, .none⟩] else []⟩ := by
  simp only [SafeLog.apply, ceellSafeStateClear, h.initialized, hact, h.registered]
  cases cb <;> rfl

theorem apply_clear_inactive (h : x.state.Ready cb) (hact : x.state.active = false) :
    x.apply .clear = x := by
  simp [SafeLog.apply, ceellSafeStateClear, h.initialized, hact]

/-- The call of the callback, in both logs. -/
theorem calls_concat (h : s.calls = x.calls.map SafeCall.toCb) (c : SafeCall) :
    (if cb then s.calls ++ [c.toCb] else s.calls)
      = (x.calls ++ if cb then [c] else []).map SafeCall.toCb := by
  cases cb <;> simp [h]

/-! ### The statements -/

/-- **A statement of the holder** goes on with the operation or ends it. -/
theorem safeRel_write {o : Option SafeOp} (h : SafeRel cb x o s)
    (hs : writerStep cb s = some s') :
    SafeRel cb x o s' ∨ ∃ op, o = some op ∧ SafeRel cb (x.apply op) none s' := by
  obtain ⟨hready, hcalls, hop⟩ := h
  unfold writerStep at hs
  match o with
  | none =>
    obtain ⟨hidle | hunlock, hholds⟩ := hop
    · simp only [hidle] at hs
      cases hs
    · simp only [hunlock] at hs
      obtain rfl := Option.some.inj hs
      exact Or.inl ⟨hready, hcalls, Or.inl rfl, ⟨hholds.active, hholds.reason⟩⟩
  | some (.trigger reason) =>
    obtain ⟨hne, hop⟩ := hop
    unfold InTrigger at hop
    cases hpc : s.writer <;> simp only [hpc] at hop hs
    case triggerGetActive r =>
      obtain ⟨rfl, hactive, hreason⟩ := hop
      obtain rfl := Option.some.inj hs
      refine Or.inl ⟨hready, hcalls, hne, ?_⟩
      unfold InTrigger
      cases hact : s.active with
      | true => exact ⟨rfl, ⟨hact ▸ hactive, hreason⟩, hactive.symm.trans hact⟩
      | false => exact ⟨rfl, ⟨hact ▸ hactive, hreason⟩, hactive.symm.trans hact⟩
    case triggerSetReason r =>
      obtain ⟨rfl, hholds, hinactive⟩ := hop
      obtain rfl := Option.some.inj hs
      exact Or.inl ⟨hready, hcalls, hne, rfl, hholds.active.trans hinactive, rfl, hinactive⟩
    case triggerSetActive r =>
      obtain ⟨rfl, _, hreason, hinactive⟩ := hop
      obtain rfl := Option.some.inj hs
      exact Or.inl ⟨hready, hcalls, hne, rfl, rfl, hreason, hinactive⟩
    case triggerCb r =>
      obtain ⟨rfl, hactive, hreason, hinactive⟩ := hop
      obtain rfl := Option.some.inj hs
      refine Or.inr ⟨_, rfl, ?_⟩
      rw [apply_trigger_inactive hready hinactive]
      refine ⟨⟨hready.initialized, hready.registered, fun h => ?_⟩, ?_, Or.inr rfl, hactive,
        hreason⟩
      · exact absurd h (by simp)
      · exact calls_concat hcalls ⟨true, reason⟩
    case triggerGetReason r =>
      obtain ⟨rfl, hholds, hactive⟩ := hop
      obtain rfl := Option.some.inj hs
      by_cases heq : s.reason = reason.toInt
      · have hsame : x.state.reason = reason := toInt_inj.mp (hholds.reason.symm.trans heq)
        refine Or.inr ⟨_, rfl, ?_⟩
        rw [apply_trigger_active hready hactive]
        refine ⟨⟨hready.initialized, hready.registered, fun h => ?_⟩, hcalls, ?_, hholds.active,
          heq⟩
        · exact absurd (hactive.symm.trans h) (by decide)
        · exact Or.inr (if_pos heq)
      · refine Or.inl ⟨hready, hcalls, hne, ?_⟩
        simp only [if_neg heq]
        exact ⟨rfl, ⟨hholds.active, hholds.reason⟩, hactive,
          fun hr => heq (hr ▸ hholds.reason)⟩
    case triggerUpdate r =>
      obtain ⟨rfl, hholds, hactive, _⟩ := hop
      obtain rfl := Option.some.inj hs
      refine Or.inr ⟨_, rfl, ?_⟩
      rw [apply_trigger_active hready hactive]
      refine ⟨⟨hready.initialized, hready.registered, fun h => ?_⟩, hcalls, Or.inr rfl,
        hholds.active, rfl⟩
      exact absurd (hactive.symm.trans h) (by decide)
  | some .clear =>
    unfold InOp InClear at hop
    cases hpc : s.writer <;> simp only [hpc] at hop hs
    case clearGetActive =>
      obtain rfl := Option.some.inj hs
      cases hact : s.active with
      | true =>
        exact Or.inl ⟨hready, hcalls, ⟨hact ▸ hop.active, hop.reason⟩, hop.active.symm.trans hact⟩
      | false =>
        refine Or.inr ⟨_, rfl, ?_⟩
        rw [apply_clear_inactive hready (hop.active.symm.trans hact)]
        exact ⟨hready, hcalls, Or.inr rfl, hact ▸ hop.active, hop.reason⟩
    case clearGetReason =>
      obtain ⟨hholds, hactive⟩ := hop
      obtain rfl := Option.some.inj hs
      exact Or.inl ⟨hready, hcalls, ⟨hholds.active, hholds.reason⟩, hactive⟩
    case clearSetActive =>
      obtain ⟨hholds, hactive⟩ := hop
      obtain rfl := Option.some.inj hs
      exact Or.inl ⟨hready, hcalls, rfl, hholds.reason, hactive⟩
    case clearSetReason =>
      obtain ⟨hinactive, _, hactive⟩ := hop
      obtain rfl := Option.some.inj hs
      exact Or.inl ⟨hready, hcalls, hinactive, rfl, hactive⟩
    case clearCb =>
      obtain ⟨hinactive, hreason, hactive⟩ := hop
      obtain rfl := Option.some.inj hs
      refine Or.inr ⟨_, rfl, ?_⟩
      rw [apply_clear_active hready hactive]
      refine ⟨⟨hready.initialized, hready.registered, fun _ => rfl⟩, ?_, Or.inr rfl, hinactive,
        hreason⟩
      exact calls_concat hcalls ⟨false, .none⟩

variable [DecidableEq ρ]

/-- The mutex is taken only where nobody holds it. -/
theorem safeRel_call {o : Option SafeOp} {a : SafeAct ρ} {op : SafeOp} (h : SafeRel cb x o s)
    (hlabel : a.Enumerated) (hs : safeStep cb s a = some s') (hcall : a.op = some op) :
    o = none ∧ SafeRel cb x (some op) s' := by
  have hnone : s.writer = .idle → o = none ∧ s.Holds x.state := by
    intro hidle
    match o, h.op with
    | none, ⟨_, hholds⟩ => exact ⟨rfl, hholds⟩
    | some (.trigger r), ⟨_, hop⟩ =>
      simp only [InTrigger, hidle] at hop
    | some .clear, hop =>
      simp only [InOp, InClear, hidle] at hop
  cases a with
  | trigger reason =>
    simp only [safeStep] at hs
    split at hs
    · rename_i hgo
      obtain ⟨rfl, hholds⟩ := hnone hgo.1
      obtain rfl := Option.some.inj hs
      obtain rfl := Option.some.inj hcall
      refine ⟨rfl, h.ready, h.calls, fun hr => ?_, hlabel.symm, hholds.active, hholds.reason⟩
      rw [SafeAct.Enumerated, hr] at hlabel
      exact hgo.2 hlabel.symm
    · cases hs
  | clear =>
    simp only [safeStep] at hs
    split at hs
    · rename_i hidle
      obtain ⟨rfl, hholds⟩ := hnone hidle
      obtain rfl := Option.some.inj hs
      obtain rfl := Option.some.inj hcall
      exact ⟨rfl, h.ready, h.calls, hholds.active, hholds.reason⟩
    · cases hs
  | write => cases hcall
  | read r => cases hcall

theorem safeRel_inner {o : Option SafeOp} {a : SafeAct ρ} (h : SafeRel cb x o s)
    (hs : safeStep cb s a = some s') (hcall : a.op = none) :
    SafeRel cb x o s' ∨ ∃ op, o = some op ∧ SafeRel cb (x.apply op) none s' := by
  cases a with
  | trigger reason => cases hcall
  | clear => cases hcall
  | write =>
    obtain ⟨t, ht, rfl⟩ := Option.map_eq_some_iff.mp hs
    rcases safeRel_write h ht with hgo | ⟨op, ho, hend⟩
    · exact Or.inl (hgo.congr rfl rfl rfl rfl)
    · exact Or.inr ⟨op, ho, hend.congr rfl rfl rfl rfl⟩
  | read r =>
    obtain rfl := Option.some.inj hs
    exact Or.inl (h.congr rfl rfl rfl rfl)

end Rel

/-- The module, serialised by its mutex. -/
def safeSerial (cb : Bool) (ρ : Type) [DecidableEq ρ] :
    Serial (safeMachine cb ρ) SafeLog SafeOp where
  init := .init cb
  apply := SafeLog.apply
  call := SafeAct.op
  Label := SafeAct.Enumerated
  Rel := SafeRel cb
  rel_init := ⟨⟨rfl, rfl, fun _ => rfl⟩, rfl, Or.inl rfl, rfl, rfl⟩
  rel_call := fun _ _ _ _ _ _ h hlabel hs hcall => safeRel_call h hlabel hs hcall
  rel_inner := fun _ _ _ _ _ h _ hs hcall => safeRel_inner h hs hcall

/-- What a sequential reader would return after the operations. -/
def replayedReason (cb : Bool) (ops : List SafeOp) : Int :=
  (ceellSafeStateReason (ops.foldl SafeLog.apply (.init cb)).state).toInt

section Results

variable {ρ : Type} [DecidableEq ρ] {cb : Bool} {s : SafeRun ρ} {as : List (SafeAct ρ)}

/-- **Serialisation**: in every interleaving of triggers, clears and readers
without a lock, whenever nobody holds the mutex, the two atomics and the
calls of the callback are those of the operations run one after the other,
in the order in which they took the mutex. -/
theorem safeState_serial (hlabel : ∀ a ∈ as, a.Enumerated)
    (hrun : (safeMachine cb ρ).run as = some s) (hidle : s.writer = .idle) :
    let x := (as.filterMap SafeAct.op).foldl SafeLog.apply (.init cb)
    s.Shows x.state ∧ s.calls = x.calls.map SafeCall.toCb := by
  obtain ⟨done, o, hops, hrel⟩ := (safeSerial cb ρ).run hlabel hrun
  match o, hrel with
  | none, ⟨_, hcalls, _, hholds⟩ =>
    have hdone : as.filterMap SafeAct.op = done := by
      simpa [Serial.ops, safeSerial] using hops
    rw [hdone]
    exact ⟨⟨hidle, hholds.active, hholds.reason⟩, hcalls⟩
  | some (.trigger r), ⟨_, _, _, hop⟩ => simp only [InTrigger, hidle] at hop
  | some .clear, ⟨_, _, hop⟩ => simp only [InOp, InClear, hidle] at hop

/-- A trigger, another reason, a clear, and a reader in between. -/
def threeOperations : List (SafeAct Unit) :=
  [.trigger 1, .write, .write, .read (), .write, .write, .write, .read (), .trigger 3, .write,
   .write, .write, .read (), .write, .clear, .write, .write, .write, .write, .write, .write]

theorem safeState_serial_threeOperations :
    ∃ s, (safeMachine true Unit).run threeOperations = some s ∧ s.writer = .idle ∧
      s.active = false ∧ s.calls = [⟨true, 1⟩, ⟨false, 0⟩] := by
  obtain ⟨s, hs⟩ : ∃ s, (safeMachine true Unit).run threeOperations = some s :=
    Option.isSome_iff_exists.mp (by decide)
  have hidle : ((safeMachine true Unit).run threeOperations).map (·.writer) = some .idle := by
    decide
  rw [hs, Option.map_some, Option.some.injEq] at hidle
  have hlabel : ∀ a ∈ threeOperations, a.Enumerated := by
    simp [threeOperations, SafeAct.Enumerated, SafeReason.ofInt, SafeReason.toInt]
  obtain ⟨hshows, hcalls⟩ := safeState_serial hlabel hs hidle
  exact ⟨s, hs, hidle, hshows.active.trans (by decide), hcalls.trans (by decide)⟩

end Results

/-! ## Readers -/

section Loads

variable {ρ : Type} {cb : Bool} {s : SafeRun ρ}

/-- Without an operation in progress the reason is the one stored. -/
theorem toInt_reason {x : SafeState} (h : x.Ready cb) :
    (ceellSafeStateReason x).toInt = x.reason.toInt := by
  cases hact : x.active with
  | true => simp [ceellSafeStateReason, ceellSafeStateActive, hact]
  | false => simp [ceellSafeStateReason, ceellSafeStateActive, hact, h.reason hact]

/-- **What a load finds** while an operation is in progress: the flag down,
or the reason, as before the operation or as after it. -/
theorem load_inOp {x : SafeLog} {op : SafeOp} (h : SafeRel cb x (some op) s) :
    (s.active = false → safeNone = (ceellSafeStateReason x.state).toInt ∨
      safeNone = (ceellSafeStateReason (x.apply op).state).toInt) ∧
    (s.reason = (ceellSafeStateReason x.state).toInt ∨
      s.reason = (ceellSafeStateReason (x.apply op).state).toInt) := by
  obtain ⟨hready, _, hop⟩ := h
  have hinactive : x.state.active = false → safeNone = (ceellSafeStateReason x.state).toInt := by
    intro hact
    rw [toInt_reason hready, hready.reason hact]
    rfl
  have hholds : s.Holds x.state →
      (s.active = false → safeNone = (ceellSafeStateReason x.state).toInt ∨
        safeNone = (ceellSafeStateReason (x.apply op).state).toInt) ∧
      (s.reason = (ceellSafeStateReason x.state).toInt ∨
        s.reason = (ceellSafeStateReason (x.apply op).state).toInt) := by
    rintro ⟨hactive, hreason⟩
    refine ⟨fun h => Or.inl (hinactive (hactive.symm.trans h)), Or.inl ?_⟩
    rw [hreason, toInt_reason hready]
  cases op with
  | trigger reason =>
    obtain ⟨hne, hop⟩ := hop
    unfold InTrigger at hop
    have hafter : x.state.active = false →
        (ceellSafeStateReason (x.apply (.trigger reason)).state).toInt = reason.toInt := by
      intro hact
      rw [apply_trigger_inactive hready hact]
      rfl
    cases hpc : s.writer <;> simp only [hpc] at hop
    case triggerGetActive r => exact hholds hop.2
    case triggerSetReason r => exact hholds hop.2.1
    case triggerGetReason r => exact hholds hop.2.1
    case triggerUpdate r => exact hholds hop.2.1
    case triggerSetActive r =>
      -- the new reason is there before the flag is
      obtain ⟨rfl, _, hreason, hact⟩ := hop
      exact ⟨fun _ => Or.inl (hinactive hact), Or.inr (by rw [hreason, hafter hact])⟩
    case triggerCb r =>
      obtain ⟨rfl, hactive, hreason, hact⟩ := hop
      refine ⟨fun h => ?_, Or.inr (by rw [hreason, hafter hact])⟩
      exact absurd (hactive.symm.trans h) (by decide)
  | clear =>
    unfold InOp InClear at hop
    have hafter : x.state.active = true →
        (ceellSafeStateReason (x.apply .clear).state).toInt = safeNone := by
      intro hact
      rw [apply_clear_active hready hact]
      rfl
    cases hpc : s.writer <;> simp only [hpc] at hop
    case clearGetActive => exact hholds hop
    case clearGetReason => exact hholds hop.1
    case clearSetActive => exact hholds hop.1
    case clearSetReason =>
      -- the old reason is still there after the flag is gone
      obtain ⟨_, hreason, hact⟩ := hop
      exact ⟨fun _ => Or.inr (hafter hact).symm,
        Or.inl (by rw [hreason, toInt_reason hready])⟩
    case clearCb =>
      obtain ⟨_, hreason, hact⟩ := hop
      exact ⟨fun _ => Or.inr (hafter hact).symm, Or.inr (by rw [hreason, hafter hact])⟩

/-- A call of a reader ends with one of two loads. -/
theorem next_ret {x : Reader} {v : Int} (h : (x.next s).pc = .ret v) :
    (s.active = false ∧ v = safeNone) ∨ v = s.reason := by
  unfold Reader.next at h
  cases hpc : x.pc with
  | idle => simp [hpc] at h
  | getActive =>
    simp only [hpc] at h
    split at h
    · cases h
    · rename_i hact
      exact Or.inl ⟨eq_false_of_ne_true hact, (ReaderPc.ret.inj h).symm⟩
  | getReason =>
    simp only [hpc] at h
    exact Or.inr (ReaderPc.ret.inj h).symm
  | ret w => simp [hpc] at h

end Loads

section Readers

variable {ρ : Type} [DecidableEq ρ] {cb : Bool} {s : SafeRun ρ} {as : List (SafeAct ρ)}

/-- **Readers without a lock**: in every interleaving, what
`ceell_safe_state_reason` returns is what it would return if it ran alone
after the operations that took the mutex before its last load, the one
still in progress counted or not. -/
theorem safeReason_regular {r : ρ} {v : Int} (hlabel : ∀ a ∈ as, a.Enumerated)
    (hrun : (safeMachine cb ρ).run (as ++ [.read r]) = some s)
    (hret : (s.readers r).pc = .ret v) :
    v = replayedReason cb (as.filterMap SafeAct.op) ∨
      (s.writer ≠ .idle ∧ v = replayedReason cb (as.filterMap SafeAct.op).dropLast) := by
  rw [Machine.run, Machine.runFrom_append, Option.bind_eq_some_iff] at hrun
  obtain ⟨t, ht, hlast⟩ := hrun
  obtain ⟨s', hstep, hend⟩ := Machine.runFrom_eq_some_cons hlast
  obtain rfl : s' = s := by simpa using hend
  obtain rfl := Option.some.inj hstep
  dsimp only at hret
  rw [Function.update_self] at hret
  obtain ⟨done, o, hops, hrel⟩ := (safeSerial cb ρ).run hlabel ht
  have hops : as.filterMap SafeAct.op = done ++ o.toList := hops
  have hload := next_ret hret
  cases o with
  | none =>
    obtain ⟨hready, _, _, hholds⟩ := hrel
    rw [Option.toList_none, List.append_nil] at hops
    have hready : (done.foldl SafeLog.apply (.init cb)).state.Ready cb := hready
    refine Or.inl ?_
    rw [hops, replayedReason, toInt_reason hready]
    rcases hload with ⟨hact, rfl⟩ | rfl
    · rw [hready.reason (hholds.active.symm.trans hact)]
      rfl
    · exact hholds.reason
  | some op =>
    rw [Option.toList_some] at hops
    have hbusy : t.writer ≠ .idle := by
      intro hidle
      cases op with
      | trigger reason =>
        obtain ⟨_, _, _, hop⟩ := hrel
        simp only [InTrigger, hidle] at hop
      | clear =>
        obtain ⟨_, _, hop⟩ := hrel
        simp only [InOp, InClear, hidle] at hop
    have hafter : replayedReason cb (done ++ [op])
        = (ceellSafeStateReason ((done.foldl SafeLog.apply (.init cb)).apply op).state).toInt := by
      rw [replayedReason, List.foldl_append]
      rfl
    obtain ⟨hflag, hreason⟩ := load_inOp hrel
    have hboth : v = replayedReason cb done ∨ v = replayedReason cb (done ++ [op]) := by
      rw [hafter]
      rcases hload with ⟨hact, rfl⟩ | rfl
      · exact hflag hact
      · exact hreason
    rw [hops, List.dropLast_concat]
    rcases hboth with h | h
    · exact Or.inr ⟨hbusy, h⟩
    · exact Or.inl h

/-- The first reader is past the flag when safe state is cleared and
triggered again; the second one calls before the new flag is stored. -/
def newOldInversion : List (SafeAct Bool) :=
  [.trigger 1, .write, .write, .write, .write, .write, .read false, .read false,
   .clear, .write, .write, .write, .write, .write, .write,
   .trigger 3, .write, .write, .read false, .read true]

theorem safeReason_regular_inversion :
    ∃ s, (safeMachine true Bool).run (newOldInversion ++ [.read true]) = some s ∧
      (s.readers false).pc = .ret 3 ∧ (s.readers true).pc = .ret 0 ∧
      (0 = replayedReason true (newOldInversion.filterMap SafeAct.op) ∨
        (s.writer ≠ .idle ∧
          0 = replayedReason true (newOldInversion.filterMap SafeAct.op).dropLast)) := by
  obtain ⟨s, hs⟩ : ∃ s, (safeMachine true Bool).run (newOldInversion ++ [.read true]) = some s :=
    Option.isSome_iff_exists.mp (by decide)
  have hend : ((safeMachine true Bool).run (newOldInversion ++ [.read true])).map
      (fun s => ((s.readers false).pc, (s.readers true).pc)) = some (.ret 3, .ret 0) := by decide
  rw [hs, Option.map_some, Option.some.injEq, Prod.mk.injEq] at hend
  have hlabel : ∀ a ∈ newOldInversion, a.Enumerated := by
    simp [newOldInversion, SafeAct.Enumerated, SafeReason.ofInt, SafeReason.toInt]
  exact ⟨s, hs, hend.1, hend.2, safeReason_regular hlabel hs hend.2⟩

end Readers

end Ceell.Core
