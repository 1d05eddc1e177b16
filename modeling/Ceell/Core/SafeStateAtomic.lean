/-
Ceell.Core.SafeStateAtomic — `ceell/core/safe_state.c` load by load and
store by store, with readers that take no lock.

A trigger and a clear hold `safe_mutex`, so there is one program counter
for both. `ceell_safe_state_reason` loads the flag and then the reason, and
any step of the holder may come between the two. The opposite order of the
stores, the reason first on the way in and the flag first on the way out,
is what `SafeInv` rests on: the flag is up only while the reason is one
that a trigger supplied.

`safeState_ok` is the result; `trigger_sequential`, `clear_sequential` and
`reason_sequential` say that a call that runs alone does what `SafeState`
says.
-/
import Ceell.Core.SafeState
import Ceell.Lib.Latch
import Ceell.Lib.Machine
import Mathlib.Logic.Function.Basic

namespace Ceell.Core

open Ceell.Lib

/-! ## The statements -/

/-- `CEELL_SAFE_NONE` -/
def safeNone : Int := 0

/-- The next statement of the holder of `safe_mutex`. -/
inductive WriterPc where
  | idle -- nobody holds it
  | triggerGetActive (reason : Int)
  | triggerSetReason (reason : Int)
  | triggerSetActive (reason : Int)
  | triggerCb (reason : Int)
  | triggerGetReason (reason : Int)
  | triggerUpdate (reason : Int)
  | clearGetActive
  | clearGetReason
  | clearSetActive
  | clearSetReason
  | clearCb
  | unlock
  deriving DecidableEq

/-- The next statement of a thread in `ceell_safe_state_reason`. -/
inductive ReaderPc where
  | idle
  | getActive
  | getReason
  | ret (reason : Int)
  deriving DecidableEq

/-- A reading thread, with what has been the case since it made its call. -/
structure Reader where
  pc : ReaderPc
  /-- safe state has been active -/
  active : Bool
  /-- no trigger or clear has been in progress -/
  quiet : Bool
  deriving DecidableEq

/-- A call `safe_cb(active, reason)`. -/
structure CbCall where
  active : Bool
  reason : Int
  deriving DecidableEq

/-- `safe_active`, `safe_reason_val`, the threads; the calls of `safe_cb` and
the reasons of the triggers so far. -/
structure SafeRun (ρ : Type) where
  active : Bool
  reason : Int
  writer : WriterPc
  readers : ρ → Reader
  calls : List CbCall
  supplied : List Int

inductive SafeAct (ρ : Type) where
  | trigger (reason : Int)
  | clear
  | write
  | read (r : ρ)

section Steps

variable {ρ : Type}

/-- One statement of the holder; `cb` says whether a callback is
registered. -/
def writerStep (cb : Bool) (s : SafeRun ρ) : Option (SafeRun ρ) :=
  match s.writer with
  | .idle => none
  | .triggerGetActive reason =>
      some { s with
        writer := if s.active then .triggerGetReason reason else .triggerSetReason reason }
  | .triggerSetReason reason =>
      some { s with reason := reason, writer := .triggerSetActive reason }
  | .triggerSetActive reason => some { s with active := true, writer := .triggerCb reason }
  | .triggerCb reason =>
      some { s with
        calls := if cb then s.calls ++ [⟨true, reason⟩] else s.calls
        writer := .unlock }
  | .triggerGetReason reason =>
      some { s with writer := if s.reason = reason then .unlock else .triggerUpdate reason }
  | .triggerUpdate reason => some { s with reason := reason, writer := .unlock }
  | .clearGetActive =>
      some { s with writer := if s.active then .clearGetReason else .unlock }
  | .clearGetReason => some { s with writer := .clearSetActive } -- for the log message
  | .clearSetActive => some { s with active := false, writer := .clearSetReason }
  | .clearSetReason => some { s with reason := safeNone, writer := .clearCb }
  | .clearCb =>
      some { s with
        calls := if cb then s.calls ++ [⟨false, safeNone⟩] else s.calls
        writer := .unlock }
  | .unlock => some { s with writer := .idle }

/-- What a reader has met, after a step to `s`. -/
def Reader.meet (s : SafeRun ρ) (x : Reader) : Reader :=
  { x with
    active := x.active && s.active
    quiet := x.quiet && decide (s.writer = .idle) }

def SafeRun.meet (s : SafeRun ρ) : SafeRun ρ := { s with readers := fun r => (s.readers r).meet s }

/-- One statement of a reader; the first is its call. -/
def Reader.next (s : SafeRun ρ) (x : Reader) : Reader :=
  match x.pc with
  | .idle => ⟨.getActive, s.active, decide (s.writer = .idle)⟩
  | .getActive => { x with pc := if s.active then .getReason else .ret safeNone }
  | .getReason => { x with pc := .ret s.reason }
  | .ret _ => { x with pc := .idle }

variable [DecidableEq ρ]

def safeStep (cb : Bool) (s : SafeRun ρ) : SafeAct ρ → Option (SafeRun ρ)
  | .trigger reason =>
      if s.writer = .idle ∧ reason ≠ safeNone then
        some { s with
          writer := .triggerGetActive reason
          supplied := reason :: s.supplied }.meet
      else none
  | .clear =>
      if s.writer = .idle then some { s with writer := .clearGetActive }.meet else none
  | .write => (writerStep cb s).map SafeRun.meet
  | .read r =>
      some { s with readers := Function.update s.readers r ((s.readers r).next s) }

/-- Triggers, clears and readers in any interleaving, from the end of
`ceell_safe_state_init` on. -/
def safeMachine (cb : Bool) (ρ : Type) [DecidableEq ρ] : Machine (SafeRun ρ) (SafeAct ρ) where
  init := ⟨false, safeNone, .idle, fun _ => ⟨.idle, false, false⟩, [], []⟩
  step := safeStep cb

end Steps

/-! ## The invariant -/

section Invariant

variable {ρ : Type} {s s' : SafeRun ρ}

/-- A reason some trigger supplied. -/
def SafeRun.Supplied (s : SafeRun ρ) (reason : Int) : Prop :=
  reason ≠ safeNone ∧ reason ∈ s.supplied

/-- What the holder may rely on, statement by statement. -/
def WriterInv (s : SafeRun ρ) : Prop :=
  match s.writer with
  | .idle | .unlock | .clearGetActive => s.active = false → s.reason = safeNone
  | .triggerGetActive reason => (s.active = false → s.reason = safeNone) ∧ s.Supplied reason
  | .triggerSetReason reason => s.active = false ∧ s.Supplied reason
  | .triggerSetActive reason => s.active = false ∧ s.reason = reason ∧ s.Supplied reason
  | .triggerCb _ | .clearGetReason | .clearSetActive => s.active = true
  | .triggerGetReason reason | .triggerUpdate reason => s.active = true ∧ s.Supplied reason
  | .clearSetReason => s.active = false
  | .clearCb => s.active = false ∧ s.reason = safeNone

/-- The flag as the callback knows it: a store that it has not been told of
is not counted. -/
def SafeRun.reported (s : SafeRun ρ) : Bool :=
  match s.writer with
  | .triggerCb _ => false
  | .clearSetReason | .clearCb => true
  | _ => s.active

/-- What a reader in a call may rely on. -/
structure ReaderInv (s : SafeRun ρ) (x : Reader) : Prop where
  active : x.pc ≠ .idle → x.active = true → s.active = true
  quiet : x.pc ≠ .idle → x.quiet = true → s.writer = .idle
  quiet_getReason : x.pc = .getReason → x.quiet = true → s.active = true
  active_ret : ∀ v, x.pc = .ret v → x.active = true → s.Supplied v
  quiet_ret : ∀ v, x.pc = .ret v → x.quiet = true → (v = safeNone ↔ s.active = false)

/-- The part of the invariant that readers do not touch. -/
structure HolderInv (cb : Bool) (s : SafeRun ρ) : Prop where
  supplied : s.active = true → s.Supplied s.reason
  writer : WriterInv s
  alternates : cb = true → Alternates (s.calls.map (·.active))
  reported : cb = true → loggedFlag (s.calls.map (·.active)) = s.reported

structure SafeInv (cb : Bool) (s : SafeRun ρ) : Prop where
  holder : HolderInv cb s
  readers : ∀ r, ReaderInv s (s.readers r)

end Invariant

/-! ## The steps keep it -/

section Preserve

variable {ρ : Type} {cb b : Bool} {s s' : SafeRun ρ}

/-- The log after one more call. -/
theorem log_concat (halt : cb = true → Alternates (s.calls.map (·.active)))
    (hrep : cb = true → loggedFlag (s.calls.map (·.active)) = !b) (reason : Int) :
    (cb = true → Alternates
      ((if cb then s.calls ++ [⟨b, reason⟩] else s.calls).map (·.active))) ∧
    (cb = true → loggedFlag
      ((if cb then s.calls ++ [⟨b, reason⟩] else s.calls).map (·.active)) = b) := by
  cases cb with
  | false => simp
  | true =>
    have hflag := hrep rfl
    simp only [if_true, List.map_append, List.map_singleton, forall_const]
    exact ⟨(halt rfl).concat (by simp [hflag]), loggedFlag_concat _ _⟩

/-- **What the holder's statement does**, statement by statement. -/
theorem holderInv_write (hi : HolderInv cb s) (hs : writerStep cb s = some s') :
    HolderInv cb s' := by
  obtain ⟨hsup, hw, halt, hrep⟩ := hi
  unfold writerStep at hs
  unfold WriterInv at hw
  unfold SafeRun.reported at hrep
  cases hpc : s.writer with
  | idle =>
    rw [hpc] at hs
    cases hs
  | triggerGetActive reason =>
    simp only [hpc] at hs hw hrep
    obtain rfl := Option.some.inj hs
    by_cases hact : s.active = true
    · simp only [if_pos hact]
      exact ⟨hsup, ⟨hact, hw.2⟩, halt, hrep⟩
    · simp only [if_neg hact]
      exact ⟨hsup, ⟨eq_false_of_ne_true hact, hw.2⟩, halt, hrep⟩
  | triggerSetReason reason =>
    simp only [hpc] at hs hw hrep
    obtain rfl := Option.some.inj hs
    refine ⟨fun h => ?_, ⟨hw.1, rfl, hw.2⟩, halt, hrep⟩
    exact absurd (hw.1.symm.trans h) Bool.false_ne_true
  | triggerSetActive reason =>
    simp only [hpc] at hs hw hrep
    obtain rfl := Option.some.inj hs
    obtain ⟨hact, rfl, hreason⟩ := hw
    refine ⟨fun _ => hreason, rfl, halt, fun hcb => ?_⟩
    rw [hrep hcb, hact]
    rfl
  | triggerCb reason =>
    simp only [hpc] at hs hw hrep
    obtain rfl := Option.some.inj hs
    obtain ⟨halt', hflag⟩ := log_concat (b := true) halt hrep reason
    refine ⟨hsup, fun h => ?_, halt', fun hcb => ?_⟩
    · exact absurd (hw.symm.trans h) (by decide)
    · exact (hflag hcb).trans hw.symm
  | triggerGetReason reason =>
    simp only [hpc] at hs hw hrep
    obtain rfl := Option.some.inj hs
    by_cases heq : s.reason = reason
    · simp only [if_pos heq]
      refine ⟨hsup, fun h => ?_, halt, hrep⟩
      exact absurd (hw.1.symm.trans h) (by decide)
    · simp only [if_neg heq]
      exact ⟨hsup, hw, halt, hrep⟩
  | triggerUpdate reason =>
    simp only [hpc] at hs hw hrep
    obtain rfl := Option.some.inj hs
    refine ⟨fun _ => hw.2, fun h => ?_, halt, hrep⟩
    exact absurd (hw.1.symm.trans h) (by decide)
  | clearGetActive =>
    simp only [hpc] at hs hw hrep
    obtain rfl := Option.some.inj hs
    by_cases hact : s.active = true
    · simp only [if_pos hact]
      exact ⟨hsup, hact, halt, hrep⟩
    · simp only [if_neg hact]
      exact ⟨hsup, hw, halt, hrep⟩
  | clearGetReason =>
    simp only [hpc] at hs hw hrep
    obtain rfl := Option.some.inj hs
    exact ⟨hsup, hw, halt, hrep⟩
  | clearSetActive =>
    simp only [hpc] at hs hw hrep
    obtain rfl := Option.some.inj hs
    refine ⟨fun h => absurd h Bool.false_ne_true, rfl, halt, fun hcb => ?_⟩
    rw [hrep hcb, hw]
    rfl
  | clearSetReason =>
    simp only [hpc] at hs hw hrep
    obtain rfl := Option.some.inj hs
    refine ⟨fun h => ?_, ⟨hw, rfl⟩, halt, hrep⟩
    exact absurd (hw.symm.trans h) (by decide)
  | clearCb =>
    simp only [hpc] at hs hw hrep
    obtain rfl := Option.some.inj hs
    obtain ⟨halt', hflag⟩ := log_concat (b := false) halt hrep safeNone
    exact ⟨hsup, fun _ => hw.2, halt', fun hcb => (hflag hcb).trans hw.1.symm⟩
  | unlock =>
    simp only [hpc] at hs hw hrep
    obtain rfl := Option.some.inj hs
    exact ⟨hsup, hw, halt, hrep⟩

/-- A trigger takes the mutex. -/
theorem holderInv_trigger (hi : HolderInv cb s) (hidle : s.writer = .idle) {reason : Int}
    (hne : reason ≠ safeNone) :
    HolderInv cb { s with
      writer := .triggerGetActive reason
      supplied := reason :: s.supplied } := by
  obtain ⟨hsup, hw, halt, hrep⟩ := hi
  unfold WriterInv at hw
  unfold SafeRun.reported at hrep
  simp only [hidle] at hw hrep
  refine ⟨fun h => ?_, ⟨hw, hne, List.mem_cons_self⟩, halt, hrep⟩
  exact ⟨(hsup h).1, List.mem_cons_of_mem _ (hsup h).2⟩

/-- A clear takes the mutex. -/
theorem holderInv_clear (hi : HolderInv cb s) (hidle : s.writer = .idle) :
    HolderInv cb { s with writer := .clearGetActive } := by
  obtain ⟨hsup, hw, halt, hrep⟩ := hi
  unfold WriterInv at hw
  unfold SafeRun.reported at hrep
  simp only [hidle] at hw hrep
  exact ⟨hsup, hw, halt, hrep⟩

/-- A reader knows of a step of a writer by what it meets after it. It is
not quiet, for the mutex is held before the step or after it. -/
theorem ReaderInv.meet {x : Reader} (hx : ReaderInv s x)
    (hsup : ∀ v, s.Supplied v → s'.Supplied v)
    (hbusy : s.writer ≠ .idle ∨ s'.writer ≠ .idle) : ReaderInv s' (x.meet s') := by
  have hloud : x.pc ≠ .idle → (x.meet s').quiet ≠ true := by
    intro hpc hquiet
    obtain ⟨hq, hidle⟩ := Bool.and_eq_true_iff.mp hquiet
    rcases hbusy with h | h
    · exact h (hx.quiet hpc hq)
    · exact h (of_decide_eq_true hidle)
  have hactive : (x.meet s').active = true → x.active = true ∧ s'.active = true :=
    Bool.and_eq_true_iff.mp
  have hne : ∀ {pc}, (x.meet s').pc = pc → pc ≠ .idle → x.pc ≠ .idle := by
    rintro pc rfl h
    exact h
  constructor
  · exact fun _ h => (hactive h).2
  · exact fun hpc h => absurd h (hloud hpc)
  · exact fun hpc h => absurd h (hloud (hne hpc (by simp)))
  · exact fun v hpc h => hsup v (hx.active_ret v hpc (hactive h).1)
  · exact fun v hpc h => absurd h (hloud (hne hpc (by simp)))

/-- **What a reader's statement does** to what it may rely on. -/
theorem ReaderInv.next {x : Reader} (hx : ReaderInv s x)
    (hsup : s.active = true → s.Supplied s.reason) : ReaderInv s (x.next s) := by
  unfold Reader.next
  cases hpc : x.pc with
  | idle => exact ⟨fun _ h => h, fun _ h => of_decide_eq_true h, by simp, by simp, by simp⟩
  | getActive =>
    have hquiet : x.quiet = true → s.writer = .idle := hx.quiet (by simp [hpc])
    have hactive : x.active = true → s.active = true := hx.active (by simp [hpc])
    by_cases hact : s.active = true
    · simp only [if_pos hact]
      exact ⟨fun _ _ => hact, fun _ => hquiet, fun _ _ => hact, by simp, by simp⟩
    · simp only [if_neg hact]
      refine ⟨fun _ => hactive, fun _ => hquiet, by simp, ?_, ?_⟩
      · exact fun _ _ h => absurd (hactive h) hact
      · intro v hv _
        obtain rfl := ReaderPc.ret.inj hv
        exact iff_of_true rfl (eq_false_of_ne_true hact)
  | getReason =>
    have hquiet : x.quiet = true → s.writer = .idle := hx.quiet (by simp [hpc])
    have hactive : x.active = true → s.active = true := hx.active (by simp [hpc])
    refine ⟨fun _ => hactive, fun _ => hquiet, by simp, ?_, ?_⟩
    · intro v hv h
      obtain rfl := ReaderPc.ret.inj hv
      exact hsup (hactive h)
    · intro v hv h
      obtain rfl := ReaderPc.ret.inj hv
      have hact := hx.quiet_getReason hpc h
      exact iff_of_false (hsup hact).1 (by simp [hact])
  | ret v => exact ⟨by simp, by simp, by simp, by simp, by simp⟩

/-- Neither part depends on the other readers. -/
theorem HolderInv.withReaders (hi : HolderInv cb s) (readers : ρ → Reader) :
    HolderInv cb { s with readers := readers } :=
  ⟨hi.supplied, hi.writer, hi.alternates, hi.reported⟩

theorem ReaderInv.withReaders {x : Reader} (hx : ReaderInv s x) (readers : ρ → Reader) :
    ReaderInv { s with readers := readers } x :=
  ⟨hx.active, hx.quiet, hx.quiet_getReason, hx.active_ret, hx.quiet_ret⟩

/-- The holder changes neither the reasons on record nor the readers. -/
theorem writerStep_keeps (hs : writerStep cb s = some s') :
    s.writer ≠ .idle ∧ s'.supplied = s.supplied ∧ s'.readers = s.readers := by
  unfold writerStep at hs
  cases hpc : s.writer <;> simp only [hpc] at hs <;> cases hs <;> simp

/-- A step of a writer, met by all readers. -/
theorem SafeInv.meet {t : SafeRun ρ} (hi : SafeInv cb s) (ht : HolderInv cb t)
    (hreaders : t.readers = s.readers) (hsup : ∀ v, s.Supplied v → t.Supplied v)
    (hbusy : s.writer ≠ .idle ∨ t.writer ≠ .idle) : SafeInv cb t.meet := by
  refine ⟨ht.withReaders _, fun r => ReaderInv.withReaders ?_ _⟩
  show ReaderInv t ((t.readers r).meet t)
  rw [hreaders]
  exact (hi.readers r).meet hsup hbusy

variable [DecidableEq ρ]

theorem safeInv_init : SafeInv cb (safeMachine cb ρ).init where
  holder := ⟨by simp [safeMachine], fun _ => rfl, fun _ => alternates_nil, fun _ => rfl⟩
  readers _ := ⟨by simp [safeMachine], by simp [safeMachine], by simp [safeMachine],
    by simp [safeMachine], by simp [safeMachine]⟩

theorem safeInv_step {a : SafeAct ρ} (hi : SafeInv cb s) (hs : safeStep cb s a = some s') :
    SafeInv cb s' := by
  cases a with
  | trigger reason =>
    simp only [safeStep] at hs
    split at hs
    · rename_i hgo
      obtain rfl := Option.some.inj hs
      refine hi.meet (holderInv_trigger hi.holder hgo.1 hgo.2) rfl ?_ (Or.inr ?_)
      · exact fun v hv => ⟨hv.1, List.mem_cons_of_mem _ hv.2⟩
      · exact WriterPc.noConfusion
    · cases hs
  | clear =>
    simp only [safeStep] at hs
    split at hs
    · rename_i hidle
      obtain rfl := Option.some.inj hs
      refine hi.meet (holderInv_clear hi.holder hidle) rfl (fun v hv => hv) (Or.inr ?_)
      exact WriterPc.noConfusion
    · cases hs
  | write =>
    obtain ⟨t, ht, rfl⟩ := Option.map_eq_some_iff.mp hs
    obtain ⟨hbusy, hsup, hreaders⟩ := writerStep_keeps ht
    refine hi.meet (holderInv_write hi.holder ht) hreaders (fun v hv => ⟨hv.1, ?_⟩) (Or.inl hbusy)
    exact hsup ▸ hv.2
  | read r =>
    obtain rfl := Option.some.inj hs
    refine ⟨hi.holder.withReaders _, fun q => ReaderInv.withReaders ?_ _⟩
    dsimp only
    by_cases hq : q = r
    · subst hq
      rw [Function.update_self]
      exact (hi.readers q).next hi.holder.supplied
    · rw [Function.update_of_ne hq]
      exact hi.readers q

theorem safeInv_reachable (hr : (safeMachine cb ρ).Reachable s) : SafeInv cb s :=
  Machine.Reachable.induct safeInv_init (fun _ _ _ hi hs => safeInv_step hi hs) hr

end Preserve

/-! ## Alone -/

/-- The value of the enumerator. -/
def SafeReason.toInt : SafeReason → Int
  | .none => safeNone
  | .criticalPeerLost => 1
  | .deadlineBudgetExceeded => 2
  | .commFailure => 3

def SafeCall.toCb (c : SafeCall) : CbCall := ⟨c.active, c.reason.toInt⟩

/-- The two atomics hold the sequential state, and nobody has the mutex. -/
structure SafeRun.Shows {ρ : Type} (s : SafeRun ρ) (x : SafeState) : Prop where
  idle : s.writer = .idle
  active : s.active = x.active
  reason : s.reason = x.reason.toInt

section Alone

variable {ρ : Type} [DecidableEq ρ] {s : SafeRun ρ} {x : SafeState}

theorem toInt_inj {a b : SafeReason} : a.toInt = b.toInt ↔ a = b := by
  cases a <;> cases b <;> decide

/-- A trigger that runs alone is the sequential one. -/
theorem trigger_sequential (hs : s.Shows x) (hinit : x.initialized = true) {reason : SafeReason}
    (hne : reason ≠ .none) :
    ∃ n t, (safeMachine x.cbRegistered ρ).runFrom s
        (.trigger reason.toInt :: List.replicate n .write) = some t ∧
      t.Shows (ceellSafeStateTrigger reason x).1 ∧
      t.calls = s.calls ++ ((ceellSafeStateTrigger reason x).2.map SafeCall.toCb).toList := by
  have hne' : reason.toInt ≠ safeNone := fun h => hne (toInt_inj.mp (h.trans rfl))
  obtain ⟨hidle, hactive, hreason⟩ := hs
  have hgo : safeStep x.cbRegistered s (.trigger reason.toInt) = some { s with
      writer := .triggerGetActive reason.toInt
      supplied := reason.toInt :: s.supplied }.meet := if_pos ⟨hidle, hne'⟩
  cases hact : x.active with
  | false =>
    have htrigger : ceellSafeStateTrigger reason x = ({ x with reason := reason, active := true },
        if x.cbRegistered then some ⟨true, reason⟩ else none) := by
      simp [ceellSafeStateTrigger, hinit, hact]
    rw [hact] at hactive
    refine ⟨5, ?_⟩
    rw [Machine.runFrom_cons hgo, htrigger]
    simp only [List.replicate, Machine.runFrom, safeMachine, safeStep, writerStep, SafeRun.meet,
      hactive, Option.map_some, Option.bind_some, Bool.false_eq_true, if_false, Option.some.injEq,
      exists_eq_left']
    refine ⟨⟨rfl, rfl, rfl⟩, ?_⟩
    cases x.cbRegistered <;> simp [SafeCall.toCb]
  | true =>
    rw [hact] at hactive
    by_cases heq : x.reason = reason
    · have htrigger : ceellSafeStateTrigger reason x = (x, none) := by
        simp [ceellSafeStateTrigger, hinit, hact, heq]
      refine ⟨3, ?_⟩
      rw [Machine.runFrom_cons hgo, htrigger]
      simp only [List.replicate, Machine.runFrom, safeMachine, safeStep, writerStep, SafeRun.meet,
        hactive, hreason, heq, Option.map_some, Option.bind_some, if_true, Option.some.injEq,
        exists_eq_left']
      exact ⟨⟨rfl, hact.symm, by rw [heq]⟩, by simp⟩
    · have hneq : ¬ x.reason.toInt = reason.toInt := fun h => heq (toInt_inj.mp h)
      have htrigger : ceellSafeStateTrigger reason x = ({ x with reason := reason }, none) := by
        simp [ceellSafeStateTrigger, hinit, hact, heq]
      refine ⟨4, ?_⟩
      rw [Machine.runFrom_cons hgo, htrigger]
      simp only [List.replicate, Machine.runFrom, safeMachine, safeStep, writerStep, SafeRun.meet,
        hactive, hreason, hneq, Option.map_some, Option.bind_some, if_true, if_false,
        Option.some.injEq, exists_eq_left']
      exact ⟨⟨rfl, hact.symm, rfl⟩, by simp⟩

/-- A clear that runs alone is the sequential one. -/
theorem clear_sequential (hs : s.Shows x) (hinit : x.initialized = true) :
    ∃ n t, (safeMachine x.cbRegistered ρ).runFrom s (.clear :: List.replicate n .write) = some t ∧
      t.Shows (ceellSafeStateClear x).1 ∧
      t.calls = s.calls ++ ((ceellSafeStateClear x).2.map SafeCall.toCb).toList := by
  obtain ⟨hidle, hactive, hreason⟩ := hs
  have hgo : safeStep x.cbRegistered s .clear = some { s with writer := .clearGetActive }.meet :=
    if_pos hidle
  cases hact : x.active with
  | false =>
    have hclear : ceellSafeStateClear x = (x, none) := by
      simp [ceellSafeStateClear, hinit, hact]
    rw [hact] at hactive
    refine ⟨2, ?_⟩
    rw [Machine.runFrom_cons hgo, hclear]
    simp only [List.replicate, Machine.runFrom, safeMachine, safeStep, writerStep, SafeRun.meet,
      hactive, Option.map_some, Option.bind_some, Bool.false_eq_true, if_false, Option.some.injEq,
      exists_eq_left']
    exact ⟨⟨rfl, hact.symm, hreason⟩, by simp⟩
  | true =>
    have hclear : ceellSafeStateClear x = ({ x with active := false, reason := .none },
        if x.cbRegistered then some ⟨false, .none⟩ else none) := by
      simp [ceellSafeStateClear, hinit, hact]
    rw [hact] at hactive
    refine ⟨6, ?_⟩
    rw [Machine.runFrom_cons hgo, hclear]
    simp only [List.replicate, Machine.runFrom, safeMachine, safeStep, writerStep, SafeRun.meet,
      hactive, Option.map_some, Option.bind_some, if_true, Option.some.injEq, exists_eq_left']
    refine ⟨⟨rfl, rfl, rfl⟩, ?_⟩
    cases x.cbRegistered <;> simp [SafeCall.toCb, SafeReason.toInt]

/-- A reader that runs alone returns what the sequential function does. -/
theorem reason_sequential {cb : Bool} (hs : s.Shows x) {r : ρ}
    (hcall : (s.readers r).pc = .idle) :
    ∃ n t, (safeMachine cb ρ).runFrom s (List.replicate n (.read r)) = some t ∧
      t.Shows x ∧ (t.readers r).pc = .ret (ceellSafeStateReason x).toInt := by
  obtain ⟨hidle, hactive, hreason⟩ := hs
  cases hact : x.active with
  | false =>
    rw [hact] at hactive
    refine ⟨2, ?_⟩
    simp only [List.replicate, Machine.runFrom, safeMachine, safeStep, Reader.next, hcall, hactive,
      Function.update_self, Option.bind_some, Bool.false_eq_true, if_false, Option.some.injEq,
      exists_eq_left']
    refine ⟨⟨hidle, hact.symm, hreason⟩, ?_⟩
    simp [ceellSafeStateReason, ceellSafeStateActive, hact, SafeReason.toInt]
  | true =>
    rw [hact] at hactive
    refine ⟨3, ?_⟩
    simp only [List.replicate, Machine.runFrom, safeMachine, safeStep, Reader.next, hcall, hactive,
      Function.update_self, Option.bind_some, if_true, Option.some.injEq, exists_eq_left']
    refine ⟨⟨hidle, hact.symm, hreason⟩, ?_⟩
    simp [ceellSafeStateReason, ceellSafeStateActive, hact, hreason]

end Alone

/-- **Safe state under every interleaving** of mutex-serialised triggers and
clears with readers that take no lock: a reader in whose whole call safe
state is active returns a reason some trigger supplied; a reader in whose
call no trigger or clear is in progress returns `CEELL_SAFE_NONE` exactly
if safe state is inactive; and the calls of a registered callback alternate
and end, whenever no trigger or clear is in progress, with the one that
`ceell_safe_state_active` agrees with. -/
theorem safeState_ok {ρ : Type} [DecidableEq ρ] {cb : Bool} {s : SafeRun ρ}
    (hr : (safeMachine cb ρ).Reachable s) :
    (∀ r v, (s.readers r).pc = .ret v → (s.readers r).active = true →
      v ≠ safeNone ∧ v ∈ s.supplied) ∧
    (∀ r v, (s.readers r).pc = .ret v → (s.readers r).quiet = true →
      (v = safeNone ↔ s.active = false)) ∧
    (cb = true → Alternates (s.calls.map (·.active)) ∧
      (s.writer = .idle → loggedFlag (s.calls.map (·.active)) = s.active)) := by
  have hi := safeInv_reachable hr
  refine ⟨fun r => (hi.readers r).active_ret, fun r => (hi.readers r).quiet_ret, fun hcb => ?_⟩
  refine ⟨hi.holder.alternates hcb, fun hidle => ?_⟩
  rw [hi.holder.reported hcb, SafeRun.reported, hidle]

/-- A second trigger replaces the reason between the two loads of a reader,
and another reader calls after it. -/
def updateBetweenLoads : List (SafeAct Bool) :=
  [.trigger 1, .write, .write, .write, .write, .write, .read false, .read false,
   .trigger 3, .write, .write, .write, .write, .read false, .read true, .read true, .read true]

theorem safeState_ok_update :
    ∃ s, (safeMachine true Bool).run updateBetweenLoads = some s ∧
      (s.readers false).pc = .ret 3 ∧ 3 ≠ safeNone ∧ 3 ∈ s.supplied ∧
      (s.readers true).pc = .ret 3 ∧ (3 = safeNone ↔ s.active = false) ∧
      Alternates (s.calls.map (·.active)) ∧ loggedFlag (s.calls.map (·.active)) = s.active := by
  obtain ⟨s, hs⟩ : ∃ s, (safeMachine true Bool).run updateBetweenLoads = some s :=
    Option.isSome_iff_exists.mp (by decide)
  have hend : ((safeMachine true Bool).run updateBetweenLoads).map
      (fun s => (s.writer, s.readers false, s.readers true))
      = some (.idle, ⟨.ret 3, true, false⟩, ⟨.ret 3, true, true⟩) := by decide
  simp only [hs, Option.map_some, Option.some.injEq, Prod.mk.injEq] at hend
  obtain ⟨hidle, hfalse, htrue⟩ := hend
  obtain ⟨hactive, hquiet, hcb⟩ := safeState_ok ⟨_, hs⟩
  obtain ⟨hne, hmem⟩ := hactive false 3 (by rw [hfalse]) (by rw [hfalse])
  obtain ⟨halt, hlast⟩ := hcb rfl
  exact ⟨s, hs, by rw [hfalse], hne, hmem, by rw [htrue],
    hquiet true 3 (by rw [htrue]) (by rw [htrue]), halt, hlast hidle⟩

end Ceell.Core
