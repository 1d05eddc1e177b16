/-
Ceell.Ota.Thread — `ota_thread_entry` and `ceell_ota_trigger_check` of
`ceell/ota/ota_client.c`: when a check is made.

The thread waits for the semaphore or for the interval, makes a check, and
sleeps after a failure. Triggers come from other threads at any time.
`otaThread_paced` says how far apart checks are, whatever the triggers;
`otaThread_triggers` that a trigger is answered by a check that begins after
it, unless the node reboots first.
-/
import Ceell.Osal.Sync
import Ceell.Ota.Cycle

namespace Ceell.Ota

open Ceell.Lib Ceell.Osal

/-! ## The thread -/

/-- The next statement of `ota_thread_entry`. -/
inductive OtaPc where
  | take -- at ceell_sem_take
  | waiting (since : Int) -- in it
  | checking -- in ota_check_and_update
  | sleeping (since : Int) (sec : Int) -- in ceell_sleep
  deriving DecidableEq

/-- A check: its start, whether a trigger began it, and its end with whether
it failed. -/
structure OtaCheck where
  start : Int
  manual : Bool
  finish : Option (Int × Bool)
  deriving DecidableEq

/-- The thread's locals, `check_trigger`, and the globals of the update. -/
structure OtaThread where
  /-- the time of the last step -/
  clock : Int
  pc : OtaPc
  checkTrigger : Sem Unit
  failCount : Int
  world : OtaWorld
  /-- the checks so far, the newest first -/
  checks : List OtaCheck
  /-- the triggers so far -/
  triggers : Nat
  /-- a trigger has come that no check was begun for -/
  pending : Bool

inductive OtaThreadAct where
  | trigger (now : Int)
  | take (now : Int)
  | timeout (now : Int)
  | finish (now : Int) (p : Platform)
  | wake (now : Int)

/-- The uptime of a step. -/
def OtaThreadAct.now : OtaThreadAct → Int
  | .trigger now | .take now | .timeout now | .finish now _ | .wake now => now

/-- The thread enters `ota_check_and_update`. -/
def OtaThread.beginCheck (now : Int) (manual : Bool) (s : OtaThread) : OtaThread :=
  { s with
    clock := now
    pc := .checking
    checks := ⟨now, manual, none⟩ :: s.checks
    pending := s.pending && !manual }

/-- The end of the check in progress is put on record. -/
def finishCheck (now : Int) (failed : Bool) : List OtaCheck → List OtaCheck
  | [] => []
  | c :: checks => { c with finish := some (now, failed) } :: checks

/-- `ceell_ota_init`, where `ceell_boot_is_confirmed` and `ceell_boot_confirm`
answer these: what it returns. It has started the thread if that is 0.
`autoConfirm` is `CONFIG_CEELL_OTA_AUTO_CONFIRM`. -/
def ceellOtaInit (autoConfirm isConfirmed : Bool) (confirm : Int) : Int :=
  if autoConfirm && !isConfirmed && decide (confirm < 0) then confirm else 0

/-- The thread after `ceell_ota_init`. -/
def OtaThread.boot (now : Int) : OtaThread :=
  { clock := now, pc := .take, checkTrigger := Sem.init, failCount := 0, world := {}
    checks := [], triggers := 0, pending := false }

/-- `int backoff`, cut to an hour. -/
def backoffSec (interval : Nat) (failCount : Int) : Int :=
  let backoff := failCount * interval
  if backoff > 3600 then 3600 else backoff

/-- `ceell_ota_trigger_check`: the thread goes on if it waits. -/
def ceellOtaTriggerCheck (now : Int) (s : OtaThread) : Option OtaThread :=
  let s := { s with triggers := s.triggers + 1, pending := true }
  if s.checkTrigger.waiters = [] then
    (s.checkTrigger.give none).map fun sem => { s with clock := now, checkTrigger := sem }
  else
    (s.checkTrigger.give (some ())).map fun sem =>
      OtaThread.beginCheck now true { s with checkTrigger := sem }

/-- One step; `interval` is `CONFIG_CEELL_OTA_CHECK_INTERVAL_SEC`. Past
`INT_MAX` the product of `fail_count` is undefined. -/
def otaThreadStep (cfg : OtaConfig) (lib : JsonLib) (interval : Nat) (s : OtaThread)
    (a : OtaThreadAct) : Option OtaThread :=
  if a.now < s.clock then none
  else
    match a, s.pc with
    | .trigger now, _ => ceellOtaTriggerCheck now s
    | .take now, .take =>
        let r := s.checkTrigger.take ()
        let s := { s with checkTrigger := r.1 }
        if r.2 then some (s.beginCheck now true)
        else some { s with clock := now, pc := .waiting now }
    | .timeout now, .waiting since =>
        if since + 1000 * interval ≤ now then
          some ({ s with checkTrigger := s.checkTrigger.leave () }.beginCheck now false)
        else none
    | .finish now p, .checking =>
        match otaCheckAndUpdate cfg lib p s.world with
        | (.returned ret, w) =>
            if ret < 0 then
              let failCount := s.failCount + 1
              if failCount * interval ≥ 2 ^ 31 then none
              else
                some { s with
                  clock := now
                  pc := .sleeping now (backoffSec interval failCount)
                  failCount := failCount
                  world := w
                  checks := finishCheck now true s.checks }
            else
              some { s with
                clock := now
                pc := .take
                failCount := 0
                world := w
                checks := finishCheck now false s.checks }
        | (.rebooted, _) =>
            some { OtaThread.boot now with
              checks := finishCheck now false s.checks
              triggers := s.triggers }
        | (.fault, _) => none
    | .wake now, .sleeping since sec =>
        if since + 1000 * sec ≤ now then some { s with clock := now, pc := .take } else none
    | _, _ => none

/-- Runs of the thread and of triggers, from boot. -/
def otaThreadMachine (cfg : OtaConfig) (lib : JsonLib) (interval : Nat) :
    Machine OtaThread OtaThreadAct where
  init := .boot 0
  step := otaThreadStep cfg lib interval

/-! ## What is on record -/

def OtaCheck.failed (c : OtaCheck) : Bool := c.finish.any (·.2)

/-- The failures in a row before now. -/
def failures : List OtaCheck → Nat
  | [] => 0
  | c :: checks => if c.failed then failures checks + 1 else 0

/-- The pause after so many failures in a row, in seconds. -/
def pauseSec (interval : Nat) (n : Nat) : Int := min (n * interval) 3600

/-- When the thread is at `ceell_sem_take` again after these checks, at the
earliest. -/
def earliest (interval : Nat) : List OtaCheck → Int
  | [] => 0
  | c :: checks =>
      (c.finish.map (·.1)).getD c.start + 1000 * pauseSec interval (failures (c :: checks))

/-- No check begins before that, nor, without a trigger, before the interval
has passed. -/
def Paced (interval : Nat) : List OtaCheck → Prop
  | [] => True
  | c :: checks =>
      (∀ d ∈ checks.head?, d.finish ≠ none) ∧
      earliest interval checks + (if c.manual then 0 else 1000 * interval) ≤ c.start ∧
      Paced interval checks

/-- The checks that triggers began. -/
def manualChecks (checks : List OtaCheck) : Nat := checks.countP (·.manual)

/-- What the thread relies on at its statements. -/
def PcInv (interval : Nat) (s : OtaThread) : Prop :=
  match s.pc with
  | .take =>
      s.checkTrigger = ⟨s.pending, []⟩ ∧ earliest interval s.checks ≤ s.clock
  | .waiting since =>
      s.checkTrigger = ⟨false, [()]⟩ ∧ s.pending = false ∧
        earliest interval s.checks ≤ since ∧ since ≤ s.clock
  | .checking =>
      s.checkTrigger = ⟨s.pending, []⟩ ∧
        ∃ start manual checks, s.checks = ⟨start, manual, none⟩ :: checks
  | .sleeping since sec =>
      s.checkTrigger = ⟨s.pending, []⟩ ∧ earliest interval s.checks ≤ since + 1000 * sec

/-- The failures that `fail_count` stands for. -/
def OtaThread.counted (s : OtaThread) : List OtaCheck :=
  if s.pc = .checking then s.checks.tail else s.checks

/-- The invariant of the thread. -/
structure ThreadInv (interval : Nat) (s : OtaThread) : Prop where
  pc : PcInv interval s
  failCount : s.failCount = failures s.counted
  paced : Paced interval s.checks
  closed : s.pc ≠ .checking → ∀ c ∈ s.checks.head?, c.finish ≠ none
  triggers : manualChecks s.checks + s.pending.toNat ≤ s.triggers

/-! ## The steps keep it -/

section Steps

variable {cfg : OtaConfig} {lib : JsonLib} {interval : Nat} {s s' : OtaThread} {now : Int}

/-! ### What each step does -/

/-- Time does not go back. -/
theorem clock_le {a : OtaThreadAct} (hs : otaThreadStep cfg lib interval s a = some s') :
    s.clock ≤ a.now := by
  by_contra hlt
  unfold otaThreadStep at hs
  rw [if_pos (Int.not_le.mp hlt)] at hs
  cases hs

theorem otaThreadStep_trigger
    (hs : otaThreadStep cfg lib interval s (.trigger now) = some s') :
    ceellOtaTriggerCheck now s = some s' := by
  have hclock := clock_le hs
  unfold otaThreadStep at hs
  rwa [if_neg (Int.not_lt.mpr hclock)] at hs

theorem otaThreadStep_take (hs : otaThreadStep cfg lib interval s (.take now) = some s') :
    s.pc = .take ∧
      s' = if (s.checkTrigger.take ()).2 then
          { s with checkTrigger := (s.checkTrigger.take ()).1 }.beginCheck now true
        else
          { s with
            checkTrigger := (s.checkTrigger.take ()).1, clock := now, pc := .waiting now } := by
  have hclock := clock_le hs
  unfold otaThreadStep at hs
  rw [if_neg (Int.not_lt.mpr hclock)] at hs
  cases hat : s.pc <;> simp only [hat, reduceCtorEq] at hs
  refine ⟨rfl, ?_⟩
  split at hs
  · rename_i htaken
    rw [if_pos htaken, ← hat]
    exact (Option.some.inj hs).symm
  · rename_i htaken
    rw [if_neg htaken]
    exact (Option.some.inj hs).symm

theorem otaThreadStep_timeout
    (hs : otaThreadStep cfg lib interval s (.timeout now) = some s') :
    ∃ since, s.pc = .waiting since ∧ since + 1000 * interval ≤ now ∧
      s' = { s with checkTrigger := s.checkTrigger.leave () }.beginCheck now false := by
  have hclock := clock_le hs
  unfold otaThreadStep at hs
  rw [if_neg (Int.not_lt.mpr hclock)] at hs
  cases hat : s.pc <;> simp only [hat, reduceCtorEq] at hs
  split at hs
  · rename_i hlate
    exact ⟨_, rfl, hlate, hat ▸ (Option.some.inj hs).symm⟩
  · cases hs

theorem otaThreadStep_wake (hs : otaThreadStep cfg lib interval s (.wake now) = some s') :
    ∃ since sec, s.pc = .sleeping since sec ∧ since + 1000 * sec ≤ now ∧
      s' = { s with clock := now, pc := .take } := by
  have hclock := clock_le hs
  unfold otaThreadStep at hs
  rw [if_neg (Int.not_lt.mpr hclock)] at hs
  cases hat : s.pc <;> simp only [hat, reduceCtorEq] at hs
  split at hs
  · rename_i hlate
    exact ⟨_, _, rfl, hlate, (Option.some.inj hs).symm⟩
  · cases hs

/-- A check ends in a failure, in a success, or in a reboot. -/
theorem otaThreadStep_finish {p : Platform}
    (hs : otaThreadStep cfg lib interval s (.finish now p) = some s') :
    s.pc = .checking ∧
      ((∃ ret w, otaCheckAndUpdate cfg lib p s.world = (.returned ret, w) ∧ ret < 0 ∧
          s' = { s with
            clock := now
            pc := .sleeping now (backoffSec interval (s.failCount + 1))
            failCount := s.failCount + 1
            world := w
            checks := finishCheck now true s.checks }) ∨
        (∃ ret w, otaCheckAndUpdate cfg lib p s.world = (.returned ret, w) ∧ ¬ ret < 0 ∧
          s' = { s with
            clock := now
            pc := .take
            failCount := 0
            world := w
            checks := finishCheck now false s.checks }) ∨
        ∃ w, otaCheckAndUpdate cfg lib p s.world = (.rebooted, w) ∧
          s' = { OtaThread.boot now with
            checks := finishCheck now false s.checks
            triggers := s.triggers }) := by
  have hclock := clock_le hs
  unfold otaThreadStep at hs
  rw [if_neg (Int.not_lt.mpr hclock)] at hs
  cases hat : s.pc <;> simp only [hat, reduceCtorEq] at hs
  refine ⟨rfl, ?_⟩
  split at hs
  · rename_i ret w hcycle
    split at hs
    · rename_i hret
      split at hs
      · cases hs
      · exact Or.inl ⟨ret, w, hcycle, hret, (Option.some.inj hs).symm⟩
    · rename_i hret
      exact Or.inr (Or.inl ⟨ret, w, hcycle, hret, (Option.some.inj hs).symm⟩)
  · rename_i w hcycle
    exact Or.inr (Or.inr ⟨w, hcycle, (Option.some.inj hs).symm⟩)
  · cases hs

theorem triggers_trigger (hs : otaThreadStep cfg lib interval s (.trigger now) = some s') :
    s'.triggers = s.triggers + 1 := by
  have hs := otaThreadStep_trigger hs
  unfold ceellOtaTriggerCheck at hs
  dsimp only at hs
  split at hs
  · obtain ⟨_, _, rfl⟩ := Option.map_eq_some_iff.mp hs
    rfl
  · obtain ⟨_, _, rfl⟩ := Option.map_eq_some_iff.mp hs
    rfl

theorem triggers_other {a : OtaThreadAct} (ha : ∀ now, a ≠ .trigger now)
    (hs : otaThreadStep cfg lib interval s a = some s') : s'.triggers = s.triggers := by
  cases a with
  | trigger now => exact absurd rfl (ha now)
  | take now =>
    obtain ⟨_, rfl⟩ := otaThreadStep_take hs
    split <;> rfl
  | timeout now =>
    obtain ⟨_, _, _, rfl⟩ := otaThreadStep_timeout hs
    rfl
  | finish now p =>
    obtain ⟨_, ⟨_, _, _, _, rfl⟩ | ⟨_, _, _, _, rfl⟩ | ⟨_, _, rfl⟩⟩ := otaThreadStep_finish hs
    · rfl
    · rfl
    · rfl
  | wake now =>
    obtain ⟨_, _, _, _, rfl⟩ := otaThreadStep_wake hs
    rfl

/-! ### The invariant -/

theorem backoffSec_eq (interval n : Nat) : backoffSec interval n = pauseSec interval n := by
  simp only [backoffSec, pauseSec]
  split <;> omega

theorem pauseSec_zero (interval : Nat) : pauseSec interval 0 = 0 := by
  simp [pauseSec]

theorem manualChecks_cons (c : OtaCheck) (checks : List OtaCheck) :
    manualChecks (c :: checks) = manualChecks checks + c.manual.toNat := by
  cases h : c.manual <;> simp [manualChecks, h]

/-- The start of a check. -/
theorem ThreadInv.beginCheck (h : ThreadInv interval s) (hpc : s.pc ≠ .checking) {manual : Bool}
    {sem : Sem Unit} {pending : Bool} {triggers : Nat}
    (hstart : earliest interval s.checks + (if manual then 0 else 1000 * interval) ≤ now)
    (hsem : sem = ⟨pending && !manual, []⟩)
    (htriggers : manualChecks s.checks + manual.toNat + (pending && !manual).toNat ≤ triggers) :
    ThreadInv interval
      ({ s with checkTrigger := sem, pending := pending, triggers := triggers }.beginCheck now
        manual) := by
  have hcount := h.failCount
  rw [OtaThread.counted, if_neg hpc] at hcount
  constructor
  · exact ⟨hsem, now, manual, s.checks, rfl⟩
  · exact hcount
  · exact ⟨h.closed hpc, hstart, h.paced⟩
  · exact fun hne => absurd rfl hne
  · show manualChecks (⟨now, manual, none⟩ :: s.checks) + _ ≤ _
    rw [manualChecks_cons]
    exact htriggers

/-- **A trigger** is pending afterwards, or a check has begun. -/
theorem threadInv_trigger (h : ThreadInv interval s) (hclock : s.clock ≤ now)
    (hs : ceellOtaTriggerCheck now s = some s') :
    ThreadInv interval s' ∧
      (s'.pending = true ∧ s'.checks = s.checks ∨
        s'.checks = ⟨now, true, none⟩ :: s.checks) := by
  obtain ⟨hpc, hcount, hpaced, hclosed, htriggers⟩ := h
  have hmore : manualChecks s.checks + 1 ≤ s.triggers + 1 := by omega
  have hidle : s.checkTrigger.waiters = [] → s' = { s with
      clock := now, triggers := s.triggers + 1, pending := true
      checkTrigger := { s.checkTrigger with count := true } } := by
    intro hw
    simp only [ceellOtaTriggerCheck, hw, if_true, Sem.give, Option.map_some] at hs
    rw [← hw] at hs
    exact (Option.some.inj hs).symm
  unfold PcInv at hpc
  cases hat : s.pc with
  | take =>
    simp only [hat] at hpc
    obtain ⟨hsem, hearly⟩ := hpc
    obtain rfl := hidle (by rw [hsem])
    refine ⟨⟨?_, hcount, hpaced, hclosed, hmore⟩, Or.inl ⟨rfl, rfl⟩⟩
    simp only [PcInv, hat, hsem]
    exact ⟨trivial, Int.le_trans hearly hclock⟩
  | checking =>
    simp only [hat] at hpc
    obtain ⟨hsem, hopen⟩ := hpc
    obtain rfl := hidle (by rw [hsem])
    refine ⟨⟨?_, hcount, hpaced, hclosed, hmore⟩, Or.inl ⟨rfl, rfl⟩⟩
    simp only [PcInv, hat, hsem]
    exact ⟨trivial, hopen⟩
  | sleeping since sec =>
    simp only [hat] at hpc
    obtain ⟨hsem, hearly⟩ := hpc
    obtain rfl := hidle (by rw [hsem])
    refine ⟨⟨?_, hcount, hpaced, hclosed, hmore⟩, Or.inl ⟨rfl, rfl⟩⟩
    simp only [PcInv, hat, hsem]
    exact ⟨trivial, hearly⟩
  | waiting since =>
    -- the give wakes the thread, and the semaphore stays as it is
    simp only [hat] at hpc
    obtain ⟨hsem, hpending, hearly, hsince⟩ := hpc
    have hne : s.pc ≠ .checking := by simp [hat]
    have hwake : s' = ({ s with
        checkTrigger := ⟨false, []⟩, pending := true
        triggers := s.triggers + 1 }.beginCheck now true) := by
      simp only [ceellOtaTriggerCheck, hsem, List.cons_ne_nil, if_false, Sem.give,
        List.mem_singleton, if_true, Option.map_some] at hs
      exact (Option.some.inj hs).symm
    subst hwake
    refine ⟨ThreadInv.beginCheck ⟨by simpa only [PcInv, hat] using ⟨hsem, hpending, hearly, hsince⟩,
      hcount, hpaced, hclosed, htriggers⟩ hne ?_ rfl ?_, Or.inr rfl⟩
    · simp only [if_true]
      omega
    · simpa using hmore

/-- What `ceell_sem_take` does: a pending trigger begins a check, and without
one the thread waits. -/
theorem threadInv_take (h : ThreadInv interval s)
    (hs : otaThreadStep cfg lib interval s (.take now) = some s') :
    ThreadInv interval s' ∧
      (s.pending = true ∧ s'.checks = ⟨now, true, none⟩ :: s.checks ∨
        s.pending = false ∧ s'.pending = false ∧ s'.checks = s.checks) := by
  have hclock : s.clock ≤ now := clock_le hs
  obtain ⟨hat, rfl⟩ := otaThreadStep_take hs
  have hne : s.pc ≠ .checking := by simp [hat]
  have hpc := h.pc
  simp only [PcInv, hat] at hpc
  obtain ⟨hsem, hearly⟩ := hpc
  have htriggers := h.triggers
  by_cases hpending : s.pending = true
  · have htake : s.checkTrigger.take () = (⟨false, []⟩, true) := by
      rw [hsem, hpending]
      rfl
    simp only [htake, if_true]
    rw [hpending] at htriggers
    refine ⟨?_, Or.inl ⟨hpending, rfl⟩⟩
    refine h.beginCheck hne ?_ ?_ ?_
    · simp only [if_true]
      omega
    · simp
    · simpa using htriggers
  · have hpending : s.pending = false := eq_false_of_ne_true hpending
    have htake : s.checkTrigger.take () = (⟨false, [()]⟩, false) := by
      rw [hsem, hpending]
      rfl
    simp only [htake, Bool.false_eq_true, if_false]
    have hcount := h.failCount
    rw [OtaThread.counted, if_neg hne] at hcount
    refine ⟨⟨?_, hcount, h.paced, fun _ => h.closed hne, htriggers⟩,
      Or.inr ⟨hpending, hpending, trivial⟩⟩
    exact ⟨rfl, hpending, Int.le_trans hearly hclock, Int.le_refl _⟩

theorem threadInv_timeout (h : ThreadInv interval s)
    (hs : otaThreadStep cfg lib interval s (.timeout now) = some s') :
    ThreadInv interval s' ∧ s.pending = false ∧ s'.pending = false := by
  obtain ⟨since, hat, hlate, rfl⟩ := otaThreadStep_timeout hs
  have hpc := h.pc
  have htriggers := h.triggers
  simp only [PcInv, hat] at hpc
  obtain ⟨hsem, hpending, hearly, _⟩ := hpc
  refine ⟨?_, hpending, by simp [OtaThread.beginCheck, hpending]⟩
  refine h.beginCheck (by simp [hat]) ?_ ?_ ?_
  · simp only [Bool.false_eq_true, if_false]
    omega
  · simp [hsem, Sem.leave, hpending]
  · simpa using htriggers

theorem threadInv_wake (h : ThreadInv interval s)
    (hs : otaThreadStep cfg lib interval s (.wake now) = some s') :
    ThreadInv interval s' ∧ s'.pending = s.pending := by
  obtain ⟨since, sec, hat, hlate, rfl⟩ := otaThreadStep_wake hs
  have hpc := h.pc
  simp only [PcInv, hat] at hpc
  have hcount := h.failCount
  rw [OtaThread.counted, if_neg (by simp [hat])] at hcount
  exact ⟨⟨⟨hpc.1, Int.le_trans hpc.2 hlate⟩, hcount, h.paced,
    fun _ => h.closed (by simp [hat]), h.triggers⟩, rfl⟩

/-- The record of a check that ends, whatever comes after it. -/
theorem ThreadInv.finish (h : ThreadInv interval s) (hat : s.pc = .checking) {t : OtaThread}
    {f : Bool} (hchecks : t.checks = finishCheck now f s.checks)
    (hpc : t.pc ≠ .checking)
    (hcount : t.failCount = if f then s.failCount + 1 else 0)
    (hsem : t.pc = .take → t.checkTrigger = ⟨t.pending, []⟩ ∧ now ≤ t.clock ∧ f = false)
    (hsleep : ∀ since sec, t.pc = .sleeping since sec →
      t.checkTrigger = ⟨t.pending, []⟩ ∧ f = true ∧ since = now ∧
        sec = backoffSec interval (s.failCount + 1))
    (hwaiting : ∀ since, t.pc ≠ .waiting since) (hpending : t.pending.toNat ≤ s.pending.toNat)
    (htriggers : t.triggers = s.triggers) : ThreadInv interval t := by
  obtain ⟨start, manual, checks, hopen⟩ : ∃ start manual checks,
      s.checks = ⟨start, manual, none⟩ :: checks := by
    have hp := h.pc
    simp only [PcInv, hat] at hp
    exact hp.2
  have hfails : s.failCount = failures checks := by
    have hc := h.failCount
    rwa [OtaThread.counted, if_pos hat, hopen, List.tail_cons] at hc
  have hpaced : Paced interval (⟨start, manual, some (now, f)⟩ :: checks) := by
    have hp := h.paced
    rw [hopen] at hp
    exact hp
  have hall := h.triggers
  rw [hopen, manualChecks_cons] at hall
  rw [hopen] at hchecks
  have hchecks : t.checks = ⟨start, manual, some (now, f)⟩ :: checks := hchecks
  have hearly : earliest interval t.checks
      = now + 1000 * pauseSec interval (if f then failures checks + 1 else 0) := by
    rw [hchecks]
    rfl
  constructor
  · unfold PcInv
    cases hpc' : t.pc with
    | take =>
      obtain ⟨hs, hnow, rfl⟩ := hsem hpc'
      refine ⟨hs, ?_⟩
      rw [hearly]
      simpa [pauseSec_zero] using hnow
    | waiting since => exact absurd hpc' (hwaiting since)
    | checking => exact absurd hpc' hpc
    | sleeping since sec =>
      obtain ⟨hs, rfl, rfl, rfl⟩ := hsleep since sec hpc'
      refine ⟨hs, ?_⟩
      rw [hearly, hfails]
      exact Int.le_of_eq
        (congrArg (_ + 1000 * ·) (backoffSec_eq interval (failures checks + 1)).symm)
  · rw [OtaThread.counted, if_neg hpc, hcount, hchecks, hfails]
    cases f <;> rfl
  · rw [hchecks]
    exact hpaced
  · intro _ c hc
    rw [hchecks] at hc
    obtain rfl : _ = c := by simpa using hc
    simp
  · rw [hchecks, manualChecks_cons, htriggers]
    dsimp only at hall ⊢
    omega

/-- **The end of a check.** -/
theorem threadInv_finish {p : Platform} (h : ThreadInv interval s)
    (hs : otaThreadStep cfg lib interval s (.finish now p) = some s') :
    ThreadInv interval s' ∧
      (s'.pending = s.pending ∨ ∃ w, otaCheckAndUpdate cfg lib p s.world = (.rebooted, w)) := by
  obtain ⟨hat, hend⟩ := otaThreadStep_finish hs
  have hsem : s.checkTrigger = ⟨s.pending, []⟩ := by
    have hpc := h.pc
    simp only [PcInv, hat] at hpc
    exact hpc.1
  rcases hend with ⟨ret, w, _, _, rfl⟩ | ⟨ret, w, _, _, rfl⟩ | ⟨w, hcycle, rfl⟩
  · refine ⟨h.finish hat (f := true) rfl (by simp) rfl (by simp) ?_ (by simp)
      (Nat.le_refl _) rfl, Or.inl rfl⟩
    intro since sec hpc
    obtain ⟨rfl, rfl⟩ := OtaPc.sleeping.inj hpc
    exact ⟨hsem, rfl, rfl, rfl⟩
  · exact ⟨h.finish hat (f := false) rfl (by simp) rfl (fun _ => ⟨hsem, Int.le_refl _, rfl⟩)
      (by simp) (by simp) (Nat.le_refl _) rfl, Or.inl rfl⟩
  · refine ⟨h.finish hat (f := false) rfl (by simp [OtaThread.boot]) rfl ?_
      (by simp [OtaThread.boot]) (by simp [OtaThread.boot]) (by simp [OtaThread.boot]) rfl,
      Or.inr ⟨w, hcycle⟩⟩
    exact fun _ => ⟨rfl, Int.le_refl _, rfl⟩

theorem threadInv_step {a : OtaThreadAct} (h : ThreadInv interval s)
    (hs : otaThreadStep cfg lib interval s a = some s') : ThreadInv interval s' := by
  cases a with
  | trigger now => exact (threadInv_trigger h (clock_le hs) (otaThreadStep_trigger hs)).1
  | take now => exact (threadInv_take h hs).1
  | timeout now => exact (threadInv_timeout h hs).1
  | finish now p => exact (threadInv_finish h hs).1
  | wake now => exact (threadInv_wake h hs).1

/-- A trigger begins a check or is pending. -/
theorem pending_trigger (h : ThreadInv interval s)
    (hs : otaThreadStep cfg lib interval s (.trigger now) = some s') :
    s'.pending = true ∨ s'.checks = ⟨now, true, none⟩ :: s.checks := by
  rcases (threadInv_trigger h (clock_le hs) (otaThreadStep_trigger hs)).2 with ⟨hp, _⟩ | hc
  · exact Or.inl hp
  · exact Or.inr hc

/-- It stays pending up to the start of a check or to a reboot. -/
theorem pending_step {a : OtaThreadAct} (h : ThreadInv interval s)
    (hs : otaThreadStep cfg lib interval s a = some s') (hpending : s.pending = true) :
    s'.pending = true ∨ s'.checks = ⟨a.now, true, none⟩ :: s.checks ∨
      ∃ now p w, a = .finish now p ∧ otaCheckAndUpdate cfg lib p s.world = (.rebooted, w) := by
  cases a with
  | trigger now => exact (pending_trigger h hs).imp_right Or.inl
  | take now =>
    rcases (threadInv_take h hs).2 with ⟨_, hc⟩ | ⟨hp, _⟩
    · exact Or.inr (Or.inl hc)
    · exact absurd (hpending.symm.trans hp) (by decide)
  | timeout now =>
    exact absurd (hpending.symm.trans (threadInv_timeout h hs).2.1) (by decide)
  | finish now p =>
    rcases (threadInv_finish h hs).2 with hp | ⟨w, hcycle⟩
    · exact Or.inl (hp.trans hpending)
    · exact Or.inr (Or.inr ⟨now, p, w, rfl, hcycle⟩)
  | wake now => exact Or.inl ((threadInv_wake h hs).2.trans hpending)

theorem threadInv_init : ThreadInv interval (otaThreadMachine cfg lib interval).init where
  pc := ⟨rfl, Int.le_refl _⟩
  failCount := rfl
  paced := trivial
  closed := fun _ _ hc => absurd hc (by simp [otaThreadMachine, OtaThread.boot])
  triggers := Nat.le_refl _

theorem threadInv_reachable (hr : (otaThreadMachine cfg lib interval).Reachable s) :
    ThreadInv interval s :=
  Machine.Reachable.induct threadInv_init (fun _ _ _ h hs => threadInv_step h hs) hr

/-! ## Results -/

theorem Paced.of_append {newer checks : List OtaCheck} (h : Paced interval (newer ++ checks)) :
    Paced interval checks := by
  induction newer with
  | nil => exact h
  | cons c newer ih => exact ih h.2.2

/-- **The pace of checks**: in every run of the thread, whatever triggers
come and however the checks end, a check begins only after the one before
it has ended and the pause for the failures in a row up to that one is
over, which grows with their number up to an hour; and a check that no
trigger began waits for the whole interval on top of it. -/
theorem otaThread_paced (hr : (otaThreadMachine cfg lib interval).Reachable s)
    {newer older : List OtaCheck} {c d : OtaCheck} (hchecks : s.checks = newer ++ c :: d :: older) :
    ∃ ended failed, d.finish = some (ended, failed) ∧
      ended + 1000 * pauseSec interval (failures (d :: older)) +
        (if c.manual then 0 else 1000 * interval) ≤ c.start := by
  have hpaced := (threadInv_reachable hr).paced
  rw [hchecks] at hpaced
  obtain ⟨hclosed, hstart, _⟩ := hpaced.of_append
  have hd := hclosed d rfl
  obtain ⟨⟨ended, failed⟩, hfinish⟩ := Option.ne_none_iff_exists'.mp hd
  refine ⟨ended, failed, hfinish, ?_⟩
  simpa [earliest, hfinish] using hstart

/-- The first check fails, and a trigger comes while the thread sleeps. -/
def sampleThreadRun : List OtaThreadAct :=
  [.take 0, .timeout 300000, .finish 300100 { samplePlatform with inetPton := fun _ => 0 },
   .trigger 400000, .trigger 500000, .wake 600100, .take 600100]

theorem otaThread_paced_sample :
    ∃ s, (otaThreadMachine sampleConfig jsonReference 300).run sampleThreadRun = some s ∧
      s.checks = [⟨600100, true, none⟩, ⟨300000, false, some (300100, true)⟩] ∧
      ∃ ended failed, some (300100, true) = some (ended, failed) ∧
        ended + 1000 * pauseSec 300 1 + 0 ≤ 600100 := by
  obtain ⟨s, hs⟩ : ∃ s,
      (otaThreadMachine sampleConfig jsonReference 300).run sampleThreadRun = some s :=
    Option.isSome_iff_exists.mp (by decide +kernel)
  have hchecks : ((otaThreadMachine sampleConfig jsonReference 300).run sampleThreadRun).map
      (·.checks) = some [⟨600100, true, none⟩, ⟨300000, false, some (300100, true)⟩] := by
    decide +kernel
  rw [hs, Option.map_some, Option.some.injEq] at hchecks
  exact ⟨s, hs, hchecks, @otaThread_paced _ _ _ s ⟨_, hs⟩ [] _ _ _ hchecks⟩

/-- **Triggers**: in every run there are no more checks begun by triggers
than triggers. A trigger begins a check or is pending; while one is pending
the thread does not wait, and the only steps after which none is pending
are the start of a check for it and a reboot. -/
theorem otaThread_triggers (hr : (otaThreadMachine cfg lib interval).Reachable s) :
    manualChecks s.checks + s.pending.toNat ≤ s.triggers ∧
    (s.pending = true → ∀ since, s.pc ≠ .waiting since) ∧
    (∀ now s', otaThreadStep cfg lib interval s (.trigger now) = some s' →
      s'.pending = true ∨ s'.checks = ⟨now, true, none⟩ :: s.checks) ∧
    ∀ a s', otaThreadStep cfg lib interval s a = some s' → s.pending = true →
      s'.pending = true ∨ s'.checks = ⟨a.now, true, none⟩ :: s.checks ∨
        ∃ now p w, a = .finish now p ∧ otaCheckAndUpdate cfg lib p s.world = (.rebooted, w) := by
  have h := threadInv_reachable hr
  refine ⟨h.triggers, ?_, fun now s' hs => pending_trigger h hs,
    fun a s' hs hpending => pending_step h hs hpending⟩
  intro hpending since hat
  have hpc := h.pc
  simp only [PcInv, hat] at hpc
  exact absurd (hpending.symm.trans hpc.2.1) (by decide)

/-- Two triggers, and one check for both. -/
theorem otaThread_triggers_sample :
    ∃ s, (otaThreadMachine sampleConfig jsonReference 300).run sampleThreadRun = some s ∧
      manualChecks s.checks + s.pending.toNat ≤ s.triggers ∧ s.triggers = 2 := by
  obtain ⟨s, hs⟩ : ∃ s,
      (otaThreadMachine sampleConfig jsonReference 300).run sampleThreadRun = some s :=
    Option.isSome_iff_exists.mp (by decide +kernel)
  have htriggers : ((otaThreadMachine sampleConfig jsonReference 300).run sampleThreadRun).map
      (·.triggers) = some 2 := by decide +kernel
  rw [hs, Option.map_some, Option.some.injEq] at htriggers
  exact ⟨s, hs, (otaThread_triggers ⟨_, hs⟩).1, htriggers⟩

end Steps

end Ceell.Ota
