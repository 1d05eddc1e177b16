/-
Ceell.Core.Watchdog — `ceell/core/watchdog.c`: the feed timestamp and the
check that enters safe state when it is too old.

The timestamp is kept in an atomic `int32_t`, so a feed stores the uptime
modulo 2^32. `checkOk_iff` says for which feeds and checks the verdict of
the thread is right all the same, after any run of inits and feeds.
-/
import Ceell.Lib.Machine
import Ceell.Core.SafeState

namespace Ceell.Core

open Ceell.Lib

/-- `wdt_enabled`, `wdt_last_feed`, `wdt_timeout`. -/
structure Watchdog where
  enabled : Bool
  lastFeed : Int
  timeout : Int

/-- The watchdog before `ceell_watchdog_init`. -/
def Watchdog.zero : Watchdog := ⟨false, 0, 0⟩

/-- `ceell_watchdog_init` at uptime `now`, `created` being the result of
`ceell_thread_create`. -/
def ceellWatchdogInit (timeoutMs now created : Int) (w : Watchdog) : Watchdog × Int :=
  if timeoutMs ≤ 0 then (w, -EINVAL)
  else
    let w' : Watchdog := ⟨true, toInt32 now, timeoutMs⟩
    if created < 0 then ({ w' with enabled := false }, created) else (w', 0)

/-- `ceell_watchdog_feed` at uptime `now`. -/
def ceellWatchdogFeed (now : Int) (w : Watchdog) : Watchdog :=
  if w.enabled then { w with lastFeed := toInt32 now } else w

/-- The test of `wdt_thread_fn`: the last feed is older than the timeout. -/
def wdtExpired (now : Int) (w : Watchdog) : Bool :=
  w.enabled && decide (now - w.lastFeed > w.timeout)

/-- One pass of the loop of `wdt_thread_fn`. -/
def wdtThreadFn (now : Int) (w : Watchdog) (s : SafeState) : SafeState :=
  if wdtExpired now w then (ceellSafeStateTrigger .commFailure s).1 else s

/-- A feed that the `int32_t` holds is found too old exactly when it is. -/
theorem wdtExpired_feed_iff {w : Watchdog} {fed now : Int} (henabled : w.enabled = true)
    (hfed : 0 ≤ fed) (hfits : fed < 2 ^ 31) :
    wdtExpired now (ceellWatchdogFeed fed w) = true ↔ now - fed > w.timeout := by
  have heq : toInt32 fed = fed := by
    unfold toInt32
    rw [Int.bmod_def]
    split <;> omega
  simp [wdtExpired, ceellWatchdogFeed, henabled, heq]

theorem initialized_wdtThreadFn {now : Int} {w : Watchdog} {s : SafeState} :
    (wdtThreadFn now w s).initialized = s.initialized := by
  unfold wdtThreadFn
  split
  · exact initialized_trigger _
  · rfl

/-- A pass sets the flag if the watchdog has expired and never unsets it. -/
theorem active_wdtThreadFn (now : Int) (w : Watchdog) {s : SafeState}
    (h : s.initialized = true) :
    (wdtThreadFn now w s).active = (wdtExpired now w || s.active) := by
  unfold wdtThreadFn
  cases hx : wdtExpired now w <;> simp [h]

/-! ## Runs of inits and feeds -/

/-- The watchdog, and while it is enabled the timeout of its init and the
uptime at which it was last initialised or fed. -/
structure WatchdogRun where
  wdt : Watchdog
  armed : Option (Int × Int)

inductive WatchdogAct where
  | init (timeoutMs now created : Int)
  | feed (now : Int)

/-- The uptime is not negative, and the timeout is an `int`. -/
def watchdogStep (s : WatchdogRun) : WatchdogAct → Option WatchdogRun
  | .init timeoutMs now created =>
      if 0 ≤ now ∧ timeoutMs < 2 ^ 31 then
        let (wdt, ret) := ceellWatchdogInit timeoutMs now created s.wdt
        -- an init that is refused leaves the watchdog as it was
        some ⟨wdt, if ret = 0 then some (timeoutMs, now) else if wdt.enabled then s.armed else none⟩
      else none
  | .feed now =>
      if 0 ≤ now then
        some ⟨ceellWatchdogFeed now s.wdt, s.armed.map fun a => (a.1, now)⟩
      else none

def watchdogMachine : Machine WatchdogRun WatchdogAct where
  init := ⟨.zero, none⟩
  step := watchdogStep

/-- A pass at `now` enters safe state if the last feed, at `fed`, is older
than the timeout, and does nothing if it is not. -/
def CheckOk (timeout fed now : Int) (w : Watchdog) : Prop :=
  now - w.lastFeed < 2 ^ 63 ∧
    ∀ s : SafeState, s.initialized = true →
      wdtThreadFn now w s =
        if now - fed > timeout then (ceellSafeStateTrigger .commFailure s).1 else s

/-- What the watchdog keeps of the uptime at which it was armed. -/
structure WatchdogInv (s : WatchdogRun) : Prop where
  enabled : s.wdt.enabled = s.armed.isSome
  stored : ∀ timeout fed, s.armed = some (timeout, fed) →
    s.wdt.timeout = timeout ∧ s.wdt.lastFeed = toInt32 fed
  range : ∀ timeout fed, s.armed = some (timeout, fed) →
    0 < timeout ∧ timeout < 2 ^ 31 ∧ 0 ≤ fed

theorem watchdogInv_step {s s' : WatchdogRun} {a : WatchdogAct} (hi : WatchdogInv s)
    (hs : watchdogStep s a = some s') : WatchdogInv s' := by
  cases a with
  | init timeoutMs now created =>
    simp only [watchdogStep] at hs
    split at hs
    · rename_i hrange
      obtain rfl := Option.some.inj hs
      unfold ceellWatchdogInit
      by_cases hpos : timeoutMs ≤ 0
      · have henabled := hi.enabled
        have harmed : (if s.wdt.enabled then s.armed else none) = s.armed := by
          cases h : s.armed <;> simp [henabled, h]
        simpa [hpos, EINVAL, harmed] using hi
      · by_cases hfail : created < 0
        · have hret : created ≠ 0 := by omega
          constructor <;> simp [hpos, hfail, hret]
        · have hpos' : 0 < timeoutMs ∧ timeoutMs < 2147483648 := by omega
          constructor <;> simp [hpos, hfail, hrange, hpos']
    · cases hs
  | feed now =>
    simp only [watchdogStep] at hs
    split at hs
    · rename_i hnow
      obtain rfl := Option.some.inj hs
      unfold ceellWatchdogFeed
      cases harmed : s.armed with
      | none =>
        have henabled : s.wdt.enabled = false := by rw [hi.enabled, harmed]; rfl
        constructor <;> simp [henabled]
      | some a =>
        have henabled : s.wdt.enabled = true := by rw [hi.enabled, harmed]; rfl
        obtain ⟨htimeout, _⟩ := hi.stored a.1 a.2 harmed
        obtain ⟨hpos, hint, _⟩ := hi.range a.1 a.2 harmed
        have hint : a.1 < 2147483648 := hint
        constructor <;> simp [henabled, htimeout, hpos, hint, hnow]
    · cases hs

theorem watchdogInv_of_reachable {s : WatchdogRun} (hr : watchdogMachine.Reachable s) :
    WatchdogInv s := by
  refine Machine.Reachable.induct (P := WatchdogInv) ?_ (fun s a s' hi hs => ?_) hr
  · constructor <;> simp [watchdogMachine, Watchdog.zero]
  · exact watchdogInv_step hi hs

/-- A pass does what its test says. -/
theorem wdtThreadFn_eq (now : Int) (w : Watchdog) (late : Prop) [Decidable late] :
    (∀ s : SafeState, s.initialized = true →
        wdtThreadFn now w s = if late then (ceellSafeStateTrigger .commFailure s).1 else s) ↔
      (wdtExpired now w = true ↔ late) := by
  constructor
  · intro h
    -- the safe state as its init leaves it tells the two outcomes apart
    have hactive := active_wdtThreadFn now w (s := ceellSafeStateInit) rfl
    rw [h ceellSafeStateInit rfl] at hactive
    by_cases hlate : late
    · simpa [hlate, ceellSafeStateInit] using hactive
    · simpa [hlate, ceellSafeStateInit] using hactive
  · intro h s _
    by_cases hlate : late
    · rw [wdtThreadFn, if_pos (h.mpr hlate), if_pos hlate]
    · rw [wdtThreadFn, if_neg (fun hx => hlate (h.mp hx)), if_neg hlate]

/-- **After any run**: a pass at `now` decides right exactly if the uptime
of the last feed fits the `int32_t`, or the feed is too old in any case and
its distance to what was stored fits the `int64_t`. -/
theorem checkOk_iff (s : WatchdogRun) (hr : watchdogMachine.Reachable s) (timeout fed now : Int)
    (harmed : s.armed = some (timeout, fed)) (hnow : fed ≤ now) (hclock : now < 2 ^ 63) :
    CheckOk timeout fed now s.wdt ↔
      fed < 2 ^ 31 ∨ (now - fed > timeout ∧ now - toInt32 fed < 2 ^ 63) := by
  have hi := watchdogInv_of_reachable hr
  have henabled : s.wdt.enabled = true := by rw [hi.enabled, harmed]; rfl
  obtain ⟨htimeout, hlast⟩ := hi.stored timeout fed harmed
  obtain ⟨hpos, hint, hfed⟩ := hi.range timeout fed harmed
  have hfeed : ceellWatchdogFeed fed s.wdt = s.wdt := by
    rw [ceellWatchdogFeed, if_pos henabled, ← hlast]
  rw [CheckOk, wdtThreadFn_eq, hlast]
  by_cases hfits : fed < 2 ^ 31
  · have hexact : wdtExpired now s.wdt = true ↔ now - fed > timeout := by
      rw [← htimeout, ← wdtExpired_feed_iff henabled hfed hfits, hfeed]
    have heq : toInt32 fed = fed := Int.bmod_eq_of_le (by omega) (by omega)
    refine iff_of_true ⟨by omega, hexact⟩ (Or.inl hfits)
  · -- what is stored is at least 2^32 below the uptime, so the pass finds it too old
    have hfar : toInt32 fed + 2 ^ 32 ≤ fed := by
      unfold toInt32
      rw [Int.bmod_def]
      split <;> omega
    have hexp : wdtExpired now s.wdt = true := by
      have hold : now - toInt32 fed > timeout := by omega
      simp [wdtExpired, henabled, hlast, htimeout, hold]
    rw [hexp, or_iff_right hfits, and_comm]
    simp only [true_iff]

theorem checkOk_iff_fedInTime :
    ∃ s, watchdogMachine.run [.init 2000 0 0, .feed 1500] = some s ∧
      (CheckOk 2000 1500 3000 s.wdt ↔
        (1500 : Int) < 2 ^ 31 ∨ ((3000 : Int) - 1500 > 2000 ∧ 3000 - toInt32 1500 < 2 ^ 63)) :=
  ⟨_, rfl, checkOk_iff _ ⟨[.init 2000 0 0, .feed 1500], rfl⟩ 2000 1500 3000 rfl (by decide)
    (by decide)⟩

/-- Fed when the uptime is 2^31 ms and checked at once, a watchdog of two
seconds enters safe state. -/
theorem fedAtInt32Limit_not_checkOk :
    ∃ s, watchdogMachine.run [.init 2000 0 0, .feed (2 ^ 31)] = some s ∧
      s.armed = some (2000, 2 ^ 31) ∧
      ceellSafeStateActive (wdtThreadFn (2 ^ 31) s.wdt ceellSafeStateInit) = true ∧
      ¬ CheckOk 2000 (2 ^ 31) (2 ^ 31) s.wdt := by
  refine ⟨_, rfl, rfl, by decide, fun hok => ?_⟩
  have hpass := congrArg SafeState.active (hok.2 ceellSafeStateInit rfl)
  revert hpass
  decide

end Ceell.Core
