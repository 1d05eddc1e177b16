/-
Ceell.Core.Severity — `compute_state` as a function of the elapsed time.

Its tests are thresholds: one interval, four intervals, and the timeout,
which is looked at after the four intervals only (`computeState_eq`). So a
peer past its timeout is LOST whenever the timeout is not shorter than the
four intervals, less a millisecond; `statesGraded_iff`.
-/
import Ceell.Core.HealthMonitor

namespace Ceell.Core

/-- The values of `enum ceell_health_state`. -/
def HealthState.severity : HealthState → Nat
  | .healthy => 0
  | .degraded => 1
  | .critical => 2
  | .lost => 3

/-- The states are graded by the time since a peer was last seen. -/
structure StatesGraded (k : Kconfig) : Prop where
  mono : ∀ now lastSeen now' lastSeen' : Int, now' - lastSeen' < 2 ^ 31 →
    now - lastSeen ≤ now' - lastSeen' →
    (computeState k now lastSeen).severity ≤ (computeState k now' lastSeen').severity
  healthy : ∀ now lastSeen : Int, now - lastSeen < 2 ^ 31 → now - lastSeen ≤ k.discoveryIntervalMs →
    computeState k now lastSeen = .healthy
  lost : ∀ now lastSeen : Int, now - lastSeen < 2 ^ 31 → now - lastSeen > k.peerTimeoutMs →
    computeState k now lastSeen = .lost

section Thresholds

variable {k : Kconfig} {now lastSeen now' lastSeen' : Int}

/-- The count of missed intervals is at most two up to four intervals. -/
theorem missed_le_two_iff {elapsed interval : Int} (hi : 0 < interval) (he : 0 ≤ elapsed)
    (hb : elapsed < 2 ^ 31) :
    toInt32 (elapsed.tdiv interval) - 1 ≤ 2 ↔ elapsed < 4 * interval := by
  have hnonneg : 0 ≤ elapsed / interval := Int.ediv_nonneg he (Int.le_of_lt hi)
  have hle : elapsed / interval ≤ elapsed := Int.ediv_le_self interval he
  have hcast : toInt32 (elapsed.tdiv interval) = elapsed / interval := by
    rw [Int.tdiv_eq_ediv_of_nonneg he, toInt32]
    exact Int.bmod_eq_of_le (by omega) (by omega)
  have hlt := Int.ediv_lt_iff_lt_mul (a := elapsed) (b := 4) hi
  rw [hcast, ← hlt]
  omega

/-- **The thresholds** of `compute_state`. -/
theorem computeState_eq (hi : 0 < k.discoveryIntervalMs) (hb : now - lastSeen < 2 ^ 31) :
    computeState k now lastSeen =
      if now - lastSeen ≤ k.discoveryIntervalMs then .healthy
      else if now - lastSeen < 4 * k.discoveryIntervalMs then .degraded
      else if now - lastSeen ≥ k.peerTimeoutMs then .lost
      else .critical := by
  unfold computeState
  by_cases hhealthy : now - lastSeen ≤ k.discoveryIntervalMs
  · simp only [if_pos hhealthy]
  · have hpos : (0 : Int) < k.discoveryIntervalMs := by omega
    have hmissed := missed_le_two_iff hpos (by omega) hb
    simp only [if_neg hhealthy, hmissed]

theorem severity_mono (hi : 0 < k.discoveryIntervalMs) (hb : now' - lastSeen' < 2 ^ 31)
    (hle : now - lastSeen ≤ now' - lastSeen') :
    (computeState k now lastSeen).severity ≤ (computeState k now' lastSeen').severity := by
  rw [computeState_eq hi hb, computeState_eq hi (by omega)]
  generalize now - lastSeen = elapsed at hle ⊢
  generalize now' - lastSeen' = elapsed' at hle ⊢
  split
  · exact Nat.zero_le _
  · rw [if_neg (show ¬ elapsed' ≤ k.discoveryIntervalMs by omega)]
    split
    · split
      · exact Nat.le_refl _
      · split <;> decide
    · rw [if_neg (show ¬ elapsed' < 4 * k.discoveryIntervalMs by omega)]
      split
      · rw [if_pos (show elapsed' ≥ k.peerTimeoutMs by omega)]
      · split <;> decide

theorem computeState_healthy (h : now - lastSeen ≤ k.discoveryIntervalMs) :
    computeState k now lastSeen = .healthy := by
  simp only [computeState, if_pos h]

/-- Past the timeout a peer is LOST after four intervals and no sooner. -/
theorem computeState_lost_iff (hi : 0 < k.discoveryIntervalMs) (hb : now - lastSeen < 2 ^ 31)
    (ht : now - lastSeen > k.peerTimeoutMs) :
    computeState k now lastSeen = .lost ↔ 4 * k.discoveryIntervalMs ≤ now - lastSeen := by
  rw [computeState_eq hi hb]
  split
  · simp only [reduceCtorEq, false_iff]
    omega
  · split
    · simp only [reduceCtorEq, false_iff]
      omega
    · rw [if_pos (show now - lastSeen ≥ k.peerTimeoutMs by omega)]
      simp only [true_iff]
      omega

end Thresholds

/-- **For every interval and timeout**: severity grows with the elapsed
time, from HEALTHY within one interval to LOST past the timeout, exactly if
the timeout is at least four intervals less a millisecond, or so long that
no elapsed time below 2^31 exceeds it. -/
theorem statesGraded_iff (k : Kconfig) (hi : 0 < k.discoveryIntervalMs) :
    StatesGraded k ↔
      4 * k.discoveryIntervalMs ≤ k.peerTimeoutMs + 1 ∨ 2 ^ 31 ≤ k.peerTimeoutMs + 1 := by
  constructor
  · intro h
    by_cases hb : 2 ^ 31 ≤ k.peerTimeoutMs + 1
    · exact Or.inr hb
    · -- the first millisecond past the timeout
      refine Or.inl ?_
      have hlt : ((k.peerTimeoutMs + 1 : Nat) : Int) - 0 < 2 ^ 31 := by omega
      have hgt : ((k.peerTimeoutMs + 1 : Nat) : Int) - 0 > k.peerTimeoutMs := by omega
      have hfour := (computeState_lost_iff hi hlt hgt).mp (h.lost _ 0 hlt hgt)
      omega
  · intro h
    constructor
    · exact fun now lastSeen now' lastSeen' hb hle => severity_mono hi hb hle
    · exact fun now lastSeen _ hle => computeState_healthy hle
    · intro now lastSeen hb ht
      rw [computeState_lost_iff hi hb ht]
      omega

/-- With a timeout of two intervals a peer past it is DEGRADED. -/
theorem shortTimeout_degraded :
    computeState { discoveryIntervalMs := 1000, peerTimeoutMs := 2000 } 2500 0 = .degraded ∧
    ¬ StatesGraded { discoveryIntervalMs := 1000, peerTimeoutMs := 2000 } := by
  have hstate : computeState { discoveryIntervalMs := 1000, peerTimeoutMs := 2000 } 2500 0
      = .degraded := by decide
  refine ⟨hstate, fun h => ?_⟩
  have hlost := h.lost 2500 0 (by decide) (by decide)
  rw [hstate] at hlost
  cases hlost

theorem statesGraded_iff_default : StatesGraded {} :=
  (statesGraded_iff {} (by decide)).mpr (Or.inl (by decide))

end Ceell.Core
