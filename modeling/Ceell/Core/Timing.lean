/-
Ceell.Core.Timing — `ceell/core/timing.c`: the ring of timing samples and
the statistics of a label over it.

All arithmetic is that of the source's `uint32_t` and `uint64_t`, and the
cycle counter is read modulo 2^32. `timingStats_window` compares what
`ceell_timing_get_stats` computes from the ring with the unbounded
statistics of the last measurements.
-/
import Mathlib.Algebra.GroupWithZero.Nat
import Mathlib.Algebra.Order.BigOperators.Group.List
import Mathlib.Algebra.Order.Group.Nat
import Ceell.Core.Types
import Ceell.Lib.CString
import Ceell.Lib.Machine
import Ceell.Lib.RingBuf

namespace Ceell.Core

open Ceell.Lib

/-! ## The module's state -/

/-- The Kconfig symbols of the module. The number of samples is the length
of an array and an `int`. -/
structure TimingConfig where
  /-- `CONFIG_CEELL_TIMING_SAMPLES` -/
  samples : UInt32
  /-- `CONFIG_SYS_CLOCK_HW_CYCLES_PER_SEC` -/
  cyclesPerSec : UInt64
  samples_pos : 0 < samples.toNat
  samples_int : samples.toNat < 2 ^ 31

/-- `struct timing_sample`; a label that is not NULL is the string it
points to. -/
structure TimingSample where
  label : Option (List Char)
  startCycle : UInt32
  endCycle : UInt32
  durationUs : UInt32
  deriving DecidableEq

def TimingSample.zero : TimingSample := ⟨none, 0, 0, 0⟩

/-- `samples`, `sample_head`, `sample_count`, `initialized`. -/
structure Timing where
  samples : List TimingSample
  sampleHead : UInt32
  sampleCount : UInt32
  initialized : Bool
  deriving DecidableEq

/-- `struct ceell_timing_stats`. -/
structure TimingStats where
  minUs : UInt32
  maxUs : UInt32
  avgUs : UInt32
  count : UInt32
  deriving DecidableEq

/-- The module before its init. -/
def Timing.zero (cfg : TimingConfig) : Timing :=
  ⟨List.replicate cfg.samples.toNat .zero, 0, 0, false⟩

/-! ## The operations -/

/-- `cycles_to_us`. -/
def cyclesToUs (cfg : TimingConfig) (cycles : UInt32) : UInt32 :=
  (cycles.toUInt64 * 1000000 / cfg.cyclesPerSec).toUInt32

/-- `ceell_timing_init`. -/
def ceellTimingInit (cfg : TimingConfig) : Timing := { Timing.zero cfg with initialized := true }

/-- `ceell_timing_start` where the counter reads `cycle`: what `*handle` is
afterwards, `none` being a NULL handle. -/
def ceellTimingStart (cycle : UInt32) (handle : Option UInt32) : Option UInt32 :=
  handle.map fun _ => cycle

/-- `ceell_timing_stop` where the counter reads `endCycle`. -/
def ceellTimingStop (cfg : TimingConfig) (label : Option (List Char)) (handle endCycle : UInt32)
    (s : Timing) : Timing :=
  if !s.initialized || label.isNone then s
  else
    { s with
      samples := s.samples.set (s.sampleHead % cfg.samples).toNat
        ⟨label, handle, endCycle, cyclesToUs cfg (endCycle - handle)⟩
      sampleHead := (s.sampleHead + 1) % cfg.samples
      sampleCount := if s.sampleCount < cfg.samples then s.sampleCount + 1 else s.sampleCount }

/-- The locals of `ceell_timing_get_stats`. -/
structure StatsLocals where
  minUs : UInt32
  maxUs : UInt32
  sumUs : UInt64
  count : UInt32

/-- `s->label != NULL && strcmp(s->label, label) == 0`. -/
def labelled (label : List Char) (s : TimingSample) : Bool :=
  s.label.any fun l => decide (cstr l = cstr label)

/-- One pass of the loop. -/
def statsPass (label : List Char) (acc : StatsLocals) (s : TimingSample) : StatsLocals :=
  if labelled label s then
    { minUs := if s.durationUs < acc.minUs then s.durationUs else acc.minUs
      maxUs := if s.durationUs > acc.maxUs then s.durationUs else acc.maxUs
      sumUs := acc.sumUs + s.durationUs.toUInt64
      count := acc.count + 1 }
  else acc

/-- The loop over the first `n` samples. -/
def statsLoop (label : List Char) (n : Nat) (s : Timing) : StatsLocals :=
  (s.samples.take n).foldl (statsPass label) ⟨4294967295, 0, 0, 0⟩

/-- `ceell_timing_get_stats`: what it returns, and what `*stats` is
afterwards, `none` being a NULL pointer. -/
def ceellTimingGetStats (label : Option (List Char)) (stats : Option TimingStats) (s : Timing) :
    Int × Option TimingStats :=
  match label, stats with
  | some label, some stats =>
      if !s.initialized then (-1, some stats)
      else
        let acc := statsLoop label s.sampleCount.toNat s
        if acc.count = 0 then (-1, some stats)
        else
          (0, some ⟨acc.minUs, acc.maxUs, (acc.sumUs / acc.count.toUInt64).toUInt32, acc.count⟩)
  | _, stats => (-1, stats)

/-! ## Runs -/

/-- The module, the cycles since the counter started, the handles that were
written with the cycle of their start, and the measurements made since the
init, newest first: their labels and how many cycles they lasted. -/
structure TimingRun where
  timing : Timing
  clock : Nat
  handles : List (UInt32 × Nat)
  measured : List (List Char × Nat)

inductive TimingAct where
  | init
  | start (handle : Option UInt32) (now : Nat)
  | stop (label : Option (List Char)) (handle : UInt32 × Nat) (now : Nat)

/-- A stop is given a handle that a start has written fewer than 2^32 cycles
ago. -/
def timingStep (cfg : TimingConfig) (s : TimingRun) : TimingAct → Option TimingRun
  | .init => some { s with timing := ceellTimingInit cfg, measured := [] }
  | .start handle now =>
      if s.clock ≤ now then
        some { s with
          clock := now
          handles := ((ceellTimingStart (.ofNat now) handle).map (·, now)).toList ++ s.handles }
      else none
  | .stop label handle now =>
      if s.clock ≤ now ∧ handle ∈ s.handles ∧ now < handle.2 + 2 ^ 32 then
        some { s with
          timing := ceellTimingStop cfg label handle.1 (.ofNat now) s.timing
          clock := now
          measured :=
            if s.timing.initialized then (label.map (·, now - handle.2)).toList ++ s.measured
            else s.measured }
      else none

def timingMachine (cfg : TimingConfig) : Machine TimingRun TimingAct where
  init := ⟨.zero cfg, 0, [], []⟩
  step := timingStep cfg

/-- The true durations, in microseconds, of the measurements with a label
among the last that the ring has room for. -/
def trueDurations (cfg : TimingConfig) (label : List Char) (measured : List (List Char × Nat)) :
    List Nat :=
  ((measured.take cfg.samples.toNat).filter fun m => decide (cstr m.1 = cstr label)).map
    fun m => m.2 * 10 ^ 6 / cfg.cyclesPerSec.toNat

/-! ## Conversion -/

section Conversion

variable {cfg : TimingConfig}

theorem toNat_cycles_mul (cycles : UInt32) :
    (cycles.toUInt64 * 1000000).toNat = cycles.toNat * 10 ^ 6 := by
  have := cycles.toNat_lt
  rw [UInt64.toNat_mul, UInt32.toNat_toUInt64]
  change cycles.toNat * 1000000 % 2 ^ 64 = _
  omega

/-- A clock of at least 1 MHz makes no more microseconds than cycles. -/
theorem us_lt (hfreq : 10 ^ 6 ≤ cfg.cyclesPerSec.toNat) (cycles : UInt32) :
    cycles.toNat * 10 ^ 6 / cfg.cyclesPerSec.toNat < 2 ^ 32 := by
  refine Nat.lt_of_le_of_lt ?_ cycles.toNat_lt
  exact Nat.div_le_of_le_mul (by rw [Nat.mul_comm]; exact Nat.mul_le_mul_right _ hfreq)

theorem toNat_cyclesToUs (hfreq : 10 ^ 6 ≤ cfg.cyclesPerSec.toNat) (cycles : UInt32) :
    (cyclesToUs cfg cycles).toNat = cycles.toNat * 10 ^ 6 / cfg.cyclesPerSec.toNat := by
  rw [cyclesToUs, UInt64.toNat_toUInt32, UInt64.toNat_div, toNat_cycles_mul]
  exact Nat.mod_eq_of_lt (us_lt hfreq cycles)

/-- The counter's wrap cancels in the difference. -/
theorem toNat_counter_sub {start now : Nat} (hle : start ≤ now) (hlt : now < start + 2 ^ 32) :
    (UInt32.ofNat now - UInt32.ofNat start).toNat = now - start := by
  rw [UInt32.toNat_sub, UInt32.toNat_ofNat', UInt32.toNat_ofNat']
  omega

end Conversion

/-! ## The loop -/

section Loop

variable {label : List Char} {acc : StatsLocals} {d : List Nat}

/-- The durations that the loop takes from a list of samples. -/
def durations (label : List Char) (xs : List TimingSample) : List Nat :=
  (xs.filter (labelled label)).map (·.durationUs.toNat)

theorem durations_lt {xs : List TimingSample} {x : Nat} (hx : x ∈ durations label xs) :
    x < 2 ^ 32 := by
  obtain ⟨y, _, rfl⟩ := List.mem_map.mp hx
  exact y.durationUs.toNat_lt

/-- The locals are the statistics of the durations taken so far. -/
structure StatsOf (acc : StatsLocals) (d : List Nat) : Prop where
  min : acc.minUs.toNat = d.foldl min (2 ^ 32 - 1)
  max : acc.maxUs.toNat = d.foldl max 0
  sum : acc.sumUs.toNat = d.sum
  count : acc.count.toNat = d.length

/-- So many durations fit the 64-bit sum. -/
theorem sum_lt (hlt : ∀ x ∈ d, x < 2 ^ 32) (hlen : d.length < 2 ^ 31) : d.sum < 2 ^ 63 := by
  have hle : d.sum ≤ d.length * (2 ^ 32 - 1) := by
    simpa using d.sum_le_card_nsmul (2 ^ 32 - 1) fun x hx => Nat.le_sub_one_of_lt (hlt x hx)
  omega

theorem StatsOf.pass (h : StatsOf acc d) (hlt : ∀ x ∈ d, x < 2 ^ 32) (hlen : d.length < 2 ^ 31 - 1)
    (x : TimingSample) (hx : labelled label x = true) :
    StatsOf (statsPass label acc x) (d ++ [x.durationUs.toNat]) := by
  have hdur := x.durationUs.toNat_lt
  have hsum := sum_lt hlt (by omega)
  rw [statsPass, if_pos hx]
  constructor
  · rw [List.foldl_append, List.foldl_cons, List.foldl_nil, ← h.min]
    dsimp only
    split
    · rename_i hless
      rw [UInt32.lt_iff_toNat_lt] at hless
      omega
    · rename_i hless
      rw [UInt32.lt_iff_toNat_lt] at hless
      omega
  · rw [List.foldl_append, List.foldl_cons, List.foldl_nil, ← h.max]
    dsimp only
    split
    · rename_i hmore
      rw [gt_iff_lt, UInt32.lt_iff_toNat_lt] at hmore
      omega
    · rename_i hmore
      rw [gt_iff_lt, UInt32.lt_iff_toNat_lt] at hmore
      omega
  · rw [UInt64.toNat_add, h.sum, UInt32.toNat_toUInt64, List.sum_append, List.sum_singleton]
    omega
  · rw [toNat_add_one (by rw [h.count]; omega), h.count, List.length_append,
      List.length_singleton]

/-- **The loop**, by induction on the samples: nothing overflows. -/
theorem StatsOf.foldl (xs : List TimingSample) :
    ∀ {acc d}, StatsOf acc d → (∀ x ∈ d, x < 2 ^ 32) → d.length + xs.length < 2 ^ 31 →
      StatsOf (xs.foldl (statsPass label) acc) (d ++ durations label xs) := by
  induction xs with
  | nil =>
    intro acc d h _ _
    simpa [durations] using h
  | cons x xs ih =>
    intro acc d h hlt hlen
    rw [List.length_cons] at hlen
    rw [List.foldl_cons]
    by_cases hx : labelled label x = true
    · have hpass := h.pass hlt (by omega) x hx
      have hlt' : ∀ y ∈ d ++ [x.durationUs.toNat], y < 2 ^ 32 := by
        intro y hy
        rcases List.mem_append.mp hy with hy | hy
        · exact hlt y hy
        · rw [List.mem_singleton.mp hy]
          exact x.durationUs.toNat_lt
      have hrest := ih hpass hlt' (by rw [List.length_append, List.length_singleton]; omega)
      simpa [durations, hx] using hrest
    · rw [statsPass, if_neg hx]
      have hrest := ih h hlt (by omega)
      simpa [durations, hx] using hrest

theorem statsOf_start : StatsOf ⟨4294967295, 0, 0, 0⟩ [] := ⟨rfl, rfl, rfl, rfl⟩

theorem statsOf_loop (label : List Char) {s : Timing} (hlen : s.samples.length < 2 ^ 31) (n : Nat) :
    StatsOf (statsLoop label n s) (durations label (s.samples.take n)) := by
  have hle := List.length_take_le' n s.samples
  exact statsOf_start.foldl _ (fun _ h => by cases h) (by simp only [List.length_nil]; omega)

/-- The minimum, from any start that no duration exceeds. -/
theorem min?_of_foldl {b m : Nat} (hne : d ≠ []) (hb : ∀ x ∈ d, x ≤ b) (hm : m = d.foldl min b) :
    d.min? = some m := by
  cases d with
  | nil => exact absurd rfl hne
  | cons x xs =>
    rw [List.min?_cons', hm, List.foldl_cons, Nat.min_eq_right (hb x List.mem_cons_self)]

theorem max?_of_foldl {m : Nat} (hne : d ≠ []) (hm : m = d.foldl max 0) : d.max? = some m := by
  cases d with
  | nil => exact absurd rfl hne
  | cons x xs => rw [List.max?_cons', hm, List.foldl_cons, Nat.zero_max]

/-- An average lies between the extremes. -/
theorem avg_between {lo hi : Nat} (hne : d ≠ []) (hlo : ∀ x ∈ d, lo ≤ x) (hhi : ∀ x ∈ d, x ≤ hi) :
    lo ≤ d.sum / d.length ∧ d.sum / d.length ≤ hi := by
  have hpos : 0 < d.length := List.length_pos_of_ne_nil hne
  constructor
  · rw [Nat.le_div_iff_mul_le hpos, Nat.mul_comm]
    simpa using d.card_nsmul_le_sum lo hlo
  · refine Nat.div_le_of_le_mul ?_
    simpa using d.sum_le_card_nsmul hi hhi

/-- What the statistics of a list of durations are. -/
structure StatsFor (st : TimingStats) (d : List Nat) : Prop where
  min : d.min? = some st.minUs.toNat
  max : d.max? = some st.maxUs.toNat
  avg : st.avgUs.toNat = d.sum / d.length
  count : st.count.toNat = d.length
  ordered : st.minUs ≤ st.avgUs ∧ st.avgUs ≤ st.maxUs

/-- What the function stores after the loop: the cast of the average keeps
its value. -/
theorem StatsOf.stored (h : StatsOf acc d) (hne : d ≠ []) (hlt : ∀ x ∈ d, x < 2 ^ 32) :
    StatsFor ⟨acc.minUs, acc.maxUs, (acc.sumUs / acc.count.toUInt64).toUInt32, acc.count⟩ d := by
  have hmin : d.min? = some acc.minUs.toNat :=
    min?_of_foldl hne (fun x hx => Nat.le_sub_one_of_lt (hlt x hx)) h.min
  have hmax : d.max? = some acc.maxUs.toNat := max?_of_foldl hne h.max
  obtain ⟨hlo, hhi⟩ := avg_between hne (List.min?_eq_some_iff.mp hmin).2
    (List.max?_eq_some_iff.mp hmax).2
  have havg : (acc.sumUs / acc.count.toUInt64).toUInt32.toNat = d.sum / d.length := by
    rw [UInt64.toNat_toUInt32, UInt64.toNat_div, UInt32.toNat_toUInt64, h.sum, h.count]
    exact Nat.mod_eq_of_lt (Nat.lt_of_le_of_lt hhi acc.maxUs.toNat_lt)
  refine ⟨hmin, hmax, havg, h.count, ?_, ?_⟩
  · rw [UInt32.le_iff_toNat_le, havg]
    exact hlo
  · rw [UInt32.le_iff_toNat_le, havg]
    exact hhi

/-- The order of the durations does not matter. -/
theorem StatsFor.perm {st : TimingStats} {w : List Nat} (h : StatsFor st d) (hperm : d.Perm w) :
    StatsFor st w := by
  obtain ⟨hminMem, hminLe⟩ := List.min?_eq_some_iff.mp h.min
  obtain ⟨hmaxMem, hmaxLe⟩ := List.max?_eq_some_iff.mp h.max
  refine ⟨?_, ?_, ?_, ?_, h.ordered⟩
  · exact List.min?_eq_some_iff.mpr
      ⟨hperm.mem_iff.mp hminMem, fun x hx => hminLe x (hperm.mem_iff.mpr hx)⟩
  · exact List.max?_eq_some_iff.mpr
      ⟨hperm.mem_iff.mp hmaxMem, fun x hx => hmaxLe x (hperm.mem_iff.mpr hx)⟩
  · rw [h.avg, hperm.sum_eq, hperm.length_eq]
  · rw [h.count, hperm.length_eq]

end Loop

/-! ## The ring behind the samples -/

variable {cfg : TimingConfig} {s s' : TimingRun} {a : TimingAct}

/-- The ring that the array and its counters make. -/
def Timing.ring (s : Timing) : RingBuf TimingSample :=
  ⟨s.samples, s.sampleHead.toNat, s.sampleCount.toNat⟩

/-- The ring holds samples that say what was measured. -/
structure TimingInv (cfg : TimingConfig) (s : TimingRun) : Prop where
  size : s.timing.samples.length = cfg.samples.toNat
  holds : ∃ hist, s.timing.ring.Holds hist ∧
    hist.map (fun x => (x.label, x.durationUs.toNat)) =
      s.measured.map fun m => (some m.1, m.2 * 10 ^ 6 / cfg.cyclesPerSec.toNat)
  handles : ∀ h ∈ s.handles, h.1 = .ofNat h.2 ∧ h.2 ≤ s.clock
  fresh : s.timing.initialized = false → s.measured = []

theorem TimingInv.size_ring (hi : TimingInv cfg s) : s.timing.ring.size = cfg.samples.toNat :=
  hi.size

theorem TimingInv.length_lt (hi : TimingInv cfg s) : s.timing.samples.length < 2 ^ 31 := by
  rw [hi.size]
  exact cfg.samples_int

/-- The handles stay good as the time goes on. -/
theorem TimingInv.handles_later (hi : TimingInv cfg s) {now : Nat} (hclock : s.clock ≤ now) :
    ∀ h ∈ s.handles, h.1 = .ofNat h.2 ∧ h.2 ≤ now :=
  fun h hh => ⟨(hi.handles h hh).1, (hi.handles h hh).2.trans hclock⟩

/-- A sample goes into the ring. -/
theorem ring_ceellTimingStop (t : Timing) (hsize : t.samples.length = cfg.samples.toNat)
    {hist : List TimingSample} (hholds : t.ring.Holds hist) (hinit : t.initialized = true)
    (l : List Char) (handle endCycle : UInt32) :
    (ceellTimingStop cfg (some l) handle endCycle t).ring =
      t.ring.push ⟨some l, handle, endCycle, cyclesToUs cfg (endCycle - handle)⟩ := by
  have hring : t.ring.size = cfg.samples.toNat := hsize
  have hhead := hholds.head_lt (by rw [hring]; exact cfg.samples_pos)
  rw [hring] at hhead
  have hhead : t.sampleHead.toNat < cfg.samples.toNat := hhead
  have hint := cfg.samples_int
  have hidx : (t.sampleHead % cfg.samples).toNat = t.sampleHead.toNat := by
    rw [UInt32.toNat_mod, Nat.mod_eq_of_lt hhead]
  have hnext : ((t.sampleHead + 1) % cfg.samples).toNat =
      (t.sampleHead.toNat + 1) % cfg.samples.toNat := by
    rw [UInt32.toNat_mod, toNat_add_one (by omega)]
  have hstop : ceellTimingStop cfg (some l) handle endCycle t =
      { t with
        samples := t.samples.set (t.sampleHead % cfg.samples).toNat
          ⟨some l, handle, endCycle, cyclesToUs cfg (endCycle - handle)⟩
        sampleHead := (t.sampleHead + 1) % cfg.samples
        sampleCount :=
          if t.sampleCount < cfg.samples then t.sampleCount + 1 else t.sampleCount } := by
    simp [ceellTimingStop, hinit]
  rw [hstop]
  refine RingBuf.ext ?_ ?_ ?_
  · change t.samples.set _ _ = t.samples.set _ _
    rw [hidx]
    rfl
  · change ((t.sampleHead + 1) % cfg.samples).toNat = (t.sampleHead.toNat + 1) % t.ring.size
    rw [hnext, hring]
  · change (if t.sampleCount < cfg.samples then t.sampleCount + 1 else t.sampleCount).toNat =
      if t.sampleCount.toNat < t.ring.size then t.sampleCount.toNat + 1 else t.sampleCount.toNat
    rw [hring]
    by_cases hfull : t.sampleCount < cfg.samples
    · have hless := UInt32.lt_iff_toNat_lt.mp hfull
      rw [if_pos hfull, if_pos hless, toNat_add_one (by omega)]
    · rw [if_neg hfull, if_neg (fun h => hfull (UInt32.lt_iff_toNat_lt.mpr h))]

theorem timingInv_init (cfg : TimingConfig) (t : Timing) (clock : Nat)
    (handles : List (UInt32 × Nat)) (hsamples : t.ring = RingBuf.blank cfg.samples.toNat .zero)
    (hhandles : ∀ h ∈ handles, h.1 = .ofNat h.2 ∧ h.2 ≤ clock) :
    TimingInv cfg ⟨t, clock, handles, []⟩ where
  size := by
    have := congrArg RingBuf.size hsamples
    rwa [RingBuf.size_blank] at this
  holds := ⟨[], by rw [hsamples]; exact RingBuf.holds_blank _ _, rfl⟩
  handles := hhandles
  fresh _ := rfl

/-- A stop of a measurement that has lasted fewer than 2^32 cycles. -/
theorem TimingInv.stop (hfreq : 10 ^ 6 ≤ cfg.cyclesPerSec.toNat) (hi : TimingInv cfg s)
    (hinit : s.timing.initialized = true) (l : List Char) {start now : Nat} (hstart : start ≤ now)
    (hlasts : now < start + 2 ^ 32) (hclock : s.clock ≤ now) :
    TimingInv cfg
      { s with
        timing := ceellTimingStop cfg (some l) (.ofNat start) (.ofNat now) s.timing
        clock := now
        measured := (l, now - start) :: s.measured } := by
  obtain ⟨hist, hholds, hhist⟩ := hi.holds
  have hring := ring_ceellTimingStop s.timing hi.size hholds hinit l (.ofNat start) (.ofNat now)
  have hpush := hholds.push (by rw [hi.size_ring]; exact cfg.samples_pos)
    ⟨some l, .ofNat start, .ofNat now, cyclesToUs cfg (.ofNat now - .ofNat start)⟩
  rw [← hring] at hpush
  constructor
  · have := congrArg RingBuf.size hring
    rw [RingBuf.size_push, hi.size_ring] at this
    exact this
  · refine ⟨_, hpush, ?_⟩
    rw [List.map_cons, List.map_cons, hhist, toNat_cyclesToUs hfreq,
      toNat_counter_sub hstart hlasts]
  · exact hi.handles_later hclock
  · intro hnot
    rw [ceellTimingStop] at hnot
    simp [hinit] at hnot

/-- A stop that stores nothing. -/
theorem ceellTimingStop_ignored (label : Option (List Char)) (handle endCycle : UInt32) (t : Timing)
    (h : ¬ (t.initialized = true ∧ label.isSome = true)) :
    ceellTimingStop cfg label handle endCycle t = t := by
  rw [ceellTimingStop, if_pos]
  cases label <;> simp_all

theorem timingInv_step (hfreq : 10 ^ 6 ≤ cfg.cyclesPerSec.toNat) (hi : TimingInv cfg s)
    (hs : timingStep cfg s a = some s') : TimingInv cfg s' := by
  cases a with
  | init =>
    obtain rfl := Option.some.inj hs
    exact timingInv_init cfg _ _ _ rfl hi.handles
  | start handle now =>
    simp only [timingStep] at hs
    split at hs
    · rename_i hclock
      obtain rfl := Option.some.inj hs
      refine ⟨hi.size, hi.holds, ?_, hi.fresh⟩
      intro h hmem
      rcases List.mem_append.mp hmem with hnew | hold
      · cases handle with
        | none => simp [ceellTimingStart] at hnew
        | some old =>
          obtain rfl : h = (.ofNat now, now) := by simpa [ceellTimingStart] using hnew
          exact ⟨rfl, Nat.le_refl _⟩
      · exact hi.handles_later hclock h hold
    · cases hs
  | stop label handle now =>
    simp only [timingStep] at hs
    split at hs
    · rename_i hguard
      obtain ⟨hclock, hmem, hlasts⟩ := hguard
      obtain ⟨hcycle, hstart⟩ := hi.handles handle hmem
      obtain rfl := Option.some.inj hs
      by_cases hstored : s.timing.initialized = true ∧ label.isSome = true
      · obtain ⟨hinit, hlabel⟩ := hstored
        obtain ⟨l, rfl⟩ := Option.isSome_iff_exists.mp hlabel
        have hstop := hi.stop hfreq hinit l (hstart.trans hclock) hlasts hclock
        rw [← hcycle] at hstop
        simpa [hinit] using hstop
      · rw [ceellTimingStop_ignored label _ _ _ hstored]
        have hsame : (if s.timing.initialized then
            (label.map (·, now - handle.2)).toList ++ s.measured else s.measured) = s.measured := by
          cases label with
          | none => simp
          | some l =>
            have hinit : ¬ s.timing.initialized = true := fun h => hstored ⟨h, rfl⟩
            rw [if_neg hinit]
        rw [hsame]
        exact ⟨hi.size, hi.holds, hi.handles_later hclock, hi.fresh⟩
    · cases hs

theorem timingInv_of_reachable (hfreq : 10 ^ 6 ≤ cfg.cyclesPerSec.toNat)
    (hr : (timingMachine cfg).Reachable s) : TimingInv cfg s := by
  refine Machine.Reachable.induct (P := TimingInv cfg) ?_ (fun s a s' hi hs => ?_) hr
  · exact timingInv_init cfg _ _ _ rfl (fun _ h => by cases h)
  · exact timingInv_step hfreq hi hs

/-- The samples in use show the durations of the last measurements. -/
theorem durations_perm (hi : TimingInv cfg s) (label : List Char) :
    (durations label (s.timing.samples.take s.timing.sampleCount.toNat)).Perm
      (trueDurations cfg label s.measured) := by
  obtain ⟨hist, hholds, hhist⟩ := hi.holds
  have hperm := hholds.slots_perm
  rw [hi.size_ring] at hperm
  have htrue : durations label (hist.take cfg.samples.toNat) =
      trueDurations cfg label s.measured := by
    -- both pick the durations from what the samples and the measurements share
    have hpick := congrArg (fun ps => ((ps.take cfg.samples.toNat).filter fun p =>
      p.1.any fun l => decide (cstr l = cstr label)).map Prod.snd) hhist
    have hlabelled : labelled label = fun x => x.label.any fun l => decide (cstr l = cstr label) :=
      rfl
    simpa [durations, trueDurations, ← List.map_take, List.filter_map, Function.comp_def,
      hlabelled] using hpick
  rw [← htrue]
  exact (hperm.filter _).map _

/-! ## The statistics -/

/-- No value that the stops and the statistics compute exceeds its type:
the products and quotients of the conversion, the head and the number of
samples, and the sum and the count after every pass of the loop. -/
structure Exact (cfg : TimingConfig) (label : List Char) (t : Timing) : Prop where
  product : ∀ cycles : UInt32, (cycles.toUInt64 * 1000000).toNat = cycles.toNat * 10 ^ 6
  quotient : ∀ cycles : UInt32,
    (cyclesToUs cfg cycles).toNat = cycles.toNat * 10 ^ 6 / cfg.cyclesPerSec.toNat
  head : (t.sampleHead + 1).toNat = t.sampleHead.toNat + 1 ∧ t.sampleHead.toNat < t.samples.length
  inBounds : t.sampleCount.toNat ≤ t.samples.length
  sum : ∀ n, (statsLoop label n t).sumUs.toNat = (durations label (t.samples.take n)).sum
  count : ∀ n, (statsLoop label n t).count.toNat = (durations label (t.samples.take n)).length

theorem TimingInv.exact (hfreq : 10 ^ 6 ≤ cfg.cyclesPerSec.toNat) (hi : TimingInv cfg s)
    (label : List Char) : Exact cfg label s.timing := by
  obtain ⟨hist, hholds, _⟩ := hi.holds
  have hlen := hi.length_lt
  have hpos : 0 < s.timing.samples.length := by
    rw [hi.size]
    exact cfg.samples_pos
  have hhead : s.timing.sampleHead.toNat < s.timing.samples.length := hholds.head_lt hpos
  constructor
  · exact toNat_cycles_mul
  · exact toNat_cyclesToUs hfreq
  · exact ⟨toNat_add_one (by omega), hhead⟩
  · exact hholds.count_le
  · exact fun n => (statsOf_loop label hlen n).sum
  · exact fun n => (statsOf_loop label hlen n).count

/-- **The statistics** under the invariant. -/
theorem ceellTimingGetStats_eq (hi : TimingInv cfg s) (label : List Char) (stats : TimingStats) :
    if trueDurations cfg label s.measured = [] then
      ceellTimingGetStats (some label) (some stats) s.timing = (-1, some stats)
    else
      ∃ st, ceellTimingGetStats (some label) (some stats) s.timing = (0, some st) ∧
        StatsFor st (trueDurations cfg label s.measured) := by
  have hperm := durations_perm hi label
  have hloop := statsOf_loop label hi.length_lt s.timing.sampleCount.toNat
  have hzero : (statsLoop label s.timing.sampleCount.toNat s.timing).count = 0 ↔
      trueDurations cfg label s.measured = [] := by
    rw [← UInt32.toNat_inj, hloop.count, hperm.length_eq]
    exact List.length_eq_zero_iff
  by_cases hinit : s.timing.initialized = true
  · by_cases hnone : trueDurations cfg label s.measured = []
    · simp [ceellTimingGetStats, hinit, hnone, hzero.mpr hnone]
    · have hsome : durations label (s.timing.samples.take s.timing.sampleCount.toNat) ≠ [] :=
        fun h => hnone (List.Perm.nil_eq (h ▸ hperm)).symm
      have hstored := (hloop.stored hsome fun x hx => durations_lt hx).perm hperm
      have hcount := mt hzero.mp hnone
      rw [if_neg hnone]
      refine ⟨_, ?_, hstored⟩
      simp [ceellTimingGetStats, hinit, hcount]
  · have hfresh := hi.fresh (by simpa using hinit)
    simp [ceellTimingGetStats, hinit, hfresh, trueDurations]

/-- **Over every run** of measurements, with a clock of at least 1 MHz: the
statistics of a label are there exactly if one of the last measurements that
the ring has room for has the label, they are those of the true durations of
these measurements, and nothing overflows on the way. -/
theorem timingStats_window (cfg : TimingConfig) (hfreq : 10 ^ 6 ≤ cfg.cyclesPerSec.toNat)
    (s : TimingRun) (hr : (timingMachine cfg).Reachable s) (label : List Char)
    (stats : TimingStats) :
    ((ceellTimingGetStats (some label) (some stats) s.timing).1 = 0 ↔
      ∃ m ∈ s.measured.take cfg.samples.toNat, cstr m.1 = cstr label) ∧
    ((ceellTimingGetStats (some label) (some stats) s.timing).1 = 0 →
      ∃ st, (ceellTimingGetStats (some label) (some stats) s.timing).2 = some st ∧
        StatsFor st (trueDurations cfg label s.measured)) ∧
    Exact cfg label s.timing := by
  have hi := timingInv_of_reachable hfreq hr
  have hget := ceellTimingGetStats_eq hi label stats
  have hempty : trueDurations cfg label s.measured = [] ↔
      ¬ ∃ m ∈ s.measured.take cfg.samples.toNat, cstr m.1 = cstr label := by
    simp [trueDurations, List.filter_eq_nil_iff]
  by_cases hnone : trueDurations cfg label s.measured = []
  · rw [if_pos hnone] at hget
    rw [hget]
    refine ⟨iff_of_false ?_ (hempty.mp hnone), fun h => ?_, hi.exact hfreq label⟩
    · simp
    · simp at h
  · rw [if_neg hnone] at hget
    obtain ⟨st, hst, hfor⟩ := hget
    rw [hst]
    exact ⟨iff_of_true rfl (not_not.mp fun h => hnone (hempty.mpr h)), fun _ => ⟨st, rfl, hfor⟩,
      hi.exact hfreq label⟩

/-- The default of 64 samples, and the clock of `native_sim`. -/
def nativeSim : TimingConfig := ⟨64, 1000000, by decide, by decide⟩

/-- A tick of 100 cycles while the counter wraps. -/
def wrappingTick : List TimingAct :=
  [.init, .start (some 0) (2 ^ 32 - 10),
    .stop (some "tick".toList) (.ofNat (2 ^ 32 - 10), 2 ^ 32 - 10) (2 ^ 32 + 90)]

theorem timingStats_window_wrappingTick :
    ∃ s, (timingMachine nativeSim).run wrappingTick = some s ∧
      (ceellTimingGetStats (some "tick".toList) (some ⟨0, 0, 0, 0⟩) s.timing).1 = 0 ∧
      (∃ st, (ceellTimingGetStats (some "tick".toList) (some ⟨0, 0, 0, 0⟩) s.timing).2 = some st ∧
        StatsFor st (trueDurations nativeSim "tick".toList [("tick".toList, 100)])) ∧
      Exact nativeSim "tick".toList s.timing := by
  refine ⟨_, rfl, ?_⟩
  obtain ⟨hret, hstats, hexact⟩ :=
    timingStats_window nativeSim (by decide) _ ⟨wrappingTick, rfl⟩ "tick".toList ⟨0, 0, 0, 0⟩
  have hzero := hret.mpr ⟨("tick".toList, 100), List.mem_singleton_self _, rfl⟩
  exact ⟨hzero, hstats hzero, hexact⟩

end Ceell.Core
