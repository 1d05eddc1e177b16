/-
Ceell.Core.TimingReport — `ceell_timing_print_stats`, the report of all
labels, and the loop of `ceell/core/lifecycle.c` that prints it.

The report collects the labels under the mutex, lets go of it, and takes it
again for the statistics of each label. So other threads can measure while
it is printed: a label that was collected can be gone from the ring, and
the lines are of different times. `timingReport_ok` says what holds of the
lines all the same, and what holds of a report that nobody disturbs.
`lifecycleReports_ok` is what the loop prints.
-/
import Mathlib.Algebra.BigOperators.Group.List.Lemmas
import Ceell.Core.Timing

namespace Ceell.Core

open Ceell.Lib

/-! ## The report -/

/-- One pass of the loop over the samples; `cap` is the length of
`seen_labels`. -/
def seenPass (cap : Nat) (seen : List (List Char)) (x : TimingSample) : List (List Char) :=
  match x.label with
  | none => seen
  | some lbl =>
      let found := seen.any fun l => decide (cstr l = cstr lbl)
      if !found && decide (seen.length < cap) then seen ++ [lbl] else seen

/-- `seen_labels` after the loop. -/
def seenLabels (cfg : TimingConfig) (s : Timing) : List (List Char) :=
  (s.samples.take s.sampleCount.toNat).foldl (seenPass cfg.samples.toNat) []

/-- A line that is printed for a label. -/
structure ReportLine where
  label : List Char
  stats : TimingStats
  deriving DecidableEq

/-- One pass of the loop that prints. -/
def printLine (s : Timing) (label : List Char) : Option ReportLine :=
  let r := ceellTimingGetStats (some label) (some ⟨0, 0, 0, 0⟩) s
  if r.1 = 0 then r.2.map fun stats => ⟨label, stats⟩ else none

/-- `ceell_timing_print_stats` by itself: the lines between the header and
the footer, or `none` for the module without its init. -/
def ceellTimingPrintStats (cfg : TimingConfig) (s : Timing) : Option (List ReportLine) :=
  if !s.initialized then none else some ((seenLabels cfg s).filterMap (printLine s))

/-! ## The report among measurements -/

/-- The measurements, and a report: the labels that it has yet to look up,
the lines so far with the measurements at the time of each, and whether the
samples are still as they were when it collected the labels. -/
structure ReportRun where
  run : TimingRun
  pending : List (List Char)
  printed : List (ReportLine × List (List Char × Nat))
  quiet : Bool

inductive ReportAct where
  | timing (a : TimingAct)
  | collect
  | line

def reportStep (cfg : TimingConfig) (s : ReportRun) : ReportAct → Option ReportRun
  | .timing a =>
      (timingStep cfg s.run a).map fun run =>
        { s with run := run, quiet := s.quiet && decide (run.timing = s.run.timing) }
  | .collect =>
      if s.pending.isEmpty then
        some { s with
          pending := if !s.run.timing.initialized then [] else seenLabels cfg s.run.timing
          printed := []
          quiet := true }
      else none
  | .line =>
      match s.pending with
      | [] => none
      | label :: rest =>
          some { s with
            pending := rest
            printed :=
              s.printed ++ ((printLine s.run.timing label).map (·, s.run.measured)).toList }

def reportMachine (cfg : TimingConfig) : Machine ReportRun ReportAct where
  init := ⟨(timingMachine cfg).init, [], [], false⟩
  step := reportStep cfg

/-- The names of the measurements that the ring has room for. -/
def timedNames (cfg : TimingConfig) (measured : List (List Char × Nat)) : List (List Char) :=
  (measured.take cfg.samples.toNat).map fun m => cstr m.1

/-! ## The labels -/

section Labels

variable {cap : Nat} {seen : List (List Char)} {xs : List TimingSample}

/-- The labels of these samples, each once. -/
structure Seen (seen : List (List Char)) (xs : List TimingSample) : Prop where
  distinct : (seen.map cstr).Nodup
  mem : ∀ name, name ∈ seen.map cstr ↔ some name ∈ xs.map fun x => x.label.map cstr
  few : seen.length ≤ xs.length

theorem found_iff (seen : List (List Char)) (lbl : List Char) :
    (seen.any fun l => decide (cstr l = cstr lbl)) = true ↔ cstr lbl ∈ seen.map cstr := by
  simp

theorem Seen.pass (h : Seen seen xs) (hroom : xs.length < cap) (x : TimingSample) :
    Seen (seenPass cap seen x) (xs ++ [x]) := by
  have hfew := h.few
  have hfits : seen.length < cap := by omega
  unfold seenPass
  cases hlabel : x.label with
  | none =>
    refine ⟨h.distinct, fun name => ?_, ?_⟩
    · simp only [List.map_append, List.mem_append, List.map_cons, List.map_nil, hlabel,
        Option.map_none, List.mem_singleton, h.mem name, reduceCtorEq, or_false]
    · change seen.length ≤ _
      rw [List.length_append]
      omega
  | some lbl =>
    by_cases hfound : cstr lbl ∈ seen.map cstr
    · have hany := (found_iff seen lbl).mpr hfound
      simp only [hany, Bool.not_true, Bool.false_and, Bool.false_eq_true, if_false]
      refine ⟨h.distinct, fun name => ?_, ?_⟩
      · rw [h.mem name, List.map_append, List.mem_append, List.map_singleton, List.mem_singleton,
          hlabel, Option.map_some, Option.some.injEq]
        constructor
        · exact Or.inl
        · rintro (hmem | rfl)
          · exact hmem
          · exact (h.mem _).mp hfound
      · rw [List.length_append]
        omega
    · have hany := mt (found_iff seen lbl).mp hfound
      rw [Bool.not_eq_true] at hany
      simp only [hany, Bool.not_false, Bool.true_and, decide_eq_true_eq, hfits, if_true]
      refine ⟨?_, fun name => ?_, ?_⟩
      · rw [List.map_append, List.map_singleton, ← List.concat_eq_append]
        exact h.distinct.concat hfound
      · rw [List.map_append, List.map_append, List.mem_append, List.mem_append, h.mem name,
          List.map_singleton, List.map_singleton, List.mem_singleton, List.mem_singleton, hlabel,
          Option.map_some, Option.some.injEq]
      · rw [List.length_append, List.length_append, List.length_singleton, List.length_singleton]
        omega

/-- **The loop**, by induction on the samples: `seen_labels` has room for
all. -/
theorem Seen.foldl (ys : List TimingSample) :
    ∀ {seen xs}, Seen seen xs → xs.length + ys.length ≤ cap →
      Seen (ys.foldl (seenPass cap) seen) (xs ++ ys) := by
  induction ys with
  | nil =>
    intro seen xs h _
    rwa [List.append_nil]
  | cons y ys ih =>
    intro seen xs h hroom
    rw [List.length_cons] at hroom
    have hpass : Seen (seenPass cap seen y) (xs ++ [y]) := h.pass (by omega) y
    have hrest := ih hpass (by rw [List.length_append, List.length_singleton]; omega)
    rwa [List.append_assoc] at hrest

theorem seen_start : Seen [] [] := ⟨List.nodup_nil, by simp, Nat.le_refl 0⟩

end Labels

variable {cfg : TimingConfig} {s : TimingRun}

/-- The samples in use have the names of the last measurements. -/
theorem names_perm (hi : TimingInv cfg s) :
    ((s.timing.samples.take s.timing.sampleCount.toNat).map fun x => x.label.map cstr).Perm
      ((timedNames cfg s.measured).map some) := by
  obtain ⟨hist, hholds, hhist⟩ := hi.holds
  have hperm := hholds.slots_perm
  rw [hi.size_ring] at hperm
  have hnames := congrArg (fun ps => (ps.take cfg.samples.toNat).map fun p =>
    p.1.map cstr) hhist
  have htrue : ((hist.take cfg.samples.toNat).map fun x => x.label.map cstr) =
      (timedNames cfg s.measured).map some := by
    simpa [timedNames, ← List.map_take, Function.comp_def] using hnames
  rw [← htrue]
  exact hperm.map _

/-- What the report collects. -/
theorem seenLabels_spec (hi : TimingInv cfg s) :
    ((seenLabels cfg s.timing).map cstr).Nodup ∧
      ∀ name, name ∈ (seenLabels cfg s.timing).map cstr ↔ name ∈ timedNames cfg s.measured := by
  obtain ⟨hist, hholds, _⟩ := hi.holds
  have hcount : s.timing.sampleCount.toNat ≤ cfg.samples.toNat := by
    rw [← hi.size]
    exact hholds.count_le
  have hseen : Seen (seenLabels cfg s.timing)
      (s.timing.samples.take s.timing.sampleCount.toNat) :=
    seen_start.foldl _ (by rw [List.length_nil, List.length_take]; omega)
  refine ⟨hseen.distinct, fun name => ?_⟩
  rw [hseen.mem name, (names_perm hi).mem_iff, List.mem_map]
  simp

/-! ## The lines -/

theorem length_trueDurations (label : List Char) (measured : List (List Char × Nat)) :
    (trueDurations cfg label measured).length =
      (timedNames cfg measured).countP fun name => decide (name = cstr label) := by
  rw [trueDurations, List.length_map, timedNames, List.countP_map, List.countP_eq_length_filter]
  rfl

theorem trueDurations_eq_nil_iff {label : List Char} {measured : List (List Char × Nat)} :
    trueDurations cfg label measured = [] ↔ cstr label ∉ timedNames cfg measured := by
  rw [← List.length_eq_zero_iff, length_trueDurations, List.countP_eq_zero]
  constructor
  · intro h hmem
    exact h _ hmem (decide_eq_true rfl)
  · intro h name hname heq
    exact h (of_decide_eq_true heq ▸ hname)

/-- A line is printed for the labels of the last measurements, and for no
others. -/
theorem printLine_spec (hi : TimingInv cfg s) (label : List Char) :
    if cstr label ∈ timedNames cfg s.measured then
      ∃ stats, printLine s.timing label = some ⟨label, stats⟩ ∧
        StatsFor stats (trueDurations cfg label s.measured)
    else printLine s.timing label = none := by
  have hget := ceellTimingGetStats_eq hi label ⟨0, 0, 0, 0⟩
  by_cases hmem : cstr label ∈ timedNames cfg s.measured
  · rw [if_neg (fun h => trueDurations_eq_nil_iff.mp h hmem)] at hget
    obtain ⟨stats, hret, hstats⟩ := hget
    rw [if_pos hmem]
    exact ⟨stats, by simp [printLine, hret], hstats⟩
  · rw [if_pos (trueDurations_eq_nil_iff.mpr hmem)] at hget
    rw [if_neg hmem]
    simp [printLine, hget]

theorem printLine_some (hi : TimingInv cfg s) {label : List Char} {l : ReportLine}
    (h : printLine s.timing label = some l) :
    l.label = label ∧ StatsFor l.stats (trueDurations cfg label s.measured) := by
  have hspec := printLine_spec hi label
  split at hspec
  · obtain ⟨stats, hline, hstats⟩ := hspec
    obtain rfl := Option.some.inj (hline.symm.trans h)
    exact ⟨rfl, hstats⟩
  · rw [hspec] at h
    cases h

/-- The lines of a report on samples that do not change: one for each name
of the last measurements, and each of these is in one line. -/
structure WholeReport (cfg : TimingConfig) (measured : List (List Char × Nat))
    (lines : List ReportLine) : Prop where
  distinct : (lines.map fun l => cstr l.label).Nodup
  labels : ∀ name, name ∈ lines.map (fun l => cstr l.label) ↔ name ∈ timedNames cfg measured
  exact : ∀ l ∈ lines, StatsFor l.stats (trueDurations cfg l.label measured)
  counts : (lines.map fun l => l.stats.count.toNat).sum = min measured.length cfg.samples.toNat

/-- The counts of the lines, label by label, are those of the names. -/
theorem sum_counts {measured : List (List Char × Nat)} {lines : List ReportLine}
    (hdistinct : (lines.map fun l => cstr l.label).Nodup)
    (hlabels : ∀ name, name ∈ lines.map (fun l => cstr l.label) ↔ name ∈ timedNames cfg measured)
    (hexact : ∀ l ∈ lines, StatsFor l.stats (trueDurations cfg l.label measured)) :
    (lines.map fun l => l.stats.count.toNat).sum = min measured.length cfg.samples.toNat := by
  have hperm : (lines.map fun l => cstr l.label).Perm (timedNames cfg measured).dedup := by
    rw [List.perm_ext_iff_of_nodup hdistinct (List.nodup_dedup _)]
    exact fun name => by rw [hlabels, List.mem_dedup]
  calc (lines.map fun l => l.stats.count.toNat).sum
      = ((lines.map fun l => cstr l.label).map fun name =>
          (timedNames cfg measured).countP fun n => decide (n = name)).sum := by
        rw [List.map_map]
        refine congrArg List.sum (List.map_congr_left fun l hl => ?_)
        rw [(hexact l hl).count, length_trueDurations]
        rfl
    _ = ((timedNames cfg measured).dedup.map fun name =>
          (timedNames cfg measured).countP fun n => decide (n = name)).sum :=
        (hperm.map _).sum_eq
    _ = (timedNames cfg measured).length := List.sum_map_count_dedup_eq_length _
    _ = min measured.length cfg.samples.toNat := by
        rw [timedNames, List.length_map, List.length_take, Nat.min_comm]

/-- The report by itself. -/
theorem wholeReport (hi : TimingInv cfg s) :
    WholeReport cfg s.measured ((seenLabels cfg s.timing).filterMap (printLine s.timing)) := by
  obtain ⟨hdistinct, hlabels⟩ := seenLabels_spec hi
  have hprinted : ((seenLabels cfg s.timing).filterMap (printLine s.timing)).map (fun l => l.label)
      = seenLabels cfg s.timing := by
    rw [List.map_filterMap]
    refine (List.filterMap_congr fun label hlabel => ?_).trans List.filterMap_some
    have hspec := printLine_spec hi label
    rw [if_pos ((hlabels _).mp (List.mem_map_of_mem hlabel))] at hspec
    obtain ⟨stats, hline, _⟩ := hspec
    rw [hline]
    rfl
  have hnames : ((seenLabels cfg s.timing).filterMap (printLine s.timing)).map
      (fun l => cstr l.label) = (seenLabels cfg s.timing).map cstr := by
    rw [← hprinted, List.map_map, hprinted]
    rfl
  have hexact : ∀ l ∈ (seenLabels cfg s.timing).filterMap (printLine s.timing),
      StatsFor l.stats (trueDurations cfg l.label s.measured) := by
    intro l hl
    obtain ⟨label, _, hline⟩ := List.mem_filterMap.mp hl
    obtain ⟨rfl, hstats⟩ := printLine_some hi hline
    exact hstats
  rw [← hnames] at hdistinct hlabels
  exact ⟨hdistinct, hlabels, hexact, sum_counts hdistinct hlabels hexact⟩

/-! ## Reports among measurements -/

/-- What the lines of a report say, whoever measures meanwhile. -/
structure ReportOk (cfg : TimingConfig) (s : ReportRun) : Prop where
  /-- No label has two lines. -/
  distinct : (s.printed.map fun l => cstr l.1.label).Nodup
  /-- Each line has the statistics of its label as they were at its time. -/
  exact : ∀ l ∈ s.printed, StatsFor l.1.stats (trueDurations cfg l.1.label l.2)
  /-- A report that nobody disturbs has each of the last measurements in one
  line. -/
  whole : s.quiet = true → s.pending = [] →
    WholeReport cfg s.run.measured (s.printed.map Prod.fst)

/-- What every step keeps: `done` are the labels looked up so far. -/
structure ReportInv (cfg : TimingConfig) (s : ReportRun) : Prop where
  timing : TimingInv cfg s.run
  exact : ∀ l ∈ s.printed, StatsFor l.1.stats (trueDurations cfg l.1.label l.2)
  progress : ∃ done, ((done ++ s.pending).map cstr).Nodup ∧
    (s.printed.map fun l => l.1.label).Sublist done ∧
    (s.quiet = true → done ++ s.pending = seenLabels cfg s.run.timing ∧
      s.printed.map Prod.fst = done.filterMap (printLine s.run.timing))

section Reports

variable {s s' : ReportRun} {a : ReportAct}

/-- Without an init there is nothing to report. -/
theorem seenLabels_uninitialized (hi : TimingInv cfg s.run)
    (hinit : s.run.timing.initialized = false) : seenLabels cfg s.run.timing = [] := by
  have hnames : ∀ name, name ∉ (seenLabels cfg s.run.timing).map cstr := by
    intro name
    rw [(seenLabels_spec hi).2 name, timedNames, hi.fresh hinit]
    simp
  exact List.map_eq_nil_iff.mp (List.eq_nil_iff_forall_not_mem.mpr hnames)

/-- The label that is looked up next. -/
theorem reportInv_line (h : ReportInv cfg s) {label : List Char} {rest : List (List Char)}
    (hpending : s.pending = label :: rest) :
    ReportInv cfg { s with
      pending := rest
      printed := s.printed ++
        ((printLine s.run.timing label).map (·, s.run.measured)).toList } := by
  obtain ⟨done, hnodup, hsub, hquiet⟩ := h.progress
  rw [hpending, List.append_cons] at hnodup hquiet
  cases hline : printLine s.run.timing label with
  | none =>
    rw [Option.map_none, Option.toList_none, List.append_nil]
    refine ⟨h.timing, h.exact, done ++ [label], hnodup, hsub.trans (List.sublist_append_left _ _),
      fun hq => ?_⟩
    obtain ⟨hseen, hprinted⟩ := hquiet hq
    exact ⟨hseen, by simp [hprinted, hline]⟩
  | some l =>
    obtain ⟨hlabel, hstats⟩ := printLine_some h.timing hline
    rw [Option.map_some, Option.toList_some]
    refine ⟨h.timing, ?_, done ++ [label], hnodup, ?_, fun hq => ?_⟩
    · intro x hx
      rcases List.mem_append.mp hx with hold | hnew
      · exact h.exact x hold
      · obtain rfl := List.mem_singleton.mp hnew
        change StatsFor l.stats (trueDurations cfg l.label s.run.measured)
        rw [hlabel]
        exact hstats
    · rw [List.map_append, List.map_singleton, hlabel]
      exact hsub.append (List.Sublist.refl _)
    · obtain ⟨hseen, hprinted⟩ := hquiet hq
      exact ⟨hseen, by simp [hprinted, hline]⟩

theorem reportInv_step (hfreq : 10 ^ 6 ≤ cfg.cyclesPerSec.toNat) (h : ReportInv cfg s)
    (hs : reportStep cfg s a = some s') : ReportInv cfg s' := by
  cases a with
  | timing a =>
    obtain ⟨run, hrun, rfl⟩ := Option.map_eq_some_iff.mp hs
    obtain ⟨done, hnodup, hsub, hquiet⟩ := h.progress
    refine ⟨timingInv_step hfreq h.timing hrun, h.exact, done, hnodup, hsub, fun hq => ?_⟩
    obtain ⟨hq, hsame⟩ := Bool.and_eq_true_iff.mp hq
    rw [of_decide_eq_true hsame]
    exact hquiet hq
  | collect =>
    simp only [reportStep] at hs
    split at hs
    · obtain rfl := Option.some.inj hs
      have hpending : (if !s.run.timing.initialized then [] else seenLabels cfg s.run.timing)
          = seenLabels cfg s.run.timing := by
        cases hinit : s.run.timing.initialized with
        | false => exact (seenLabels_uninitialized h.timing hinit).symm
        | true => rfl
      refine ⟨h.timing, fun _ hx => absurd hx List.not_mem_nil, [], ?_, List.Sublist.refl _,
        fun _ => ⟨hpending, rfl⟩⟩
      rw [List.nil_append, hpending]
      exact (seenLabels_spec h.timing).1
    · cases hs
  | line =>
    cases hpending : s.pending with
    | nil => simp [reportStep, hpending] at hs
    | cons label rest =>
      simp only [reportStep, hpending, Option.some.injEq] at hs
      subst hs
      exact reportInv_line h hpending

theorem reportInv_of_reachable (hfreq : 10 ^ 6 ≤ cfg.cyclesPerSec.toNat)
    (hr : (reportMachine cfg).Reachable s) : ReportInv cfg s := by
  refine Machine.Reachable.induct (P := ReportInv cfg) ?_ (fun s a s' h hs => ?_) hr
  · refine ⟨timingInv_of_reachable hfreq Machine.Reachable.init, ?_, [], List.nodup_nil,
      List.Sublist.refl _, fun hq => by cases hq⟩
    exact fun _ hx => absurd hx List.not_mem_nil
  · exact reportInv_step hfreq h hs

end Reports

/-- **Over every run** of measurements and reports, with a clock of at least
1 MHz. -/
theorem timingReport_ok {s : ReportRun} (hfreq : 10 ^ 6 ≤ cfg.cyclesPerSec.toNat)
    (hr : (reportMachine cfg).Reachable s) : ReportOk cfg s := by
  have h := reportInv_of_reachable hfreq hr
  obtain ⟨done, hnodup, hsub, hquiet⟩ := h.progress
  constructor
  · have hdone : (done.map cstr).Nodup := by
      rw [List.map_append] at hnodup
      exact hnodup.of_append_left
    have hlabels := (hsub.map cstr).nodup hdone
    rwa [List.map_map] at hlabels
  · exact h.exact
  · intro hq hpending
    obtain ⟨hseen, hprinted⟩ := hquiet hq
    rw [hpending, List.append_nil] at hseen
    rw [hprinted, hseen]
    exact wholeReport h.timing

/-- Two labels in a ring of two samples; between their lines a third one is
measured, so the second label is gone from the ring. -/
def overtakenReport : List ReportAct :=
  [.timing .init, .timing (.start (some 0) 0), .timing (.stop (some "rx".toList) (0, 0) 5),
    .timing (.stop (some "tx".toList) (0, 0) 7), .collect, .line,
    .timing (.stop (some "rx".toList) (0, 0) 8), .timing (.stop (some "rx".toList) (0, 0) 9), .line]

def twoSamples : TimingConfig := ⟨2, 1000000, by decide, by decide⟩

theorem timingReport_ok_overtaken :
    ∃ s, (reportMachine twoSamples).run overtakenReport = some s ∧
      s.printed.map Prod.fst = [⟨"rx".toList, 5, 5, 5, 1⟩] ∧ s.pending = [] ∧ s.quiet = false ∧
      ReportOk twoSamples s := by
  have hend : ((reportMachine twoSamples).run overtakenReport).map (fun s =>
      (s.printed.map Prod.fst, s.pending, s.quiet))
        = some ([⟨"rx".toList, 5, 5, 5, 1⟩], [], false) := by decide +kernel
  obtain ⟨s, hs, hvalues⟩ := Option.map_eq_some_iff.mp hend
  obtain ⟨hprinted, hrest⟩ := Prod.mk.inj hvalues
  obtain ⟨hpending, hquiet⟩ := Prod.mk.inj hrest
  exact ⟨s, hs, hprinted, hpending, hquiet, timingReport_ok (by decide) ⟨overtakenReport, hs⟩⟩

/-! ## The reports of the lifecycle loop -/

/-- `LIFECYCLE_STATS_INTERVAL` -/
def lifecycleStatsInterval : Nat := 6

def lifecycleTickLabel : List Char := "lifecycle_tick".toList

/-- The measurements of the loop, `tick_count`, the cycles that each tick
has lasted, and the reports with the `tick_count` of each, newest first. -/
structure LoopRun where
  timing : TimingRun
  tickCount : Nat
  durations : List Nat
  reports : List (Nat × Option (List ReportLine))

/-- A tick of `ceell_lifecycle_run` as far as it measures and reports: the
cycle counter at its `ceell_timing_start` and at its `ceell_timing_stop`. A
run ends where `tick_count`, an `int`, cannot be incremented. -/
def loopStep (cfg : TimingConfig) (s : LoopRun) (tick : Nat × Nat) : Option LoopRun :=
  if s.tickCount + 1 < 2 ^ 31 then
    (timingStep cfg s.timing (.start (some 0) tick.1)).bind fun started =>
      (timingStep cfg started
          (.stop (some lifecycleTickLabel) (.ofNat tick.1, tick.1) tick.2)).map fun timing =>
        let count := s.tickCount + 1
        { timing := timing
          tickCount := count
          durations := (tick.2 - tick.1) :: s.durations
          reports :=
            if count % lifecycleStatsInterval = 0 then
              (count, ceellTimingPrintStats cfg timing.timing) :: s.reports
            else s.reports }
  else none

/-- The loop after `ceell_timing_init`. -/
def loopMachine (cfg : TimingConfig) : Machine LoopRun (Nat × Nat) where
  init := ⟨⟨ceellTimingInit cfg, 0, [], []⟩, 0, [], []⟩
  step := loopStep cfg

/-- The durations in microseconds of the last ticks that the ring has room
for, when `count` ticks had ended. -/
def tickDurations (cfg : TimingConfig) (s : LoopRun) (count : Nat) : List Nat :=
  ((s.durations.drop (s.tickCount - count)).take cfg.samples.toNat).map fun cycles =>
    cycles * 10 ^ 6 / cfg.cyclesPerSec.toNat

/-- Every sixth tick ends with a report, and that is one line about the last
ticks. -/
structure LoopReports (cfg : TimingConfig) (s : LoopRun) : Prop where
  ticks : s.reports.map Prod.fst =
    ((List.range (s.tickCount / lifecycleStatsInterval)).map fun i =>
      (i + 1) * lifecycleStatsInterval).reverse
  lines : ∀ r ∈ s.reports, ∃ l, r.2 = some [l] ∧ cstr l.label = lifecycleTickLabel ∧
    StatsFor l.stats (tickDurations cfg s r.1) ∧ l.stats.count.toNat = min r.1 cfg.samples.toNat

structure LoopInv (cfg : TimingConfig) (s : LoopRun) : Prop where
  timing : TimingInv cfg s.timing
  initialized : s.timing.timing.initialized = true
  measured : s.timing.measured = s.durations.map (lifecycleTickLabel, ·)
  count : s.durations.length = s.tickCount
  past : ∀ r ∈ s.reports, r.1 ≤ s.tickCount
  reports : LoopReports cfg s

section Loop

variable {s s' : LoopRun} {tick : Nat × Nat}

/-- What a tick does. -/
theorem loopStep_cases (hs : loopStep cfg s tick = some s') :
    s'.tickCount = s.tickCount + 1 ∧ s'.durations = (tick.2 - tick.1) :: s.durations ∧
      s'.reports =
        (if s'.tickCount % lifecycleStatsInterval = 0 then
          (s'.tickCount, ceellTimingPrintStats cfg s'.timing.timing) :: s.reports
        else s.reports) ∧
      ∃ started, timingStep cfg s.timing (.start (some 0) tick.1) = some started ∧
        timingStep cfg started
          (.stop (some lifecycleTickLabel) (.ofNat tick.1, tick.1) tick.2) = some s'.timing := by
  unfold loopStep at hs
  split at hs
  · obtain ⟨started, hstart, hs⟩ := Option.bind_eq_some_iff.mp hs
    obtain ⟨timing, hstop, rfl⟩ := Option.map_eq_some_iff.mp hs
    exact ⟨rfl, rfl, rfl, started, hstart, hstop⟩
  · cases hs

/-- A measurement between two steps of the timing module. -/
theorem measured_tick {t started t' : TimingRun} (hinit : t.timing.initialized = true)
    (hstart : timingStep cfg t (.start (some 0) tick.1) = some started)
    (hstop : timingStep cfg started
      (.stop (some lifecycleTickLabel) (.ofNat tick.1, tick.1) tick.2) = some t') :
    t'.timing.initialized = true ∧
      t'.measured = (lifecycleTickLabel, tick.2 - tick.1) :: t.measured := by
  simp only [timingStep] at hstart hstop
  split at hstart
  · obtain rfl := Option.some.inj hstart
    split at hstop
    · obtain rfl := Option.some.inj hstop
      simp [ceellTimingStop, hinit]
    · cases hstop
  · cases hstart

theorem trueDurations_ticks {label : List Char} (hlabel : cstr label = lifecycleTickLabel)
    (durations : List Nat) :
    trueDurations cfg label (durations.map (lifecycleTickLabel, ·)) =
      (durations.take cfg.samples.toNat).map fun cycles =>
        cycles * 10 ^ 6 / cfg.cyclesPerSec.toNat := by
  have htick : cstr lifecycleTickLabel = cstr label := by
    rw [hlabel]
    decide
  simp [trueDurations, ← List.map_take, List.filter_map, Function.comp_def, htick]

/-- A ring of ticks is reported in one line. -/
theorem printStats_ticks {t : TimingRun} (hi : TimingInv cfg t)
    (hinit : t.timing.initialized = true) {durations : List Nat} (hne : durations ≠ [])
    (hmeasured : t.measured = durations.map (lifecycleTickLabel, ·)) :
    ∃ l, ceellTimingPrintStats cfg t.timing = some [l] ∧ cstr l.label = lifecycleTickLabel ∧
      StatsFor l.stats ((durations.take cfg.samples.toNat).map fun cycles =>
        cycles * 10 ^ 6 / cfg.cyclesPerSec.toNat) ∧
      l.stats.count.toNat = min durations.length cfg.samples.toNat := by
  have hwhole := wholeReport hi
  have hnames : ∀ name, name ∈ timedNames cfg t.measured ↔ name = lifecycleTickLabel := by
    intro name
    have hpos : durations.take cfg.samples.toNat ≠ [] := by
      have hsamples := cfg.samples_pos
      simp only [ne_eq, List.take_eq_nil_iff, hne, or_false]
      omega
    obtain ⟨d, hd⟩ := List.exists_mem_of_ne_nil _ hpos
    have htick : cstr lifecycleTickLabel = lifecycleTickLabel := by decide
    simp only [timedNames, hmeasured, ← List.map_take, List.map_map, List.mem_map,
      Function.comp_apply, htick]
    exact ⟨fun ⟨_, _, h⟩ => h.symm, fun h => ⟨d, hd, h.symm⟩⟩
  have hprint : ceellTimingPrintStats cfg t.timing =
      some ((seenLabels cfg t.timing).filterMap (printLine t.timing)) := by
    simp [ceellTimingPrintStats, hinit]
  generalize (seenLabels cfg t.timing).filterMap (printLine t.timing) = lines at hwhole hprint
  have hperm : (lines.map fun l => cstr l.label).Perm [lifecycleTickLabel] := by
    rw [List.perm_ext_iff_of_nodup hwhole.distinct (List.nodup_singleton _)]
    intro name
    rw [hwhole.labels, hnames, List.mem_singleton]
  obtain ⟨l, rfl⟩ : ∃ l, lines = [l] := by
    rw [← List.length_eq_one_iff, ← List.length_map (f := fun l => cstr l.label),
      hperm.length_eq]
    rfl
  have hlabel : cstr l.label = lifecycleTickLabel := by
    simpa using hperm
  have hstats := hwhole.exact l (List.mem_singleton_self l)
  rw [hmeasured, trueDurations_ticks hlabel] at hstats
  refine ⟨l, hprint, hlabel, hstats, ?_⟩
  rw [hstats.count, List.length_map, List.length_take, Nat.min_comm]

/-- The ticks since a report do not change what it says. -/
theorem tickDurations_step (hs : loopStep cfg s tick = some s') {count : Nat}
    (hpast : count ≤ s.tickCount) : tickDurations cfg s' count = tickDurations cfg s count := by
  obtain ⟨hcount, hdurations, _⟩ := loopStep_cases hs
  have hdrop : s.tickCount + 1 - count = s.tickCount - count + 1 := by omega
  rw [tickDurations, tickDurations, hcount, hdurations, hdrop, List.drop_succ_cons]

theorem loopInv_step (hfreq : 10 ^ 6 ≤ cfg.cyclesPerSec.toNat) (h : LoopInv cfg s)
    (hs : loopStep cfg s tick = some s') : LoopInv cfg s' := by
  obtain ⟨hcount, hdurations, hreports, started, hstart, hstop⟩ := loopStep_cases hs
  have htiming := timingInv_step hfreq (timingInv_step hfreq h.timing hstart) hstop
  obtain ⟨hinit, hmeasured⟩ := measured_tick h.initialized hstart hstop
  have hmeasured' : s'.timing.measured = s'.durations.map (lifecycleTickLabel, ·) := by
    rw [hmeasured, hdurations, h.measured, List.map_cons]
  have hlength : s'.durations.length = s'.tickCount := by
    rw [hdurations, List.length_cons, h.count, hcount]
  have hold : ∀ r ∈ s.reports, ∃ l, r.2 = some [l] ∧ cstr l.label = lifecycleTickLabel ∧
      StatsFor l.stats (tickDurations cfg s' r.1) ∧
      l.stats.count.toNat = min r.1 cfg.samples.toNat := by
    intro r hr
    rw [tickDurations_step hs (h.past r hr)]
    exact h.reports.lines r hr
  have hnew : ∃ l, ceellTimingPrintStats cfg s'.timing.timing = some [l] ∧
      cstr l.label = lifecycleTickLabel ∧
      StatsFor l.stats (tickDurations cfg s' s'.tickCount) ∧
      l.stats.count.toNat = min s'.tickCount cfg.samples.toNat := by
    rw [tickDurations, Nat.sub_self, List.drop_zero, ← hlength]
    exact printStats_ticks htiming hinit (by rw [hdurations]; exact List.cons_ne_nil _ _) hmeasured'
  by_cases hreport : s'.tickCount % lifecycleStatsInterval = 0
  · rw [if_pos hreport] at hreports
    refine ⟨htiming, hinit, hmeasured', hlength, ?_, ?_, ?_⟩
    · rw [hreports]
      rintro r (_ | ⟨_, hr⟩)
      · exact Nat.le_refl _
      · exact (h.past r hr).trans (by omega)
    · rw [lifecycleStatsInterval, hcount] at hreport
      have hquot : (s.tickCount + 1) / lifecycleStatsInterval
          = s.tickCount / lifecycleStatsInterval + 1 := by
        rw [lifecycleStatsInterval]
        omega
      have hlast : (s.tickCount / lifecycleStatsInterval + 1) * lifecycleStatsInterval
          = s.tickCount + 1 := by
        rw [lifecycleStatsInterval]
        omega
      rw [hreports, List.map_cons, h.reports.ticks, hcount, hquot, List.range_succ,
        List.map_append, List.map_singleton, List.reverse_append, List.reverse_singleton,
        List.singleton_append, hlast]
    · rw [hreports]
      rintro r (_ | ⟨_, hr⟩)
      · exact hnew
      · exact hold r hr
  · rw [if_neg hreport] at hreports
    refine ⟨htiming, hinit, hmeasured', hlength, ?_, ?_, ?_⟩
    · rw [hreports]
      exact fun r hr => (h.past r hr).trans (by omega)
    · rw [lifecycleStatsInterval, hcount] at hreport
      have hquot : (s.tickCount + 1) / lifecycleStatsInterval
          = s.tickCount / lifecycleStatsInterval := by
        rw [lifecycleStatsInterval]
        omega
      rw [hreports, h.reports.ticks, hcount, hquot]
    · rw [hreports]
      exact hold

theorem loopInv_init : LoopInv cfg (loopMachine cfg).init where
  timing := timingInv_init cfg _ _ _ rfl fun _ h => absurd h List.not_mem_nil
  initialized := rfl
  measured := rfl
  count := rfl
  past _ hr := absurd hr List.not_mem_nil
  reports := ⟨by simp [loopMachine], fun _ hr => absurd hr List.not_mem_nil⟩

/-- **Over every run** of fewer than 2^31 ticks of fewer than 2^32 cycles
each, with a clock of at least 1 MHz. -/
theorem lifecycleReports_ok (hfreq : 10 ^ 6 ≤ cfg.cyclesPerSec.toNat)
    (hr : (loopMachine cfg).Reachable s) : LoopReports cfg s :=
  (Machine.Reachable.induct (P := LoopInv cfg) loopInv_init
    (fun _ _ _ h hs => loopInv_step hfreq h hs) hr).reports

end Loop

/-- Six ticks, through a wrap of the counter, in a ring of two samples. -/
def sixTicks : List (Nat × Nat) :=
  [(0, 5), (10, 13), (20, 27), (2 ^ 32 - 1, 2 ^ 32), (2 ^ 32 + 1, 2 ^ 32 + 5),
    (2 ^ 32 + 10, 2 ^ 32 + 16)]

theorem lifecycleReports_ok_sixTicks :
    ∃ s, (loopMachine twoSamples).run sixTicks = some s ∧
      s.reports = [(6, some [⟨lifecycleTickLabel, 4, 6, 5, 2⟩])] ∧ LoopReports twoSamples s := by
  have hend : ((loopMachine twoSamples).run sixTicks).map (·.reports)
      = some [(6, some [⟨lifecycleTickLabel, 4, 6, 5, 2⟩])] := by decide +kernel
  obtain ⟨s, hs, hreports⟩ := Option.map_eq_some_iff.mp hend
  exact ⟨s, hs, hreports, lifecycleReports_ok (by decide) ⟨sixTicks, hs⟩⟩

end Ceell.Core
