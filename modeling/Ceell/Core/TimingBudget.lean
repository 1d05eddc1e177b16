/-
Ceell.Core.TimingBudget — `ceell/core/timing_budget.c`: the table of
budgets and, beside it, the array of consecutive violations.

Both arrays are indexed through a search for the label. `budgets_ok`
compares them, after any calls, with what the successful defines and the
checks of each label amount to, read from a log of these calls alone.
-/
import Mathlib.Algebra.Group.Nat.Defs
import Ceell.Core.Types
import Ceell.Lib.CString
import Ceell.Lib.Machine
import Ceell.Lib.SlotArray

namespace Ceell.Core

open Ceell.Lib

/-! ## The module's state -/

/-- `CEELL_TIMING_BUDGET_MAX`. -/
def timingBudgetMax : Nat := 16

/-- `struct ceell_timing_budget`; a label that is not NULL is the string it
points to. -/
structure TimingBudget where
  label : Option (List Char)
  budgetUs : UInt32
  violationCount : UInt32
  deriving DecidableEq

def TimingBudget.zero : TimingBudget := ⟨none, 0, 0⟩

/-- `budgets`, `budget_count`, `consecutive_violations`, `initialized`. -/
structure TimingBudgets where
  budgets : List TimingBudget
  budgetCount : UInt32
  consecutiveViolations : List UInt32
  initialized : Bool
  deriving DecidableEq

/-- The module before its first call. -/
def TimingBudgets.zero : TimingBudgets :=
  ⟨List.replicate timingBudgetMax .zero, 0, List.replicate timingBudgetMax 0, false⟩

/-! ## The operations -/

/-- `ensure_init`. -/
def ensureInit (s : TimingBudgets) : TimingBudgets :=
  if s.initialized then s else { TimingBudgets.zero with initialized := true }

/-- `find_budget`; `none` is -1. -/
def findBudget (label : List Char) (s : TimingBudgets) : Option Nat :=
  (s.budgets.take s.budgetCount.toNat).findIdx? fun b =>
    b.label.any fun l => decide (cstr l = cstr label)

/-- `ceell_timing_budget_define`. -/
def ceellTimingBudgetDefine (label : Option (List Char)) (budgetUs : UInt32) (s : TimingBudgets) :
    TimingBudgets × Int :=
  match label with
  | none => (s, -1)
  | some label =>
      if budgetUs = 0 then (s, -1)
      else
        let s := ensureInit s
        match findBudget label s with
        | some idx =>
            ({ s with budgets := s.budgets.modify idx fun b => { b with budgetUs := budgetUs } }, 0)
        | none =>
            if s.budgetCount.toNat ≥ timingBudgetMax then (s, -1)
            else
              ({ s with
                  budgets := s.budgets.set s.budgetCount.toNat ⟨some label, budgetUs, 0⟩
                  consecutiveViolations := s.consecutiveViolations.set s.budgetCount.toNat 0
                  budgetCount := s.budgetCount + 1 }, 0)

/-- `ceell_timing_budget_check`. -/
def ceellTimingBudgetCheck (label : Option (List Char)) (actualUs : UInt32) (s : TimingBudgets) :
    TimingBudgets × Int :=
  match label with
  | none => (s, -1)
  | some label =>
      let s := ensureInit s
      match findBudget label s with
      | none => (s, -1)
      | some idx =>
          if actualUs > (s.budgets.getD idx .zero).budgetUs then
            ({ s with
                budgets := s.budgets.modify idx fun b =>
                  { b with violationCount := b.violationCount + 1 }
                consecutiveViolations := s.consecutiveViolations.modify idx (· + 1) }, -1)
          else ({ s with consecutiveViolations := s.consecutiveViolations.set idx 0 }, 0)

/-! ## Runs -/

/-- A define that succeeded, or a check of a label. -/
inductive BudgetEvent where
  | defined (label : List Char) (budgetUs : UInt32)
  | checked (label : List Char) (actualUs : UInt32)
  deriving DecidableEq

/-- The module, and the events so far, newest first. -/
structure BudgetRun where
  module : TimingBudgets
  log : List BudgetEvent

inductive BudgetAct where
  | define (label : Option (List Char)) (budgetUs : UInt32)
  | check (label : Option (List Char)) (actualUs : UInt32)

def budgetStep (s : BudgetRun) : BudgetAct → Option BudgetRun
  | .define label budgetUs =>
      let (t, ret) := ceellTimingBudgetDefine label budgetUs s.module
      some ⟨t, (if ret = 0 then (label.map fun l => .defined (cstr l) budgetUs).toList else []) ++
        s.log⟩
  | .check label actualUs =>
      some ⟨(ceellTimingBudgetCheck label actualUs s.module).1,
        (label.map fun l => .checked (cstr l) actualUs).toList ++ s.log⟩

def budgetMachine : Machine BudgetRun BudgetAct where
  init := ⟨.zero, []⟩
  step := budgetStep

/-! ## What the log says of a label -/

/-- The budget most recently defined. -/
def budgetOf (l : List Char) : List BudgetEvent → Option UInt32
  | [] => none
  | .defined l' b :: log => if l' = l then some b else budgetOf l log
  | .checked _ _ :: log => budgetOf l log

/-- A check of the label with this value is over the budget. -/
def isOver (l : List Char) (actualUs : UInt32) (log : List BudgetEvent) : Bool :=
  (budgetOf l log).any fun b => decide (actualUs > b)

/-- The number of checks over the budget since the label was first defined. -/
def overChecks (l : List Char) : List BudgetEvent → Nat
  | [] => 0
  | .defined _ _ :: log => overChecks l log
  | .checked l' v :: log =>
      if l' = l ∧ isOver l v log = true then overChecks l log + 1 else overChecks l log

/-- The length of the current run of checks over the budget. -/
def overStreak (l : List Char) : List BudgetEvent → Nat
  | [] => 0
  | .defined _ _ :: log => overStreak l log
  | .checked l' v :: log =>
      if l' = l then if isOver l v log then overStreak l log + 1 else 0 else overStreak l log

/-- The number of checks. -/
def checks (log : List BudgetEvent) : Nat :=
  log.countP fun | .checked _ _ => true | .defined _ _ => false

section Log

variable {l : List Char} {log : List BudgetEvent}

theorem isOver_of_none {v : UInt32} (h : budgetOf l log = none) : isOver l v log = false := by
  simp [isOver, h]

theorem overChecks_le (l : List Char) (log : List BudgetEvent) : overChecks l log ≤ checks log := by
  induction log with
  | nil => rfl
  | cons e log ih =>
    cases e with
    | defined l' b => simpa [overChecks, checks] using ih
    | checked l' v =>
      have hmore : checks (.checked l' v :: log) = checks log + 1 := by simp [checks]
      rw [overChecks, hmore]
      split <;> omega

theorem overStreak_le (l : List Char) (log : List BudgetEvent) : overStreak l log ≤ checks log := by
  induction log with
  | nil => rfl
  | cons e log ih =>
    cases e with
    | defined l' b => simpa [overStreak, checks] using ih
    | checked l' v =>
      have hmore : checks (.checked l' v :: log) = checks log + 1 := by simp [checks]
      rw [overStreak, hmore]
      split
      · split <;> omega
      · omega

/-- Nothing is counted before a label is defined. -/
theorem unchecked_of_none (h : budgetOf l log = none) :
    overChecks l log = 0 ∧ overStreak l log = 0 := by
  induction log with
  | nil => exact ⟨rfl, rfl⟩
  | cons e log ih =>
    cases e with
    | defined l' b =>
      by_cases hl : l' = l
      · simp [budgetOf, hl] at h
      · exact ih (by simpa [budgetOf, hl] using h)
    | checked l' v =>
      have hnone : budgetOf l log = none := h
      obtain ⟨hchecks, hstreak⟩ := ih hnone
      simp [overChecks, overStreak, isOver_of_none hnone, hchecks, hstreak]

end Log

/-! ## The two arrays -/

/-- The entry of a label. -/
def budgetRow (log : List BudgetEvent) (label : List Char) : TimingBudget :=
  ⟨some label, (budgetOf (cstr label) log).getD 0, .ofNat (overChecks (cstr label) log)⟩

/-- Its consecutive violations. -/
def streakRow (log : List BudgetEvent) (label : List Char) : UInt32 :=
  .ofNat (overStreak (cstr label) log)

/-- The label of an event. -/
def BudgetEvent.label : BudgetEvent → List Char
  | .defined l _ => l
  | .checked l _ => l

section Rows

variable {log : List BudgetEvent} (e : BudgetEvent) {k : List Char}

/-- An event of one label changes no other's entry. -/
theorem budgetRow_of_ne (h : e.label ≠ cstr k) : budgetRow (e :: log) k = budgetRow log k := by
  cases e with
  | defined l b =>
    have hl : l ≠ cstr k := h
    simp [budgetRow, budgetOf, overChecks, hl]
  | checked l v =>
    have hl : l ≠ cstr k := h
    simp [budgetRow, budgetOf, overChecks, hl]

theorem streakRow_of_ne (h : e.label ≠ cstr k) : streakRow (e :: log) k = streakRow log k := by
  cases e with
  | defined l b => simp [streakRow, overStreak]
  | checked l v =>
    have hl : l ≠ cstr k := h
    simp [streakRow, overStreak, hl]

end Rows

/-- The labels in use, in the order of their definition, and what both
arrays hold for them. -/
structure Table (t : TimingBudgets) (labels : List (List Char)) (log : List BudgetEvent) :
    Prop where
  size : t.budgets.length = timingBudgetMax ∧ t.consecutiveViolations.length = timingBudgetMax
  count : t.budgetCount.toNat = labels.length
  room : labels.length ≤ timingBudgetMax
  distinct : (labels.map cstr).Nodup
  defined : ∀ l, (budgetOf l log).isSome = true ↔ l ∈ labels.map cstr
  budgets : t.budgets.take labels.length = labels.map (budgetRow log)
  streaks : t.consecutiveViolations.take labels.length = labels.map (streakRow log)

variable {t : TimingBudgets} {labels : List (List Char)} {log : List BudgetEvent}

/-- The search finds a label that is in use. -/
theorem Table.find_some (h : Table t labels log) {label : List Char} {i : Nat}
    (hi : findBudget label t = some i) : ∃ l, labels[i]? = some l ∧ cstr l = cstr label := by
  rw [findBudget, h.count, h.budgets, List.findIdx?_map, List.findIdx?_eq_some_iff_getElem] at hi
  obtain ⟨hlt, hmatch, _⟩ := hi
  exact ⟨labels[i], List.getElem?_eq_getElem hlt, by simpa [budgetRow] using hmatch⟩

/-- And only such a label. -/
theorem Table.find_none (h : Table t labels log) {label : List Char}
    (hi : findBudget label t = none) : cstr label ∉ labels.map cstr := by
  rw [findBudget, h.count, h.budgets, List.findIdx?_map, List.findIdx?_eq_none_iff] at hi
  intro hmem
  obtain ⟨l, hl, heq⟩ := List.mem_map.mp hmem
  have := hi l hl
  simp [budgetRow, heq] at this

theorem Table.mem_of_find (h : Table t labels log) {label : List Char} {i : Nat}
    (hi : findBudget label t = some i) : cstr label ∈ labels.map cstr := by
  obtain ⟨l, hl, heq⟩ := h.find_some hi
  exact List.mem_map.mpr ⟨l, List.mem_of_getElem? hl, heq⟩

/-- A label that is not found is none of those in use. -/
theorem Table.ne_of_find_none (h : Table t labels log) {label : List Char}
    (hi : findBudget label t = none) : ∀ k ∈ labels, cstr label ≠ cstr k :=
  fun _ hk heq => h.find_none hi (heq ▸ List.mem_map_of_mem hk)

theorem Table.budgetOf_ne_none (h : Table t labels log) {label : List Char} {i : Nat}
    (hi : findBudget label t = some i) : budgetOf (cstr label) log ≠ none := by
  rw [← Option.isSome_iff_ne_none, h.defined]
  exact h.mem_of_find hi

theorem Table.budgetOf_eq_none (h : Table t labels log) {label : List Char}
    (hi : findBudget label t = none) : budgetOf (cstr label) log = none := by
  rw [← Option.not_isSome_iff_eq_none, h.defined]
  exact h.find_none hi

/-- A redefinition changes the budget and keeps the counters. -/
theorem Table.redefine (h : Table t labels log) {label : List Char} {i : Nat} (b : UInt32)
    (hi : findBudget label t = some i) :
    Table { t with budgets := t.budgets.modify i fun r => { r with budgetUs := b } } labels
      (.defined (cstr label) b :: log) := by
  obtain ⟨l, hl, heq⟩ := h.find_some hi
  constructor
  · simpa using h.size
  · exact h.count
  · exact h.room
  · exact h.distinct
  · intro k
    by_cases hk : cstr label = k
    · rw [← hk]
      simpa [budgetOf] using List.mem_map.mp (h.mem_of_find hi)
    · simpa [budgetOf, hk] using h.defined k
  · rw [List.take_modify, h.budgets]
    refine SlotArray.modify_map_of_nodup h.distinct hl ?_ ?_
    · simp [budgetRow, budgetOf, overChecks, heq]
    · intro k _ hk
      exact (budgetRow_of_ne (.defined _ b) (heq ▸ hk.symm)).symm
  · rw [h.streaks]
    exact List.map_congr_left fun k _ => by simp [streakRow, overStreak]

/-- A new label goes behind the others. -/
theorem Table.define (h : Table t labels log) {label : List Char} (b : UInt32)
    (hi : findBudget label t = none) (hroom : ¬ t.budgetCount.toNat ≥ timingBudgetMax) :
    Table
      { t with
        budgets := t.budgets.set t.budgetCount.toNat ⟨some label, b, 0⟩
        consecutiveViolations := t.consecutiveViolations.set t.budgetCount.toNat 0
        budgetCount := t.budgetCount + 1 }
      (labels ++ [label]) (.defined (cstr label) b :: log) := by
  have hcount := h.count
  have hoff := h.ne_of_find_none hi
  obtain ⟨hchecks, hstreak⟩ := unchecked_of_none (h.budgetOf_eq_none hi)
  constructor
  · simpa using h.size
  · rw [timingBudgetMax] at hroom
    rw [toNat_add_one (by omega), hcount, List.length_append, List.length_singleton]
  · rw [List.length_append, List.length_singleton]
    omega
  · rw [List.map_append, List.map_singleton, ← List.concat_eq_append]
    exact h.distinct.concat (h.find_none hi)
  · intro k
    by_cases hk : cstr label = k
    · simp [budgetOf, hk]
    · simpa [budgetOf, hk, Ne.symm hk] using h.defined k
  · rw [hcount, List.length_append, List.length_singleton,
      SlotArray.take_set_succ (by rw [h.size.1]; omega), h.budgets, List.map_append,
      List.map_singleton]
    congr 1
    · exact List.map_congr_left fun k hk => (budgetRow_of_ne (.defined _ b) (hoff k hk)).symm
    · simp [budgetRow, budgetOf, overChecks, hchecks]
  · rw [hcount, List.length_append, List.length_singleton,
      SlotArray.take_set_succ (by rw [h.size.2]; omega), h.streaks, List.map_append,
      List.map_singleton]
    simp [streakRow, overStreak, hstreak]

/-- A check over the budget counts for its label. -/
theorem Table.over (h : Table t labels log) {label : List Char} {i : Nat} {v : UInt32}
    (hi : findBudget label t = some i) (hover : isOver (cstr label) v log = true) :
    Table
      { t with
        budgets := t.budgets.modify i fun r => { r with violationCount := r.violationCount + 1 }
        consecutiveViolations := t.consecutiveViolations.modify i (· + 1) }
      labels (.checked (cstr label) v :: log) := by
  obtain ⟨l, hl, heq⟩ := h.find_some hi
  refine ⟨by simpa using h.size, h.count, h.room, h.distinct, h.defined, ?_, ?_⟩
  · rw [List.take_modify, h.budgets]
    refine SlotArray.modify_map_of_nodup h.distinct hl ?_ ?_
    · simp [budgetRow, budgetOf, overChecks, heq, hover, UInt32.ofNat_add]
    · intro k _ hk
      exact (budgetRow_of_ne (.checked _ v) (heq ▸ hk.symm)).symm
  · rw [List.take_modify, h.streaks]
    refine SlotArray.modify_map_of_nodup h.distinct hl ?_ ?_
    · simp [streakRow, overStreak, heq, hover, UInt32.ofNat_add]
    · intro k _ hk
      exact (streakRow_of_ne (.checked _ v) (heq ▸ hk.symm)).symm

/-- A check within the budget ends the run of its label. -/
theorem Table.within (h : Table t labels log) {label : List Char} {i : Nat} {v : UInt32}
    (hi : findBudget label t = some i) (hover : ¬ isOver (cstr label) v log = true) :
    Table
      { t with consecutiveViolations := t.consecutiveViolations.set i 0 } labels
      (.checked (cstr label) v :: log) := by
  obtain ⟨l, hl, heq⟩ := h.find_some hi
  refine ⟨by simpa using h.size, h.count, h.room, h.distinct, h.defined, ?_, ?_⟩
  · rw [h.budgets]
    refine List.map_congr_left fun k _ => ?_
    by_cases hk : cstr label = cstr k
    · simp [budgetRow, budgetOf, overChecks, ← hk, hover]
    · exact (budgetRow_of_ne (.checked _ v) hk).symm
  · rw [List.set_eq_modify, List.take_modify, h.streaks]
    refine SlotArray.modify_map_of_nodup h.distinct hl ?_ ?_
    · simp [streakRow, overStreak, heq, hover]
    · intro k _ hk
      exact (streakRow_of_ne (.checked _ v) (heq ▸ hk.symm)).symm

/-- A check of a label that is not in use. -/
theorem Table.unknown (h : Table t labels log) {label : List Char} (v : UInt32)
    (hi : findBudget label t = none) : Table t labels (.checked (cstr label) v :: log) := by
  have hoff := h.ne_of_find_none hi
  refine ⟨h.size, h.count, h.room, h.distinct, h.defined, ?_, ?_⟩
  · rw [h.budgets]
    exact List.map_congr_left fun k hk => (budgetRow_of_ne (.checked _ v) (hoff k hk)).symm
  · rw [h.streaks]
    exact List.map_congr_left fun k hk => (streakRow_of_ne (.checked _ v) (hoff k hk)).symm

theorem table_zero (initialized : Bool) :
    Table { TimingBudgets.zero with initialized := initialized } [] [] where
  size := by simp [TimingBudgets.zero]
  count := rfl
  room := Nat.zero_le _
  distinct := List.nodup_nil
  defined := by simp [budgetOf]
  budgets := rfl
  streaks := rfl

/-! ## The calls -/

/-- What every call keeps. -/
structure BudgetInv (s : BudgetRun) : Prop where
  fresh : s.module.initialized = false → s.log = []
  table : ∃ labels, Table s.module labels s.log

variable {s s' : BudgetRun} {a : BudgetAct}

theorem BudgetInv.ensureInit (h : BudgetInv s) :
    ∃ labels, Table (ensureInit s.module) labels s.log := by
  unfold Core.ensureInit
  split
  · exact h.table
  · rename_i hinit
    rw [h.fresh (by simpa using hinit)]
    exact ⟨[], table_zero true⟩

theorem initialized_ensureInit (t : TimingBudgets) : (ensureInit t).initialized = true := by
  unfold Core.ensureInit
  split
  · assumption
  · rfl

/-- Nothing is in use before the init. -/
theorem BudgetInv.budgetCount_ensureInit (h : BudgetInv s) :
    (Core.ensureInit s.module).budgetCount = s.module.budgetCount := by
  unfold Core.ensureInit
  split
  · rfl
  · rename_i hinit
    obtain ⟨labels, ht⟩ := h.table
    rw [h.fresh (by simpa using hinit)] at ht
    have hempty : labels.map cstr = [] :=
      List.eq_nil_iff_forall_not_mem.mpr fun l hl => by simpa [budgetOf] using (ht.defined l).mpr hl
    have hcount := ht.count
    rw [List.map_eq_nil_iff.mp hempty] at hcount
    exact (UInt32.toNat_inj.mp hcount).symm

/-- With a label in use the module is initialised. -/
theorem BudgetInv.ensureInit_used (h : BudgetInv s) (hused : 0 < s.module.budgetCount.toNat) :
    Core.ensureInit s.module = s.module := by
  have hcount := h.budgetCount_ensureInit
  unfold Core.ensureInit at hcount ⊢
  split
  · rfl
  · rename_i hinit
    rw [if_neg hinit] at hcount
    rw [← hcount] at hused
    cases hused

/-- What the arrays hold at the place of a label. -/
theorem Table.row (h : Table t labels log) {l : List Char} {i : Nat} (hl : labels[i]? = some l) :
    t.budgets[i]? = some (budgetRow log l) ∧
      t.consecutiveViolations[i]? = some (streakRow log l) := by
  have hlt := (List.getElem?_eq_some_iff.mp hl).1
  constructor
  · rw [← List.getElem?_take_of_lt hlt, h.budgets, List.getElem?_map, hl, Option.map_some]
  · rw [← List.getElem?_take_of_lt hlt, h.streaks, List.getElem?_map, hl, Option.map_some]

/-- The defines that fail. -/
def Refused (label : Option (List Char)) (b : UInt32) (s : BudgetRun) : Prop :=
  label = none ∨ b = 0 ∨
    ∃ l, label = some l ∧ budgetOf (cstr l) s.log = none ∧
      s.module.budgetCount.toNat = timingBudgetMax

/-- **A define**: what it returns and what it leaves. -/
theorem define_cases (h : BudgetInv s) (label : Option (List Char)) (b : UInt32) :
    (Refused label b s ∧ ceellTimingBudgetDefine label b s.module = (s.module, -1)) ∨
      (¬ Refused label b s ∧
        ∃ l t labels, label = some l ∧ ceellTimingBudgetDefine label b s.module = (t, 0) ∧
          t.initialized = true ∧ Table t labels (.defined (cstr l) b :: s.log)) := by
  cases label with
  | none => exact Or.inl ⟨Or.inl rfl, rfl⟩
  | some l =>
    by_cases hb : b = 0
    · exact Or.inl ⟨Or.inr (Or.inl hb), by simp [ceellTimingBudgetDefine, hb]⟩
    · obtain ⟨labels, ht⟩ := h.ensureInit
      have hinit := initialized_ensureInit s.module
      have hcount := h.budgetCount_ensureInit
      cases hfind : findBudget l (ensureInit s.module) with
      | some i =>
        refine Or.inr ⟨?_, l, _, labels, rfl, ?_, ?_, ht.redefine b hfind⟩
        · simp [Refused, hb, ht.budgetOf_ne_none hfind]
        · simp [ceellTimingBudgetDefine, hb, hfind]
        · exact hinit
      | none =>
        have hnone := ht.budgetOf_eq_none hfind
        by_cases hfull : (ensureInit s.module).budgetCount.toNat ≥ timingBudgetMax
        · have hmax : s.module.budgetCount.toNat = timingBudgetMax := by
            have := ht.count
            have := ht.room
            rw [← hcount]
            omega
          refine Or.inl ⟨Or.inr (Or.inr ⟨l, rfl, hnone, hmax⟩), ?_⟩
          have hsame := h.ensureInit_used (by rw [hmax]; decide)
          rw [hsame] at hfind hfull
          simp [ceellTimingBudgetDefine, hb, hsame, hfind, hfull]
        · refine Or.inr ⟨?_, l, _, labels ++ [l], rfl, ?_, ?_, ht.define b hfind hfull⟩
          · rw [hcount] at hfull
            have : s.module.budgetCount.toNat ≠ timingBudgetMax := by omega
            simp [Refused, hb, this]
          · simp [ceellTimingBudgetDefine, hb, hfind, hfull]
          · exact hinit

/-- **A check**: what it returns and what it leaves. -/
theorem check_cases (h : BudgetInv s) (label : List Char) (v : UInt32) :
    ((ceellTimingBudgetCheck (some label) v s.module).2 = 0 ↔
        ∃ b, budgetOf (cstr label) s.log = some b ∧ v ≤ b) ∧
      (ceellTimingBudgetCheck (some label) v s.module).1.initialized = true ∧
      ∃ labels, Table (ceellTimingBudgetCheck (some label) v s.module).1 labels
        (.checked (cstr label) v :: s.log) := by
  obtain ⟨labels, ht⟩ := h.ensureInit
  have hinit := initialized_ensureInit s.module
  cases hfind : findBudget label (ensureInit s.module) with
  | none =>
    have hnone := ht.budgetOf_eq_none hfind
    simp only [ceellTimingBudgetCheck, hfind, hnone]
    exact ⟨by simp, hinit, labels, ht.unknown v hfind⟩
  | some i =>
    obtain ⟨b, hb⟩ := Option.ne_none_iff_exists'.mp (ht.budgetOf_ne_none hfind)
    have hstored : ((ensureInit s.module).budgets.getD i .zero).budgetUs = b := by
      obtain ⟨l, hl, heq⟩ := ht.find_some hfind
      rw [List.getD_eq_getElem?_getD, (ht.row hl).1]
      simp [budgetRow, heq, hb]
    have hover : isOver (cstr label) v s.log = decide (v > b) := by simp [isOver, hb]
    simp only [ceellTimingBudgetCheck, hfind, hstored, hb]
    by_cases hv : v > b
    · simp only [hv, if_true]
      refine ⟨?_, hinit, labels, ht.over hfind (by simpa [hover] using hv)⟩
      simpa using UInt32.not_le.mpr hv
    · simp only [hv, if_false]
      refine ⟨?_, hinit, labels, ht.within hfind (by simpa [hover] using hv)⟩
      simpa using UInt32.not_lt.mp hv

theorem budgetInv_step (h : BudgetInv s) (hs : budgetStep s a = some s') : BudgetInv s' := by
  cases a with
  | define label b =>
    simp only [budgetStep, Option.some.injEq] at hs
    rcases define_cases h label b with ⟨_, hret⟩ | ⟨_, l, t, labels, rfl, hret, hinit, ht⟩
    · rw [hret] at hs
      subst hs
      exact h
    · rw [hret] at hs
      subst hs
      exact ⟨fun hnot => absurd (hinit.symm.trans hnot) (by decide), labels, ht⟩
  | check label v =>
    obtain rfl := Option.some.inj hs
    cases label with
    | none => exact h
    | some label =>
      obtain ⟨_, hinit, labels, ht⟩ := check_cases h label v
      exact ⟨fun hnot => absurd (hinit.symm.trans hnot) (by decide), labels, ht⟩

theorem budgetInv_of_reachable (hr : budgetMachine.Reachable s) : BudgetInv s := by
  refine Machine.Reachable.induct (P := BudgetInv) ?_ (fun s a s' h hs => ?_) hr
  · exact ⟨fun _ => rfl, [], table_zero false⟩
  · exact budgetInv_step h hs

/-! ## The budgets -/

/-- The labels in use, in the order of the table. -/
def labelsInUse (t : TimingBudgets) : List (Option (List Char)) :=
  (t.budgets.take t.budgetCount.toNat).map fun b => b.label.map cstr

/-- The module agrees with the log. -/
structure BudgetsOk (s : BudgetRun) : Prop where
  /-- At most 16 labels, all different, and they are those of the log. -/
  bounded : s.module.budgetCount.toNat ≤ timingBudgetMax
  distinct : (labelsInUse s.module).Nodup
  defined : ∀ l, some l ∈ labelsInUse s.module ↔ budgetOf l s.log ≠ none
  /-- A define fails only for a NULL label, a zero budget or a new label in a
  full table, and then changes nothing. -/
  refused : ∀ label b, (ceellTimingBudgetDefine label b s.module).2 ≠ 0 ↔ Refused label b s
  unchanged : ∀ label b, (ceellTimingBudgetDefine label b s.module).2 ≠ 0 →
    (ceellTimingBudgetDefine label b s.module).1 = s.module
  /-- A check succeeds within the budget that was defined last. -/
  checked : ∀ label v, (ceellTimingBudgetCheck label v s.module).2 = 0 ↔
    ∃ l b, label = some l ∧ budgetOf (cstr l) s.log = some b ∧ v ≤ b
  /-- Every entry has the counters of its label. -/
  counted : ∀ i < s.module.budgetCount.toNat, ∃ l b violations streak,
    s.module.budgets[i]? = some ⟨some l, b, violations⟩ ∧
      s.module.consecutiveViolations[i]? = some streak ∧ budgetOf (cstr l) s.log = some b ∧
      violations.toNat = overChecks (cstr l) s.log ∧ streak.toNat = overStreak (cstr l) s.log

/-- **Over every run** of defines and checks, with fewer than 2^32 checks. -/
theorem budgets_ok (s : BudgetRun) (hr : budgetMachine.Reachable s) (hfew : checks s.log < 2 ^ 32) :
    BudgetsOk s := by
  have h := budgetInv_of_reachable hr
  obtain ⟨labels, ht⟩ := h.table
  have hlabels : labelsInUse s.module = (labels.map cstr).map some := by
    rw [labelsInUse, ht.count, ht.budgets]
    simp [budgetRow]
  constructor
  · rw [ht.count]
    exact ht.room
  · rw [hlabels]
    exact ht.distinct.map fun _ _ => Option.some.inj
  · intro l
    rw [hlabels, ← Option.isSome_iff_ne_none, ht.defined]
    simp
  · intro label b
    rcases define_cases h label b with ⟨href, hret⟩ | ⟨href, l, t, labels, rfl, hret, _⟩
    · simp [hret, href]
    · simp [hret, href]
  · intro label b hne
    rcases define_cases h label b with ⟨_, hret⟩ | ⟨_, l, t, labels, rfl, hret, _⟩
    · rw [hret]
    · exact absurd (by rw [hret]) hne
  · intro label v
    cases label with
    | none => simp [ceellTimingBudgetCheck]
    | some label => simpa using (check_cases h label v).1
  · intro i hi
    rw [ht.count] at hi
    have hl : labels[i]? = some labels[i] := List.getElem?_eq_getElem hi
    obtain ⟨hrow, hstreak⟩ := ht.row hl
    have hmem : cstr labels[i] ∈ labels.map cstr := List.mem_map_of_mem (List.getElem_mem hi)
    obtain ⟨b, hb⟩ := Option.isSome_iff_exists.mp ((ht.defined _).mpr hmem)
    refine ⟨labels[i], b, .ofNat (overChecks (cstr labels[i]) s.log), _, ?_, hstreak, hb, ?_, ?_⟩
    · rw [hrow, budgetRow, hb, Option.getD_some]
    · have := overChecks_le (cstr labels[i]) s.log
      rw [UInt32.toNat_ofNat']
      omega
    · have := overStreak_le (cstr labels[i]) s.log
      rw [streakRow, UInt32.toNat_ofNat']
      omega

/-- One label in time, the other over its budget before and after it is
redefined. -/
def twoBudgets : List BudgetAct :=
  [.define (some "tick".toList) 100, .define (some "tx".toList) 50, .check (some "tx".toList) 60,
    .check (some "tick".toList) 100, .define (some "tx".toList) 70, .check (some "tx".toList) 80]

theorem budgets_ok_twoBudgets :
    ∃ s, budgetMachine.run twoBudgets = some s ∧ overStreak "tx".toList s.log = 2 ∧
      BudgetsOk s := by
  obtain ⟨s, hs⟩ : ∃ s, budgetMachine.run twoBudgets = some s :=
    Option.isSome_iff_exists.mp (by decide +kernel)
  have hlog : (budgetMachine.run twoBudgets).map (fun s =>
      (overStreak "tx".toList s.log, checks s.log)) = some (2, 3) := by decide +kernel
  rw [hs, Option.map_some, Option.some.injEq, Prod.mk.injEq] at hlog
  exact ⟨s, hs, hlog.1, budgets_ok s ⟨twoBudgets, hs⟩ (by rw [hlog.2]; decide)⟩

end Ceell.Core
