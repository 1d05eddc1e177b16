/-
Ceell.Lib.Machine — deterministic labelled machines, their runs, and the
three rules the safety proofs of this development end in.

A machine has one initial state and a partial step function: the label
resolves every choice (which thread moves, which datagram is delivered,
what an external call answers), and `none` says that the label is not
enabled. A run is a list of labels, so a run is data and can be replayed.

* `Reachable.induct` — what holds initially and is preserved by every
  step from a reachable state holds of every reachable state.
* `ReachableUnder.induct` — the same for the runs all of whose steps meet
  a condition on the state before the step and its label.
* `forall_visited_iff_allSteps` — when one step keeps `P` exactly if it
  meets the condition, a whole run keeps `P` exactly if all its steps do.
  `forall_visited_iff_allSteps_of_kept` asks less of the invariant.
* `Simulation.reachable` — a machine whose every step is matched by a run
  of another machine reaches only states that map to reachable ones.
* `exists_endsAfter` — the rule for a loop: an invariant and a variant.

Nothing in this module names the program it is used for.
-/
import Mathlib.Data.List.Basic

namespace Ceell.Lib

/-- An initial state and a step function that is partial in the label. -/
structure Machine (σ α : Type*) where
  init : σ
  step : σ → α → Option σ

namespace Machine

variable {σ τ α β : Type*} (M : Machine σ α)

/-! ## Runs -/

/-- Take the steps of a label list in order; `none` if one is not enabled. -/
def runFrom : σ → List α → Option σ
  | s, [] => some s
  | s, a :: as => (M.step s a).bind fun s' => runFrom s' as

/-- The run from the initial state. -/
def run (as : List α) : Option σ := M.runFrom M.init as

/-- Every step of the run, from state `s`, meets `G` on the state before
it and its label. -/
def AllSteps (G : σ → α → Prop) : σ → List α → Prop
  | _, [] => True
  | s, a :: as => G s a ∧ ∀ s', M.step s a = some s' → AllSteps G s' as

/-- The states after each step of a run. -/
def visited : σ → List α → List σ
  | _, [] => []
  | s, a :: as =>
      match M.step s a with
      | none => []
      | some s' => s' :: visited s' as

/-- Some run ends in `s`. -/
def Reachable (s : σ) : Prop := ∃ as, M.run as = some s

/-- Some run all of whose steps meet `G` ends in `s`. -/
def ReachableUnder (G : σ → α → Prop) (s : σ) : Prop :=
  ∃ as, M.run as = some s ∧ M.AllSteps G M.init as

variable {M}

@[simp] theorem runFrom_nil (s : σ) : M.runFrom s [] = some s := rfl

theorem runFrom_cons {s s' : σ} {a : α} {as : List α} (h : M.step s a = some s') :
    M.runFrom s (a :: as) = M.runFrom s' as := by
  simp [runFrom, h]

theorem runFrom_append (s : σ) (as bs : List α) :
    M.runFrom s (as ++ bs) = (M.runFrom s as).bind fun s' => M.runFrom s' bs := by
  induction as generalizing s with
  | nil => rfl
  | cons a as ih =>
    cases h : M.step s a with
    | none => simp [runFrom, h]
    | some s' => simp [runFrom, h, ih]

theorem runFrom_eq_some_cons {s t : σ} {a : α} {as : List α}
    (h : M.runFrom s (a :: as) = some t) :
    ∃ s', M.step s a = some s' ∧ M.runFrom s' as = some t := by
  cases hs : M.step s a with
  | none => simp [runFrom, hs] at h
  | some s' => exact ⟨s', rfl, by simpa [runFrom, hs] using h⟩

/-- Whether all steps of a run meet a decidable condition can be computed. -/
instance decidableAllSteps {G : σ → α → Prop} [∀ s a, Decidable (G s a)] :
    ∀ s as, Decidable (M.AllSteps G s as)
  | _, [] => isTrue trivial
  | s, a :: as =>
      match hs : M.step s a with
      | none => decidable_of_iff (G s a) ⟨fun h => ⟨h, fun s' hs' => by simp [hs] at hs'⟩, And.left⟩
      | some s' =>
          have : Decidable (M.AllSteps G s' as) := decidableAllSteps s' as
          decidable_of_iff (G s a ∧ M.AllSteps G s' as)
            ⟨fun h => ⟨h.1, fun t ht => by
                obtain rfl := Option.some.inj (hs.symm.trans ht)
                exact h.2⟩,
              fun h => ⟨h.1, h.2 s' hs⟩⟩

/-! ## Invariants -/

theorem Reachable.init : M.Reachable M.init := ⟨[], rfl⟩

theorem Reachable.step {s s' : σ} {a : α} (hr : M.Reachable s)
    (hs : M.step s a = some s') : M.Reachable s' := by
  obtain ⟨as, has⟩ := hr
  refine ⟨as ++ [a], ?_⟩
  rw [run, runFrom_append]
  rw [run] at has
  simp [has, runFrom, hs]

theorem Reachable.runFrom {s t : σ} {as : List α} (hr : M.Reachable s)
    (hrun : M.runFrom s as = some t) : M.Reachable t := by
  obtain ⟨bs, hbs⟩ := hr
  exact ⟨bs ++ as, by rw [run, runFrom_append, show M.runFrom M.init bs = some s from hbs,
    Option.bind_some, hrun]⟩

/-- A run between two states carries any property its guarded steps
preserve; the induction is on the label list. -/
theorem runFrom_induct {G : σ → α → Prop} {P : σ → Prop}
    (hstep : ∀ s a s', P s → G s a → M.step s a = some s' → P s') :
    ∀ (as : List α) (s t : σ), P s → M.AllSteps G s as → M.runFrom s as = some t → P t
  | [], s, t, hp, _, hrun => by
      simp only [runFrom_nil, Option.some.injEq] at hrun
      exact hrun ▸ hp
  | a :: as, s, t, hp, hg, hrun => by
      obtain ⟨s', hs, hrest⟩ := runFrom_eq_some_cons hrun
      exact runFrom_induct hstep as s' t (hstep s a s' hp hg.1 hs) (hg.2 s' hs) hrest

/-- **The guarded run rule.** -/
theorem ReachableUnder.induct {G : σ → α → Prop} {P : σ → Prop} (hinit : P M.init)
    (hstep : ∀ s a s', P s → G s a → M.step s a = some s' → P s')
    {s : σ} (hr : M.ReachableUnder G s) : P s := by
  obtain ⟨as, hrun, hg⟩ := hr
  exact runFrom_induct hstep as M.init s hinit hg hrun

theorem allSteps_true (s : σ) (as : List α) : M.AllSteps (fun _ _ => True) s as := by
  induction as generalizing s with
  | nil => trivial
  | cons a as ih => exact ⟨trivial, fun s' _ => ih s'⟩

theorem reachableUnder_true {s : σ} (hr : M.Reachable s) :
    M.ReachableUnder (fun _ _ => True) s := by
  obtain ⟨as, hrun⟩ := hr
  exact ⟨as, hrun, allSteps_true _ _⟩

/-- **The invariant rule.** -/
theorem Reachable.induct {P : σ → Prop} (hinit : P M.init)
    (hstep : ∀ s a s', P s → M.step s a = some s' → P s')
    {s : σ} (hr : M.Reachable s) : P s :=
  ReachableUnder.induct hinit (fun s a s' hp _ hs => hstep s a s' hp hs)
    (reachableUnder_true hr)

theorem ReachableUnder.reachable {G : σ → α → Prop} {s : σ}
    (hr : M.ReachableUnder G s) : M.Reachable s := by
  obtain ⟨as, hrun, _⟩ := hr
  exact ⟨as, hrun⟩

/-! ## Exact conditions -/

/-- When, under an invariant, a step from a `P` state ends in a `P` state
exactly if it meets `G`, a run stays in `P` exactly if all its steps meet
`G`. `A` is what the labels of the run are known to satisfy; the invariant
need only survive the steps that end in `P`. -/
theorem forall_visited_iff_allSteps_of_kept {G : σ → α → Prop} {I P : σ → Prop} {A : α → Prop}
    (hinv : ∀ s a s', A a → I s → M.step s a = some s' → P s' → I s')
    (hiff : ∀ s a s', A a → I s → P s → M.step s a = some s' → (P s' ↔ G s a)) :
    ∀ (as : List α) (s t : σ), (∀ a ∈ as, A a) → I s → P s → M.runFrom s as = some t →
      ((∀ u ∈ M.visited s as, P u) ↔ M.AllSteps G s as)
  | [], s, t, _, _, _, _ => by simp [visited, AllSteps]
  | a :: as, s, t, hA, hi, hp, hrun => by
      obtain ⟨s', hs, hrest⟩ := runFrom_eq_some_cons hrun
      obtain ⟨ha, hA'⟩ := List.forall_mem_cons.mp hA
      have h1 := hiff s a s' ha hi hp hs
      have ih := fun hp' => forall_visited_iff_allSteps_of_kept hinv hiff as s' t hA'
        (hinv s a s' ha hi hs hp') hp' hrest
      simp only [visited, hs, AllSteps, List.mem_cons, forall_eq_or_imp,
        Option.some.injEq, forall_eq']
      refine ⟨fun h => ⟨h1.mp h.1, (ih h.1).mp h.2⟩, ?_⟩
      intro h
      have hp' := h1.mpr h.1
      exact ⟨hp', (ih hp').mpr h.2⟩

/-- The rule for an invariant that every step keeps. -/
theorem forall_visited_iff_allSteps {G : σ → α → Prop} {I P : σ → Prop} {A : α → Prop}
    (hinv : ∀ s a s', A a → I s → M.step s a = some s' → I s')
    (hiff : ∀ s a s', A a → I s → P s → M.step s a = some s' → (P s' ↔ G s a)) :
    ∀ (as : List α) (s t : σ), (∀ a ∈ as, A a) → I s → P s → M.runFrom s as = some t →
      ((∀ u ∈ M.visited s as, P u) ↔ M.AllSteps G s as) :=
  forall_visited_iff_allSteps_of_kept
    (fun s a s' ha hi hs _ => hinv s a s' ha hi hs) hiff

/-- Conditions that agree under an invariant agree on whole runs. -/
theorem allSteps_iff {G H : σ → α → Prop} {I : σ → Prop}
    (hinv : ∀ s a s', I s → M.step s a = some s' → I s') (hiff : ∀ s a, I s → (G s a ↔ H s a))
    {s : σ} (hi : I s) (as : List α) : M.AllSteps G s as ↔ M.AllSteps H s as := by
  induction as generalizing s with
  | nil => exact Iff.rfl
  | cons a as ih =>
    exact and_congr (hiff s a hi) (forall₂_congr fun s' hs => ih (hinv s a s' hi hs))

/-- What the guarded steps preserve holds of every state of a run. -/
theorem forall_visited {G : σ → α → Prop} {P : σ → Prop}
    (hstep : ∀ s a s', P s → G s a → M.step s a = some s' → P s') {s : σ} (hp : P s)
    {as : List α} (hall : M.AllSteps G s as) : ∀ u ∈ M.visited s as, P u := by
  induction as generalizing s with
  | nil => simp [visited]
  | cons a as ih =>
    intro u hu
    cases hs : M.step s a with
    | none => simp [visited, hs] at hu
    | some s' =>
      simp only [visited, hs, List.mem_cons] at hu
      have hp' := hstep s a s' hp hall.1 hs
      rcases hu with rfl | hu
      · exact hp'
      · exact ih hp' (hall.2 s' hs) u hu

/-! ## Simulation -/

/-- Every step of `M` is matched by a run of `N` between the images of
its end states; `G` is what the matching steps are known to meet. -/
structure Simulation (M : Machine σ α) (N : Machine τ β) (G : τ → β → Prop) where
  abs : σ → τ
  labels : σ → α → List β
  init : abs M.init = N.init
  step : ∀ s a s', M.Reachable s → M.step s a = some s' →
    N.runFrom (abs s) (labels s a) = some (abs s') ∧ N.AllSteps G (abs s) (labels s a)

theorem allSteps_append {G : σ → α → Prop} {s t : σ} {as bs : List α}
    (hrun : M.runFrom s as = some t) (h1 : M.AllSteps G s as) (h2 : M.AllSteps G t bs) :
    M.AllSteps G s (as ++ bs) := by
  induction as generalizing s with
  | nil =>
    simp only [runFrom_nil, Option.some.injEq] at hrun
    exact hrun ▸ h2
  | cons a as ih =>
    obtain ⟨s', hs, hrest⟩ := runFrom_eq_some_cons hrun
    refine ⟨h1.1, ?_⟩
    intro u hu
    obtain rfl : s' = u := by simpa [hs] using hu
    exact ih hrest (h1.2 s' hs)

/-- **The simulation rule.** -/
theorem Simulation.reachable {N : Machine τ β} {G : τ → β → Prop} (S : Simulation M N G)
    {s : σ} (hr : M.Reachable s) : N.ReachableUnder G (S.abs s) := by
  suffices h : M.Reachable s ∧ N.ReachableUnder G (S.abs s) from h.2
  refine Reachable.induct (P := fun s => M.Reachable s ∧ N.ReachableUnder G (S.abs s))
    ⟨Reachable.init, [], by rw [run, S.init, runFrom_nil], trivial⟩ ?_ hr
  rintro s a s' ⟨hr, as, hrun, hall⟩ hs
  obtain ⟨hmatch, hG⟩ := S.step s a s' hr hs
  refine ⟨hr.step hs, as ++ S.labels s a, ?_, allSteps_append hrun hall hG⟩
  rw [run] at hrun
  rw [run, runFrom_append, hrun, Option.bind_some, hmatch]

end Machine

/-! ## Loops -/

section Loops

variable {σ : Type*} {pass : σ → Option σ}

/-- The state after `n` passes of a loop. `pass` is the loop's condition and
body: `none` where the condition fails. -/
def passes (pass : σ → Option σ) : Nat → σ → Option σ
  | 0, s => some s
  | n + 1, s => (pass s).bind (passes pass n)

/-- The loop from `s` ends after `n` passes, in `t`. -/
def EndsAfter (pass : σ → Option σ) (n : Nat) (s t : σ) : Prop :=
  passes pass n s = some t ∧ pass t = none

/-- **The loop rule**: an invariant that each pass keeps while it lowers the
variant by one, and a condition that fails where the variant is 0. -/
theorem exists_endsAfter {I : σ → Prop} {variant : σ → Nat}
    (hpass : ∀ s, I s → 0 < variant s →
      ∃ s', pass s = some s' ∧ I s' ∧ variant s' + 1 = variant s)
    (hend : ∀ s, I s → variant s = 0 → pass s = none) {s : σ} (hi : I s) :
    ∃ t, EndsAfter pass (variant s) s t ∧ I t ∧ variant t = 0 := by
  obtain ⟨n, hn⟩ : ∃ n, variant s = n := ⟨_, rfl⟩
  rw [hn]
  induction n generalizing s with
  | zero => exact ⟨s, ⟨rfl, hend s hi hn⟩, hi, hn⟩
  | succ n ih =>
    obtain ⟨s', hs, hi', hv⟩ := hpass s hi (by omega)
    obtain ⟨t, ⟨hrun, hstop⟩, ht⟩ := ih hi' (by omega)
    refine ⟨t, ⟨?_, hstop⟩, ht⟩
    rw [passes, hs, Option.bind_some, hrun]

end Loops

end Ceell.Lib
