/-
Ceell.Lib.Escape — strings whose special symbols are written as two, and
what is left of them in an array that is too short.

* `Escape` — the mark of an escape, and the symbol that stands after it
  for each special one. The mark is special, and marked by itself.
* `Escape.str` — the escaped string. It is the string itself only where
  nothing is special (`str_eq_self_iff`).
* `Escape.Kept` — a string that comes back when its escaped form is cut to
  `n` symbols: nothing is special, or it has `n` symbols and is nothing
  but marks from the first special one on. The marks double, and the cut
  halves them again. `take_str_eq_self_iff` says that no other string
  comes back.
-/
import Mathlib.Data.List.Basic

namespace Ceell.Lib

variable {α : Type*}

/-- The mark of an escape and the symbols that stand for the special ones. -/
structure Escape (α : Type*) where
  mark : α
  code : α → Option α
  code_mark : code mark = some mark

namespace Escape

variable (e : Escape α)

/-- A symbol, escaped. -/
def symbol (c : α) : List α :=
  match e.code c with
  | some d => [e.mark, d]
  | none => [c]

/-- A string, escaped. -/
def str (s : List α) : List α := s.flatMap e.symbol

/-- Nothing in the string is special. -/
def Clear (s : List α) : Prop := ∀ c ∈ s, e.code c = none

instance (s : List α) : Decidable (e.Clear s) :=
  inferInstanceAs (Decidable (∀ c ∈ s, e.code c = none))

/-- The string comes back from its escaped form cut to `n` symbols. -/
def Kept (n : Nat) (s : List α) : Prop :=
  e.Clear s ∨ s.length = n ∧ ∃ a k, s = a ++ List.replicate k e.mark ∧ e.Clear a

@[simp] theorem str_nil : e.str [] = [] := rfl

@[simp] theorem str_cons (c : α) (s : List α) : e.str (c :: s) = e.symbol c ++ e.str s :=
  List.flatMap_cons

@[simp] theorem str_append (s t : List α) : e.str (s ++ t) = e.str s ++ e.str t :=
  List.flatMap_append

variable {e}

theorem symbol_of_none {c : α} (h : e.code c = none) : e.symbol c = [c] := by
  simp only [symbol, h]

theorem symbol_of_some {c d : α} (h : e.code c = some d) : e.symbol c = [e.mark, d] := by
  simp only [symbol, h]

theorem symbol_mark : e.symbol e.mark = [e.mark, e.mark] := symbol_of_some e.code_mark

theorem clear_cons {c : α} {s : List α} : e.Clear (c :: s) ↔ e.code c = none ∧ e.Clear s :=
  List.forall_mem_cons

theorem str_of_clear {s : List α} (h : e.Clear s) : e.str s = s := by
  induction s with
  | nil => rfl
  | cons c s ih =>
    obtain ⟨hc, hs⟩ := clear_cons.mp h
    rw [str_cons, symbol_of_none hc, ih hs, List.singleton_append]

theorem length_le_str (s : List α) : s.length ≤ (e.str s).length := by
  induction s with
  | nil => exact Nat.le_refl 0
  | cons c s ih =>
    rw [str_cons, List.length_append, List.length_cons]
    cases hc : e.code c with
    | none =>
      rw [symbol_of_none hc, List.length_singleton]
      omega
    | some d =>
      rw [symbol_of_some hc, List.length_cons, List.length_singleton]
      omega

/-- Escaping doubles a string at most. -/
theorem length_str_le (s : List α) : (e.str s).length ≤ 2 * s.length := by
  induction s with
  | nil => exact Nat.le_refl 0
  | cons c s ih =>
    rw [str_cons, List.length_append, List.length_cons]
    cases hc : e.code c with
    | none =>
      rw [symbol_of_none hc, List.length_singleton]
      omega
    | some d =>
      rw [symbol_of_some hc, List.length_cons, List.length_singleton]
      omega

theorem str_eq_self_iff {s : List α} : e.str s = s ↔ e.Clear s := by
  constructor
  · intro h
    induction s with
    | nil => exact List.forall_mem_nil _
    | cons c s ih =>
      cases hc : e.code c with
      | none =>
        rw [str_cons, symbol_of_none hc, List.singleton_append, List.cons.injEq] at h
        exact clear_cons.mpr ⟨hc, ih h.2⟩
      | some d =>
        have hlen := congrArg List.length h
        have hle := length_le_str (e := e) s
        rw [str_cons, symbol_of_some hc, List.length_append, List.length_cons,
          List.length_singleton, List.length_cons] at hlen
        omega
  · exact str_of_clear

theorem str_replicate_mark (k : Nat) :
    e.str (List.replicate k e.mark) = List.replicate (2 * k) e.mark := by
  induction k with
  | zero => rfl
  | succ k ih =>
    rw [List.replicate_succ, str_cons, symbol_mark, ih]
    rfl

/-- Behind a mark, only marks come back. By induction on the string; the
marks before it are one more than its escaped form is behind. -/
theorem eq_replicate_of_take (t : List α) (j : Nat)
    (h : (List.replicate (j + 1) e.mark ++ e.str t).take t.length = t) :
    t = List.replicate t.length e.mark := by
  induction t generalizing j with
  | nil => rfl
  | cons c t ih =>
    rw [List.replicate_succ, List.cons_append, List.length_cons, List.take_succ_cons,
      List.cons.injEq] at h
    obtain ⟨rfl, ht⟩ := h
    rw [str_cons, symbol_mark] at ht
    have hmarks : List.replicate j e.mark ++ ([e.mark, e.mark] ++ e.str t) =
        List.replicate (j + 1 + 1) e.mark ++ e.str t := by
      have htwo : [e.mark, e.mark] = List.replicate 2 e.mark := rfl
      rw [htwo, ← List.append_assoc, List.replicate_append_replicate]
    rw [hmarks] at ht
    rw [List.length_cons, List.replicate_succ, ← ih (j + 1) ht]

/-- A string that comes back from a cut at its own length. -/
theorem tail_marks_of_take {s : List α} (h : (e.str s).take s.length = s) :
    ∃ a k, s = a ++ List.replicate k e.mark ∧ e.Clear a := by
  induction s with
  | nil => exact ⟨[], 0, rfl, List.forall_mem_nil _⟩
  | cons c s ih =>
    cases hc : e.code c with
    | none =>
      rw [str_cons, symbol_of_none hc, List.singleton_append, List.length_cons,
        List.take_succ_cons, List.cons.injEq] at h
      obtain ⟨a, k, hs, ha⟩ := ih h.2
      refine ⟨c :: a, k, ?_, clear_cons.mpr ⟨hc, ha⟩⟩
      rw [List.cons_append, ← hs]
    | some d =>
      have hmark : c = e.mark ∧ (d :: e.str s).take s.length = s := by
        rw [str_cons, symbol_of_some hc, List.length_cons, List.cons_append, List.take_succ_cons,
          List.cons.injEq] at h
        exact ⟨h.1.symm, h.2⟩
      obtain ⟨rfl, hs⟩ := hmark
      obtain rfl : e.mark = d := Option.some.inj (e.code_mark.symm.trans hc)
      have hs := eq_replicate_of_take s 0 hs
      refine ⟨[], s.length + 1, ?_, List.forall_mem_nil _⟩
      rw [List.nil_append, List.replicate_succ, ← hs]

/-- **What a cut leaves.** -/
theorem take_str_eq_self_iff {s : List α} {n : Nat} (h : s.length ≤ n) :
    (e.str s).take n = s ↔ e.Kept n s := by
  constructor
  · intro htake
    by_cases hlong : (e.str s).length ≤ n
    · rw [List.take_of_length_le hlong] at htake
      exact Or.inl (str_eq_self_iff.mp htake)
    · have hlen : s.length = n := by
        rw [← htake, List.length_take]
        omega
      subst hlen
      exact Or.inr ⟨rfl, tail_marks_of_take htake⟩
  · rintro (hclear | ⟨hlen, a, k, hs, ha⟩)
    · rw [str_of_clear hclear, List.take_of_length_le h]
    · have hn : n = a.length + k := by
        rw [← hlen, hs, List.length_append, List.length_replicate]
      rw [hs, str_append, str_of_clear ha, str_replicate_mark, hn, List.take_length_add_append,
        List.take_replicate]
      congr 2
      omega

end Escape

end Ceell.Lib
