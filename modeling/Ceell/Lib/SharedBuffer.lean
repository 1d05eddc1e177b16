/-
Ceell.Lib.SharedBuffer — a buffer that several threads encode into, each
before a later step that uses what its own encoding has returned.

A thread may be anywhere between the two steps of its call; `Encoded` says
what is known of one that has encoded: somebody has, its call goes on, and
the result it keeps is that of its own encoding. What is in the buffer is
another matter, and the business of whoever encoded last.
-/
import Mathlib.Logic.Function.Basic

namespace Ceell.Lib

variable {τ κ ρ : Type*}

/-- The threads that have encoded are each in a call still, and keep what
the encoding for it returned; `last` is the call that encoded last. -/
def Encoded (current : τ → κ → Prop) (ret : κ → ρ) (last : Option κ)
    (encoded : τ → Option ρ) : Prop :=
  ∀ t r, encoded t = some r → last.isSome = true ∧ ∃ a, current t a ∧ r = ret a

namespace Encoded

variable {current current' : τ → κ → Prop} {ret : κ → ρ} {last : Option κ}
  {encoded : τ → Option ρ}

theorem init : Encoded current ret last fun _ => none := by
  intro t r h
  cases h

/-- Steps outside the two leave the calls of the threads alone. -/
theorem mono (h : Encoded current ret last encoded) (hcur : ∀ t a, current t a → current' t a) :
    Encoded current' ret last encoded := by
  intro t r ht
  obtain ⟨hlast, a, ha, hr⟩ := h t r ht
  exact ⟨hlast, a, hcur t a ha, hr⟩

variable [DecidableEq τ] {t : τ}

/-- A thread encodes. -/
theorem encode (h : Encoded current ret last encoded) {a : κ} (ha : current t a) :
    Encoded current ret (some a) (Function.update encoded t (some (ret a))) := by
  intro u r hu
  by_cases hut : u = t
  · subst hut
    rw [Function.update_self] at hu
    exact ⟨rfl, a, ha, (Option.some.inj hu).symm⟩
  · rw [Function.update_of_ne hut] at hu
    exact ⟨rfl, (h u r hu).2⟩

/-- A thread takes its second step, and leaves the calls of the others
alone. -/
theorem finish (h : Encoded current ret last encoded)
    (hcur : ∀ u, u ≠ t → ∀ a, current u a → current' u a) :
    Encoded current' ret last (Function.update encoded t none) := by
  intro u r hu
  by_cases hut : u = t
  · subst hut
    rw [Function.update_self] at hu
    cases hu
  · rw [Function.update_of_ne hut] at hu
    obtain ⟨hlast, a, ha, hr⟩ := h u r hu
    exact ⟨hlast, a, hcur u hut a ha, hr⟩

end Encoded

end Ceell.Lib
