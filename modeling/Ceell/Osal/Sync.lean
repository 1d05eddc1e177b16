/-
Ceell.Osal.Sync — the counting semaphore of `ceell/osal/osal_sync.h`, with
limit 1.

A thread that takes an unavailable semaphore waits. A give wakes one
waiter if there is one, and makes the semaphore available otherwise; a
reset makes it unavailable and fails the threads that wait. Which waiter a
give wakes is the scheduler's choice, so it is an argument.
-/
import Mathlib.Data.List.Basic

namespace Ceell.Osal

/-- `ceell_sem_t` with limit 1: its count, and the threads waiting. -/
structure Sem (κ : Type) where
  count : Bool
  waiters : List κ

namespace Sem

variable {κ : Type} [DecidableEq κ]

/-- `ceell_sem_init(sem, 0, 1)`. -/
def init : Sem κ := ⟨false, []⟩

/-- `ceell_sem_take` by `c`: the semaphore, and whether `c` goes on. -/
def take (s : Sem κ) (c : κ) : Sem κ × Bool :=
  if s.count then ({ s with count := false }, true)
  else ({ s with waiters := s.waiters ++ [c] }, false)

/-- `ceell_sem_give`, waking `wake` if there is a waiter. -/
def give (s : Sem κ) (wake : Option κ) : Option (Sem κ) :=
  match wake with
  | some c => if c ∈ s.waiters then some { s with waiters := s.waiters.erase c } else none
  | none => if s.waiters = [] then some { s with count := true } else none

/-- The timeout of a waiter. -/
def leave (s : Sem κ) (c : κ) : Sem κ := { s with waiters := s.waiters.erase c }

/-- `ceell_sem_reset`; the waiters of `s` fail. -/
def reset (_ : Sem κ) : Sem κ := ⟨false, []⟩

/-- A give wakes a waiter. -/
theorem give_some {s s' : Sem κ} {c : κ} (h : s.give (some c) = some s') :
    c ∈ s.waiters ∧ s' = s.leave c := by
  simp only [give] at h
  split at h
  · rename_i hc
    exact ⟨hc, (Option.some.inj h).symm⟩
  · cases h

/-- A give makes the semaphore available only if nobody waits. -/
theorem give_none {s s' : Sem κ} (h : s.give none = some s') :
    s.waiters = [] ∧ s' = { s with count := true } := by
  simp only [give] at h
  split at h
  · rename_i hw
    exact ⟨hw, (Option.some.inj h).symm⟩
  · cases h

/-- Somebody can be woken, or nobody waits. -/
theorem exists_give (s : Sem κ) :
    (∃ c ∈ s.waiters, s.give (some c) = some (s.leave c)) ∨
    (s.waiters = [] ∧ s.give none = some { s with count := true }) := by
  cases hw : s.waiters with
  | nil => exact Or.inr ⟨rfl, by simp [give, hw]⟩
  | cons c rest => exact Or.inl ⟨c, List.mem_cons_self, by simp [give, leave, hw]⟩

end Sem

end Ceell.Osal
