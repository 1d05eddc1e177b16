/-
Ceell.Lib.Progress — how many steps a run has, of one party or at all.

* `runFrom_count` — a potential that the steps of a party raise by one and
  the other steps leave alone counts the steps of the party.
* `runFrom_length_le` — a variant that every step lowers bounds the run.

Nothing in this module names the program it is used for.
-/
import Ceell.Lib.Machine

namespace Ceell.Lib.Machine

variable {σ α : Type*} {M : Machine σ α} {s t : σ} {as : List α}

/-- What one step adds to the potential. -/
def counts (mine : α → Bool) (a : α) : Nat := if mine a then 1 else 0

/-- **The counting rule**, by induction on the run. -/
theorem runFrom_count {mine : α → Bool} {pot : σ → Nat}
    (hstep : ∀ s a s', M.step s a = some s' → pot s' = pot s + counts mine a)
    (hrun : M.runFrom s as = some t) : pot t = pot s + as.countP mine := by
  induction as generalizing s with
  | nil =>
    obtain rfl := Option.some.inj hrun
    rfl
  | cons a as ih =>
    obtain ⟨s', hs, hrest⟩ := runFrom_eq_some_cons hrun
    rw [ih hrest, hstep s a s' hs, List.countP_cons, counts]
    omega

/-- **The variant rule**, by induction on the run. -/
theorem runFrom_length_le {q : α → Prop} {v : σ → Nat}
    (hstep : ∀ s a s', q a → M.step s a = some s' → v s' < v s) (hq : ∀ a ∈ as, q a)
    (hrun : M.runFrom s as = some t) : v t + as.length ≤ v s := by
  induction as generalizing s with
  | nil =>
    obtain rfl := Option.some.inj hrun
    exact Nat.le_refl _
  | cons a as ih =>
    obtain ⟨s', hs, hrest⟩ := runFrom_eq_some_cons hrun
    have hlower := hstep s a s' (hq a List.mem_cons_self) hs
    have hbound := ih (fun b hb => hq b (List.mem_cons_of_mem a hb)) hrest
    rw [List.length_cons]
    omega

end Ceell.Lib.Machine
