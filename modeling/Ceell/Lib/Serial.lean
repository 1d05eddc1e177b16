/-
Ceell.Lib.Serial — operations that run under a lock, one statement at a
time, between steps of threads that take no lock.

`Serial` relates a machine to operations on an abstract state: which label
takes the lock for which operation, and what the machine's state looks like
while the operation is half done. `Serial.run` is the rule: after any run
the machine is where the operations, in the order in which they took the
lock, lead to, but for at most one that is still in progress.

Nothing in this module names the program it is used for.
-/
import Ceell.Lib.Machine

namespace Ceell.Lib

/-- A machine whose operations of type `ω` are serialised. `Rel x o s` says
that the operations before `o` led to `x` and that `o`, if there is one, is
in progress. -/
structure Serial {σ α : Type*} (M : Machine σ α) (χ ω : Type*) where
  init : χ
  apply : χ → ω → χ
  call : α → Option ω
  /-- what is known of the labels of the run -/
  Label : α → Prop
  Rel : χ → Option ω → σ → Prop
  rel_init : Rel init none M.init
  rel_call : ∀ x o s a s' op, Rel x o s → Label a → M.step s a = some s' → call a = some op →
    o = none ∧ Rel x (some op) s'
  rel_inner : ∀ x o s a s', Rel x o s → Label a → M.step s a = some s' → call a = none →
    Rel x o s' ∨ ∃ op, o = some op ∧ Rel (apply x op) none s'

namespace Serial

variable {σ α χ ω : Type*} {M : Machine σ α} (S : Serial M χ ω)

/-- The operations one after the other. -/
def replay (ops : List ω) : χ := ops.foldl S.apply S.init

/-- The operations of a run, in the order in which they took the lock. -/
def ops (as : List α) : List ω := as.filterMap S.call

theorem replay_concat (ops : List ω) (op : ω) :
    S.replay (ops ++ [op]) = S.apply (S.replay ops) op := by
  simp [replay]

/-- The rule from any state on; `done` is what was done before it. -/
theorem runFrom {as : List α} {s t : σ} {done : List ω} {o : Option ω}
    (hrel : S.Rel (S.replay done) o s) (hlabel : ∀ a ∈ as, S.Label a)
    (hrun : M.runFrom s as = some t) :
    ∃ done' o', done ++ o.toList ++ S.ops as = done' ++ o'.toList ∧
      S.Rel (S.replay done') o' t := by
  induction as generalizing s done o with
  | nil =>
    simp only [Machine.runFrom_nil, Option.some.injEq] at hrun
    subst hrun
    exact ⟨done, o, by simp [ops], hrel⟩
  | cons a as ih =>
    obtain ⟨ha, has⟩ := List.forall_mem_cons.mp hlabel
    obtain ⟨s', hs, hrest⟩ := Machine.runFrom_eq_some_cons hrun
    cases hcall : S.call a with
    | some op =>
      obtain ⟨rfl, hrel'⟩ := S.rel_call _ _ _ _ _ _ hrel ha hs hcall
      obtain ⟨done', o', heq, hend⟩ := ih hrel' has hrest
      refine ⟨done', o', ?_, hend⟩
      rw [← heq, ops, List.filterMap_cons_some hcall]
      simp [ops]
    | none =>
      have hops : S.ops (a :: as) = S.ops as := List.filterMap_cons_none hcall
      rw [hops]
      rcases S.rel_inner _ _ _ _ _ hrel ha hs hcall with hrel' | ⟨op, rfl, hrel'⟩
      · exact ih hrel' has hrest
      · rw [← S.replay_concat] at hrel'
        obtain ⟨done', o', heq, hend⟩ := ih hrel' has hrest
        exact ⟨done', o', by simpa using heq, hend⟩

/-- **The serialisation rule.** -/
theorem run {as : List α} {s : σ} (hlabel : ∀ a ∈ as, S.Label a) (hrun : M.run as = some s) :
    ∃ done o, S.ops as = done ++ o.toList ∧ S.Rel (S.replay done) o s := by
  have hinit : S.Rel (S.replay []) none M.init := S.rel_init
  obtain ⟨done, o, heq, hrel⟩ := S.runFrom hinit hlabel hrun
  exact ⟨done, o, by simpa using heq, hrel⟩

end Serial

end Ceell.Lib
