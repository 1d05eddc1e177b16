/-
Ceell.Lib.Latch — one flag driven by a list of set and clear edges.

The flag after a list of edges is decided by the last edge that moves it;
`latch_eq_false_iff` says so by naming that edge and the edges after it,
and `latch_filterMap_eq_false_iff` by naming the member of a list that
made it. `latch_down_eq_false_iff` says it of every edge that sets.

Where the flag is logged each time that it moves, the log alternates:
`Alternates.concat` is the step.
-/
import Mathlib.Data.List.Chain

namespace Ceell.Lib

variable {α : Type*}

/-- What an edge does to the flag. An edge that sets wins over one that
clears. -/
def latchStep (sets clears : α → Bool) (flag : Bool) (x : α) : Bool :=
  if sets x then true else if clears x then false else flag

/-- The flag after the edges `l`, from `flag`. -/
def latch (sets clears : α → Bool) (flag : Bool) (l : List α) : Bool :=
  l.foldl (latchStep sets clears) flag

variable {sets clears : α → Bool} {flag : Bool} {l : List α}

@[simp] theorem latch_nil : latch sets clears flag [] = flag := rfl

theorem latch_cons (x : α) (l : List α) :
    latch sets clears flag (x :: l) = latch sets clears (latchStep sets clears flag x) l := rfl

theorem latchStep_eq_false_iff {x : α} :
    latchStep sets clears flag x = false ↔
      sets x = false ∧ (clears x = true ∨ flag = false) := by
  cases hs : sets x <;> cases hc : clears x <;> simp [latchStep, hs, hc]

/-- The flag is down after the edges exactly if the last edge that moves
it clears it, or none moves it and it was down before. -/
theorem latch_eq_false_iff :
    latch sets clears flag l = false ↔
      (∃ front x back, l = front ++ x :: back ∧ clears x = true ∧ sets x = false ∧
        ∀ y ∈ back, sets y = false) ∨
      (flag = false ∧ ∀ y ∈ l, sets y = false) := by
  induction l generalizing flag with
  | nil => simp
  | cons x l ih =>
    rw [latch_cons, ih, latchStep_eq_false_iff]
    constructor
    · rintro (⟨front, y, back, rfl, hy, hy', hback⟩ | ⟨⟨hs, hc | hf⟩, hall⟩)
      · exact Or.inl ⟨x :: front, y, back, rfl, hy, hy', hback⟩
      · exact Or.inl ⟨[], x, l, rfl, hc, hs, hall⟩
      · exact Or.inr ⟨hf, List.forall_mem_cons.mpr ⟨hs, hall⟩⟩
    · rintro (⟨front, y, back, heq, hy, hy', hback⟩ | ⟨hf, hall⟩)
      · cases front with
        | nil =>
          obtain ⟨rfl, rfl⟩ := List.cons.inj heq
          exact Or.inr ⟨⟨hy', Or.inl hy⟩, hback⟩
        | cons z front =>
          obtain ⟨rfl, rfl⟩ := List.cons.inj heq
          exact Or.inl ⟨front, y, back, rfl, hy, hy', hback⟩
      · obtain ⟨hs, hall⟩ := List.forall_mem_cons.mp hall
        exact Or.inr ⟨⟨hs, Or.inr hf⟩, hall⟩

theorem latch_append (l₁ l₂ : List α) :
    latch sets clears flag (l₁ ++ l₂) = latch sets clears (latch sets clears flag l₁) l₂ :=
  List.foldl_append

/-- A flag that starts down is down after the edges exactly if every edge
that sets it is followed by one that clears it. -/
theorem latch_down_eq_false_iff :
    latch sets clears false l = false ↔
      ∀ front x back, l = front ++ x :: back → sets x = true →
        ∃ y ∈ back, clears y = true ∧ sets y = false := by
  induction l using List.reverseRecOn with
  | nil => simp
  | append_singleton l z ih =>
    rw [latch_append, latch_cons, latch_nil, latchStep_eq_false_iff, ih]
    constructor
    · rintro ⟨hz, hlast⟩ front x back heq hx
      rcases List.eq_nil_or_concat back with rfl | ⟨back, z', rfl⟩
      · -- the edge that sets is the last one
        obtain ⟨_, hxz⟩ := List.append_inj' heq rfl
        obtain rfl := List.singleton_inj.mp hxz
        rw [hx] at hz
        cases hz
      · rw [List.concat_eq_append, ← List.cons_append, ← List.append_assoc] at heq
        obtain ⟨hl, hzz⟩ := List.append_inj' heq rfl
        obtain rfl := List.singleton_inj.mp hzz
        rcases hlast with hclears | hall
        · exact ⟨z, by simp, hclears, hz⟩
        · obtain ⟨y, hy, hclears⟩ := hall front x back hl hx
          exact ⟨y, by simp [hy], hclears⟩
    · intro hall
      have hz : sets z = false := by
        by_contra hset
        obtain ⟨y, hy, _⟩ := hall l z [] rfl (by simpa using hset)
        cases hy
      refine ⟨hz, or_iff_not_imp_left.mpr fun hkeep front x back heq hx => ?_⟩
      obtain ⟨y, hy, hclears, hsets⟩ := hall front x (back ++ [z]) (by simp [heq]) hx
      rcases List.mem_append.mp hy with hy | hy
      · exact ⟨y, hy, hclears, hsets⟩
      · rw [List.mem_singleton.mp hy] at hclears
        exact absurd hclears hkeep

/-- Edges that all set leave the flag down only if there are none. -/
theorem latch_eq_false_of_forall_sets (h : ∀ x ∈ l, sets x = true) :
    latch sets clears flag l = false ↔ l = [] ∧ flag = false := by
  cases l with
  | nil => simp
  | cons x l =>
    rw [latch_eq_false_iff]
    refine ⟨?_, fun h' => absurd h'.1 (List.cons_ne_nil x l)⟩
    rintro (⟨front, y, back, heq, _, hy, _⟩ | ⟨_, hall⟩)
    · rw [h y (by simp [heq])] at hy
      cases hy
    · have hx := hall x List.mem_cons_self
      rw [h x List.mem_cons_self] at hx
      cases hx

/-- `latch_eq_false_iff` for the edges that the members of a list make. -/
theorem latch_filterMap_eq_false_iff {β : Type*} {f : β → Option α} {ps : List β} :
    latch sets clears flag (ps.filterMap f) = false ↔
      (∃ front p back x, ps = front ++ p :: back ∧ f p = some x ∧ clears x = true ∧
        sets x = false ∧ ∀ y ∈ back.filterMap f, sets y = false) ∨
      (flag = false ∧ ∀ y ∈ ps.filterMap f, sets y = false) := by
  rw [latch_eq_false_iff]
  refine or_congr_left ⟨?_, ?_⟩
  · rintro ⟨front, x, back, heq, hc, hs, hall⟩
    obtain ⟨l₁, l₂, rfl, _, h₂⟩ := List.filterMap_eq_append_iff.mp heq
    obtain ⟨m₁, p, m₂, rfl, _, hp, rfl⟩ := List.filterMap_eq_cons_iff.mp h₂
    exact ⟨l₁ ++ m₁, p, m₂, x, by rw [List.append_assoc], hp, hc, hs, hall⟩
  · rintro ⟨front, p, back, x, rfl, hp, hc, hs, hall⟩
    refine ⟨front.filterMap f, x, back.filterMap f, ?_, hc, hs, hall⟩
    rw [List.filterMap_append, List.filterMap_cons_some hp]

/-! ## The log of a flag -/

/-- The value that a log of a flag ends with; the flag starts down. -/
def loggedFlag (log : List Bool) : Bool := log.getLast?.getD false

/-- A log of a flag that starts down and is logged when it moves. -/
def Alternates (log : List Bool) : Prop := log.head? ≠ some false ∧ log.IsChain (· ≠ ·)

instance (log : List Bool) : Decidable (Alternates log) := by
  unfold Alternates; infer_instance

@[simp] theorem loggedFlag_concat (log : List Bool) (b : Bool) : loggedFlag (log ++ [b]) = b := by
  simp [loggedFlag]

theorem alternates_nil : Alternates [] := ⟨by simp, List.isChain_nil⟩

/-- A value that the log does not end with may follow. -/
theorem Alternates.concat {log : List Bool} (h : Alternates log) {b : Bool}
    (hb : loggedFlag log ≠ b) : Alternates (log ++ [b]) := by
  obtain ⟨hhead, hchain⟩ := h
  constructor
  · cases log with
    | nil => simpa [loggedFlag, eq_comm] using hb
    | cons c log => exact hhead
  · refine hchain.append (List.isChain_singleton b) ?_
    intro c hc d hd heq
    obtain rfl : b = d := by simpa using hd
    rw [loggedFlag, hc, Option.getD_some] at hb
    exact hb heq

end Ceell.Lib
