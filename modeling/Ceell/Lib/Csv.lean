/-
Ceell.Lib.Csv — lists of names written one after the other with a
separator between them, and the loop that reads them back.

`pieces` is what a `while (*p)` loop over `strchr` visits: the text up to
each separator, and the text after the last one unless it is empty.
`pieces_eq` is the loop's own equation; the definition is by recursion on
the text, so that it computes. `pieces_intercalate` is the round trip, and
`forall_mem_splitOn_take_iff` says when a text cut short has no token that
is not one of the whole text.
-/
import Mathlib.Algebra.Order.Ring.Nat
import Mathlib.Data.List.DropRight
import Mathlib.Data.List.TakeWhile

namespace Ceell.Lib

variable {α : Type*} [DecidableEq α]

/-- The pieces of a text between separators, without an empty one at the
end. -/
def pieces (sep : α) : List α → List (List α)
  | [] => []
  | c :: cs =>
      if c = sep then [] :: pieces sep cs
      else
        match pieces sep cs with
        | [] => [[c]]
        | t :: ts => (c :: t) :: ts

variable {sep : α}

@[simp] theorem pieces_nil : pieces sep [] = [] := rfl

@[simp] theorem pieces_sep (cs : List α) : pieces sep (sep :: cs) = [] :: pieces sep cs := by
  simp [pieces]

/-- The text before a separator is the first piece. -/
theorem pieces_append_sep {l : List α} (h : sep ∉ l) (cs : List α) :
    pieces sep (l ++ sep :: cs) = l :: pieces sep cs := by
  induction l with
  | nil => exact pieces_sep cs
  | cons c l ih =>
    simp only [List.mem_cons, not_or] at h
    rw [List.cons_append, pieces, if_neg (Ne.symm h.1), ih h.2]

/-- A text without a separator is its only piece. -/
theorem pieces_of_notMem {l : List α} (h : sep ∉ l) (hne : l ≠ []) : pieces sep l = [l] := by
  induction l with
  | nil => exact absurd rfl hne
  | cons c l ih =>
    simp only [List.mem_cons, not_or] at h
    rw [pieces, if_neg (Ne.symm h.1)]
    cases l with
    | nil => rfl
    | cons d l => rw [ih h.2 (List.cons_ne_nil d l)]

/-- **The loop**: the first piece ends at the first separator, and the
others are the pieces of what follows it. -/
theorem pieces_eq {l : List α} (hne : l ≠ []) :
    pieces sep l = l.takeWhile (· ≠ sep) :: pieces sep ((l.dropWhile (· ≠ sep)).drop 1) := by
  induction l with
  | nil => exact absurd rfl hne
  | cons c l ih =>
    by_cases hc : c = sep
    · subst hc
      simp
    · by_cases hl : l = []
      · simp [hl, pieces, hc]
      · rw [pieces, if_neg hc, ih hl]
        simp [hc]

/-- The pieces are made of the text's own items. -/
theorem mem_of_mem_pieces {l t : List α} {c : α} (h : t ∈ pieces sep l) (hc : c ∈ t) : c ∈ l := by
  induction l generalizing t with
  | nil => cases h
  | cons d l ih =>
    unfold pieces at h
    split at h
    · rcases List.mem_cons.mp h with rfl | h
      · cases hc
      · exact List.mem_cons_of_mem _ (ih h hc)
    · split at h
      · rw [List.mem_singleton.mp h, List.mem_singleton] at hc
        exact hc ▸ List.mem_cons_self
      · rename_i u ts hp
        rcases List.mem_cons.mp h with rfl | h
        · rcases List.mem_cons.mp hc with rfl | hc
          · exact List.mem_cons_self
          · exact List.mem_cons_of_mem _ (ih (by rw [hp]; exact List.mem_cons_self) hc)
        · exact List.mem_cons_of_mem _ (ih (by rw [hp]; exact List.mem_cons_of_mem _ h) hc)

omit [DecidableEq α] in
/-- Joining adds nothing but separators. -/
theorem mem_of_mem_intercalate {ls : List (List α)} {c : α} (h : c ∈ [sep].intercalate ls) :
    c = sep ∨ ∃ l ∈ ls, c ∈ l := by
  induction ls with
  | nil => cases h
  | cons l ls ih =>
    cases ls with
    | nil =>
      rw [List.intercalate_singleton] at h
      exact Or.inr ⟨l, List.mem_cons_self, h⟩
    | cons m ls =>
      rw [List.intercalate_cons_cons] at h
      rcases List.mem_append.mp h with h | h
      · rcases List.mem_append.mp h with h | h
        · exact Or.inr ⟨l, List.mem_cons_self, h⟩
        · exact Or.inl (List.mem_singleton.mp h)
      · rcases ih h with h | ⟨x, hx, hc⟩
        · exact Or.inl h
        · exact Or.inr ⟨x, List.mem_cons_of_mem _ hx, hc⟩

omit [DecidableEq α] in
/-- One more name goes behind a separator. -/
theorem intercalate_concat (sep : α) {ls : List (List α)} (hne : ls ≠ []) (l : List α) :
    [sep].intercalate (ls ++ [l]) = [sep].intercalate ls ++ sep :: l := by
  induction ls with
  | nil => exact absurd rfl hne
  | cons m ls ih =>
    cases ls with
    | nil => simp
    | cons m' ls =>
      have ih' := ih (List.cons_ne_nil _ _)
      simp only [List.cons_append, List.intercalate_cons_cons, List.append_assoc] at ih' ⊢
      rw [ih']

omit [DecidableEq α] in
/-- A joined text counts each name and a separator after it, but for the
last. -/
theorem length_intercalate (sep : α) {ls : List (List α)} (hne : ls ≠ []) :
    ([sep].intercalate ls).length + 1 = (ls.map fun l => l.length + 1).sum := by
  induction ls with
  | nil => exact absurd rfl hne
  | cons l ls ih =>
    cases ls with
    | nil => simp
    | cons m ls =>
      have ih' := ih (List.cons_ne_nil _ _)
      rw [List.intercalate_cons_cons, List.map_cons, List.sum_cons, ← ih']
      simp only [List.length_append, List.length_singleton]
      omega

omit [DecidableEq α] in
theorem length_intercalate_le (sep : α) {ls : List (List α)} {n : Nat}
    (h : ∀ l ∈ ls, l.length ≤ n) :
    ([sep].intercalate ls).length ≤ ls.length * (n + 1) - 1 := by
  have hsum : ∀ ls : List (List α), (∀ l ∈ ls, l.length ≤ n) →
      (ls.map fun l => l.length + 1).sum ≤ ls.length * (n + 1) := by
    intro ls h
    induction ls with
    | nil => exact Nat.zero_le _
    | cons l ls ih =>
      obtain ⟨hl, hls⟩ := List.forall_mem_cons.mp h
      have ih' := ih hls
      rw [List.map_cons, List.sum_cons, List.length_cons, Nat.succ_mul]
      omega
  by_cases hne : ls = []
  · rw [hne]
    exact Nat.zero_le _
  · have hlen := length_intercalate sep hne
    have hle := hsum ls h
    omega

/-- **The round trip**: names without a separator, joined by it, are read
back, if the last one is not empty. -/
theorem pieces_intercalate {ls : List (List α)} (hsep : ∀ l ∈ ls, sep ∉ l)
    (hne : ∀ l ∈ ls, l ≠ []) : pieces sep ([sep].intercalate ls) = ls := by
  induction ls with
  | nil => rfl
  | cons l ls ih =>
    obtain ⟨hl, hls⟩ := List.forall_mem_cons.mp hsep
    obtain ⟨hl', hls'⟩ := List.forall_mem_cons.mp hne
    cases ls with
    | nil =>
      rw [List.intercalate_singleton]
      exact pieces_of_notMem hl hl'
    | cons m ls =>
      rw [List.intercalate_cons_cons, List.append_assoc, List.singleton_append,
        pieces_append_sep hl, ih hls hls']

/-- Names that may be empty are read back but for an empty last one, which
a reader that skips empty names does not see. -/
theorem filterMap_pieces_intercalate {β : Type*} {f : List α → Option β} (hf : f [] = none)
    {ls : List (List α)} (hsep : ∀ l ∈ ls, sep ∉ l) :
    (pieces sep ([sep].intercalate ls)).filterMap f = ls.filterMap f := by
  induction ls with
  | nil => rfl
  | cons l ls ih =>
    obtain ⟨hl, hls⟩ := List.forall_mem_cons.mp hsep
    cases ls with
    | nil =>
      rw [List.intercalate_singleton]
      by_cases hne : l = []
      · rw [hne, pieces_nil, List.filterMap_nil, List.filterMap_cons_none hf, List.filterMap_nil]
      · rw [pieces_of_notMem hl hne]
    | cons m ls =>
      rw [List.intercalate_cons_cons, List.append_assoc, List.singleton_append,
        pieces_append_sep hl, List.filterMap_cons, List.filterMap_cons, ih hls]

/-! ## Tokens -/

/-- The loop visits the tokens of the text, but for an empty last one. -/
theorem splitOn_eq_pieces (sep : α) (l : List α) :
    l.splitOn sep = pieces sep l ++ [[]] ∨ l.splitOn sep = pieces sep l := by
  induction l with
  | nil => exact Or.inl rfl
  | cons c l ih =>
    rw [List.splitOn_cons_eq_if_modifyHead, pieces]
    by_cases hc : c = sep
    · simp only [hc, beq_self_eq_true, if_true]
      rcases ih with h | h
      · exact Or.inl (by rw [h, List.cons_append])
      · exact Or.inr (by rw [h])
    · simp only [beq_eq_false_iff_ne.mpr hc, Bool.false_eq_true, if_false, if_neg hc]
      cases hp : pieces sep l with
      | nil =>
        rw [hp, List.nil_append] at ih
        exact Or.inr (by rw [ih.resolve_right (List.splitOn_ne_nil sep l)]; rfl)
      | cons t ts =>
        rw [hp] at ih
        rcases ih with h | h
        · exact Or.inl (by rw [h]; rfl)
        · exact Or.inr (by rw [h]; rfl)

theorem mem_pieces_iff {l t : List α} (hne : t ≠ []) : t ∈ pieces sep l ↔ t ∈ l.splitOn sep := by
  rcases splitOn_eq_pieces sep l with h | h
  · simp [h, hne]
  · rw [h]

/-- What follows the last separator of a text is its last token, and the
token that grows when the text does. -/
theorem splitOn_append_rtakeWhile (sep : α) (l : List α) :
    ∃ front, ∀ b, (l ++ b).splitOn sep = front ++ (l.rtakeWhile (· ≠ sep) ++ b).splitOn sep := by
  have hl := List.rdropWhile_append_rtakeWhile (p := (· ≠ sep)) (l := l)
  by_cases hnil : l.rdropWhile (· ≠ sep) = []
  · refine ⟨[], fun b => ?_⟩
    rw [hnil, List.nil_append] at hl
    rw [hl, List.nil_append]
  · have hlast : (l.rdropWhile (· ≠ sep)).getLast hnil = sep := by
      simpa using List.rdropWhile_last_not (p := (· ≠ sep)) l hnil
    have hconcat := List.dropLast_append_getLast hnil
    rw [hlast] at hconcat
    have heq : (l.rdropWhile (· ≠ sep)).dropLast ++ sep :: l.rtakeWhile (· ≠ sep) = l := by
      rw [← List.singleton_append, ← List.append_assoc, hconcat, hl]
    refine ⟨(l.rdropWhile (· ≠ sep)).dropLast.splitOn sep, fun b => ?_⟩
    rw [← List.splitOn_append_cons_self, ← List.cons_append, ← List.append_assoc, heq]

/-- **A text cut short** has only tokens of the whole text exactly if what
is left of the token cut through is empty or a token itself. -/
theorem forall_mem_splitOn_take_iff (l : List α) (k : Nat) :
    (∀ t ∈ (l.take k).splitOn sep, t ≠ [] → t ∈ l.splitOn sep) ↔
      (l.take k).rtakeWhile (· ≠ sep) = [] ∨
        (l.take k).rtakeWhile (· ≠ sep) ∈ l.splitOn sep := by
  obtain ⟨front, hfront⟩ := splitOn_append_rtakeWhile sep (l.take k)
  have hsep : sep ∉ (l.take k).rtakeWhile (· ≠ sep) := by
    intro h
    simpa using List.mem_rtakeWhile_imp h
  have hcut := hfront []
  have hall := hfront (l.drop k)
  rw [List.append_nil, List.append_nil, List.splitOn_eq_singleton hsep] at hcut
  rw [List.take_append_drop] at hall
  constructor
  · intro h
    by_cases hnil : (l.take k).rtakeWhile (· ≠ sep) = []
    · exact Or.inl hnil
    · refine Or.inr (h _ ?_ hnil)
      rw [hcut]
      exact List.mem_append_right _ (List.mem_singleton_self _)
  · intro h t ht hne
    rw [hcut] at ht
    rcases List.mem_append.mp ht with ht | ht
    · rw [hall]
      exact List.mem_append_left _ ht
    · obtain rfl := List.mem_singleton.mp ht
      exact h.resolve_left hne

end Ceell.Lib
