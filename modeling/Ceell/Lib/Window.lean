/-
Ceell.Lib.Window — a filter that remembers the last `size` entries it let
through, and numbers that arrive out of order and more than once.

`InWindow w xs` bounds the disorder: no number arrives after one that is
larger by `w` or more. Then the filter lets no number through twice if
`2 * (w - 1) < size` (`InWindow.nodup_passed`), and not otherwise
(`not_nodup_passed_others`). Both sides of the window count, since between
the two arrivals of a number up to `w - 1` later ones and up to `w - 1`
earlier ones can go through.

Nothing in this module names the program it is used for.
-/
import Mathlib.Data.Finset.Card
import Mathlib.Order.Interval.Finset.Nat

namespace Ceell.Lib

section Filter

variable {α : Type*} [DecidableEq α] {size : Nat} {xs : List α} {x : α}

/-- One arrival at a filter that has let `acc` through, the newest first. -/
def arrive (size : Nat) (acc : List α) (x : α) : List α :=
  if x ∈ acc.take size then acc else x :: acc

/-- What a filter lets through, the newest first. -/
def passed (size : Nat) (xs : List α) : List α := xs.foldl (arrive size) []

theorem passed_concat (size : Nat) (xs : List α) (x : α) :
    passed size (xs ++ [x]) = arrive size (passed size xs) x := by
  rw [passed, List.foldl_append]
  rfl

/-- The filter loses nothing. -/
theorem mem_passed {y : α} : y ∈ passed size xs ↔ y ∈ xs := by
  induction xs using List.reverseRecOn with
  | nil => exact Iff.rfl
  | append_singleton xs x ih =>
    rw [passed_concat, arrive, List.mem_append, List.mem_singleton, ← ih]
    split
    · rename_i hmem
      refine ⟨Or.inl, fun h => h.elim id ?_⟩
      rintro rfl
      exact List.mem_of_mem_take hmem
    · rw [List.mem_cons, or_comm]

theorem passed_of_nodup (h : xs.Nodup) : passed size xs = xs.reverse := by
  induction xs using List.reverseRecOn with
  | nil => rfl
  | append_singleton xs x ih =>
    obtain ⟨hxs, _, hnew⟩ := List.nodup_append.mp h
    have hx : x ∉ xs := fun hmem => hnew x hmem x (List.mem_singleton_self x) rfl
    rw [passed_concat, ih hxs, arrive, if_neg, List.reverse_append, List.reverse_singleton]
    · rfl
    · exact fun hmem => hx (List.mem_reverse.mp (List.mem_of_mem_take hmem))

end Filter

section Window

variable {size w m : Nat} {xs : List Nat}

/-- No number arrives after one that is larger by `w` or more. -/
def InWindow (w : Nat) (xs : List Nat) : Prop :=
  xs.Pairwise fun earlier later => earlier < later + w

theorem InWindow.mono {v : Nat} (h : InWindow w xs) (hle : w ≤ v) : InWindow v xs :=
  h.imp fun hlt => Nat.lt_of_lt_of_le hlt (Nat.add_le_add_left hle _)

theorem InWindow.concat {x : Nat} (h : InWindow w (xs ++ [x])) :
    InWindow w xs ∧ ∀ y ∈ xs, y < x + w := by
  obtain ⟨hxs, _, hlast⟩ := List.pairwise_append.mp h
  exact ⟨hxs, fun y hy => hlast y hy x (List.mem_singleton_self x)⟩

/-- There are `2 * (w - 1)` other numbers in the window of a number. -/
theorem length_le_of_near (hnodup : xs.Nodup)
    (hnear : ∀ y ∈ xs, y < m + w ∧ m < y + w ∧ y ≠ m) : xs.length ≤ 2 * (w - 1) := by
  have hsub : xs.toFinset ⊆ (Finset.Ico (m + 1 - w) (m + w)).erase m := by
    intro y hy
    obtain ⟨hlt, hgt, hne⟩ := hnear y (List.mem_toFinset.mp hy)
    exact Finset.mem_erase.mpr ⟨hne, Finset.mem_Ico.mpr ⟨by omega, hlt⟩⟩
  have hcard := Finset.card_le_card hsub
  rw [List.toFinset_card_of_nodup hnodup] at hcard
  by_cases hw : w = 0
  · have hempty : Finset.Ico (m + 1 - w) (m + w) = ∅ := Finset.Ico_eq_empty (by omega)
    rw [hempty] at hcard
    simp at hcard
    simp [hcard]
  · have hm : m ∈ Finset.Ico (m + 1 - w) (m + w) := Finset.mem_Ico.mpr ⟨by omega, by omega⟩
    rw [Finset.card_erase_of_mem hm, Nat.card_Ico] at hcard
    omega

/-- What was let through was not far out of order either. -/
theorem InWindow.pairwise_passed (h : InWindow w xs) (size : Nat) :
    (passed size xs).Pairwise fun newer older => older < newer + w := by
  induction xs using List.reverseRecOn with
  | nil => exact List.Pairwise.nil
  | append_singleton xs x ih =>
    obtain ⟨hxs, hlast⟩ := h.concat
    rw [passed_concat, arrive]
    split
    · exact ih hxs
    · exact List.pairwise_cons.mpr ⟨fun y hy => hlast y (mem_passed.mp hy), ih hxs⟩

/-- **No number passes twice** through a filter that remembers the window of
each number. -/
theorem InWindow.nodup_passed (h : InWindow w xs) (hsize : 2 * (w - 1) < size) :
    (passed size xs).Nodup := by
  induction xs using List.reverseRecOn with
  | nil => exact List.nodup_nil
  | append_singleton xs x ih =>
    obtain ⟨hxs, hlast⟩ := h.concat
    have hnodup := ih hxs
    rw [passed_concat, arrive]
    split
    · exact hnodup
    · rename_i hnew
      refine List.nodup_cons.mpr ⟨fun hmem => hnew ?_, hnodup⟩
      -- what has passed since lies in the window, and is remembered
      obtain ⟨newer, older, hsplit⟩ := List.append_of_mem hmem
      have hpair := hxs.pairwise_passed size
      rw [hsplit] at hnodup hpair
      obtain ⟨hnewer, _, hdisj⟩ := List.nodup_append.mp hnodup
      obtain ⟨_, _, hcross⟩ := List.pairwise_append.mp hpair
      have hlen : newer.length ≤ 2 * (w - 1) := length_le_of_near (m := x) hnewer fun y hy =>
        ⟨hlast y (mem_passed.mp (hsplit ▸ List.mem_append_left _ hy)),
          hcross y hy x List.mem_cons_self, hdisj y hy x List.mem_cons_self⟩
      rw [hsplit]
      have htake : newer ++ [x] <+: (newer ++ x :: older).take size := by
        rw [List.prefix_take_iff]
        exact ⟨⟨older, by simp⟩, by simp; omega⟩
      exact htake.subset (by simp)

/-- The others of the window of `w - 1`, the earlier ones first. -/
def others (w : Nat) : List Nat := List.range (w - 1) ++ List.range' w (w - 1)

theorem inWindow_others (hw : 0 < w) : InWindow w ((w - 1) :: others w ++ [w - 1]) := by
  have hranges : InWindow w (others w) := by
    refine List.pairwise_append.mpr ⟨?_, ?_, ?_⟩
    · exact List.pairwise_lt_range.imp fun h => Nat.lt_add_right w h
    · exact (List.pairwise_lt_range' 1 Nat.one_pos).imp fun h => Nat.lt_add_right w h
    · intro y hy z hz
      have hy := List.mem_range.mp hy
      have hz := (List.mem_range'_1.mp hz).1
      omega
  refine List.pairwise_append.mpr ⟨List.pairwise_cons.mpr ⟨?_, hranges⟩, ?_, ?_⟩
  · intro y _
    omega
  · exact List.pairwise_singleton _ _
  · intro y hy z hz
    obtain rfl := List.mem_singleton.mp hz
    rcases List.mem_cons.mp hy with rfl | hy
    · omega
    · rcases List.mem_append.mp hy with hy | hy
      · have hy := List.mem_range.mp hy
        omega
      · have hy := (List.mem_range'_1.mp hy).2
        omega

theorem nodup_others (hw : 0 < w) : ((w - 1) :: others w).Nodup := by
  refine List.nodup_cons.mpr ⟨?_, List.nodup_append.mpr
    ⟨List.nodup_range, List.nodup_range', ?_⟩⟩
  · intro hmem
    rcases List.mem_append.mp hmem with hmem | hmem
    · exact absurd (List.mem_range.mp hmem) (Nat.lt_irrefl _)
    · have hle := (List.mem_range'_1.mp hmem).1
      omega
  · intro y hy z hz
    have hy := List.mem_range.mp hy
    have hz := (List.mem_range'_1.mp hz).1
    omega

/-- The others of its window drive a number out of a small memory. -/
theorem not_nodup_passed_others (hw : 0 < w) (hsize : size ≤ 2 * (w - 1)) :
    ¬ (passed size ((w - 1) :: others w ++ [w - 1])).Nodup := by
  have hnodup := nodup_others hw
  have hlen : (others w).reverse.length = 2 * (w - 1) := by
    simp [others]
    omega
  have hnew : w - 1 ∉ (((w - 1) :: others w).reverse).take size := by
    rw [List.reverse_cons, List.take_append_of_le_length (by omega)]
    intro hmem
    exact (List.nodup_cons.mp hnodup).1 (List.mem_reverse.mp (List.mem_of_mem_take hmem))
  rw [passed_concat, passed_of_nodup hnodup, arrive, if_neg hnew]
  intro htwice
  exact (List.nodup_cons.mp htwice).1 (by simp)

end Window

end Ceell.Lib
