/-
Ceell.Lib.SwapRemove — in-place removal from a packed array by moving the
last entry into the hole.

`sweep stale left i xs` is the loop

    while (i < count) {
        if (stale(xs[i])) { xs[i] = xs[count - 1]; count--; } else i++;
    }

over the array `xs`, with `count = i + left`. Each pass lowers `left` by
one, whichever branch it takes, so the recursion is structural and the
loop's end is `left = 0`. `sweep_perm` is its specification: the entries
in front of the final count are exactly the entries that were not stale,
up to order.
-/
import Mathlib.Data.List.Perm.Basic

namespace Ceell.Lib

variable {α : Type*}

/-- The array and the count the sweep ends with. -/
def sweep (stale : α → Bool) : Nat → Nat → List α → List α × Nat
  | 0, i, xs => (xs, i)
  | left + 1, i, xs =>
      match xs[i]?, xs[i + left]? with
      | some x, some last =>
          if stale x then
            -- the last entry itself needs no move
            sweep stale left i (if 0 < left then xs.set i last else xs)
          else sweep stale left (i + 1) xs
      | _, _ => (xs, i) -- outside the array

/-- The sweep never changes the size of the array. -/
theorem length_sweep (stale : α → Bool) (left i : Nat) (xs : List α) :
    (sweep stale left i xs).1.length = xs.length := by
  induction left generalizing i xs with
  | zero => rfl
  | succ left ih =>
    rw [sweep]
    split
    · split
      · rw [ih]
        split <;> simp
      · exact ih _ _
    · rfl

/-- The window `[i, i + left + 1)` starts with the entry at `i`. -/
theorem take_drop_succ {xs : List α} {i : Nat} {x : α} (left : Nat)
    (hx : xs[i]? = some x) :
    (xs.drop i).take (left + 1) = x :: (xs.drop (i + 1)).take left := by
  obtain ⟨hi, rfl⟩ := List.getElem?_eq_some_iff.mp hx
  rw [List.drop_eq_getElem_cons hi, List.take_succ_cons]

/-- The window `[i, i + left + 1)` ends with the entry at `i + left`. -/
theorem take_drop_concat {xs : List α} {i left : Nat} {last : α}
    (hl : xs[i + left]? = some last) :
    (xs.drop i).take (left + 1) = (xs.drop i).take left ++ [last] := by
  rw [List.take_add_one, List.getElem?_drop, hl, Option.toList_some]

/-- Moving the last entry of the window into its first place leaves, up
to order, the window without its first entry. -/
theorem set_window_perm {xs : List α} {i left : Nat} {last : α} (hleft : 0 < left)
    (hl : xs[i + left]? = some last) :
    (((xs.set i last).drop i).take left).Perm ((xs.drop (i + 1)).take left) := by
  obtain ⟨m, rfl⟩ : ∃ m, left = m + 1 := ⟨left - 1, by omega⟩
  have hi : i < xs.length := by
    have := (List.getElem?_eq_some_iff.mp hl).1
    omega
  have hset : (xs.set i last)[i]? = some last := by simp [hi]
  have hl' : xs[(i + 1) + m]? = some last := by rw [← hl]; congr 1; omega
  rw [take_drop_succ m hset, List.drop_set_of_lt (by omega), take_drop_concat hl']
  exact (List.perm_append_singleton _ _).symm

/-- **What the sweep keeps.** -/
theorem sweep_perm (stale : α → Bool) :
    ∀ (left i : Nat) (xs : List α), i + left ≤ xs.length →
      (sweep stale left i xs).1.length = xs.length ∧
      (sweep stale left i xs).2 ≤ i + left ∧
      ((sweep stale left i xs).1.take (sweep stale left i xs).2).Perm
        (xs.take i ++ ((xs.drop i).take left).filter fun x => !stale x)
  | 0, i, xs, _ => by simp [sweep]
  | left + 1, i, xs, hlen => by
      have hi : i < xs.length := by omega
      have hlast : i + left < xs.length := by omega
      have hx : xs[i]? = some xs[i] := List.getElem?_eq_getElem hi
      have hl : xs[i + left]? = some xs[i + left] := List.getElem?_eq_getElem hlast
      rw [take_drop_succ left hx]
      by_cases hs : stale xs[i] = true
      · -- removed: the window shrinks at its end
        have hstep : sweep stale (left + 1) i xs
            = sweep stale left i (if 0 < left then xs.set i xs[i + left] else xs) := by
          rw [sweep, hx, hl]
          simp [hs]
        have hfilter : (xs[i] :: (xs.drop (i + 1)).take left).filter (fun x => !stale x)
            = ((xs.drop (i + 1)).take left).filter fun x => !stale x := by
          simp [hs]
        rw [hstep, hfilter]
        by_cases hleft : 0 < left
        · rw [if_pos hleft]
          obtain ⟨h1, h2, h3⟩ := sweep_perm stale left i (xs.set i xs[i + left])
            (by rw [List.length_set]; omega)
          refine ⟨by rw [h1, List.length_set], by omega, h3.trans ?_⟩
          rw [List.take_set_of_le (Nat.le_refl i)]
          exact List.Perm.append_left _ ((set_window_perm hleft hl).filter _)
        · obtain rfl : left = 0 := by omega
          rw [if_neg hleft]
          simp [sweep]
      · -- kept: the window shrinks at its start
        have hstep : sweep stale (left + 1) i xs = sweep stale left (i + 1) xs := by
          rw [sweep, hx, hl]
          simp [hs]
        obtain ⟨h1, h2, h3⟩ := sweep_perm stale left (i + 1) xs (by omega)
        rw [hstep]
        refine ⟨h1, by omega, h3.trans ?_⟩
        rw [List.filter_cons_of_pos (by simp [hs]), List.take_add_one, hx, Option.toList_some,
          List.append_assoc, List.singleton_append]

/-- The whole array swept: what stays in front of the final count is the
packed part without its stale entries. -/
theorem sweep_packed (stale : α → Bool) (count : Nat) (xs : List α) (h : count ≤ xs.length) :
    (sweep stale count 0 xs).1.length = xs.length ∧
    (sweep stale count 0 xs).2 ≤ count ∧
    ((sweep stale count 0 xs).1.take (sweep stale count 0 xs).2).Perm
      ((xs.take count).filter fun x => !stale x) := by
  simpa using sweep_perm stale count 0 xs (by omega)

end Ceell.Lib
