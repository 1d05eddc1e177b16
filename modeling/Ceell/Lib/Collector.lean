/-
Ceell.Lib.Collector — a body taken in piece by piece, up to a bound.

`Collected α cap` is what has been taken in, or that it was once more than
`cap`: that is for good, so a piece that would fit is not taken any more.
`foldl_feed` says that the cut into pieces leaves no trace.
-/
import Mathlib.Data.List.Basic

namespace Ceell.Lib

/-- At most `cap` items, or none because there were more. -/
abbrev Collected (α : Type*) (cap : Nat) := Option { xs : List α // xs.length ≤ cap }

namespace Collected

variable {α : Type*} {cap : Nat}

/-- The items at once. -/
def ofList (xs : List α) : Collected α cap :=
  if h : xs.length ≤ cap then some ⟨xs, h⟩ else none

/-- One more piece. -/
def feed (c : Collected α cap) (piece : List α) : Collected α cap :=
  c.bind fun xs => ofList (xs.val ++ piece)

@[simp] theorem feed_none (piece : List α) : feed (none : Collected α cap) piece = none := rfl

theorem ofList_eq_some {xs : List α} (h : xs.length ≤ cap) :
    ofList xs = (some ⟨xs, h⟩ : Collected α cap) := dif_pos h

theorem ofList_eq_none {xs : List α} (h : cap < xs.length) :
    ofList xs = (none : Collected α cap) := dif_neg (Nat.not_le.mpr h)

theorem feed_ofList (xs piece : List α) :
    feed (ofList xs : Collected α cap) piece = ofList (xs ++ piece) := by
  by_cases h : xs.length ≤ cap
  · rw [ofList_eq_some h]
    rfl
  · rw [Nat.not_le] at h
    have hmore : cap < (xs ++ piece).length := by
      rw [List.length_append]
      omega
    rw [ofList_eq_none h, ofList_eq_none hmore, feed_none]

/-- Pieces after pieces are the whole at once. -/
theorem foldl_feed (pieces : List (List α)) (xs : List α) :
    pieces.foldl feed (ofList xs : Collected α cap) = ofList (xs ++ pieces.flatten) := by
  induction pieces generalizing xs with
  | nil => simp
  | cons piece pieces ih =>
    rw [List.foldl_cons, feed_ofList, ih, List.flatten_cons, List.append_assoc]

end Collected

end Ceell.Lib
