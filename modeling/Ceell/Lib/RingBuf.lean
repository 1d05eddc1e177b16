/-
Ceell.Lib.RingBuf — a ring buffer that overwrites its oldest entry.

`push` is the store

    slots[head] = x; head = (head + 1) % n; if (count < n) count++;

`Holds r hist` says that `hist`, newest entry first, is what was pushed. A
ring can be read back in two ways: from the newest entry backwards
(`getElem?_back`), or by slot number (`slots_perm`). Either way it shows
the last `n` entries of the history and no others.

Nothing in this module names the program it is used for.
-/
import Mathlib.Data.List.Rotate

namespace Ceell.Lib

variable {α : Type*}

/-- The slots, the slot written next, and how many slots are in use. -/
@[ext]
structure RingBuf (α : Type*) where
  slots : List α
  head : Nat
  count : Nat

namespace RingBuf

/-- The number of slots. -/
def size (r : RingBuf α) : Nat := r.slots.length

/-- All slots unused; they hold `x`. -/
def blank (n : Nat) (x : α) : RingBuf α := ⟨List.replicate n x, 0, 0⟩

def push (r : RingBuf α) (x : α) : RingBuf α where
  slots := r.slots.set r.head x
  head := (r.head + 1) % r.size
  count := if r.count < r.size then r.count + 1 else r.count

/-- The slot of the `i`-th newest entry, from 0. -/
def back (r : RingBuf α) (i : Nat) : Nat := (r.head + r.size - 1 - i) % r.size

/-- The ring is what is left of `hist`, newest first. -/
structure Holds (r : RingBuf α) (hist : List α) : Prop where
  head : r.head = hist.length % r.size
  count : r.count = min hist.length r.size
  slot : ∀ i x, hist[i]? = some x → i < r.size → r.slots[(hist.length - 1 - i) % r.size]? = some x

variable {r : RingBuf α} {hist : List α} {n : Nat} {x : α}

@[simp] theorem size_blank (n : Nat) (x : α) : (blank n x).size = n := by
  simp [size, blank]

@[simp] theorem size_push (r : RingBuf α) (x : α) : (r.push x).size = r.size := by
  simp [size, push]

theorem holds_blank (n : Nat) (x : α) : (blank n x).Holds [] where
  head := by simp [blank]
  count := by simp [blank]
  slot := by simp

theorem Holds.head_lt (h : r.Holds hist) (hpos : 0 < r.size) : r.head < r.size := by
  rw [h.head]
  exact Nat.mod_lt _ hpos

theorem Holds.count_le (h : r.Holds hist) : r.count ≤ r.size := by
  rw [h.count]
  exact Nat.min_le_right _ _

/-- Two places of the history less than `n` apart have different slots. -/
theorem mod_ne_of_lt {a b : Nat} (hlt : a < b) (hnear : b < a + n) : a % n ≠ b % n := by
  intro heq
  have hzero := Nat.sub_mod_eq_zero_of_mod_eq heq.symm
  rw [Nat.mod_eq_of_lt (by omega)] at hzero
  omega

/-- **A push** adds to the history. -/
theorem Holds.push (h : r.Holds hist) (hpos : 0 < r.size) (x : α) :
    (r.push x).Holds (x :: hist) where
  head := by
    rw [size_push, RingBuf.push, h.head, List.length_cons, Nat.mod_add_mod]
  count := by
    rw [size_push, RingBuf.push, h.count, List.length_cons]
    dsimp only
    split <;> omega
  slot := by
    rw [size_push, RingBuf.push, h.head]
    intro i y hy hi
    dsimp only
    cases i with
    | zero =>
      obtain rfl : x = y := by simpa using hy
      have hlt := Nat.mod_lt hist.length hpos
      simp [show hist.length % r.size < r.slots.length from hlt]
    | succ i =>
      have hy : hist[i]? = some y := by simpa using hy
      have hlen := (List.getElem?_eq_some_iff.mp hy).1
      have hidx : (x :: hist).length - 1 - (i + 1) = hist.length - 1 - i := by
        simp only [List.length_cons]
        omega
      have hne : (hist.length - 1 - i) % r.size ≠ hist.length % r.size :=
        mod_ne_of_lt (by omega) (by omega)
      rw [hidx, List.getElem?_set_ne hne.symm]
      exact h.slot i y hy (by omega)

/-! ## Reading backwards -/

/-- Going back from the head by less than what was pushed. -/
theorem Holds.back_eq (h : r.Holds hist) {i : Nat} (hlen : i < hist.length) (hi : i < r.size) :
    r.back i = (hist.length - 1 - i) % r.size := by
  rw [back, h.head]
  have hdecomp := Nat.div_add_mod hist.length r.size
  have hlt := Nat.mod_lt hist.length (by omega : 0 < r.size)
  generalize hist.length / r.size = q at hdecomp
  generalize hist.length % r.size = m at hdecomp hlt ⊢
  by_cases hm : i < m
  · have h1 : m + r.size - 1 - i = m - 1 - i + r.size := by omega
    have h2 : hist.length - 1 - i = m - 1 - i + r.size * q := by omega
    rw [h1, h2, Nat.add_mod_right, Nat.add_mul_mod_self_left]
  · -- one round more lies between the head and the entry
    obtain ⟨q, rfl⟩ : ∃ q', q = q' + 1 := by
      refine Nat.exists_eq_add_one.mpr (Nat.pos_of_ne_zero ?_)
      rintro rfl
      omega
    have h1 : hist.length - 1 - i = m + r.size - 1 - i + r.size * q := by
      rw [Nat.mul_add] at hdecomp
      omega
    rw [h1, Nat.add_mul_mod_self_left]

/-- **The `i`-th newest entry** is found `i` slots back. -/
theorem Holds.getElem?_back (h : r.Holds hist) {i : Nat} (hi : i < r.count) :
    r.slots[r.back i]? = hist[i]? := by
  rw [h.count] at hi
  have hlen : i < hist.length := by omega
  rw [h.back_eq hlen (by omega), List.getElem?_eq_getElem hlen]
  exact h.slot i _ (List.getElem?_eq_getElem hlen) (by omega)

/-! ## Reading by slot -/

/-- Until the ring is full, the slots are the history from its start. -/
theorem Holds.take_slots (h : r.Holds hist) (hfits : hist.length ≤ r.size) :
    r.slots.take hist.length = hist.reverse := by
  refine List.ext_getElem? fun j => ?_
  by_cases hj : j < hist.length
  · have hidx : hist.length - 1 - (hist.length - 1 - j) = j := by omega
    have hslot := h.slot (hist.length - 1 - j) hist[hist.length - 1 - j]
      (List.getElem?_eq_getElem _) (by omega)
    rw [hidx, Nat.mod_eq_of_lt (by omega)] at hslot
    rw [List.getElem?_take_of_lt hj, hslot, List.getElem?_reverse hj]
    exact (List.getElem?_eq_getElem _).symm
  · rw [List.getElem?_eq_none (by simp; omega), List.getElem?_eq_none (by simp; omega)]

/-- From then on they are its last entries, rotated. -/
theorem Holds.rotate_slots (h : r.Holds hist) (hfull : r.size ≤ hist.length) :
    r.slots.rotate r.head = (hist.take r.size).reverse := by
  have hlen : (hist.take r.size).length = r.size := by simp [hfull]
  refine List.ext_getElem? fun j => ?_
  by_cases hj : j < r.size
  · have hback : r.size - 1 - j < hist.length := by omega
    have hslot := h.slot (r.size - 1 - j) hist[r.size - 1 - j] (List.getElem?_eq_getElem _)
      (by omega)
    have hidx : (j + hist.length % r.size) % r.size =
        (hist.length - 1 - (r.size - 1 - j)) % r.size := by
      rw [Nat.add_mod_mod]
      have : j + hist.length = hist.length - 1 - (r.size - 1 - j) + r.size := by omega
      rw [this, Nat.add_mod_right]
    have hj' : j < r.slots.length := hj
    rw [List.getElem?_rotate hj', h.head]
    change r.slots[(j + hist.length % r.size) % r.size]? = _
    rw [hidx, hslot, List.getElem?_reverse (by omega), hlen, List.getElem?_take_of_lt (by omega)]
    exact (List.getElem?_eq_getElem _).symm
  · have hj' : r.slots.length ≤ j := Nat.le_of_not_lt hj
    rw [List.getElem?_eq_none (by simpa using hj'), List.getElem?_eq_none (by simp; omega)]

/-- **The slots in use** are the last entries of the history, in some order. -/
theorem Holds.slots_perm (h : r.Holds hist) :
    (r.slots.take r.count).Perm (hist.take r.size) := by
  rw [h.count]
  rcases Nat.le_total hist.length r.size with hfits | hfull
  · rw [Nat.min_eq_left hfits, h.take_slots hfits, List.take_of_length_le hfits]
    exact List.reverse_perm _
  · rw [Nat.min_eq_right hfull, size, List.take_length]
    have hrotate := List.rotate_perm r.slots r.head
    rw [h.rotate_slots hfull] at hrotate
    exact hrotate.symm.trans (List.reverse_perm _)

end RingBuf

end Ceell.Lib
