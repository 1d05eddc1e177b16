/-
Ceell.Lib.SlotArray — a fixed array of slots, each free or holding one
key, with first-match lookup and first-free allocation.

`key x` is the key slot `x` holds, `none` for a free slot. `allocIdx`
finds the slot of a key or else the first free one. `allocIdx_split` says
where that is, and `lookup_write_self`, `lookup_write_other` and
`keys_write` what a write there does to the map the array stands for.
-/
import Mathlib.Data.List.Nodup
import Mathlib.Data.List.Perm.Basic

namespace Ceell.Lib.SlotArray

variable {α κ : Type*} (key : α → Option κ)

/-- The keys in use, in slot order. -/
def keys (xs : List α) : List κ := xs.filterMap key

variable {key}

theorem keys_split (front back : List α) (x : α) :
    keys key (front ++ x :: back) = keys key front ++ ((key x).toList ++ keys key back) := by
  cases h : key x <;> simp [keys, h]

theorem mem_keys {xs : List α} {k : κ} : k ∈ keys key xs ↔ ∃ x ∈ xs, key x = some k := by
  simp [keys]

theorem length_keys_le (xs : List α) : (keys key xs).length ≤ xs.length :=
  List.length_filterMap_le _ _

theorem keys_map {β : Type*} (f : β → α) (xs : List β) :
    keys key (xs.map f) = keys (key ∘ f) xs := by
  rw [keys, List.filterMap_map]
  rfl

/-! ## Parallel arrays -/

/-- An array that holds `f k` for every `k` of a list: a change at the place
of one `k`, when the others stay, changes `f` to `g`. Several arrays that run
parallel to one list are changed at one place each with the same lemma. -/
theorem modify_map_of_nodup {ι : Type*} {tag : κ → ι} {f g : κ → α} {h : α → α} {ks : List κ}
    {i : Nat} {k : κ} (hnd : (ks.map tag).Nodup) (hi : ks[i]? = some k) (hat : h (f k) = g k)
    (hoff : ∀ l ∈ ks, tag l ≠ tag k → f l = g l) : (ks.map f).modify i h = ks.map g := by
  refine List.ext_getElem? fun j => ?_
  rw [List.getElem?_modify, List.getElem?_map, List.getElem?_map]
  by_cases hj : i = j
  · subst hj
    simp [hi, hat]
  · cases hl : ks[j]? with
    | none => simp
    | some l =>
      have htag : tag l ≠ tag k := by
        intro heq
        have hsame : (ks.map tag)[i]? = (ks.map tag)[j]? := by simp [hi, hl, heq]
        have hlt : i < (ks.map tag).length := by
          simpa using (List.getElem?_eq_some_iff.mp hi).1
        exact hj ((List.getElem?_inj hlt hnd).mp hsame)
      simp [hj, hoff l (List.mem_of_getElem? hl) htag]

/-- The entry behind the first `n`. -/
theorem take_set_succ {xs : List α} {n : Nat} (hn : n < xs.length) (x : α) :
    (xs.set n x).take (n + 1) = xs.take n ++ [x] := by
  rw [List.take_add_one, List.getElem?_set_self hn, List.take_set_of_le (Nat.le_refl n),
    Option.toList_some]

/-! ## Lookup and allocation -/

variable [DecidableEq κ] (key)

/-- The first slot that holds `k`. -/
def lookup (xs : List α) (k : κ) : Option α := xs.find? fun x => key x == some k

/-- The index of the slot that holds `k`, or else of the first free slot. -/
def allocIdx (xs : List α) (k : κ) : Option Nat :=
  match xs.findIdx? fun x => key x == some k with
  | some i => some i
  | none => xs.findIdx? fun x => (key x).isNone

variable {key}

theorem lookup_eq_none {xs : List α} {k : κ} : lookup key xs k = none ↔ k ∉ keys key xs := by
  simp [lookup, mem_keys]

theorem lookup_some {xs : List α} {k : κ} {x : α} (h : lookup key xs k = some x) :
    x ∈ xs ∧ key x = some k := by
  refine ⟨List.mem_of_find?_eq_some h, ?_⟩
  simpa using List.find?_some h

theorem lookup_isSome {xs : List α} {k : κ} :
    (lookup key xs k).isSome = true ↔ k ∈ keys key xs := by
  rw [Option.isSome_iff_ne_none, ne_eq, lookup_eq_none, not_not]

/-- In an array without repeated keys, a slot is what its key looks up. -/
theorem lookup_of_mem {xs : List α} {k : κ} {x : α} (hnd : (keys key xs).Nodup) (hx : x ∈ xs)
    (hk : key x = some k) : lookup key xs k = some x := by
  obtain ⟨front, back, rfl⟩ := List.append_of_mem hx
  rw [keys_split, hk, Option.toList_some, List.singleton_append, List.nodup_middle,
    List.nodup_cons] at hnd
  have hfront : lookup key front k = none :=
    lookup_eq_none.mpr fun h => hnd.1 (List.mem_append_left _ h)
  rw [lookup] at hfront
  rw [lookup, List.find?_append, hfront, Option.none_or]
  simp [hk]

/-- **Where a key is allocated**: at the slot that holds it, or at a free
slot if none does. -/
theorem allocIdx_split {xs : List α} {k : κ} {i : Nat} (h : allocIdx key xs k = some i) :
    ∃ front x back, xs = front ++ x :: back ∧ front.length = i ∧
      ((key x = some k ∧ k ∉ keys key front) ∨ (key x = none ∧ k ∉ keys key xs)) := by
  unfold allocIdx at h
  split at h
  · rename_i j hj
    obtain rfl := Option.some.inj h
    obtain ⟨hlt, hkey, hfirst⟩ := List.findIdx?_eq_some_iff_getElem.mp hj
    refine ⟨xs.take j, xs[j], xs.drop (j + 1), ?_, by simp; omega, Or.inl ⟨by simpa using hkey, ?_⟩⟩
    · rw [← List.drop_eq_getElem_cons hlt, List.take_append_drop]
    · rw [mem_keys]
      rintro ⟨x, hx, hxk⟩
      obtain ⟨m, hm, rfl⟩ := List.getElem_of_mem hx
      have hmj : m < j := by simp at hm; omega
      exact hfirst m hmj (by simpa using hxk)
  · rename_i hnone
    obtain ⟨hlt, hkey, _⟩ := List.findIdx?_eq_some_iff_getElem.mp h
    refine ⟨xs.take i, xs[i], xs.drop (i + 1), ?_, by simp; omega,
      Or.inr ⟨by simpa using hkey, ?_⟩⟩
    · rw [← List.drop_eq_getElem_cons hlt, List.take_append_drop]
    · rw [mem_keys]
      rintro ⟨x, hx, hxk⟩
      have := List.findIdx?_eq_none_iff.mp hnone x hx
      simp [hxk] at this

/-- Allocation fails only for a new key in an array without a free slot. -/
theorem allocIdx_none {xs : List α} {k : κ} (h : allocIdx key xs k = none) :
    k ∉ keys key xs ∧ (keys key xs).length = xs.length := by
  unfold allocIdx at h
  split at h
  · cases h
  · rename_i hnone
    constructor
    · rw [mem_keys]
      rintro ⟨x, hx, hxk⟩
      have := List.findIdx?_eq_none_iff.mp hnone x hx
      simp [hxk] at this
    · rw [keys, List.length_filterMap_eq_countP, List.countP_eq_length]
      intro x hx
      have := List.findIdx?_eq_none_iff.mp h x hx
      simpa using this

theorem lookup_map {β : Type*} (f : β → α) (xs : List β) (k : κ) :
    lookup key (xs.map f) k = (lookup (key ∘ f) xs k).map f := by
  simp only [lookup, List.find?_map]
  rfl

theorem allocIdx_map {β : Type*} (f : β → α) (xs : List β) (k : κ) :
    allocIdx key (xs.map f) k = allocIdx (key ∘ f) xs k := by
  simp only [allocIdx, List.findIdx?_map]
  rfl

/-- **What a loop over the slots emits** under one key is what it emits for
the slot of that key. -/
theorem filter_filterMap_eq {β : Type*} {f : α → Option β} {tag : β → κ}
    (htag : ∀ x b, f x = some b → key x = some (tag b)) {xs : List α} (hnd : (keys key xs).Nodup)
    (k : κ) : (xs.filterMap f).filter (fun b => tag b = k) = ((lookup key xs k).bind f).toList := by
  induction xs with
  | nil => rfl
  | cons x xs ih =>
    have hsplit : keys key (x :: xs) = (key x).toList ++ keys key xs := keys_split [] xs x
    rw [hsplit, List.nodup_append] at hnd
    obtain ⟨_, hnd', hdisjoint⟩ := hnd
    by_cases hx : key x = some k
    · -- no later slot has the key
      have hrest : lookup key xs k = none := by
        refine lookup_eq_none.mpr fun hk => hdisjoint k ?_ k hk rfl
        rw [hx]
        exact List.mem_singleton_self k
      have hself : lookup key (x :: xs) k = some x := by simp [lookup, hx]
      rw [hself, Option.bind_some]
      have htail := ih hnd'
      rw [hrest] at htail
      cases hf : f x with
      | none => rw [List.filterMap_cons_none hf, htail]; rfl
      | some b =>
        have hb : tag b = k := Option.some.inj ((htag x b hf).symm.trans hx)
        rw [List.filterMap_cons_some hf, List.filter_cons_of_pos (by simpa using hb), htail]
        rfl
    · have hskip : lookup key (x :: xs) k = lookup key xs k := by simp [lookup, hx]
      rw [hskip, ← ih hnd']
      cases hf : f x with
      | none => rw [List.filterMap_cons_none hf]
      | some b =>
        have hb : tag b ≠ k := fun h => hx (h ▸ htag x b hf)
        rw [List.filterMap_cons_some hf, List.filter_cons_of_neg (by simpa using hb)]

section Write

variable {xs : List α} {k : κ} {i : Nat} {y : α}

theorem write_split (h : allocIdx key xs k = some i) (y : α) :
    ∃ front x back, xs = front ++ x :: back ∧ xs.set i y = front ++ y :: back ∧
      k ∉ keys key front ∧
      (key x = some k ∨ (key x = none ∧ k ∉ keys key xs)) := by
  obtain ⟨front, x, back, rfl, rfl, hx⟩ := allocIdx_split h
  refine ⟨front, x, back, rfl, by simp, ?_, hx.imp_left And.left⟩
  rcases hx with ⟨_, hf⟩ | ⟨_, hn⟩
  · exact hf
  · rw [keys_split] at hn
    exact fun hk => hn (List.mem_append_left _ hk)

theorem lookup_write_self (h : allocIdx key xs k = some i) (hy : key y = some k) :
    lookup key (xs.set i y) k = some y := by
  obtain ⟨front, x, back, _, hset, hf, _⟩ := write_split h y
  have hfront : front.find? (fun x => key x == some k) = none := lookup_eq_none.mpr hf
  rw [hset, lookup, List.find?_append, hfront, Option.none_or]
  simp [hy]

theorem lookup_write_other (h : allocIdx key xs k = some i) (hy : key y = some k) {k' : κ}
    (hne : k' ≠ k) : lookup key (xs.set i y) k' = lookup key xs k' := by
  obtain ⟨front, x, back, heq, hset, _, hx⟩ := write_split h y
  have hxk : (key x == some k') = false := by
    rcases hx with hx | ⟨hx, _⟩
    · simpa [hx] using Ne.symm hne
    · simp [hx]
  have hyk : (key y == some k') = false := by simpa [hy] using Ne.symm hne
  rw [hset]
  conv_rhs => rw [heq]
  simp [lookup, List.find?_append, hxk, hyk]

/-- A write of a key already there keeps the keys; a write of a new key
adds it. -/
theorem keys_write (h : allocIdx key xs k = some i) (hy : key y = some k) :
    (k ∈ keys key xs ∧ keys key (xs.set i y) = keys key xs) ∨
    (k ∉ keys key xs ∧ (keys key (xs.set i y)).Perm (k :: keys key xs)) := by
  obtain ⟨front, x, back, heq, hset, _, hx⟩ := write_split h y
  rcases hx with hx | ⟨hx, hn⟩
  · left
    refine ⟨mem_keys.mpr ⟨x, by simp [heq], hx⟩, ?_⟩
    rw [hset]
    conv_rhs => rw [heq]
    rw [keys_split, keys_split, hx, hy]
  · right
    refine ⟨hn, ?_⟩
    rw [hset]
    conv_rhs => rw [heq]
    rw [keys_split, keys_split, hx, hy]
    exact List.perm_middle

theorem nodup_write (h : allocIdx key xs k = some i) (hy : key y = some k)
    (hnd : (keys key xs).Nodup) : (keys key (xs.set i y)).Nodup := by
  rcases keys_write h hy with ⟨_, hk⟩ | ⟨hn, hk⟩
  · rw [hk]
    exact hnd
  · exact hk.nodup_iff.mpr (List.nodup_cons.mpr ⟨hn, hnd⟩)

end Write

end Ceell.Lib.SlotArray
