/-
Ceell.Lib.TokenLoop — the loop over the tokens of a C string, with every
read that it makes.

A pointer into an array is the bytes from it to the end of the array, and
a read behind that end has no value. `tokenLoop` is the `while (*p)` loop
whose passes find the next separator with `strchr` and look at the token
before it; `tokenFold` is what such a loop does to a list of tokens.

`tokenLoop_eq` connects the two: on a terminated string the loop ends, and
makes no read behind the terminator, since none is needed when the array
ends there.
-/
import Ceell.Lib.CString
import Ceell.Lib.Csv

namespace Ceell.Lib

/-! ## Reads through a pointer -/

/-- `strlen(p)`. -/
def strlen : List Char → Option Nat
  | [] => none
  | c :: p => if c = nul then some 0 else (strlen p).map (· + 1)

/-- `strchr(p, c)`: how far behind `p` the character is, if the string has
it. -/
def strchr (c : Char) : List Char → Option (Option Nat)
  | [] => none
  | d :: p =>
      if d = c then some (some 0)
      else if d = nul then some none
      else (strchr c p).map fun found => found.map (· + 1)

/-- `memcmp(p, q, n) == 0`. -/
def memcmpEq (p q : List Char) (n : Nat) : Option Bool :=
  if n ≤ p.length ∧ n ≤ q.length then some (p.take n == q.take n) else none

section Reads

variable {c : Char} {s : List Char}

theorem strlen_append_nul (hs : nul ∉ s) (rest : List Char) :
    strlen (s ++ nul :: rest) = some s.length := by
  induction s with
  | nil => simp [strlen]
  | cons d s ih =>
    obtain ⟨hd, hs'⟩ := not_or.mp (mt List.mem_cons.mpr hs)
    rw [List.cons_append, strlen, if_neg (Ne.symm hd), ih hs']
    rfl

/-- The first one before the terminator is found. -/
theorem strchr_append_cons (hc : c ∉ s) (hs : nul ∉ s) (rest : List Char) :
    strchr c (s ++ c :: rest) = some (some s.length) := by
  induction s with
  | nil => simp [strchr]
  | cons d s ih =>
    obtain ⟨hdc, hc'⟩ := not_or.mp (mt List.mem_cons.mpr hc)
    obtain ⟨hd, hs'⟩ := not_or.mp (mt List.mem_cons.mpr hs)
    rw [List.cons_append, strchr, if_neg (Ne.symm hdc), if_neg (Ne.symm hd), ih hc' hs']
    rfl

theorem strchr_append_nul (hne : c ≠ nul) (hc : c ∉ s) (hs : nul ∉ s) (rest : List Char) :
    strchr c (s ++ nul :: rest) = some none := by
  induction s with
  | nil => simp [strchr, Ne.symm hne]
  | cons d s ih =>
    obtain ⟨hdc, hc'⟩ := not_or.mp (mt List.mem_cons.mpr hc)
    obtain ⟨hd, hs'⟩ := not_or.mp (mt List.mem_cons.mpr hs)
    rw [List.cons_append, strchr, if_neg (Ne.symm hdc), if_neg (Ne.symm hd), ih hc' hs']
    rfl

/-- Two strings of one length are compared as a whole. -/
theorem memcmpEq_append {t : List Char} (hlen : t.length = s.length) (rest rest' : List Char) :
    memcmpEq (t ++ rest) (s ++ rest') s.length = some (t == s) := by
  have hroom : s.length ≤ (t ++ rest).length ∧ s.length ≤ (s ++ rest').length := by
    simp only [List.length_append]
    omega
  rw [memcmpEq, if_pos hroom, List.take_left' hlen, List.take_left]

end Reads

/-! ## The loop -/

section Loop

variable {σ : Type} {sep : Char} {more : σ → Bool} {body : σ → List Char → Nat → Option (σ × Bool)}
  {g : σ → List Char → σ × Bool}

/-- `while (*p && more(s))`, each pass on the token from `p` to the next
separator or to the end of the string. The body says whether it leaves the
loop. `none` stands for a read outside the array, and for a loop that is
not over after `fuel` tests. -/
def tokenLoop (sep : Char) (more : σ → Bool) (body : σ → List Char → Nat → Option (σ × Bool)) :
    Nat → σ → List Char → Option σ
  | 0, _, _ => none
  | fuel + 1, s, p => do
      let c ← p.head?
      if c = nul ∨ more s = false then some s
      else
        let found ← strchr sep p
        let len ← found.elim (strlen p) some
        let r ← body s p len
        if r.2 then some r.1
        else
          match found with
          | some n => tokenLoop sep more body fuel r.1 (p.drop (n + 1))
          | none => some r.1

/-- The passes on a list of tokens. -/
def tokenFold (more : σ → Bool) (g : σ → List Char → σ × Bool) : σ → List (List Char) → σ
  | s, [] => s
  | s, t :: ts =>
      if more s = false then s
      else if (g s t).2 then (g s t).1
      else tokenFold more g (g s t).1 ts

/-- **The token loop**: on a string with its terminator, whatever is behind
it, the loop ends and does to the tokens what its body does to one. -/
theorem tokenLoop_eq (hsep : sep ≠ nul)
    (hbody : ∀ s t rest, sep ∉ t → nul ∉ t → body s (t ++ rest) t.length = some (g s t))
    {text : List Char} (htext : nul ∉ text) (rest : List Char) {fuel : Nat}
    (hfuel : text.length < fuel) (s : σ) :
    tokenLoop sep more body fuel s (text ++ nul :: rest)
      = some (tokenFold more g s (pieces sep text)) := by
  induction fuel generalizing s text with
  | zero => exact absurd hfuel (Nat.not_lt_zero _)
  | succ fuel ih =>
    by_cases hnil : text = []
    · subst hnil
      simp [tokenLoop, tokenFold]
    · obtain ⟨c, cs, hcs⟩ := List.exists_cons_of_ne_nil hnil
      have hhead : (text ++ nul :: rest).head? = some c := by rw [hcs]; rfl
      have hc : c ≠ nul := by
        intro h
        exact htext (hcs ▸ h ▸ List.mem_cons_self)
      rw [tokenLoop, hhead]
      by_cases hmore : more s = false
      · rw [pieces_eq hnil, tokenFold]
        simp [hmore]
      · have hgo : ¬ (c = nul ∨ more s = false) := not_or.mpr ⟨hc, hmore⟩
        by_cases hmem : sep ∈ text
        · -- the token ends at a separator, and the loop goes on behind it
          obtain ⟨t, tail, rfl, ht⟩ := List.eq_append_cons_of_mem hmem
          have htnul : nul ∉ t := fun h => htext (List.mem_append_left _ h)
          have htail : nul ∉ tail :=
            fun h => htext (List.mem_append_right _ (List.mem_cons_of_mem _ h))
          have happ : t ++ sep :: tail ++ nul :: rest = t ++ sep :: (tail ++ nul :: rest) := by
            rw [List.append_assoc, List.cons_append]
          have hdrop : (t ++ sep :: (tail ++ nul :: rest)).drop (t.length + 1)
              = tail ++ nul :: rest := by
            rw [List.drop_append, List.drop_of_length_le (Nat.le_succ _), List.nil_append,
              Nat.add_sub_cancel_left, List.drop_one, List.tail_cons]
          have hlen : tail.length < fuel := by
            simp only [List.length_append, List.length_cons] at hfuel
            omega
          rw [happ, pieces_append_sep ht, tokenFold, if_neg hmore]
          simp only [Option.bind_eq_bind, Option.bind_some, if_neg hgo,
            strchr_append_cons ht htnul, Option.elim_some, hbody s t _ ht htnul, hdrop,
            ih htail hlen]
          exact (apply_ite some _ _ _).symm
        · -- the last token
          rw [pieces_of_notMem hmem hnil, tokenFold, if_neg hmore]
          simp only [Option.bind_eq_bind, Option.bind_some, if_neg hgo,
            strchr_append_nul hsep hmem htext, Option.elim_none, strlen_append_nul htext,
            hbody s text _ hmem htext, tokenFold, ite_self]

/-- A loop that only searches. -/
theorem tokenFold_any (q : List Char → Bool) (ts : List (List Char)) :
    tokenFold (fun _ => true) (fun _ t => (q t, q t)) false ts = ts.any q := by
  induction ts with
  | nil => rfl
  | cons t ts ih => cases hq : q t <;> simp [tokenFold, hq, ih]

/-- A loop that leaves only where its body has nothing more to do. -/
theorem tokenFold_foldl {step : σ → List Char → σ}
    (hdone : ∀ s t, more s = false → step s t = s) (ts : List (List Char)) (s : σ) :
    tokenFold more (fun s t => (step s t, false)) s ts = ts.foldl step s := by
  induction ts generalizing s with
  | nil => rfl
  | cons t ts ih =>
    rw [tokenFold, List.foldl_cons, ih]
    by_cases hmore : more s = false
    · have hstay : ∀ ts : List (List Char), ts.foldl step s = s := by
        intro ts
        induction ts with
        | nil => rfl
        | cons u ts ih => rw [List.foldl_cons, hdone s u hmore, ih]
      rw [if_pos hmore, hdone s t hmore, hstay]
    · simp [hmore]

end Loop

end Ceell.Lib
