/-
Ceell.Lib.CString — C strings and the character arrays they live in.

A string is the characters from a pointer up to the first NUL, one `Char`
for each byte. An array of `n` characters is a `CharBuf n`: the length is
a field, so no operation here can leave the array, and whether the array
holds a terminator is a statement about its bytes and not a convention.

Two copying idioms cover every bounded copy of the source: `memset` to
zero followed by `strncpy(a, s, sizeof(a) - 1)`, and the same `strncpy`
followed by `a[sizeof(a) - 1] = '\0'`. `terminate_copy` says that they
leave the same bytes, `str_copy_zero` which string that is. A text that is
written piece by piece is a `WrittenOver`.
-/
import Mathlib.Data.List.TakeWhile

namespace Ceell.Lib

/-- The terminator. -/
def nul : Char := '\x00'

/-- The C string at a pointer: the bytes before the first NUL. -/
def cstr (bytes : List Char) : List Char := bytes.takeWhile (· != nul)

/-! ## Strings -/

theorem nul_notMem_cstr (bytes : List Char) : nul ∉ cstr bytes := by
  intro h
  have := List.mem_takeWhile_imp h
  simp at this

theorem cstr_append_nul {s : List Char} (h : nul ∉ s) (rest : List Char) :
    cstr (s ++ nul :: rest) = s := by
  induction s with
  | nil => simp [cstr]
  | cons c s ih =>
    simp only [List.mem_cons, not_or] at h
    have hc : (c != nul) = true := by simpa using Ne.symm h.1
    have ih' := ih h.2
    simp only [cstr] at ih' ⊢
    simp [hc, ih']

/-- A string goes on into what is behind bytes that have no NUL. -/
theorem cstr_append {s : List Char} (h : nul ∉ s) (t : List Char) :
    cstr (s ++ t) = s ++ cstr t := by
  refine List.takeWhile_append_of_pos fun c hc => ?_
  simp only [bne_iff_ne]
  exact fun hn => h (hn ▸ hc)

theorem cstr_eq_self {s : List Char} (h : nul ∉ s) : cstr s = s := by
  rw [cstr, List.takeWhile_eq_self_iff]
  intro c hc
  simp only [bne_iff_ne]
  exact fun e => h (e ▸ hc)

/-- A string cut to `k` bytes is still a string. -/
theorem nul_notMem_take_cstr (bytes : List Char) (k : Nat) : nul ∉ (cstr bytes).take k :=
  fun h => nul_notMem_cstr bytes (List.mem_of_mem_take h)

/-! ## Character arrays -/

/-- A `char` array of `n` bytes. -/
structure CharBuf (n : Nat) where
  bytes : List Char
  size_eq : bytes.length = n
  deriving DecidableEq

namespace CharBuf

variable {n : Nat}

@[ext] theorem ext {a b : CharBuf n} (h : a.bytes = b.bytes) : a = b := by
  cases a; cases b; simp_all

/-- `memset(a, 0, sizeof(a))`. -/
def zero (n : Nat) : CharBuf n := ⟨List.replicate n nul, by simp⟩

/-- The string an array holds. -/
def str (b : CharBuf n) : List Char := cstr b.bytes

/-- The array holds a terminator, so reading the string stays inside it. -/
def Terminated (b : CharBuf n) : Prop := nul ∈ b.bytes

instance (b : CharBuf n) : Decidable b.Terminated := by
  unfold Terminated; infer_instance

/-- `strncpy(a, src, sizeof(a) - 1)`: the string, cut to `n - 1` bytes and
padded with NULs up to there; the last byte of the array is not written. -/
def copy (b : CharBuf n) (src : List Char) : CharBuf n where
  bytes :=
    let s := (cstr src).take (n - 1)
    s ++ List.replicate (n - 1 - s.length) nul ++ b.bytes.drop (n - 1)
  size_eq := by simp [b.size_eq]; omega

/-- `if (src) strncpy(a, src, sizeof(a) - 1)`. -/
def copyOpt (b : CharBuf n) : Option (List Char) → CharBuf n
  | some src => b.copy src
  | none => b

/-- `memcpy(a + at, src, len)`: the bytes of it that fall inside the array. -/
def memcpy (b : CharBuf n) (at' : Nat) (src : List Char) : CharBuf n where
  bytes := (b.bytes.take at' ++ src ++ b.bytes.drop (at' + src.length)).take n ++
    List.replicate (n - (b.bytes.take at' ++ src ++ b.bytes.drop (at' + src.length)).length) nul
  size_eq := by simp; omega

/-- `a[sizeof(a) - 1] = '\0'`. -/
def terminate (b : CharBuf n) : CharBuf n where
  bytes := b.bytes.set (n - 1) nul
  size_eq := by simp [b.size_eq]

theorem getElem?_zero {i : Nat} (h : i < n) : (zero n).bytes[i]? = some nul := by
  rw [zero, List.getElem?_replicate, if_pos h]

/-- What a `memcpy` inside the array leaves. -/
theorem bytes_memcpy (b : CharBuf n) {at' : Nat} {src : List Char} (h : at' + src.length ≤ n) :
    (b.memcpy at' src).bytes = b.bytes.take at' ++ src ++ b.bytes.drop (at' + src.length) := by
  have hlen : (b.bytes.take at' ++ src ++ b.bytes.drop (at' + src.length)).length = n := by
    simp only [List.length_append, List.length_take, List.length_drop, b.size_eq]
    omega
  simp only [memcpy]
  rw [List.take_of_length_le (Nat.le_of_eq hlen), hlen, Nat.sub_self, List.replicate_zero,
    List.append_nil]

/-- What stands before the end of a `memcpy`. -/
theorem take_memcpy (b : CharBuf n) (at' : Nat) (src : List Char) (h : at' + src.length ≤ n) :
    (b.memcpy at' src).bytes.take (at' + src.length) = b.bytes.take at' ++ src := by
  have hlen : (b.bytes.take at' ++ src).length = at' + src.length := by
    simp only [List.length_append, List.length_take, b.size_eq]
    omega
  rw [bytes_memcpy b h, ← hlen, List.take_left]

/-- A `memcpy` leaves what stands before it. -/
theorem take_memcpy_before (b : CharBuf n) (at' : Nat) (src : List Char)
    (h : at' + src.length ≤ n) : (b.memcpy at' src).bytes.take at' = b.bytes.take at' := by
  have hlen : (b.bytes.take at').length = at' := by
    simp only [List.length_take, b.size_eq]
    omega
  rw [bytes_memcpy b h, List.append_assoc, List.take_left' hlen]

theorem terminated_zero : (zero (n + 1)).Terminated := by
  simp [Terminated, zero]

theorem terminated_terminate (b : CharBuf (n + 1)) : b.terminate.Terminated := by
  have hlt : n < b.bytes.length := by rw [b.size_eq]; omega
  exact List.mem_set hlt nul

/-- A copy never writes the last byte, so a terminator there survives it. -/
theorem terminated_copy_zero (src : List Char) : ((zero (n + 1)).copy src).Terminated := by
  simp [Terminated, copy, zero]

theorem terminated_copyOpt_zero (src : Option (List Char)) :
    ((zero (n + 1)).copyOpt src).Terminated := by
  cases src with
  | none => exact terminated_zero
  | some src => exact terminated_copy_zero src

theorem bytes_copy_zero (src : List Char) :
    ((zero (n + 1)).copy src).bytes =
      (cstr src).take n ++ List.replicate (n - ((cstr src).take n).length) nul ++ [nul] := by
  simp [copy, zero]

/-- The two bounded-copy idioms of the source agree on every byte. -/
theorem terminate_copy (b : CharBuf (n + 1)) (src : List Char) :
    (b.copy src).terminate = (zero (n + 1)).copy src := by
  apply CharBuf.ext
  rw [bytes_copy_zero]
  obtain ⟨x, hx⟩ : ∃ x, b.bytes.drop n = [x] := by
    rw [← List.length_eq_one_iff, List.length_drop, b.size_eq]
    omega
  have hlen : ((cstr src).take n).length + (n - ((cstr src).take n).length) = n := by
    simp only [List.length_take]
    omega
  simp only [terminate, copy, Nat.add_sub_cancel, hx]
  rw [List.set_append_right _ _ (by simp only [List.length_append, List.length_replicate, hlen,
    Nat.le_refl])]
  simp only [List.length_append, List.length_replicate, hlen, Nat.sub_self, List.set_cons_zero]

/-- A zeroed array into which `src` is copied holds `src` cut to its size. -/
theorem str_copy_zero (src : List Char) :
    ((zero (n + 1)).copy src).str = (cstr src).take n := by
  rw [str, bytes_copy_zero]
  have h := nul_notMem_take_cstr src n
  cases n - ((cstr src).take n).length with
  | zero => simpa using cstr_append_nul h []
  | succ m => simpa [List.replicate_succ] using cstr_append_nul h (List.replicate m nul ++ [nul])

/-- A copy of a copy is the copy. -/
theorem copy_copy_zero (src : List Char) :
    (zero (n + 1)).copy ((zero (n + 1)).copy src).bytes = (zero (n + 1)).copy src := by
  have hstr : cstr ((zero (n + 1)).copy src).bytes = (cstr src).take n := str_copy_zero src
  apply CharBuf.ext
  rw [bytes_copy_zero _, hstr, List.take_take, Nat.min_self, bytes_copy_zero]

/-- `memcpy` of a string into a zeroed array, a NUL after it, is a copy. -/
theorem memcpy_zero_eq_copy {s : List Char} (h : nul ∉ s) (hlen : s.length ≤ n) :
    (((zero (n + 1)).memcpy 0 s).memcpy s.length [nul]) = (zero (n + 1)).copy s := by
  have hsrc : ((zero (n + 1)).memcpy 0 s).bytes = s ++ List.replicate (n + 1 - s.length) nul := by
    rw [bytes_memcpy _ (by omega)]
    simp [zero]
  have hdiff : n + 1 - s.length = n - s.length + 1 := by omega
  apply CharBuf.ext
  rw [bytes_memcpy _ (by rw [List.length_singleton]; omega), hsrc, bytes_copy_zero, cstr_eq_self h,
    List.take_of_length_le hlen, hdiff]
  simp [List.replicate_succ, ← List.replicate_succ']

theorem nul_notMem_str (b : CharBuf n) : nul ∉ b.str := nul_notMem_cstr b.bytes

/-- A terminated array is its string, the terminator, and what is behind it. -/
theorem exists_bytes_eq (b : CharBuf n) (h : b.Terminated) :
    ∃ rest, b.bytes = b.str ++ nul :: rest := by
  have hsplit : b.str ++ b.bytes.dropWhile (· != nul) = b.bytes := List.takeWhile_append_dropWhile
  cases hdrop : b.bytes.dropWhile (· != nul) with
  | nil =>
    rw [hdrop, List.append_nil] at hsplit
    exact absurd (hsplit ▸ h) b.nul_notMem_str
  | cons c rest =>
    have hc := List.head_dropWhile_not (· != nul) (by rw [hdrop]; exact List.cons_ne_nil c rest)
    simp only [hdrop, List.head_cons, bne_eq_false_iff_eq] at hc
    exact ⟨rest, by rw [← hc, ← hdrop, hsplit]⟩

/-- A terminated array holds a string that is shorter than it. -/
theorem length_str_lt (b : CharBuf n) (h : b.Terminated) : b.str.length < n := by
  have hprefix : b.str <+: b.bytes := List.takeWhile_prefix _
  have hle := hprefix.length_le
  rw [b.size_eq] at hle
  refine lt_of_le_of_ne hle ?_
  intro hlen
  have heq : b.str = b.bytes := hprefix.eq_of_length (hlen.trans b.size_eq.symm)
  exact b.nul_notMem_str (heq ▸ h)

/-! ### Texts written from the start of an array -/

/-- The array holds `text` over what `old` held. -/
def WrittenOver (b old : CharBuf n) (text : List Char) : Prop :=
  b.bytes = text ++ old.bytes.drop text.length

section WrittenOver

variable {old b : CharBuf n} {text : List Char}

theorem writtenOver_nil (old : CharBuf n) : old.WrittenOver old [] := by
  simp [WrittenOver]

/-- A `memcpy` right behind the text makes it longer. -/
theorem WrittenOver.memcpy (h : b.WrittenOver old text) (src : List Char)
    (hroom : text.length + src.length ≤ n) :
    (b.memcpy text.length src).WrittenOver old (text ++ src) := by
  have hlen : text.length + src.length = (text ++ src).length := List.length_append.symm
  unfold WrittenOver at h ⊢
  rw [bytes_memcpy b hroom, h, List.take_left, List.drop_append,
    List.drop_of_length_le (Nat.le_add_right _ _), List.nil_append, Nat.add_sub_cancel_left,
    List.drop_drop, hlen]

/-- Only what was behind the text matters. -/
theorem WrittenOver.congr (h : b.WrittenOver old text) {old' : CharBuf n}
    (hdrop : old.bytes.drop text.length = old'.bytes.drop text.length) :
    b.WrittenOver old' text := by
  unfold WrittenOver at h ⊢
  rw [h, hdrop]

/-- A last byte that was there before need not be counted. -/
theorem WrittenOver.of_concat {c : Char} (h : b.WrittenOver old (text ++ [c]))
    (hc : old.bytes[text.length]? = some c) : b.WrittenOver old text := by
  obtain ⟨hlt, hget⟩ := List.getElem?_eq_some_iff.mp hc
  unfold WrittenOver at h ⊢
  rw [h, List.drop_eq_getElem_cons hlt, hget, List.length_append, List.length_singleton,
    List.append_assoc, List.singleton_append]

/-- A NUL written behind the text makes it the string. -/
theorem WrittenOver.terminated_str (h : b.WrittenOver old (text ++ [nul])) (htext : nul ∉ text) :
    b.Terminated ∧ b.str = text := by
  unfold WrittenOver at h
  rw [List.append_assoc, List.singleton_append] at h
  constructor
  · rw [Terminated, h]
    exact List.mem_append_right _ List.mem_cons_self
  · rw [str, h, cstr_append_nul htext]

theorem WrittenOver.str_eq (h : b.WrittenOver old text) (htext : nul ∉ text) :
    b.str = text ++ cstr (old.bytes.drop text.length) := by
  rw [str, h, cstr_append htext]

/-- The array is a string of just the text exactly if there was a NUL
right behind it. -/
theorem WrittenOver.str_eq_iff (h : b.WrittenOver old text) (htext : nul ∉ text) :
    b.Terminated ∧ b.str = text ↔ old.bytes[text.length]? = some nul := by
  rw [← List.head?_drop, h.str_eq htext, List.append_right_eq_self, Terminated, h, List.mem_append,
    or_iff_right htext]
  cases old.bytes.drop text.length with
  | nil => simp
  | cons c rest =>
    rw [List.head?_cons, Option.some.injEq]
    constructor
    · rintro ⟨_, hnil⟩
      by_contra hc
      simp [cstr, hc] at hnil
    · rintro rfl
      exact ⟨List.mem_cons_self, cstr_append_nul List.not_mem_nil rest⟩

/-- The string after a `memcpy` from the start and a NUL, in any array. -/
theorem str_memcpy_nul (b : CharBuf n) {s : List Char} (h : nul ∉ s) (hlen : s.length < n) :
    ((b.memcpy 0 s).memcpy s.length [nul]).str = s := by
  have hfirst : (b.memcpy 0 s).WrittenOver b s := by
    have hroom : ([] : List Char).length + s.length ≤ n := by
      rw [List.length_nil]
      omega
    exact (writtenOver_nil b).memcpy s hroom
  have hboth := hfirst.memcpy [nul] (by rwa [List.length_singleton])
  exact (hboth.terminated_str h).2

end WrittenOver

end CharBuf

end Ceell.Lib
