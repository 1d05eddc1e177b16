/-
Ceell.Core.NamesCsv — what `ceell_service_names_csv` leaves in a buffer
that is too small, for every registry, size and previous content.

The function writes a terminator in front of the loop and one behind it.
The error exit inside the loop leaves the names copied so far without one,
so what the string goes on with is what the buffer held before.
`namesCsv_ok_iff` is the exact condition under which that is nothing.
-/
import Ceell.Core.ServiceRegistry

namespace Ceell.Core

open Ceell.Lib

variable {ν : Type} {n : Nat}

/-! ## The stores -/

/-- The stores of the loop from the `i`-th name on, and the terminator's:
an offset into the buffer, and the bytes. -/
def namesCsvStores (n : Nat) : Nat → List (List Char) → Nat → List (Nat × List Char)
  | _, [], pos => [(pos, [nul])]
  | i, name :: names, pos =>
      let need := name.length + if i > 0 then 1 else 0
      if pos + need ≥ n then []
      else if i > 0 then
        (pos, [',']) :: (pos + 1, name) ::
          namesCsvStores n (i + 1) names (pos + 1 + name.length)
      else (pos, name) :: namesCsvStores n (i + 1) names (pos + name.length)

/-- All stores of `ceell_service_names_csv`. -/
def serviceNamesCsvStores (services : Registry ν) (n : Nat) : List (Nat × List Char) :=
  (0, [nul]) :: namesCsvStores n 0 (services.map fun e => e.name.str) 0

/-- A buffer after stores into it. -/
def applyStores (buf : CharBuf n) (stores : List (Nat × List Char)) : CharBuf n :=
  stores.foldl (fun b w => b.memcpy w.1 w.2) buf

/-- The loop and the terminator behind it are their stores. -/
theorem namesCsvLoop_stores (names : List (List Char)) (i : Nat) (buf : CharBuf n) (pos : Nat) :
    (match namesCsvLoop i names buf pos with
      | .error b => b
      | .ok (b, p) => b.memcpy p [nul]) = applyStores buf (namesCsvStores n i names pos) := by
  induction names generalizing i buf pos with
  | nil => rfl
  | cons name names ih =>
    by_cases hi : i > 0
    · simp only [namesCsvLoop, namesCsvStep, namesCsvStores, if_pos hi]
      by_cases hfull : pos + (name.length + 1) ≥ n
      · simp only [if_pos hfull]
        rfl
      · simp only [if_neg hfull]
        exact ih _ _ _
    · simp only [namesCsvLoop, namesCsvStep, namesCsvStores, if_neg hi]
      by_cases hfull : pos + (name.length + 0) ≥ n
      · simp only [if_pos hfull]
        rfl
      · simp only [if_neg hfull]
        exact ih _ _ _

theorem namesCsv_stores (services : Registry ν) (buf : CharBuf (n + 1)) :
    (ceellServiceNamesCsv services buf).1
      = applyStores buf (serviceNamesCsvStores services (n + 1)) := by
  have hloop := namesCsvLoop_stores (services.map fun e => e.name.str) 0 (buf.memcpy 0 [nul]) 0
  rw [serviceNamesCsvStores, applyStores, List.foldl_cons]
  refine Eq.trans ?_ hloop
  rw [ceellServiceNamesCsv, if_neg (Nat.succ_ne_zero n)]
  cases namesCsvLoop 0 (services.map fun e => e.name.str) (buf.memcpy 0 [nul]) 0 <;> rfl

/-- No store leaves the buffer. -/
theorem namesCsvStores_inside (names : List (List Char)) (i : Nat) {pos : Nat} (hpos : pos < n) :
    ∀ w ∈ namesCsvStores n i names pos, w.1 + w.2.length ≤ n := by
  induction names generalizing i pos with
  | nil => simpa [namesCsvStores] using Nat.succ_le_of_lt hpos
  | cons name names ih =>
    by_cases hi : i > 0
    · simp only [namesCsvStores, if_pos hi]
      by_cases hfull : pos + (name.length + 1) ≥ n
      · rw [if_pos hfull]
        exact fun _ h => absurd h List.not_mem_nil
      · have hroom : pos + 1 + name.length < n := by omega
        rw [if_neg hfull, List.forall_mem_cons, List.forall_mem_cons, List.length_singleton]
        exact ⟨by dsimp only; omega, Nat.le_of_lt hroom, ih (i + 1) hroom⟩
    · simp only [namesCsvStores, if_neg hi]
      by_cases hfull : pos + (name.length + 0) ≥ n
      · rw [if_pos hfull]
        exact fun _ h => absurd h List.not_mem_nil
      · have hroom : pos + name.length < n := by omega
        rw [if_neg hfull, List.forall_mem_cons]
        exact ⟨Nat.le_of_lt hroom, ih (i + 1) hroom⟩

theorem serviceNamesCsvStores_inside (services : Registry ν) (n : Nat) :
    ∀ w ∈ serviceNamesCsvStores services (n + 1), w.1 + w.2.length ≤ n + 1 := by
  rw [serviceNamesCsvStores, List.forall_mem_cons]
  exact ⟨by simp, namesCsvStores_inside _ 0 (Nat.succ_pos n)⟩

/-! ## The buffer as a string -/

/-- What a caller of `ceell_service_names_csv` may rely on. -/
structure NamesCsvOk (services : Registry ν) (buf : CharBuf n) : Prop where
  /-- the buffer is what its stores make of it, and they are all inside it -/
  inside : (ceellServiceNamesCsv services buf).1
      = applyStores buf (serviceNamesCsvStores services n) ∧
    ∀ w ∈ serviceNamesCsvStores services n, w.1 + w.2.length ≤ n
  /-- 0 is returned exactly if the list has room, with its terminator -/
  returns : (ceellServiceNamesCsv services buf).2 = 0 ↔
    ([','].intercalate (services.map fun e => e.name.str)).length + 1 ≤ n
  /-- and then it is in the buffer -/
  joined : (ceellServiceNamesCsv services buf).2 = 0 →
    (ceellServiceNamesCsv services buf).1.Terminated ∧
      (ceellServiceNamesCsv services buf).1.str
        = [','].intercalate (services.map fun e => e.name.str)
  /-- a list without room leaves whole names, from the first on, and nothing else -/
  whole : (ceellServiceNamesCsv services buf).2 = -ENOMEM →
    (ceellServiceNamesCsv services buf).1.Terminated ∧
      ∃ names, names <+: (services.map fun e => e.name.str) ∧
        (ceellServiceNamesCsv services buf).1.str = [','].intercalate names

/-- Where a name has no room behind others, the buffer had a NUL there. -/
def NulBehindNames (services : Registry ν) (buf : CharBuf n) : Prop :=
  ∀ front, StopsBehind n (services.map fun e => e.name.str) front → [','].intercalate front ≠ [] →
    buf.bytes[([','].intercalate front).length]? = some nul

/-- Of two lists of first names, the one that has no room for the next is
not the shorter. -/
theorem StopsBehind.prefix_of_fits {names front l : List (List Char)}
    (h : StopsBehind n names front) (hl : l <+: names) (hfits : ([','].intercalate l).length < n) :
    l <+: front := by
  obtain ⟨name, back, rfl, _, hfull⟩ := h
  by_contra hnot
  have hlt : front ++ [name] <+: l := by
    rw [List.append_cons] at hl
    rcases List.prefix_or_prefix_of_prefix hl (List.prefix_append _ back) with hle | hle
    · rcases List.prefix_concat_iff.mp hle with heq | hle'
      · exact heq ▸ List.prefix_rfl
      · exact absurd hle' hnot
    · exact hle
  obtain ⟨t, rfl⟩ := hlt
  have hlen := length_intercalate_le_append (front ++ [name]) t
  omega

theorem StopsBehind.unique {names front front' : List (List Char)}
    (h : StopsBehind n names front) (h' : StopsBehind n names front') : front = front' := by
  have hle : ∀ {a b}, StopsBehind n names a → StopsBehind n names b → a <+: b := by
    rintro a b ⟨name, back, heq, hroom, _⟩ hb
    exact hb.prefix_of_fits (heq ▸ List.prefix_append _ _) hroom
  exact (hle h h').eq_of_length_le (hle h' h).length_le

/-- The first byte is a NUL in front of the loop, the others are as before. -/
theorem getElem?_memcpy_zero (buf : CharBuf (n + 1)) (i : Nat) :
    (buf.memcpy 0 [nul]).bytes[i]? = if i = 0 then some nul else buf.bytes[i]? := by
  rw [CharBuf.bytes_memcpy _ (by simp)]
  cases i with
  | zero => simp
  | succ i => simp

/-- Over an array that starts with a NUL, the one in front of the loop
changes nothing behind the text. -/
theorem drop_memcpy_nul {b old : CharBuf (n + 1)} {text : List Char} (h : b.WrittenOver old text)
    (hold : old.bytes.head? = some nul) {m : Nat} (hm : text.length ≤ m) :
    (b.memcpy 0 [nul]).bytes.drop m = old.bytes.drop m := by
  have hroom : 0 + [nul].length ≤ n + 1 := by simp
  unfold CharBuf.WrittenOver at h
  rw [CharBuf.bytes_memcpy _ hroom, List.take_zero, List.nil_append, List.singleton_append]
  cases m with
  | zero =>
    have hnil : text = [] := List.length_eq_zero_iff.mp (Nat.le_zero.mp hm)
    obtain ⟨rest, hrest⟩ := List.head?_eq_some_iff.mp hold
    simp [h, hnil, hrest]
  | succ m =>
    rw [List.drop_succ_cons, List.drop_drop, h, List.drop_append, List.drop_of_length_le,
      List.nil_append, List.drop_drop]
    · congr 1
      simp
      omega
    · simp
      omega

/-- **A list that has no room**: for every registry, every buffer of at
least one byte and whatever it held, nothing is written outside the
buffer, 0 is returned exactly if the list of names fits, and then the
buffer holds it; and where it does not fit, the buffer is a string of
whole names exactly if it had a NUL right behind those copied. -/
theorem namesCsv_ok_iff (services : Registry ν) (buf : CharBuf (n + 1)) :
    NamesCsvOk services buf ↔ NulBehindNames services buf := by
  have hinside := And.intro (namesCsv_stores services buf) (serviceNamesCsvStores_inside services n)
  rcases namesCsv_cases services buf with ⟨hroom, hret, hover⟩ | ⟨front, hstop, hret, hover⟩
  · refine iff_of_true ⟨hinside, iff_of_true hret hroom, fun _ => ?_, fun h => ?_⟩ ?_
    · exact hover.terminated_str (nul_notMem_names List.prefix_rfl)
    · rw [hret] at h
      exact absurd h (by decide)
    · intro front hstop
      exact absurd hroom (Nat.not_lt.mpr hstop.length_le)
  · have hfront : front <+: services.map fun e => e.name.str := by
      obtain ⟨name, back, heq, _⟩ := hstop
      exact ⟨name :: back, heq.symm⟩
    have hbyte := hover.str_eq_iff (nul_notMem_names hfront)
    rw [getElem?_memcpy_zero] at hbyte
    constructor
    · intro hok front' hstop' hne
      obtain rfl := hstop.unique hstop'
      obtain ⟨hterm, names, hnames, hstr⟩ := hok.whole hret
      have hlt := CharBuf.length_str_lt _ hterm
      -- the names of the string have room, so they are among those copied
      obtain ⟨rest, hrest⟩ := hstop.prefix_of_fits hnames (hstr ▸ hlt)
      have hle := length_intercalate_le_append names rest
      rw [hrest, ← hstr, hover.str_eq (nul_notMem_names hfront), List.length_append] at hle
      have hnil : cstr ((buf.memcpy 0 [nul]).bytes.drop ([','].intercalate front).length) = [] :=
        List.length_eq_zero_iff.mp (by omega)
      have hfull := hbyte.mp ⟨hterm, by
        rw [hover.str_eq (nul_notMem_names hfront), hnil, List.append_nil]⟩
      rwa [if_neg (mt List.length_eq_zero_iff.mp hne)] at hfull
    · intro hnul
      refine ⟨hinside, ?_, ?_, fun _ => ?_⟩
      · refine iff_of_false ?_ (Nat.not_le.mpr ?_)
        · rw [hret]
          decide
        · exact Nat.lt_succ_of_le hstop.length_le
      · intro h
        rw [hret] at h
        exact absurd h (by decide)
      · have hzero : (if ([','].intercalate front).length = 0 then some nul
            else buf.bytes[([','].intercalate front).length]?) = some nul := by
          by_cases hne : [','].intercalate front = []
          · simp [hne]
          · rw [if_neg (mt List.length_eq_zero_iff.mp hne)]
            exact hnul front hstop hne
        obtain ⟨hterm, hstr⟩ := hbyte.mpr hzero
        exact ⟨hterm, front, hfront, hstr⟩

/-- Two services, the second of which has no room in eight bytes. -/
def crowdedServices : Registry Unit :=
  (registerAll {} [("ab".toList, ⟨some (), 1, 0⟩), ("cdefghij".toList, ⟨some (), 1, 0⟩)]
    ceellServiceInit).1

/-- A buffer that was used before. -/
def usedBuf : CharBuf 8 := ⟨List.replicate 8 'X', rfl⟩

/-- The first name is copied, and the bytes behind it are the old ones, to
the end of the buffer and beyond. -/
theorem crowdedServices_leftover :
    (ceellServiceNamesCsv crowdedServices usedBuf).2 = -ENOMEM ∧
    (ceellServiceNamesCsv crowdedServices usedBuf).1.bytes = "abXXXXXX".toList ∧
    ¬ NamesCsvOk crowdedServices usedBuf := by
  have hret : (ceellServiceNamesCsv crowdedServices usedBuf).2 = -ENOMEM := by decide
  have hbytes : (ceellServiceNamesCsv crowdedServices usedBuf).1.bytes = "abXXXXXX".toList := by
    decide
  refine ⟨hret, hbytes, fun hok => ?_⟩
  have hterm := (hok.whole hret).1
  rw [CharBuf.Terminated, hbytes] at hterm
  exact absurd hterm (by decide)

end Ceell.Core
