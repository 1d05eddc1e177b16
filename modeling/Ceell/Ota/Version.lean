/-
Ceell.Ota.Version — `ceell/ota/ota_version.c`: the version of an image,
its text and the comparison of two versions.

`ceellOtaVerParse` reads its numbers with `strtoul`, which is modelled
with all it accepts: leading blanks, a sign and any number of digits.
`ceellOtaVerCmp_pos_iff` says that the comparison is the lexicographic
order of the three numbers.
-/
import Ceell.Core.Types
import Ceell.Lib.CString
import Mathlib.Data.Prod.Lex

namespace Ceell.Ota

open Ceell.Lib

/-! ## Versions -/

/-- `struct ceell_ota_ver`. -/
structure OtaVer where
  major : UInt8
  minor : UInt8
  patch : UInt16
  deriving DecidableEq, Repr

/-- The three numbers, the first one deciding. -/
def OtaVer.key (v : OtaVer) : Nat ×ₗ Nat ×ₗ Nat :=
  toLex (v.major.toNat, toLex (v.minor.toNat, v.patch.toNat))

theorem OtaVer.key_injective : Function.Injective OtaVer.key := by
  intro a b h
  cases a
  cases b
  simpa [OtaVer.key, UInt8.toNat_inj, UInt16.toNat_inj] using h

instance : LinearOrder OtaVer := LinearOrder.lift' OtaVer.key OtaVer.key_injective

theorem OtaVer.lt_iff (a b : OtaVer) :
    a < b ↔ a.major.toNat < b.major.toNat ∨ a.major.toNat = b.major.toNat ∧
      (a.minor.toNat < b.minor.toNat ∨
        a.minor.toNat = b.minor.toNat ∧ a.patch.toNat < b.patch.toNat) := by
  show a.key < b.key ↔ _
  simp [OtaVer.key, Prod.Lex.toLex_lt_toLex]

/-- `ceell_ota_ver_cmp`. -/
def ceellOtaVerCmp (a b : OtaVer) : Int :=
  if a.major ≠ b.major then (a.major.toNat : Int) - b.major.toNat
  else if a.minor ≠ b.minor then (a.minor.toNat : Int) - b.minor.toNat
  else (a.patch.toNat : Int) - b.patch.toNat

/-- The comparison is positive exactly on a later version. -/
theorem ceellOtaVerCmp_pos_iff (a b : OtaVer) : 0 < ceellOtaVerCmp a b ↔ b < a := by
  rw [OtaVer.lt_iff, ceellOtaVerCmp]
  simp only [ne_eq, ← UInt8.toNat_inj]
  split
  · omega
  · split <;> omega

theorem ceellOtaVerCmp_swap (a b : OtaVer) : ceellOtaVerCmp b a = -ceellOtaVerCmp a b := by
  unfold ceellOtaVerCmp
  simp only [ne_comm (a := b.major), ne_comm (a := b.minor)]
  split
  · omega
  · split <;> omega

/-! ## The text of a version -/

/-- The largest `unsigned long`. -/
def ulongMax : Nat := 2 ^ 32 - 1

/-- `isspace` in the C locale. -/
def isSpace (c : Char) : Bool :=
  c = ' ' || c = '\t' || c = '\n' || c = '\x0b' || c = '\x0c' || c = '\x0d'

/-- The sign `strtoul` accepts, and what follows it. -/
def scanSign : List Char → Bool × List Char
  | '-' :: s => (true, s)
  | '+' :: s => (false, s)
  | s => (false, s)

/-- `strtoul(p, &end, 10)`: the value and the text at `end`, which is all
of `p` if there was no number. -/
def strtoul (p : List Char) : Nat × List Char :=
  let (negative, s) := scanSign (p.dropWhile isSpace)
  let digits := s.takeWhile Char.isDigit
  if digits = [] then (0, p)
  else
    let value := Nat.ofDigitChars 10 digits 0
    let value :=
      if ulongMax < value then ulongMax
      else if negative then (ulongMax + 1 - value) % (ulongMax + 1)
      else value
    (value, s.dropWhile Char.isDigit)

/-- The loop of `ceell_ota_ver_parse`: `n` more numbers, with a dot after
each but the last. -/
def verParts : Nat → List Char → Option (List Nat)
  | 0, _ => some []
  | n + 1, p =>
      let (value, rest) := strtoul p
      if rest = p then none
      else if n = 0 then some [value]
      else
        match rest with
        | '.' :: p => (verParts n p).map (value :: ·)
        | _ => none

/-- `ceell_ota_ver_parse`, with what it leaves in `*ver`; `none` is NULL. -/
def ceellOtaVerParse (str : Option (List Char)) (ver : OtaVer) : Int × OtaVer :=
  match str with
  | none => (-EINVAL, ver)
  | some str =>
      match verParts 3 (cstr str) with
      | some [major, minor, patch] =>
          if major > 255 || minor > 255 || patch > 65535 then (-EINVAL, ver)
          else (0, ⟨.ofNat major, .ofNat minor, .ofNat patch⟩)
      | _ => (-EINVAL, ver)

example : ceellOtaVerParse (some "1.20.300".toList) ⟨0, 0, 0⟩ = (0, ⟨1, 20, 300⟩) := by decide

/-- A version parses, or the result is `-EINVAL`. -/
theorem ceellOtaVerParse_ret (str : Option (List Char)) (ver : OtaVer) :
    (ceellOtaVerParse str ver).1 = 0 ∨ (ceellOtaVerParse str ver).1 = -EINVAL := by
  unfold ceellOtaVerParse
  split
  · exact Or.inr rfl
  · split
    · split
      · exact Or.inr rfl
      · exact Or.inl rfl
    · exact Or.inr rfl

end Ceell.Ota
