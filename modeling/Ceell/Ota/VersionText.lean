/-
Ceell.Ota.VersionText — the text of a version: what
`ceell_ota_ver_parse` accepts, and what `ceell_ota_ver_to_str` prints.

`strtoul` skips blanks, takes a sign and leaves the rest of the text
alone, so the parser accepts more than three numbers with dots between
them. `parsesStrictly_iff` names the texts for which that matters. The
printed texts are none of them: `verToStr_roundTrip`.
-/
import Ceell.Osal.JsonReference
import Ceell.Ota.Version

namespace Ceell.Ota

open Ceell.Lib Ceell.Osal

/-! ## Numbers as `strtoul` reads them -/

/-- The text of a sign; `true` is the minus sign. -/
def signText : Option Bool → List Char
  | none => []
  | some true => ['-']
  | some false => ['+']

/-- A number that `strtoul` reads. -/
structure Numeral where
  blanks : List Char
  sign : Option Bool
  digits : List Char
  blanks_space : ∀ c ∈ blanks, isSpace c = true
  digits_ne_nil : digits ≠ []
  digits_digit : ∀ c ∈ digits, c.isDigit = true

namespace Numeral

def text (n : Numeral) : List Char := n.blanks ++ (signText n.sign ++ n.digits)

/-- Its `unsigned long`: saturated, and negated modulo its width. -/
def value (n : Numeral) : Nat :=
  let value := Nat.ofDigitChars 10 n.digits 0
  if ulongMax < value then ulongMax
  else if n.sign = some true then (ulongMax + 1 - value) % (ulongMax + 1)
  else value

/-- Digits and nothing else. -/
def Plain (n : Numeral) : Prop := n.blanks = [] ∧ n.sign = none

end Numeral

theorem isSpace_of_isDigit {c : Char} (h : c.isDigit = true) : isSpace c = false := by
  by_contra hspace
  simp only [Bool.not_eq_false, isSpace, Bool.or_eq_true, decide_eq_true_eq] at hspace
  rcases hspace with ((((rfl | rfl) | rfl) | rfl) | rfl) | rfl <;> exact absurd h (by decide)

/-- The blanks end at the sign or at the first digit. -/
theorem dropWhile_blanks (n : Numeral) (r : List Char) :
    (n.text ++ r).dropWhile isSpace = signText n.sign ++ (n.digits ++ r) := by
  rw [Numeral.text, List.append_assoc, List.dropWhile_append_of_pos n.blanks_space,
    List.append_assoc]
  cases hs : n.sign with
  | some negative => cases negative <;> rfl
  | none =>
    cases hd : n.digits with
    | nil => exact absurd hd n.digits_ne_nil
    | cons d ds =>
      have hdigit : d.isDigit = true := n.digits_digit d (by simp [hd])
      simp [signText, isSpace_of_isDigit hdigit]

theorem scanSign_digits (n : Numeral) (r : List Char) :
    scanSign (signText n.sign ++ (n.digits ++ r)) =
      (decide (n.sign = some true), n.digits ++ r) := by
  cases hs : n.sign with
  | some negative => cases negative <;> rfl
  | none =>
    cases hd : n.digits with
    | nil => exact absurd hd n.digits_ne_nil
    | cons d ds =>
      have hdigit : d.isDigit = true := n.digits_digit d (by simp [hd])
      rw [signText, List.nil_append, List.cons_append]
      unfold scanSign
      split
      · rename_i heq
        obtain ⟨rfl, _⟩ := List.cons.inj heq
        exact absurd hdigit (by decide)
      · rename_i heq
        obtain ⟨rfl, _⟩ := List.cons.inj heq
        exact absurd hdigit (by decide)
      · rfl

/-- `strtoul` reads a number and stops behind its digits. -/
theorem strtoul_text (n : Numeral) {r : List Char} (hr : NoDigitHead r) :
    strtoul (n.text ++ r) = (n.value, r) := by
  have hscan := scanDigits_append n.digits_digit hr
  obtain ⟨htake, hdrop⟩ := Prod.mk.inj hscan
  rw [strtoul, dropWhile_blanks, scanSign_digits]
  simp only [htake, hdrop, n.digits_ne_nil, if_false, Numeral.value, decide_eq_true_eq]

/-- What stands before the text behind a sign. -/
theorem exists_sign (s : List Char) : ∃ sign, s = signText sign ++ (scanSign s).2 := by
  unfold scanSign
  split
  · exact ⟨some true, rfl⟩
  · exact ⟨some false, rfl⟩
  · exact ⟨none, rfl⟩

theorem noDigitHead_dropWhile (s : List Char) : NoDigitHead (s.dropWhile Char.isDigit) := by
  intro c hc
  have hhead := List.head?_dropWhile_not Char.isDigit s
  rw [Option.mem_def.mp hc] at hhead
  simpa using hhead

/-- Where `strtoul` gets on, it has read a number. -/
theorem exists_numeral {p : List Char} (h : (strtoul p).2 ≠ p) :
    ∃ n : Numeral, p = n.text ++ (strtoul p).2 ∧ NoDigitHead (strtoul p).2 := by
  obtain ⟨sign, hsign⟩ := exists_sign (p.dropWhile isSpace)
  have hblanks : p.takeWhile isSpace ++ p.dropWhile isSpace = p := List.takeWhile_append_dropWhile
  unfold strtoul at h ⊢
  generalize scanSign (p.dropWhile isSpace) = signed at h hsign ⊢
  obtain ⟨negative, s⟩ := signed
  have hdigits : s.takeWhile Char.isDigit ++ s.dropWhile Char.isDigit = s :=
    List.takeWhile_append_dropWhile
  by_cases hnone : s.takeWhile Char.isDigit = []
  · simp [hnone] at h
  · simp only [hnone, if_false]
    refine ⟨⟨p.takeWhile isSpace, sign, s.takeWhile Char.isDigit, ?_, hnone, ?_⟩, ?_,
      noDigitHead_dropWhile s⟩
    · exact fun c hc => List.mem_takeWhile_imp hc
    · exact fun c hc => List.mem_takeWhile_imp hc
    · rw [Numeral.text, List.append_assoc, List.append_assoc, hdigits, ← hsign, hblanks]

/-! ## The accepted texts -/

/-- Three numbers with dots between them, and what follows. -/
structure VerText where
  major : Numeral
  minor : Numeral
  patch : Numeral
  tail : List Char
  tail_noDigit : NoDigitHead tail

namespace VerText

def text (t : VerText) : List Char :=
  t.major.text ++ '.' :: (t.minor.text ++ '.' :: (t.patch.text ++ t.tail))

/-- The three numbers fit the version. -/
def InRange (t : VerText) : Prop :=
  t.major.value ≤ 255 ∧ t.minor.value ≤ 255 ∧ t.patch.value ≤ 65535

/-- Nothing but digits and the two dots. -/
def Strict (t : VerText) : Prop :=
  t.major.Plain ∧ t.minor.Plain ∧ t.patch.Plain ∧ t.tail = []

def ver (t : VerText) : OtaVer := ⟨.ofNat t.major.value, .ofNat t.minor.value, .ofNat t.patch.value⟩

end VerText

theorem verParts_text (t : VerText) :
    verParts 3 t.text = some [t.major.value, t.minor.value, t.patch.value] := by
  have hdot : ∀ r, NoDigitHead ('.' :: r) := noDigitHead_cons (by decide)
  have hne : ∀ (n : Numeral) (r : List Char), r ≠ n.text ++ r := by
    intro n r h
    have hempty : n.text = [] := by simpa using h.symm
    rw [Numeral.text] at hempty
    exact n.digits_ne_nil (List.append_eq_nil_iff.mp (List.append_eq_nil_iff.mp hempty).2).2
  simp only [verParts, VerText.text, strtoul_text _ (hdot _), strtoul_text _ t.tail_noDigit,
    if_neg (hne _ _), Option.map_some]
  rfl

/-- One number of the loop. -/
theorem verParts_succ {n : Nat} {p : List Char} {values : List Nat}
    (h : verParts (n + 1) p = some values) :
    ∃ (num : Numeral) (rest : List Char), p = num.text ++ rest ∧ NoDigitHead rest ∧
      ((n = 0 ∧ values = [num.value]) ∨
        ∃ p' values', rest = '.' :: p' ∧ verParts n p' = some values' ∧
          values = num.value :: values') := by
  rw [verParts] at h
  by_cases hread : (strtoul p).2 = p
  · simp [hread] at h
  · obtain ⟨num, hp, hrest⟩ := exists_numeral hread
    have hvalue : strtoul p = (num.value, (strtoul p).2) := by
      conv_lhs => rw [hp]
      exact strtoul_text num hrest
    have hne : (strtoul p).2 ≠ p := hread
    refine ⟨num, (strtoul p).2, hp, hrest, ?_⟩
    rw [hvalue] at h
    simp only [hne, if_false] at h
    by_cases hlast : n = 0
    · rw [if_pos hlast, Option.some.injEq] at h
      exact Or.inl ⟨hlast, h.symm⟩
    · rw [if_neg hlast] at h
      right
      split at h
      · rename_i p' hdot
        obtain ⟨values', hvalues, rfl⟩ := Option.map_eq_some_iff.mp h
        exact ⟨p', values', hdot, hvalues, rfl⟩
      · cases h

/-- **What the loop accepts.** -/
theorem verParts_eq_some {s : List Char} {a b c : Nat} :
    verParts 3 s = some [a, b, c] ↔
      ∃ t : VerText, s = t.text ∧ a = t.major.value ∧ b = t.minor.value ∧ c = t.patch.value := by
  constructor
  · intro h
    obtain ⟨major, r₁, rfl, _, h⟩ := verParts_succ h
    obtain ⟨p₁, v₁, rfl, h₁, hv₁⟩ := h.resolve_left (by simp)
    obtain ⟨minor, r₂, rfl, _, h⟩ := verParts_succ h₁
    obtain ⟨p₂, v₂, rfl, h₂, hv₂⟩ := h.resolve_left (by simp)
    obtain ⟨patch, tail, rfl, htail, h⟩ := verParts_succ h₂
    have hv₃ : v₂ = [patch.value] := by
      rcases h with ⟨_, hv⟩ | ⟨p₃, v₃, _, h₃, hv⟩
      · exact hv
      · simp only [verParts, Option.some.injEq] at h₃
        rw [hv, ← h₃]
    refine ⟨⟨major, minor, patch, tail, htail⟩, rfl, ?_⟩
    simp_all
  · rintro ⟨t, rfl, rfl, rfl, rfl⟩
    exact verParts_text t

theorem ceellOtaVerParse_text {s : List Char} {t : VerText} (hs : cstr s = t.text)
    (hrange : t.InRange) (ver : OtaVer) : ceellOtaVerParse (some s) ver = (0, t.ver) := by
  obtain ⟨hmajor, hminor, hpatch⟩ := hrange
  have hfits : ¬ (t.major.value > 255 ∨ t.minor.value > 255 ∨ t.patch.value > 65535) := by omega
  rw [ceellOtaVerParse, hs, verParts_text]
  simp only [Bool.or_eq_true, decide_eq_true_eq, or_assoc, hfits, if_false, VerText.ver]

/-- **What the parser refuses**: everything else. -/
theorem ceellOtaVerParse_refused {s : List Char} (ver : OtaVer)
    (h : ¬ ∃ t : VerText, cstr s = t.text ∧ t.InRange) :
    ceellOtaVerParse (some s) ver = (-EINVAL, ver) := by
  rw [ceellOtaVerParse]
  split
  · rename_i hparts
    obtain ⟨t, hs, rfl, rfl, rfl⟩ := verParts_eq_some.mp hparts
    have hrange : t.major.value > 255 ∨ t.minor.value > 255 ∨ t.patch.value > 65535 := by
      by_contra hfits
      exact h ⟨t, hs, by omega, by omega, by omega⟩
    simp only [Bool.or_eq_true, decide_eq_true_eq, or_assoc, hrange, if_true]
  · rfl

/-! ## The documented texts -/

/-- The text is exactly three runs of decimal digits, separated by single
dots, and these are the numbers of the version. -/
def IsVersion (s : List Char) (v : OtaVer) : Prop :=
  ∃ d₁ d₂ d₃ : List Char, s = d₁ ++ '.' :: (d₂ ++ '.' :: d₃) ∧
    (∀ d ∈ [d₁, d₂, d₃], d ≠ [] ∧ ∀ c ∈ d, c.isDigit = true) ∧
    Nat.ofDigitChars 10 d₁ 0 = v.major.toNat ∧ Nat.ofDigitChars 10 d₂ 0 = v.minor.toNat ∧
    Nat.ofDigitChars 10 d₃ 0 = v.patch.toNat

/-- The parser reads a documented text as its version, and refuses every
other text without a change to `*ver`. -/
def ParsesStrictly (s : List Char) (ver : OtaVer) : Prop :=
  (∀ v, IsVersion (cstr s) v → ceellOtaVerParse (some s) ver = (0, v)) ∧
  ((¬ ∃ v, IsVersion (cstr s) v) → ceellOtaVerParse (some s) ver = (-EINVAL, ver))

/-- Three numbers in range with dots between them, of which at least one
has blanks or a sign before its digits, or behind which the text goes on. -/
def LaxVersion (s : List Char) : Prop := ∃ t : VerText, s = t.text ∧ t.InRange ∧ ¬ t.Strict

/-- The digits of a number in range, as a number. -/
def Numeral.ofDigits (d : List Char) (h : d ≠ [] ∧ ∀ c ∈ d, c.isDigit = true) : Numeral :=
  ⟨[], none, d, by simp, h.1, h.2⟩

theorem Numeral.value_ofDigits {d : List Char} (h : d ≠ [] ∧ ∀ c ∈ d, c.isDigit = true)
    (hlt : Nat.ofDigitChars 10 d 0 ≤ 65535) :
    (Numeral.ofDigits d h).value = Nat.ofDigitChars 10 d 0 := by
  have hfits : ¬ ulongMax < Nat.ofDigitChars 10 d 0 := by
    rw [ulongMax]
    omega
  simp [Numeral.value, Numeral.ofDigits, hfits]

/-- A documented text is a strict one. -/
theorem IsVersion.strict {s : List Char} {v : OtaVer} (h : IsVersion s v) :
    ∃ t : VerText, s = t.text ∧ t.InRange ∧ t.Strict ∧ t.ver = v := by
  obtain ⟨d₁, d₂, d₃, rfl, hdigits, h₁, h₂, h₃⟩ := h
  have hd₁ := hdigits d₁ (by simp)
  have hd₂ := hdigits d₂ (by simp)
  have hd₃ := hdigits d₃ (by simp)
  have hmajor := v.major.toNat_lt
  have hminor := v.minor.toNat_lt
  have hpatch := v.patch.toNat_lt
  have hv₁ := Numeral.value_ofDigits hd₁ (by omega)
  have hv₂ := Numeral.value_ofDigits hd₂ (by omega)
  have hv₃ := Numeral.value_ofDigits hd₃ (by omega)
  refine ⟨⟨.ofDigits d₁ hd₁, .ofDigits d₂ hd₂, .ofDigits d₃ hd₃, [], by simp [NoDigitHead]⟩,
    ?_, ⟨?_, ?_, ?_⟩, ⟨⟨rfl, rfl⟩, ⟨rfl, rfl⟩, ⟨rfl, rfl⟩, rfl⟩, ?_⟩
  · simp [VerText.text, Numeral.text, Numeral.ofDigits, signText]
  · dsimp only
    omega
  · dsimp only
    omega
  · dsimp only
    omega
  · simp [VerText.ver, hv₁, hv₂, hv₃, h₁, h₂, h₃]

theorem Numeral.Plain.text {n : Numeral} (h : n.Plain) : n.text = n.digits := by
  rw [Numeral.text, h.1, h.2]
  rfl

/-- A small value is neither saturated nor negated. -/
theorem Numeral.Plain.value {n : Numeral} (h : n.Plain) (hle : n.value ≤ 65535) :
    Nat.ofDigitChars 10 n.digits 0 = n.value := by
  unfold Numeral.value at hle ⊢
  dsimp only at hle ⊢
  rw [h.2] at hle ⊢
  split at hle
  · rw [ulongMax] at hle
    omega
  · rename_i hfits
    rw [if_neg hfits, if_neg (by simp)]

/-- And a strict one in range is documented. -/
theorem VerText.isVersion {t : VerText} (hstrict : t.Strict) (hrange : t.InRange) :
    IsVersion t.text t.ver := by
  obtain ⟨hmajor, hminor, hpatch, htail⟩ := hstrict
  obtain ⟨h₁, h₂, h₃⟩ := hrange
  refine ⟨t.major.digits, t.minor.digits, t.patch.digits, ?_, ?_, ?_, ?_, ?_⟩
  · rw [VerText.text, hmajor.text, hminor.text, hpatch.text, htail, List.append_nil]
  · intro d hd
    simp only [List.mem_cons, List.not_mem_nil, or_false] at hd
    rcases hd with rfl | rfl | rfl
    · exact ⟨t.major.digits_ne_nil, t.major.digits_digit⟩
    · exact ⟨t.minor.digits_ne_nil, t.minor.digits_digit⟩
    · exact ⟨t.patch.digits_ne_nil, t.patch.digits_digit⟩
  · rw [hmajor.value (by omega), VerText.ver, UInt8.toNat_ofNat']
    omega
  · rw [hminor.value (by omega), VerText.ver, UInt8.toNat_ofNat']
    omega
  · rw [hpatch.value h₃, VerText.ver, UInt16.toNat_ofNat']
    omega

/-- A digit or a dot. -/
def verChar (c : Char) : Bool := c.isDigit || c == '.'

theorem IsVersion.chars {s : List Char} {v : OtaVer} (h : IsVersion s v) :
    (∀ c ∈ s, verChar c = true) ∧ s.count '.' = 2 := by
  obtain ⟨d₁, d₂, d₃, rfl, hdigits, _⟩ := h
  have hchars : ∀ d ∈ [d₁, d₂, d₃], ∀ c ∈ d, verChar c = true := fun d hd c hc => by
    simp [verChar, (hdigits d hd).2 c hc]
  have hdots : ∀ d ∈ [d₁, d₂, d₃], d.count '.' = 0 := fun d hd =>
    List.count_eq_zero.mpr fun hdot => absurd ((hdigits d hd).2 '.' hdot) (by decide)
  constructor
  · intro c hc
    simp only [List.mem_append, List.mem_cons] at hc
    rcases hc with hc | rfl | hc | rfl | hc
    · exact hchars d₁ (by simp) c hc
    · decide
    · exact hchars d₂ (by simp) c hc
    · decide
    · exact hchars d₃ (by simp) c hc
  · have h₁ := hdots d₁ (by simp)
    have h₂ := hdots d₂ (by simp)
    have h₃ := hdots d₃ (by simp)
    simp [List.count_append, h₁, h₂, h₃]

theorem Numeral.plain_of_chars {n : Numeral} (h : ∀ c ∈ n.text, verChar c = true) : n.Plain := by
  constructor
  · refine List.eq_nil_iff_forall_not_mem.mpr fun c hc => ?_
    have hver := h c (by simp [Numeral.text, hc])
    have hspace := n.blanks_space c hc
    simp only [verChar, Bool.or_eq_true, beq_iff_eq] at hver
    rcases hver with hdigit | rfl
    · rw [isSpace_of_isDigit hdigit] at hspace
      cases hspace
    · exact absurd hspace (by decide)
  · cases hs : n.sign with
    | none => rfl
    | some negative =>
      cases negative with
      | true => exact absurd (h '-' (by simp [Numeral.text, hs, signText])) (by decide)
      | false => exact absurd (h '+' (by simp [Numeral.text, hs, signText])) (by decide)

/-- A documented text cannot be read in another way: a blank or a sign is no
part of it, and a third dot would follow the last number. -/
theorem IsVersion.not_lax {s : List Char} {v : OtaVer} (h : IsVersion s v) : ¬ LaxVersion s := by
  rintro ⟨t, rfl, _, hlax⟩
  obtain ⟨hchars, hdots⟩ := h.chars
  refine hlax ⟨?_, ?_, ?_, ?_⟩
  · exact Numeral.plain_of_chars fun c hc => hchars c (by simp [VerText.text, hc])
  · exact Numeral.plain_of_chars fun c hc => hchars c (by simp [VerText.text, hc])
  · exact Numeral.plain_of_chars fun c hc => hchars c (by simp [VerText.text, hc])
  · cases htail : t.tail with
    | nil => rfl
    | cons c r =>
      have hver := hchars c (by simp [VerText.text, htail])
      have hdigit : c.isDigit = false := t.tail_noDigit c (by simp [htail])
      have hdot : c = '.' := by simpa [verChar, hdigit] using hver
      simp only [VerText.text, htail, hdot, List.count_append, List.count_cons_self] at hdots
      omega

/-- **For every text**: the parser is strict about it exactly if it is not
a lax version. -/
theorem parsesStrictly_iff (s : List Char) (ver : OtaVer) :
    ParsesStrictly s ver ↔ ¬ LaxVersion (cstr s) := by
  constructor
  · rintro ⟨_, hrefuses⟩ ⟨t, hs, hrange, hstrict⟩
    have hnot : ¬ ∃ v, IsVersion (cstr s) v := fun ⟨v, hv⟩ => hv.not_lax ⟨t, hs, hrange, hstrict⟩
    have hparse := ceellOtaVerParse_text hs hrange ver
    rw [hrefuses hnot] at hparse
    simp [EINVAL] at hparse
  · intro hlax
    constructor
    · intro v hv
      obtain ⟨t, hs, hrange, _, rfl⟩ := hv.strict
      exact ceellOtaVerParse_text hs hrange ver
    · intro hnot
      refine ceellOtaVerParse_refused ver ?_
      rintro ⟨t, hs, hrange⟩
      have hstrict : t.Strict := by
        by_contra hstrict
        exact hlax ⟨t, hs, hrange, hstrict⟩
      exact hnot ⟨t.ver, hs ▸ t.isVersion hstrict hrange⟩

/-- A fourth number is read over. -/
theorem fourthNumber_not_strict :
    ceellOtaVerParse (some "1.2.3.4".toList) ⟨0, 0, 0⟩ = (0, ⟨1, 2, 3⟩) ∧
      ¬ ParsesStrictly "1.2.3.4".toList ⟨0, 0, 0⟩ := by
  have hparse : ceellOtaVerParse (some "1.2.3.4".toList) ⟨0, 0, 0⟩ = (0, ⟨1, 2, 3⟩) := by decide
  refine ⟨hparse, fun hstrict => ?_⟩
  have hnot : ¬ ∃ v, IsVersion (cstr "1.2.3.4".toList) v := by
    rintro ⟨v, hv⟩
    exact absurd hv.chars.2 (by decide)
  rw [hstrict.2 hnot] at hparse
  simp [EINVAL] at hparse

/-! ## Printing -/

/-- The format `%u.%u.%u`. -/
def verText (ver : OtaVer) : List Char :=
  Nat.toDigits 10 ver.major.toNat ++ '.' :: (Nat.toDigits 10 ver.minor.toNat ++
    '.' :: Nat.toDigits 10 ver.patch.toNat)

/-- `ceell_ota_ver_to_str`: the buffer, and what `snprintf` returns. -/
def ceellOtaVerToStr {n : Nat} (ver : OtaVer) (buf : CharBuf n) : CharBuf n × Int :=
  -- what does not fit is left out, and a NUL is put behind the rest
  (buf.memcpy 0 ((verText ver).take (n - 1) ++ [nul]), (verText ver).length)

section Print

variable {n : Nat}

/-- The printed number. -/
theorem toDigits_digits (k : Nat) :
    Nat.toDigits 10 k ≠ [] ∧ ∀ c ∈ Nat.toDigits 10 k, c.isDigit = true :=
  ⟨Nat.toDigits_ne_nil, fun _ hc => Nat.isDigit_of_mem_toDigits (by decide) (by decide) hc⟩

theorem isVersion_verText (ver : OtaVer) : IsVersion (verText ver) ver := by
  refine ⟨_, _, _, rfl, ?_, ?_, ?_, ?_⟩
  · intro d hd
    simp only [List.mem_cons, List.not_mem_nil, or_false] at hd
    rcases hd with rfl | rfl | rfl
    · exact toDigits_digits _
    · exact toDigits_digits _
    · exact toDigits_digits _
  · exact Nat.ofDigitChars_ten_toDigits
  · exact Nat.ofDigitChars_ten_toDigits
  · exact Nat.ofDigitChars_ten_toDigits

theorem nul_notMem_verText (ver : OtaVer) : nul ∉ verText ver := fun h =>
  absurd ((isVersion_verText ver).chars.1 nul h) (by decide)

/-- The longest text is that of 255.255.65535. -/
theorem length_verText_le (ver : OtaVer) : (verText ver).length ≤ 13 := by
  have hmajor : (Nat.toDigits 10 ver.major.toNat).length ≤ 3 :=
    (Nat.length_toDigits_le_iff (by decide) (by decide)).mpr (by have := ver.major.toNat_lt; omega)
  have hminor : (Nat.toDigits 10 ver.minor.toNat).length ≤ 3 :=
    (Nat.length_toDigits_le_iff (by decide) (by decide)).mpr (by have := ver.minor.toNat_lt; omega)
  have hpatch : (Nat.toDigits 10 ver.patch.toNat).length ≤ 5 :=
    (Nat.length_toDigits_le_iff (by decide) (by decide)).mpr (by have := ver.patch.toNat_lt; omega)
  simp only [verText, List.length_append, List.length_cons]
  omega

/-- In a buffer of at least 14 bytes the text is complete. -/
theorem bytes_ceellOtaVerToStr (hn : 14 ≤ n) (ver : OtaVer) (buf : CharBuf n) :
    (ceellOtaVerToStr ver buf).1.bytes =
      verText ver ++ nul :: buf.bytes.drop ((verText ver).length + 1) := by
  have hlen := length_verText_le ver
  change (buf.memcpy 0 ((verText ver).take (n - 1) ++ [nul])).bytes = _
  rw [List.take_of_length_le (by omega), CharBuf.bytes_memcpy _ (by simp; omega)]
  simp

theorem parse_verToStr (hn : 14 ≤ n) (ver : OtaVer) (buf : CharBuf n) (out : OtaVer) :
    ceellOtaVerParse (some (ceellOtaVerToStr ver buf).1.bytes) out = (0, ver) := by
  obtain ⟨t, ht, hrange, _, hver⟩ := (isVersion_verText ver).strict
  have hstr : cstr (ceellOtaVerToStr ver buf).1.bytes = t.text := by
    rw [bytes_ceellOtaVerToStr hn, cstr_append_nul (nul_notMem_verText ver), ht]
  rw [ceellOtaVerParse_text hstr hrange, hver]

/-- **Printed versions** parse to what was printed, and so compare in the
lexicographic order of their three numbers. -/
theorem verToStr_roundTrip {m : Nat} (hn : 14 ≤ n) (hm : 14 ≤ m) (a b : OtaVer) (bufA : CharBuf n)
    (bufB : CharBuf m) (x y : OtaVer) :
    let printedA := (ceellOtaVerToStr a bufA).1
    let printedB := (ceellOtaVerToStr b bufB).1
    let cmp := ceellOtaVerCmp (ceellOtaVerParse (some printedA.bytes) x).2
      (ceellOtaVerParse (some printedB.bytes) y).2
    printedA.Terminated ∧ ceellOtaVerParse (some printedA.bytes) x = (0, a) ∧
      (cmp < 0 ↔ a.key < b.key) ∧ (cmp = 0 ↔ a.key = b.key) ∧ (0 < cmp ↔ b.key < a.key) := by
  dsimp only
  rw [parse_verToStr hn, parse_verToStr hm]
  have hpos : 0 < ceellOtaVerCmp a b ↔ b.key < a.key := ceellOtaVerCmp_pos_iff a b
  have hneg : ceellOtaVerCmp a b < 0 ↔ a.key < b.key := by
    have hswap : 0 < ceellOtaVerCmp b a ↔ a.key < b.key := ceellOtaVerCmp_pos_iff b a
    rw [← hswap, ceellOtaVerCmp_swap]
    omega
  have hzero : ceellOtaVerCmp a b = 0 ↔ a.key = b.key := by
    rcases lt_trichotomy a.key b.key with hlt | heq | hgt
    · have := hneg.mpr hlt
      exact iff_of_false (by omega) hlt.ne
    · rw [heq] at hneg hpos
      simp only [lt_self_iff_false, iff_false] at hneg hpos
      exact iff_of_true (by omega) heq
    · have := hpos.mpr hgt
      exact iff_of_false (by omega) hgt.ne'
  refine ⟨?_, rfl, hneg, hzero, hpos⟩
  rw [CharBuf.Terminated, bytes_ceellOtaVerToStr hn]
  simp

/-- The longest text, in the shortest buffer that holds it. -/
theorem verToStr_roundTrip_longest :
    let printed := (ceellOtaVerToStr ⟨255, 255, 65535⟩ (.zero 14)).1
    let cmp := ceellOtaVerCmp (ceellOtaVerParse (some printed.bytes) ⟨0, 0, 0⟩).2
      (ceellOtaVerParse (some printed.bytes) ⟨0, 0, 0⟩).2
    printed.Terminated ∧ ceellOtaVerParse (some printed.bytes) ⟨0, 0, 0⟩ = (0, ⟨255, 255, 65535⟩) ∧
      cmp = 0 := by
  obtain ⟨hterminated, hparse, _, hequal, _⟩ :=
    verToStr_roundTrip (Nat.le_refl 14) (Nat.le_refl 14) ⟨255, 255, 65535⟩ ⟨255, 255, 65535⟩
      (.zero 14) (.zero 14) ⟨0, 0, 0⟩ ⟨0, 0, 0⟩
  exact ⟨hterminated, hparse, hequal.mpr rfl⟩

end Print

end Ceell.Ota
