/-
Ceell.Osal.JsonReference — a small in-place JSON parser and an encoder
that behave as documented on objects whose strings need no escape.

Each scanner returns what it read, the text it leaves behind, and the
rest. The text it leaves is the text it passed, but for a NUL over the
closing quote of every string that is stored. The parser knows no escapes
and no nested values: what it does not know it rejects.

`jsonReference_documented` and `jsonReference_unambiguous` are the reason
it is here: what the results about the wire assume of the library is the
behaviour of a program.
-/
import Ceell.Osal.Json
import Mathlib.Data.List.Basic

namespace Ceell.Osal

open Ceell.Lib

/-! ## The parser -/

/-- What a scanner read, the text it leaves for it, and what follows. -/
structure Scan (α : Type) where
  val : α
  shown : List Char
  rest : List Char

/-- A string literal after its opening quote: its bytes and what follows
the closing quote. -/
def scanString : List Char → Option (List Char × List Char)
  | [] => none
  | c :: cs =>
      if c = '"' then some ([], cs)
      else if plainChar c then (scanString cs).map fun r => (c :: r.1, r.2)
      else none

/-- The longest run of digits. -/
def scanDigits (cs : List Char) : List Char × List Char :=
  (cs.takeWhile Char.isDigit, cs.dropWhile Char.isDigit)

/-- A natural number. -/
def scanNat (cs : List Char) : Option (Scan Nat) :=
  let r := scanDigits cs
  if r.1 ≠ [] then some ⟨Nat.ofDigitChars 10 r.1 0, r.1, r.2⟩ else none

/-- A number that is an `int`. -/
def scanInt (cs : List Char) : Option (Scan Int) :=
  let r : Option (Scan Int) := match cs with
    | '-' :: cs => (scanNat cs).map fun r => ⟨-(r.val : Int), '-' :: r.shown, r.rest⟩
    | cs => (scanNat cs).map fun r => ⟨r.val, r.shown, r.rest⟩
  r.filter fun r => IsInt32 r.val

/-- A value; `close` goes over the closing quote of a string. -/
def scanValue (close : Char) : List Char → Option (Scan JsonVal)
  | '"' :: cs => (scanString cs).map fun r => ⟨.str r.1, '"' :: r.1 ++ [close], r.2⟩
  | cs => (scanInt cs).map fun r => ⟨.num r.val, r.shown, r.rest⟩

/-- A member: `"key":value`. -/
def scanField (close : List Char → Char) : List Char → Option (Scan JsonField)
  | '"' :: cs =>
      match scanString cs with
      | some (key, ':' :: cs) =>
          (scanValue (close key) cs).map fun r =>
            ⟨(key, r.val), '"' :: key ++ '"' :: ':' :: r.shown, r.rest⟩
      | _ => none
  | _ => none

/-- The members after the opening brace and the text left; the fuel bounds
their number. -/
def scanMembers (close : List Char → Char) : Nat → List Char → Option (List JsonField × List Char)
  | 0, _ => none
  | fuel + 1, cs =>
      match scanField close cs with
      | some ⟨f, shown, '}' :: cs⟩ => some ([f], shown ++ '}' :: cs)
      | some ⟨f, shown, ',' :: cs⟩ =>
          (scanMembers close fuel cs).map fun r => (f :: r.1, shown ++ ',' :: r.2)
      | _ => none

/-- The character the parser puts over a closing quote. -/
def closeOf (descr : List JsonObjDescr) (key : List Char) : Char :=
  if descr.any fun d => d.fieldName == key then nul else '"'

/-- The parse of an object; a member without a descriptor is skipped. -/
def referenceParse (descr : List JsonObjDescr) (buf : List Char) : JsonParsed :=
  let failed : JsonParsed := ⟨-EINVAL, fun _ => none, buf⟩
  match buf with
  | '{' :: cs =>
      match scanMembers (closeOf descr) cs.length cs with
      | some (fs, out) =>
          if Matches descr fs then
            { ret := (fs.countP fun f => descr.any fun d => d.fieldName == f.1 : Nat)
              val := fun name =>
                if descr.any fun d => d.fieldName == name then fs.lookup name else none
              buf := '{' :: out }
          else failed
      | none => failed
  | _ => failed

/-- The encoder: the text of an object it knows, if it fits with its
terminator. -/
def referenceEncode (fs : List JsonField) (size : Nat) : Int × List Char :=
  if fs ≠ [] ∧ (∀ f ∈ fs, PlainField f) ∧ (renderObj fs).length < size then (0, renderObj fs)
  else (-ENOMEM, [])

def jsonReference : JsonLib := ⟨referenceEncode, referenceParse⟩

/-! ## The scanners on rendered text -/

theorem plainChar_ne_quote {c : Char} (h : plainChar c = true) : c ≠ '"' := by
  rintro rfl
  revert h
  decide

theorem scanString_append {s : List Char} (h : Plain s) (r : List Char) :
    scanString (s ++ '"' :: r) = some (s, r) := by
  induction s with
  | nil => simp [scanString]
  | cons c s ih =>
    have hc : plainChar c = true := h c List.mem_cons_self
    have ih' := ih fun x hx => h x (List.mem_cons_of_mem _ hx)
    simp [scanString, plainChar_ne_quote hc, hc, ih']

/-- A NUL ends the scan of a string literal with an error. -/
theorem scanString_nul {s : List Char} (h : Plain s) (r : List Char) :
    scanString (s ++ nul :: r) = none := by
  induction s with
  | nil => simp [scanString, nul, plainChar]
  | cons c s ih =>
    have hc : plainChar c = true := h c List.mem_cons_self
    have ih' := ih fun x hx => h x (List.mem_cons_of_mem _ hx)
    simp [scanString, plainChar_ne_quote hc, hc, ih']

/-- What follows a number does not go on with a digit. -/
def NoDigitHead (r : List Char) : Prop := ∀ c ∈ r.head?, c.isDigit = false

theorem scanDigits_append {ds r : List Char} (hd : ∀ c ∈ ds, c.isDigit = true)
    (hr : NoDigitHead r) : scanDigits (ds ++ r) = (ds, r) := by
  have htake : (ds ++ r).takeWhile Char.isDigit = ds := by
    rw [List.takeWhile_append_of_pos hd]
    cases r with
    | nil => simp
    | cons c r => simp [hr c rfl]
  have hdrop : (ds ++ r).dropWhile Char.isDigit = r := by
    rw [List.dropWhile_append_of_pos hd]
    cases r with
    | nil => rfl
    | cons c r => simp [hr c rfl]
  rw [scanDigits, htake, hdrop]

theorem scanNat_toDigits (n : Nat) {r : List Char} (hr : NoDigitHead r) :
    scanNat (Nat.toDigits 10 n ++ r) = some ⟨n, Nat.toDigits 10 n, r⟩ := by
  have hne : Nat.toDigits 10 n ≠ [] := Nat.toDigits_ne_nil
  have hval : Nat.ofDigitChars 10 (Nat.toDigits 10 n) 0 = n :=
    Nat.ofDigitChars_toDigits (by decide) (by decide)
  have hdigits : ∀ c ∈ Nat.toDigits 10 n, c.isDigit = true :=
    fun c hc => Nat.isDigit_of_mem_toDigits (by decide) (by decide) hc
  rw [scanNat, scanDigits_append hdigits hr]
  simp [hne, hval]

/-- A number does not start with anything but a digit. -/
theorem toDigits_append_ne_cons {c : Char} (hc : c.isDigit = false) (n : Nat) (r cs : List Char) :
    Nat.toDigits 10 n ++ r ≠ c :: cs := by
  intro h
  cases hd : Nat.toDigits 10 n with
  | nil => exact Nat.toDigits_ne_nil hd
  | cons d ds =>
    have hmem : d ∈ Nat.toDigits 10 n := by
      rw [hd]
      exact List.mem_cons_self
    have hdigit : d.isDigit = true := Nat.isDigit_of_mem_toDigits (by decide) (by decide) hmem
    rw [hd, List.cons_append] at h
    obtain ⟨rfl, _⟩ := List.cons.inj h
    rw [hc] at hdigit
    cases hdigit

theorem scanInt_intChars {n : Int} (hn : IsInt32 n) {r : List Char} (hr : NoDigitHead r) :
    scanInt (intChars n ++ r) = some ⟨n, intChars n, r⟩ := by
  unfold intChars
  split
  · rename_i hneg
    obtain ⟨m, rfl⟩ : ∃ m : Nat, n = -(m : Int) := ⟨n.natAbs, by omega⟩
    simp [scanInt, scanNat_toDigits m hr, hn]
  · rename_i hpos
    obtain ⟨m, rfl⟩ : ∃ m : Nat, n = (m : Int) := ⟨n.natAbs, by omega⟩
    unfold scanInt
    split
    · rename_i cs h
      exact absurd h (toDigits_append_ne_cons (by decide) _ _ _)
    · simp [scanNat_toDigits m hr, hn]

/-- The text of a number does not start with a quote. -/
theorem intChars_append_ne_quote (n : Int) (r cs : List Char) : intChars n ++ r ≠ '"' :: cs := by
  intro h
  unfold intChars at h
  split at h
  · simp at h
  · exact toDigits_append_ne_cons (by decide) _ _ _ h

theorem scanValue_int {close : Char} {n : Int} (hn : IsInt32 n) {r : List Char}
    (hr : NoDigitHead r) : scanValue close (intChars n ++ r) = some ⟨.num n, intChars n, r⟩ := by
  unfold scanValue
  split
  · rename_i cs h
    exact absurd h (intChars_append_ne_quote n r cs)
  · rw [scanInt_intChars hn hr]
    rfl

/-- A member is read back, whatever follows it. -/
theorem scanField_render (close : List Char → Char) {f : JsonField} (hf : PlainField f)
    {r : List Char} (hr : NoDigitHead r) :
    scanField close (renderField '"' f ++ r) = some ⟨f, renderField (close f.1) f, r⟩ := by
  obtain ⟨key, v⟩ := f
  obtain ⟨hkey, hv⟩ := hf
  have hscan := fun rest => scanString_append hkey rest
  cases v with
  | str s =>
    have hs := scanString_append (s := s) hv r
    simp [renderField, scanField, hscan, scanValue, hs]
  | num n =>
    have hn : scanValue (close key) (intChars n ++ r) = some ⟨.num n, intChars n, r⟩ :=
      scanValue_int hv hr
    simp [renderField, scanField, hscan, hn]

theorem noDigitHead_cons {c : Char} (h : c.isDigit = false) (r : List Char) :
    NoDigitHead (c :: r) := by
  intro x hx
  obtain rfl := Option.some.inj hx
  exact h

/-- The members are read back, given fuel for each. -/
theorem scanMembers_render (close : List Char → Char) :
    ∀ (fuel : Nat) (fs : List JsonField), fs ≠ [] → fs.length ≤ fuel → (∀ f ∈ fs, PlainField f) →
      scanMembers close fuel (renderMembers (fun _ => '"') fs) = some (fs, renderMembers close fs)
  | _, [], hne, _, _ => absurd rfl hne
  | 0, f :: fs, _, hlen, _ => by simp at hlen
  | fuel + 1, [f], _, _, hplain => by
      have hf := scanField_render close (hplain f List.mem_cons_self)
        (noDigitHead_cons (c := '}') (by decide) [])
      simp [scanMembers, renderMembers, hf]
  | fuel + 1, f :: g :: fs, _, hlen, hplain => by
      have hf := scanField_render close (hplain f List.mem_cons_self)
        (noDigitHead_cons (c := ',') (by decide) (renderMembers (fun _ => '"') (g :: fs)))
      have ih := scanMembers_render close fuel (g :: fs) (List.cons_ne_nil _ _)
        (by simpa using hlen) (fun x hx => hplain x (List.mem_cons_of_mem _ hx))
      simp [scanMembers, renderMembers, hf, ih]

theorem length_le_renderMembers (close : List Char → Char) :
    ∀ fs : List JsonField, fs.length ≤ (renderMembers close fs).length
  | [] => Nat.zero_le _
  | [f] => by simp [renderMembers, renderField]
  | f :: g :: fs => by
      have ih := length_le_renderMembers close (g :: fs)
      simp only [renderMembers, List.length_append, List.length_cons] at ih ⊢
      omega

/-! ## The library is as documented -/

theorem referenceParse_render (descr : List JsonObjDescr) {fs : List JsonField} (hne : fs ≠ [])
    (hplain : ∀ f ∈ fs, PlainField f) (hmatch : Matches descr fs) :
    referenceParse descr (renderObj fs) =
      { ret := (fs.countP fun f => descr.any fun d => d.fieldName == f.1 : Nat)
        val := fun name => if descr.any fun d => d.fieldName == name then fs.lookup name else none
        buf := spoiledObj descr fs } := by
  have hscan := scanMembers_render (closeOf descr) _ fs hne
    (length_le_renderMembers (fun _ => '"') fs) hplain
  simp only [referenceParse, renderObj, renderObjWith, hscan, if_pos hmatch]
  rfl

/-- What a successful encoding is. -/
theorem referenceEncode_ok {fs : List JsonField} {size : Nat}
    (h : (referenceEncode fs size).1 = 0) :
    fs ≠ [] ∧ (∀ f ∈ fs, PlainField f) ∧ (referenceEncode fs size).2 = renderObj fs := by
  unfold referenceEncode at h ⊢
  split
  · rename_i hok
    exact ⟨hok.1, hok.2.1, rfl⟩
  · rename_i hbad
    rw [if_neg hbad] at h
    exact absurd h (by decide)

/-- The text of an object determines it. -/
theorem renderObj_injective {fs gs : List JsonField} (hf : fs ≠ []) (hfp : ∀ f ∈ fs, PlainField f)
    (hg : gs ≠ []) (hgp : ∀ f ∈ gs, PlainField f) (heq : renderObj gs = renderObj fs) :
    gs = fs := by
  have htext : renderMembers (fun _ => '"') gs = renderMembers (fun _ => '"') fs :=
    (List.cons.inj heq).2
  have hscanf := scanMembers_render (fun _ => '"') (fs.length + gs.length) fs hf (by omega) hfp
  have hscang := scanMembers_render (fun _ => '"') (fs.length + gs.length) gs hg (by omega) hgp
  rw [htext, hscanf] at hscang
  simp only [Option.some.injEq, Prod.mk.injEq] at hscang
  exact hscang.1.symm

theorem jsonReference_documented : jsonReference.Documented where
  encode_plain := fun fs size _ _ hret => (referenceEncode_ok hret).2.2
  parse_plain := by
    intro descr fs hne hplain _ hmatch
    have h := referenceParse_render descr hne hplain hmatch
    have hparse : jsonReference.parse descr (renderObj fs) = referenceParse descr (renderObj fs) :=
      rfl
    rw [hparse, h]
    refine ⟨Int.natCast_nonneg _, fun d hd => if_pos ?_, rfl⟩
    exact List.any_eq_true.mpr ⟨d, hd, beq_self_eq_true _⟩
  parse_nul := by
    intro descr key s rest hkey hs
    have hscan : ∀ fuel, scanMembers (closeOf descr) fuel
        ('"' :: key ++ '"' :: ':' :: '"' :: s ++ nul :: rest) = none := by
      intro fuel
      cases fuel with
      | zero => rfl
      | succ fuel =>
        have hk := scanString_append hkey (':' :: '"' :: (s ++ nul :: rest))
        simp [scanMembers, scanField, scanValue, hk, scanString_nul hs]
    have hparse : jsonReference.parse descr
        ('{' :: '"' :: key ++ '"' :: ':' :: '"' :: s ++ nul :: rest)
          = referenceParse descr
            ('{' :: ('"' :: key ++ '"' :: ':' :: '"' :: s ++ nul :: rest)) := by
      rfl
    rw [hparse, referenceParse, hscan]
    show -EINVAL < 0
    decide

theorem jsonReference_encodesFitting : jsonReference.EncodesFitting := by
  intro fs size hne hplain hlen
  have hok : fs ≠ [] ∧ (∀ f ∈ fs, PlainField f) ∧ (renderObj fs).length < size :=
    ⟨hne, hplain, hlen⟩
  show (referenceEncode fs size).1 = 0
  rw [referenceEncode, if_pos hok]

theorem jsonReference_unambiguous : jsonReference.Unambiguous := by
  intro fs gs size hret heq
  obtain ⟨hf, hfp, htext⟩ := referenceEncode_ok hret
  have hfs : cstr (referenceEncode fs size).2 = renderObj fs := by
    rw [htext, cstr_eq_self (nul_notMem_renderObj hfp)]
  have heq' : cstr (referenceEncode gs size).2 = renderObj fs := heq.trans hfs
  unfold referenceEncode at heq'
  split at heq'
  · rename_i hok
    rw [cstr_eq_self (nul_notMem_renderObj hok.2.1)] at heq'
    exact renderObj_injective hf hfp hok.1 hok.2.1 heq'
  · exact absurd heq'.symm (List.cons_ne_nil _ _)

end Ceell.Osal
