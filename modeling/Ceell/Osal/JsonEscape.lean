/-
Ceell.Osal.JsonEscape — the escapes of the JSON library.

The encoder writes seven characters of a string as two; the parser checks
the escapes of a string but does not undo them, so what it stores is the
text between the quotes. `JsonLib.EscapesStrings` says both of any object;
it is what results about strings with special characters rest on.
`jsonEscapeReference` is a small library that behaves so.
-/
import Ceell.Lib.Escape
import Ceell.Osal.JsonReference

namespace Ceell.Osal

open Ceell.Lib

/-! ## The escapes -/

/-- What stands after the backslash for each character the encoder
escapes. -/
def escapeAs (c : Char) : Option Char :=
  if c = '"' then some '"'
  else if c = '\\' then some '\\'
  else if c = '\x08' then some 'b'
  else if c = '\x0c' then some 'f'
  else if c = '\n' then some 'n'
  else if c = '\x0d' then some 'r'
  else if c = '\t' then some 't'
  else none

def jsonEscape : Escape Char := ⟨'\\', escapeAs, rfl⟩

/-- The field as it stands in the text. -/
def escapeField (f : JsonField) : JsonField :=
  (f.1, match f.2 with
    | .str s => .str (jsonEscape.str s)
    | .num n => .num n)

@[simp] theorem fst_escapeField (f : JsonField) : (escapeField f).1 = f.1 := rfl

/-- A field of C values: the key is plain, a string value is any C string,
a number is an `int`. -/
def StringField (f : JsonField) : Prop :=
  Plain f.1 ∧ match f.2 with
    | .str s => nul ∉ s
    | .num n => IsInt32 n

instance : DecidablePred StringField
  | (key, .str s) => inferInstanceAs (Decidable (Plain key ∧ nul ∉ s))
  | (key, .num n) => inferInstanceAs (Decidable (Plain key ∧ IsInt32 n))

/-- The encoder escapes, and the parser stores the text between the
quotes. -/
structure JsonLib.EscapesStrings (lib : JsonLib) : Prop where
  encode_escaped : ∀ fs size, fs ≠ [] → (∀ f ∈ fs, StringField f) →
    (lib.encodeBuf fs size).1 = 0 → (lib.encodeBuf fs size).2 = renderObj (fs.map escapeField)
  parse_raw : ∀ descr fs, fs ≠ [] → (∀ f ∈ fs, StringField f) → (fs.map Prod.fst).Nodup →
    Matches descr fs →
      0 ≤ (lib.parse descr (renderObj (fs.map escapeField))).ret ∧
      ∀ d ∈ descr, (lib.parse descr (renderObj (fs.map escapeField))).val d.fieldName =
        (fs.map escapeField).lookup d.fieldName

/-- The encoder succeeds where the escaped text and its terminator fit. -/
def JsonLib.EncodesEscaped (lib : JsonLib) : Prop :=
  ∀ fs size, fs ≠ [] → (∀ f ∈ fs, StringField f) →
    (renderObj (fs.map escapeField)).length < size → (lib.encodeBuf fs size).1 = 0

/-- What the encoder completes fits with its terminator. -/
def JsonLib.EncodesWithin (lib : JsonLib) : Prop :=
  ∀ fs size, (lib.encodeBuf fs size).1 = 0 → (cstr (lib.encodeBuf fs size).2).length < size

/-- The parser writes a NUL over the closing quote of each string it
stores, and stops at a NUL inside a string. -/
structure JsonLib.SpoilsStrings (lib : JsonLib) : Prop where
  parse_spoils : ∀ descr fs, fs ≠ [] → (∀ f ∈ fs, StringField f) → (fs.map Prod.fst).Nodup →
    Matches descr fs →
      (lib.parse descr (renderObj (fs.map escapeField))).buf = spoiledObj descr (fs.map escapeField)
  parse_nul : ∀ descr key s rest, Plain key → Plain s →
    (lib.parse descr ('{' :: '"' :: key ++ '"' :: ':' :: '"' :: s ++ nul :: rest)).ret < 0

/-- A number that the parser stores is an `int`, as its member is. -/
def JsonLib.StoresInts (lib : JsonLib) : Prop :=
  ∀ descr buf name n, (lib.parse descr buf).val name = some (.num n) → IsInt32 n

theorem JsonLib.StoresInts.num {lib : JsonLib} (h : lib.StoresInts) (descr : List JsonObjDescr)
    (buf : List Char) (name : String) : IsInt32 ((lib.parse descr buf).num name) := by
  unfold JsonParsed.num
  split
  · rename_i n hval
    exact h descr buf _ n hval
  · decide

theorem escapeAs_ne_nul {c d : Char} (h : escapeAs c = some d) : d ≠ nul := by
  unfold escapeAs at h
  rintro rfl
  split_ifs at h
  all_goals exact absurd (Option.some.inj h) (by decide)

/-- Escaping brings no NUL into a string. -/
theorem nul_notMem_escape {s : List Char} (h : nul ∉ s) : nul ∉ jsonEscape.str s := by
  induction s with
  | nil => exact h
  | cons c s ih =>
    rw [List.mem_cons, not_or] at h
    rw [Escape.str_cons, List.mem_append, not_or]
    refine ⟨?_, ih h.2⟩
    cases hc : jsonEscape.code c with
    | none =>
      rw [Escape.symbol_of_none hc, List.mem_singleton]
      exact h.1
    | some d =>
      have hmark : nul ≠ jsonEscape.mark := by decide
      rw [Escape.symbol_of_some hc, List.mem_cons, List.mem_singleton, not_or]
      exact ⟨hmark, (escapeAs_ne_nul hc).symm⟩

theorem StringField.nulFree {f : JsonField} (hf : StringField f) : NulFree (escapeField f) := by
  obtain ⟨key, v⟩ := f
  obtain ⟨hkey, hv⟩ := hf
  refine ⟨nul_notMem_plain hkey, ?_⟩
  cases v with
  | str s => exact nul_notMem_escape (s := s) hv
  | num n => trivial

/-- The text of an object of C values is a C string. -/
theorem nul_notMem_renderObj_escaped {fs : List JsonField} (h : ∀ f ∈ fs, StringField f) :
    nul ∉ renderObj (fs.map escapeField) := by
  refine nul_notMem_renderObj_of_nulFree ?_
  intro g hg
  obtain ⟨f, hf, rfl⟩ := List.mem_map.mp hg
  exact (h f hf).nulFree

/-! ## A library that escapes -/

/-- The characters that may follow a backslash; `\u` is not known here. -/
def escapeCodes : List Char := ['"', '\\', '/', 'b', 'f', 'n', 'r', 't']

/-- A string literal after its opening quote: the text before the closing
one, the escapes left in it, and what follows. -/
def scanRaw : List Char → Option (List Char × List Char)
  | [] => none
  | [c] => if c = '"' then some ([], []) else none
  | c :: d :: cs =>
      if c = '"' then some ([], d :: cs)
      else if c = '\\' then
        if d ∈ escapeCodes then (scanRaw cs).map fun r => (c :: d :: r.1, r.2) else none
      else if c = nul then none
      else (scanRaw (d :: cs)).map fun r => (c :: r.1, r.2)

/-- A value; `close` goes over the closing quote of a string. -/
def scanRawValue (close : Char) : List Char → Option (Scan JsonVal)
  | '"' :: cs => (scanRaw cs).map fun r => ⟨.str r.1, '"' :: r.1 ++ [close], r.2⟩
  | cs => (scanInt cs).map fun r => ⟨.num r.val, r.shown, r.rest⟩

/-- A member: `"key":value`. -/
def scanRawField (close : List Char → Char) : List Char → Option (Scan JsonField)
  | '"' :: cs =>
      match scanString cs with
      | some (key, ':' :: cs) =>
          (scanRawValue (close key) cs).map fun r =>
            ⟨(key, r.val), '"' :: key ++ '"' :: ':' :: r.shown, r.rest⟩
      | _ => none
  | _ => none

/-- The members after the opening brace and the text left. -/
def scanRawMembers (close : List Char → Char) :
    Nat → List Char → Option (List JsonField × List Char)
  | 0, _ => none
  | fuel + 1, cs =>
      match scanRawField close cs with
      | some ⟨f, shown, '}' :: cs⟩ => some ([f], shown ++ '}' :: cs)
      | some ⟨f, shown, ',' :: cs⟩ =>
          (scanRawMembers close fuel cs).map fun r => (f :: r.1, shown ++ ',' :: r.2)
      | _ => none

/-- The parse of an object; a member without a descriptor is skipped. -/
def escapeParse (descr : List JsonObjDescr) (buf : List Char) : JsonParsed :=
  let failed : JsonParsed := ⟨-EINVAL, fun _ => none, buf⟩
  match buf with
  | '{' :: cs =>
      match scanRawMembers (closeOf descr) cs.length cs with
      | some (fs, out) =>
          if Matches descr fs then
            { ret := (fs.countP fun f => descr.any fun d => d.fieldName == f.1 : Nat)
              val := fun name =>
                if descr.any fun d => d.fieldName == name then fs.lookup name else none
              buf := '{' :: out }
          else failed
      | none => failed
  | _ => failed

/-- The encoder: the escaped text of an object of C values, if it fits with
its terminator. -/
def escapeEncode (fs : List JsonField) (size : Nat) : Int × List Char :=
  if fs ≠ [] ∧ (∀ f ∈ fs, StringField f) ∧ (renderObj (fs.map escapeField)).length < size then
    (0, renderObj (fs.map escapeField))
  else (-ENOMEM, [])

def jsonEscapeReference : JsonLib := ⟨escapeEncode, escapeParse⟩

theorem scanRaw_cons {c : Char} (hq : c ≠ '"') (hb : c ≠ '\\') (hn : c ≠ nul) (cs : List Char) :
    scanRaw (c :: cs) = (scanRaw cs).map fun r => (c :: r.1, r.2) := by
  cases cs with
  | nil => simp [scanRaw, hq]
  | cons d cs => simp [scanRaw, hq, hb, hn]

theorem escapeAs_mem_codes {c d : Char} (h : escapeAs c = some d) : d ∈ escapeCodes := by
  unfold escapeAs at h
  split_ifs at h
  all_goals
    obtain rfl := Option.some.inj h
    decide

/-- An escaped string is read as it stands. -/
theorem scanRaw_escape {s : List Char} (h : nul ∉ s) (r : List Char) :
    scanRaw (jsonEscape.str s ++ '"' :: r) = some (jsonEscape.str s, r) := by
  induction s with
  | nil => cases r <;> simp [scanRaw]
  | cons c s ih =>
    rw [List.mem_cons, not_or] at h
    have ih := ih h.2
    cases hc : escapeAs c with
    | none =>
      have hcode : jsonEscape.code c = none := hc
      have hq : c ≠ '"' := by
        rintro rfl
        revert hc
        decide
      have hb : c ≠ '\\' := by
        rintro rfl
        revert hc
        decide
      rw [Escape.str_cons, Escape.symbol_of_none hcode, List.append_assoc, List.singleton_append,
        scanRaw_cons hq hb (Ne.symm h.1), ih]
      rfl
    | some d =>
      have hcode : jsonEscape.code c = some d := hc
      have hmark : jsonEscape.mark = '\\' := rfl
      have hmem := escapeAs_mem_codes hc
      simp [Escape.symbol_of_some hcode, hmark, scanRaw, hmem, ih]

theorem scanRawValue_int {close : Char} {n : Int} (hn : IsInt32 n) {r : List Char}
    (hr : NoDigitHead r) :
    scanRawValue close (intChars n ++ r) = some ⟨.num n, intChars n, r⟩ := by
  unfold scanRawValue
  split
  · rename_i cs h
    exact absurd h (intChars_append_ne_quote n r cs)
  · rw [scanInt_intChars hn hr]
    rfl

/-- A member is read back, whatever follows it. -/
theorem scanRawField_render (close : List Char → Char) {f : JsonField} (hf : StringField f)
    {r : List Char} (hr : NoDigitHead r) :
    scanRawField close (renderField '"' (escapeField f) ++ r) =
      some ⟨escapeField f, renderField (close f.1) (escapeField f), r⟩ := by
  obtain ⟨key, v⟩ := f
  obtain ⟨hkey, hv⟩ := hf
  have hscan := fun rest => scanString_append hkey rest
  cases v with
  | str s =>
    have hs := scanRaw_escape (s := s) hv r
    simp [renderField, escapeField, scanRawField, hscan, scanRawValue, hs]
  | num n =>
    have hn : scanRawValue (close key) (intChars n ++ r) = some ⟨.num n, intChars n, r⟩ :=
      scanRawValue_int hv hr
    simp [renderField, escapeField, scanRawField, hscan, hn]

/-- The members are read back, given fuel for each. -/
theorem scanRawMembers_render (close : List Char → Char) :
    ∀ (fuel : Nat) (fs : List JsonField), fs ≠ [] → fs.length ≤ fuel → (∀ f ∈ fs, StringField f) →
      scanRawMembers close fuel (renderMembers (fun _ => '"') (fs.map escapeField)) =
        some (fs.map escapeField, renderMembers close (fs.map escapeField))
  | _, [], hne, _, _ => absurd rfl hne
  | 0, f :: fs, _, hlen, _ => by simp at hlen
  | fuel + 1, [f], _, _, hstr => by
      have hf := scanRawField_render close (hstr f List.mem_cons_self)
        (noDigitHead_cons (c := '}') (by decide) [])
      simp [scanRawMembers, renderMembers, hf]
  | fuel + 1, f :: g :: fs, _, hlen, hstr => by
      have hf := scanRawField_render close (hstr f List.mem_cons_self)
        (noDigitHead_cons (c := ',') (by decide)
          (renderMembers (fun _ => '"') ((g :: fs).map escapeField)))
      have ih := scanRawMembers_render close fuel (g :: fs) (List.cons_ne_nil _ _)
        (by simpa using hlen) (fun x hx => hstr x (List.mem_cons_of_mem _ hx))
      simp only [List.map_cons] at hf ih ⊢
      simp [scanRawMembers, renderMembers, hf, ih]

theorem escapeParse_render (descr : List JsonObjDescr) {fs : List JsonField} (hne : fs ≠ [])
    (hstr : ∀ f ∈ fs, StringField f) (hmatch : Matches descr (fs.map escapeField)) :
    escapeParse descr (renderObj (fs.map escapeField)) =
      { ret := ((fs.map escapeField).countP fun f => descr.any fun d => d.fieldName == f.1 : Nat)
        val := fun name =>
          if descr.any fun d => d.fieldName == name then (fs.map escapeField).lookup name else none
        buf := spoiledObj descr (fs.map escapeField) } := by
  have hlen : fs.length ≤ (renderMembers (fun _ => '"') (fs.map escapeField)).length := by
    have := length_le_renderMembers (fun _ => '"') (fs.map escapeField)
    rwa [List.length_map] at this
  have hscan := scanRawMembers_render (closeOf descr) _ fs hne hlen hstr
  simp only [escapeParse, renderObj, renderObjWith, hscan, if_pos hmatch]
  rfl

/-- Escaping changes no type. -/
theorem Matches.escape {descr : List JsonObjDescr} {fs : List JsonField} (h : Matches descr fs) :
    Matches descr (fs.map escapeField) := by
  intro g hg d hd hname
  obtain ⟨f, hf, rfl⟩ := List.mem_map.mp hg
  rw [h f hf d hd hname]
  obtain ⟨key, v⟩ := f
  cases v <;> rfl

theorem jsonEscapeReference_escapesStrings : jsonEscapeReference.EscapesStrings where
  encode_escaped := by
    intro fs size hne hstr hret
    show (escapeEncode fs size).2 = _
    have hret : (escapeEncode fs size).1 = 0 := hret
    unfold escapeEncode at hret ⊢
    split
    · rfl
    · rename_i hbad
      rw [if_neg hbad] at hret
      exact absurd hret (by decide)
  parse_raw := by
    intro descr fs hne hstr _ hmatch
    have h := escapeParse_render descr hne hstr hmatch.escape
    have hparse : jsonEscapeReference.parse descr (renderObj (fs.map escapeField)) =
        escapeParse descr (renderObj (fs.map escapeField)) := rfl
    rw [hparse, h]
    refine ⟨Int.natCast_nonneg _, ?_⟩
    intro d hd
    refine if_pos ?_
    exact List.any_eq_true.mpr ⟨d, hd, beq_self_eq_true _⟩

theorem jsonEscapeReference_encodesEscaped : jsonEscapeReference.EncodesEscaped := by
  intro fs size hne hstr hlen
  show (escapeEncode fs size).1 = 0
  rw [escapeEncode, if_pos ⟨hne, hstr, hlen⟩]

theorem jsonEscapeReference_encodesWithin : jsonEscapeReference.EncodesWithin := by
  intro fs size hret
  have hret : (escapeEncode fs size).1 = 0 := hret
  show (cstr (escapeEncode fs size).2).length < size
  unfold escapeEncode at hret ⊢
  split
  · rename_i hok
    rw [cstr_eq_self (nul_notMem_renderObj_escaped hok.2.1)]
    exact hok.2.2
  · rename_i hbad
    rw [if_neg hbad] at hret
    exact absurd hret (by decide)

theorem scanRaw_nul {s : List Char} (hs : Plain s) (r : List Char) :
    scanRaw (s ++ nul :: r) = none := by
  induction s with
  | nil =>
    cases r <;> simp [scanRaw, show nul ≠ '"' by decide, show nul ≠ '\\' by decide]
  | cons c s ih =>
    have hc : plainChar c = true := hs c List.mem_cons_self
    have hb : c ≠ '\\' := by
      rintro rfl
      exact absurd hc (by decide)
    have hn : c ≠ nul := by
      rintro rfl
      exact absurd hc (by decide)
    rw [List.cons_append, scanRaw_cons (plainChar_ne_quote hc) hb hn,
      ih fun x hx => hs x (List.mem_cons_of_mem _ hx)]
    rfl

theorem jsonEscapeReference_spoilsStrings : jsonEscapeReference.SpoilsStrings where
  parse_spoils := by
    intro descr fs hne hstr _ hmatch
    have hparse : jsonEscapeReference.parse descr (renderObj (fs.map escapeField)) =
        escapeParse descr (renderObj (fs.map escapeField)) := rfl
    rw [hparse, escapeParse_render descr hne hstr hmatch.escape]
  parse_nul := by
    intro descr key s rest hkey hs
    have hscan : ∀ fuel, scanRawMembers (closeOf descr) fuel
        ('"' :: key ++ '"' :: ':' :: '"' :: s ++ nul :: rest) = none := by
      intro fuel
      cases fuel with
      | zero => rfl
      | succ fuel =>
        have hk := scanString_append hkey (':' :: '"' :: (s ++ nul :: rest))
        simp [scanRawMembers, scanRawField, scanRawValue, hk, scanRaw_nul hs]
    have hparse : jsonEscapeReference.parse descr
        ('{' :: '"' :: key ++ '"' :: ':' :: '"' :: s ++ nul :: rest)
          = escapeParse descr
            ('{' :: ('"' :: key ++ '"' :: ':' :: '"' :: s ++ nul :: rest)) := by
      rfl
    rw [hparse, escapeParse, hscan]
    show -EINVAL < 0
    decide

/-- A number that is scanned is an `int`. -/
theorem isInt32_scanInt {cs : List Char} {r : Scan Int} (h : scanInt cs = some r) :
    IsInt32 r.val := by
  unfold scanInt at h
  simpa using (Option.filter_eq_some_iff.mp h).2

theorem isInt32_scanRawValue {close : Char} {cs : List Char} {r : Scan JsonVal}
    (h : scanRawValue close cs = some r) {n : Int} (hn : r.val = .num n) : IsInt32 n := by
  unfold scanRawValue at h
  split at h
  · obtain ⟨_, _, rfl⟩ := Option.map_eq_some_iff.mp h
    cases hn
  · obtain ⟨r', hr', rfl⟩ := Option.map_eq_some_iff.mp h
    obtain rfl := JsonVal.num.inj hn
    exact isInt32_scanInt hr'

theorem isInt32_scanRawField {close : List Char → Char} {cs : List Char} {r : Scan JsonField}
    (h : scanRawField close cs = some r) {n : Int} (hn : r.val.2 = .num n) : IsInt32 n := by
  unfold scanRawField at h
  split at h
  · split at h
    · obtain ⟨r', hr', rfl⟩ := Option.map_eq_some_iff.mp h
      exact isInt32_scanRawValue hr' hn
    · cases h
  · cases h

theorem isInt32_scanRawMembers {close : List Char → Char} (fuel : Nat) (cs : List Char)
    {fs : List JsonField} {out : List Char} (h : scanRawMembers close fuel cs = some (fs, out)) :
    ∀ f ∈ fs, ∀ n, f.2 = .num n → IsInt32 n := by
  induction fuel generalizing cs fs out with
  | zero => cases h
  | succ fuel ih =>
    unfold scanRawMembers at h
    split at h
    · rename_i f shown rest hf
      obtain ⟨rfl, _⟩ := Prod.mk.inj (Option.some.inj h)
      intro g hg n hn
      obtain rfl := List.mem_singleton.mp hg
      exact isInt32_scanRawField hf hn
    · rename_i f shown rest hf
      obtain ⟨⟨gs, out'⟩, hgs, heq⟩ := Option.map_eq_some_iff.mp h
      obtain ⟨rfl, _⟩ := Prod.mk.inj heq
      intro g hg n hn
      rcases List.mem_cons.mp hg with rfl | hg
      · exact isInt32_scanRawField hf hn
      · exact ih _ hgs g hg n hn
    · cases h

theorem jsonEscapeReference_storesInts : jsonEscapeReference.StoresInts := by
  intro descr buf name n hval
  have hval : (escapeParse descr buf).val name = some (.num n) := hval
  unfold escapeParse at hval
  dsimp only at hval
  split at hval
  · split at hval
    · rename_i cs fs out hscan
      split at hval
      · dsimp only at hval
        split at hval
        · obtain ⟨f, hf, rfl, hn⟩ : ∃ f ∈ fs, f.1 = name ∧ f.2 = .num n := by
            have hmem := List.lookup_eq_some_iff.mp hval
            obtain ⟨l, r, rfl, _⟩ := hmem
            exact ⟨(name, .num n), by simp, rfl, rfl⟩
          exact isInt32_scanRawMembers _ _ hscan f hf n hn
        · cases hval
      · cases hval
    · cases hval
  · cases hval

end Ceell.Osal
