/-
Ceell.Osal.Json — the platform's JSON library as `ceell/osal/osal_json.h`
re-exports it, with what the messaging code relies on.

The library is a parameter: `JsonLib` has `json_obj_encode_buf` and
`json_obj_parse`. A parse works in place, so its result has the buffer it
leaves next to the fields it stored. `JsonLib.Documented` collects the
documented behaviour that results about the wire rest on; it speaks of
objects whose strings need no escape, `renderObj` being their text.
-/
import Ceell.Core.Types
import Ceell.Lib.CString
import Mathlib.Data.List.Nodup

namespace Ceell.Osal

open Ceell.Lib

/-! ## The interface -/

/-- `enum json_tokens`, the two used here. -/
inductive JsonTok where
  | string -- JSON_TOK_STRING, a `char *`
  | number -- JSON_TOK_NUMBER, an `int`
  deriving DecidableEq, Repr

/-- `struct json_obj_descr`: the field's name and its token. -/
structure JsonObjDescr where
  fieldName : List Char
  type : JsonTok
  deriving DecidableEq

inductive JsonVal where
  | str (s : List Char)
  | num (n : Int)
  deriving DecidableEq, Repr

def JsonVal.tok : JsonVal → JsonTok
  | .str _ => .string
  | .num _ => .number

/-- A member of an object, in the order of its descriptors. -/
abbrev JsonField := List Char × JsonVal

/-- What `json_obj_parse` returns, the field it stored under each
descriptor's name, and the buffer it leaves. -/
structure JsonParsed where
  ret : Int
  val : List Char → Option JsonVal
  buf : List Char

/-- A string field of the parsed struct; `none` is the NULL it was
initialised with. -/
def JsonParsed.str (r : JsonParsed) (name : String) : Option (List Char) :=
  match r.val name.toList with
  | some (.str s) => some s
  | _ => none

/-- An `int` field of the parsed struct, initialised with 0. -/
def JsonParsed.num (r : JsonParsed) (name : String) : Int :=
  match r.val name.toList with
  | some (.num n) => n
  | _ => 0

theorem JsonParsed.str_of_val {r : JsonParsed} {name : String} {s : List Char}
    (h : r.val name.toList = some (.str s)) : r.str name = some s := by
  rw [JsonParsed.str, h]

theorem JsonParsed.num_of_val {r : JsonParsed} {name : String} {n : Int}
    (h : r.val name.toList = some (.num n)) : r.num name = n := by
  rw [JsonParsed.num, h]

/-- What `JSON_TOK_NUMBER` reads of an `int64_t` member: the `int` at its
address, which is the low half. -/
def int64Low (x : Int) : Int := ((BitVec.ofInt 64 x).setWidth 32).toInt

/-- An `int64_t` member, initialised with 0, once an `int` is stored at its
address. -/
def int64OfLow (n : Int) : Int := ((BitVec.ofInt 32 n).setWidth 64).toInt

/-- An `int64_t` field of the parsed struct, described as a number. -/
def JsonParsed.num64 (r : JsonParsed) (name : String) : Int := int64OfLow (r.num name)

/-- `json_obj_encode_buf` into a buffer of the given size, with its return
value and the string then in the buffer, and `json_obj_parse`. -/
structure JsonLib where
  encodeBuf : List JsonField → Nat → Int × List Char
  parse : List JsonObjDescr → List Char → JsonParsed

/-! ## The text of an object -/

/-- No byte of the string has an escape in JSON, and none is NUL. -/
def plainChar (c : Char) : Bool :=
  c ≠ '"' && c ≠ '\\' && c ≠ '\x08' && c ≠ '\x0c' && c ≠ '\n' && c ≠ '\x0d' && c ≠ '\t' && c ≠ nul

def Plain (s : List Char) : Prop := ∀ c ∈ s, plainChar c = true

instance (s : List Char) : Decidable (Plain s) :=
  List.decidableBAll (fun c => plainChar c = true) s

/-- The value is one an `int` can hold. -/
def IsInt32 (n : Int) : Prop := -2 ^ 31 ≤ n ∧ n < 2 ^ 31

instance (n : Int) : Decidable (IsInt32 n) := by unfold IsInt32; infer_instance

/-- The key and a string value are plain; a number is an `int`. -/
def PlainField (f : JsonField) : Prop :=
  Plain f.1 ∧ match f.2 with
    | .str s => Plain s
    | .num n => IsInt32 n

instance (f : JsonField) : Decidable (PlainField f) := by
  unfold PlainField
  cases f.2 <;> infer_instance

/-- The decimal digits of an integer. -/
def intChars (n : Int) : List Char :=
  if n < 0 then '-' :: Nat.toDigits 10 n.natAbs else Nat.toDigits 10 n.natAbs

/-- The text of a member, `close` standing where the closing quote of a
string value belongs. -/
def renderField (close : Char) (f : JsonField) : List Char :=
  '"' :: f.1 ++ '"' :: ':' ::
    match f.2 with
    | .str s => '"' :: s ++ [close]
    | .num n => intChars n

/-- The text of an object after its opening brace; `close` says for each
member what stands for its closing quote. -/
def renderMembers (close : List Char → Char) : List JsonField → List Char
  | [] => ['}']
  | [f] => renderField (close f.1) f ++ ['}']
  | f :: g :: fs => renderField (close f.1) f ++ ',' :: renderMembers close (g :: fs)

def renderObjWith (close : List Char → Char) (fs : List JsonField) : List Char :=
  '{' :: renderMembers close fs

/-- The text of an object. -/
def renderObj (fs : List JsonField) : List Char := renderObjWith (fun _ => '"') fs

/-- What an in-place parse leaves of it: the closing quote of every string
it stores is a NUL. -/
def spoiledObj (descr : List JsonObjDescr) (fs : List JsonField) : List Char :=
  renderObjWith (fun key => if descr.any fun d => d.fieldName == key then nul else '"') fs

/-- Where a member has a descriptor, its value has the descriptor's token. -/
def Matches (descr : List JsonObjDescr) (fs : List JsonField) : Prop :=
  ∀ f ∈ fs, ∀ d ∈ descr, d.fieldName = f.1 → d.type = f.2.tok

instance (descr : List JsonObjDescr) (fs : List JsonField) : Decidable (Matches descr fs) := by
  unfold Matches; infer_instance

/-- The descriptors an object is encoded with. -/
def descrOf (fs : List JsonField) : List JsonObjDescr := fs.map fun f => ⟨f.1, f.2.tok⟩

theorem mem_descrOf {fs : List JsonField} {f : JsonField} (hf : f ∈ fs) :
    (⟨f.1, f.2.tok⟩ : JsonObjDescr) ∈ descrOf fs := List.mem_map_of_mem hf

/-- An object matches the descriptors it is encoded with. -/
theorem matches_descrOf {fs : List JsonField} (h : (fs.map Prod.fst).Nodup) :
    Matches (descrOf fs) fs := by
  intro f hf d hd hname
  obtain ⟨g, hg, rfl⟩ := List.mem_map.mp hd
  rw [List.inj_on_of_nodup_map h hg hf hname]

theorem nul_notMem_plain {s : List Char} (h : Plain s) : nul ∉ s := by
  intro hn
  have := h nul hn
  revert this
  decide

theorem nul_notMem_intChars (n : Int) : nul ∉ intChars n := by
  have hdigits : nul ∉ Nat.toDigits 10 n.natAbs := by
    intro h
    have := Nat.isDigit_of_mem_toDigits (by decide) (by decide) h
    revert this
    decide
  unfold intChars
  split
  · intro h
    rcases List.mem_cons.mp h with h | h
    · exact absurd h (by decide)
    · exact hdigits h
  · exact hdigits

/-- The digits of a number. -/
theorem length_intChars_le {n k : Nat} (hk : 0 < k) (h : n < 10 ^ k) :
    (intChars (n : Int)).length ≤ k := by
  have hneg : ¬ (n : Int) < 0 := by omega
  rw [intChars, if_neg hneg, Int.natAbs_natCast]
  exact (Nat.length_toDigits_le_iff (by decide) hk).mpr h

/-- An `int` takes eleven characters at most. -/
theorem IsInt32.length_intChars_le {n : Int} (h : IsInt32 n) : (intChars n).length ≤ 11 := by
  have hdigits : (Nat.toDigits 10 n.natAbs).length ≤ 10 := by
    unfold IsInt32 at h
    exact (Nat.length_toDigits_le_iff (by decide) (by decide)).mpr (by omega)
  unfold intChars
  split
  · rw [List.length_cons]
    omega
  · omega

theorem isInt32_ofUInt32 (x : UInt32) : IsInt32 (ofUInt32 x) := by
  have hle := BitVec.le_two_mul_toInt (x := x.toBitVec)
  have hlt := BitVec.two_mul_toInt_lt (x := x.toBitVec)
  unfold IsInt32 ofUInt32
  omega

/-- Nothing in the field is NUL. -/
def NulFree (f : JsonField) : Prop :=
  nul ∉ f.1 ∧ match f.2 with
    | .str s => nul ∉ s
    | .num _ => True

theorem PlainField.nulFree {f : JsonField} (hf : PlainField f) : NulFree f := by
  obtain ⟨key, v⟩ := f
  obtain ⟨hkey, hv⟩ := hf
  cases v with
  | str s => exact ⟨nul_notMem_plain hkey, nul_notMem_plain (s := s) hv⟩
  | num n => exact ⟨nul_notMem_plain hkey, trivial⟩

theorem nul_notMem_renderField {f : JsonField} (hf : NulFree f) : nul ∉ renderField '"' f := by
  obtain ⟨key, v⟩ := f
  obtain ⟨hk, hv⟩ := hf
  have hk : nul ∉ key := hk
  have hq : nul ≠ '"' := by decide
  have hc : nul ≠ ':' := by decide
  cases v with
  | str s =>
    have hs : nul ∉ s := hv
    simp [renderField, hk, hq, hc, hs]
  | num n => simp [renderField, hk, hq, hc, nul_notMem_intChars]

theorem nul_notMem_renderMembers :
    ∀ fs : List JsonField, (∀ f ∈ fs, NulFree f) → nul ∉ renderMembers (fun _ => '"') fs
  | [], _ => by decide
  | [f], h => by
      have hf := nul_notMem_renderField (h f List.mem_cons_self)
      have hb : nul ≠ '}' := by decide
      simp [renderMembers, hf, hb]
  | f :: g :: fs, h => by
      have hf := nul_notMem_renderField (h f List.mem_cons_self)
      have ih := nul_notMem_renderMembers (g :: fs) fun x hx => h x (List.mem_cons_of_mem _ hx)
      have hb : nul ≠ ',' := by decide
      simp [renderMembers, hf, hb, ih]

theorem nul_notMem_renderObj_of_nulFree {fs : List JsonField} (h : ∀ f ∈ fs, NulFree f) :
    nul ∉ renderObj fs := by
  have hb : nul ≠ '{' := by decide
  simp only [renderObj, renderObjWith, List.mem_cons, not_or]
  exact ⟨hb, nul_notMem_renderMembers fs h⟩

theorem nul_notMem_renderObj {fs : List JsonField} (h : ∀ f ∈ fs, PlainField f) :
    nul ∉ renderObj fs :=
  nul_notMem_renderObj_of_nulFree fun f hf => (h f hf).nulFree

/-! ## What the library documents -/

/-- The documented behaviour of `json_obj_encode_buf` and `json_obj_parse`
on objects whose strings need no escape. -/
structure JsonLib.Documented (lib : JsonLib) : Prop where
  /-- the encoder writes the object's text, if it fits -/
  encode_plain : ∀ fs size, fs ≠ [] → (∀ f ∈ fs, PlainField f) →
    (lib.encodeBuf fs size).1 = 0 → (lib.encodeBuf fs size).2 = renderObj fs
  /-- the parser stores the members that have a descriptor and skips the
  others, ending each string it stores by a NUL over its closing quote -/
  parse_plain : ∀ descr fs, fs ≠ [] → (∀ f ∈ fs, PlainField f) → (fs.map Prod.fst).Nodup →
    Matches descr fs →
      0 ≤ (lib.parse descr (renderObj fs)).ret ∧
      (∀ d ∈ descr, (lib.parse descr (renderObj fs)).val d.fieldName = fs.lookup d.fieldName) ∧
      (lib.parse descr (renderObj fs)).buf = spoiledObj descr fs
  /-- a NUL inside a string literal is an error -/
  parse_nul : ∀ descr key s rest, Plain key → Plain s →
    (lib.parse descr ('{' :: '"' :: key ++ '"' :: ':' :: '"' :: s ++ nul :: rest)).ret < 0

/-- The encoder succeeds where the text and its terminator fit. -/
def JsonLib.EncodesFitting (lib : JsonLib) : Prop :=
  ∀ fs size, fs ≠ [] → (∀ f ∈ fs, PlainField f) → (renderObj fs).length < size →
    (lib.encodeBuf fs size).1 = 0

/-- A text the encoder has completed is the text of one object: no other
object's, and no part of another's that did not fit. -/
def JsonLib.Unambiguous (lib : JsonLib) : Prop :=
  ∀ fs gs size, (lib.encodeBuf fs size).1 = 0 →
    cstr (lib.encodeBuf gs size).2 = cstr (lib.encodeBuf fs size).2 → gs = fs

end Ceell.Osal
