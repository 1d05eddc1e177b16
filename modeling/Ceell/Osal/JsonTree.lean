/-
Ceell.Osal.JsonTree — `json_obj_parse` on objects that hold an array of
objects, as the configuration files do.

`Osal.Json` has the flat objects of the wire. Here a value may also be an
array of flat objects (`JSON_OBJ_DESCR_OBJ_ARRAY`), one level deep, which
is all that the configuration needs. The library is again a parameter;
`JsonTreeLib.Numeric` and `JsonTreeLib.Decodes` say what results rest on.
-/
import Ceell.Lib.Csv
import Ceell.Osal.Json

namespace Ceell.Osal

open Ceell.Lib

/-! ## The interface -/

/-- A string, a number, or an array of flat objects. -/
inductive JsonTree where
  | prim (v : JsonVal)
  | objs (rows : List (List JsonField))
  deriving DecidableEq

/-- A member of an object. -/
abbrev JsonMember := List Char × JsonTree

/-- The token of a descriptor: one of `JSON_OBJ_DESCR_PRIM`, or the
element descriptors and the length of `JSON_OBJ_DESCR_OBJ_ARRAY`. -/
inductive JsonTreeTok where
  | prim (t : JsonTok)
  | objArray (elem : List JsonObjDescr) (maxLen : Nat)
  deriving DecidableEq

structure JsonTreeDescr where
  fieldName : List Char
  type : JsonTreeTok
  deriving DecidableEq

/-- What a parse returns, what it stored under each name, and the buffer
it leaves. -/
structure JsonTreeParsed where
  ret : Int
  val : List Char → Option JsonTree
  buf : List Char

/-- A string field of the parsed struct; `none` is NULL. -/
def JsonTreeParsed.str (r : JsonTreeParsed) (name : String) : Option (List Char) :=
  match r.val name.toList with
  | some (.prim (.str s)) => some s
  | _ => none

/-- An `int` field of the parsed struct, initialised with 0. -/
def JsonTreeParsed.num (r : JsonTreeParsed) (name : String) : Int :=
  match r.val name.toList with
  | some (.prim (.num n)) => n
  | _ => 0

/-- An array field of the parsed struct: the entries below its length. -/
def JsonTreeParsed.rows (r : JsonTreeParsed) (name : String) : List (List JsonField) :=
  match r.val name.toList with
  | some (.objs rows) => rows
  | _ => []

/-- `json_obj_parse`. -/
structure JsonTreeLib where
  parse : List JsonTreeDescr → List Char → JsonTreeParsed

/-! ## The text of an object -/

/-- Items between brackets, a comma between two of them. -/
def renderSeq (opening closing : Char) (items : List (List Char)) : List Char :=
  opening :: [','].intercalate items ++ [closing]

/-- The text of a flat object, here an element of an array. -/
def renderRow (row : List JsonField) : List Char := renderSeq '{' '}' (row.map (renderField '"'))

/-- The text of a value. -/
def renderTreeValue : JsonTree → List Char
  | .prim (.str s) => '"' :: s ++ ['"']
  | .prim (.num n) => intChars n
  | .objs rows => renderSeq '[' ']' (rows.map renderRow)

/-- The text of a member. -/
def renderMember (f : JsonMember) : List Char := '"' :: f.1 ++ '"' :: ':' :: renderTreeValue f.2

/-- The text of an object. -/
def renderTree (fs : List JsonMember) : List Char := renderSeq '{' '}' (fs.map renderMember)

/-- No string of the value needs an escape, every number is an `int`, and
the objects of an array are not empty and name no key twice. -/
def PlainTree : JsonTree → Prop
  | .prim (.str s) => Plain s
  | .prim (.num n) => IsInt32 n
  | .objs rows => ∀ row ∈ rows, row ≠ [] ∧ (row.map Prod.fst).Nodup ∧ ∀ f ∈ row, PlainField f

instance (v : JsonTree) : Decidable (PlainTree v) := by
  rcases v with v | rows
  · cases v <;> (unfold PlainTree; infer_instance)
  · unfold PlainTree; infer_instance

def PlainMember (f : JsonMember) : Prop := Plain f.1 ∧ PlainTree f.2

instance (f : JsonMember) : Decidable (PlainMember f) := by unfold PlainMember; infer_instance

/-- Whether a value is of the kind its descriptor asks for. -/
def JsonTree.Fits : JsonTree → JsonTreeTok → Prop
  | .prim v, .prim t => t = v.tok
  | .objs rows, .objArray elem maxLen => rows.length ≤ maxLen ∧ ∀ row ∈ rows, Matches elem row
  | _, _ => False

instance (v : JsonTree) (t : JsonTreeTok) : Decidable (v.Fits t) := by
  cases v <;> cases t <;> (unfold JsonTree.Fits; infer_instance)

/-- Where a member has a descriptor, its value is of that kind. -/
def MatchesTree (descr : List JsonTreeDescr) (fs : List JsonMember) : Prop :=
  ∀ f ∈ fs, ∀ d ∈ descr, d.fieldName = f.1 → f.2.Fits d.type

instance (descr : List JsonTreeDescr) (fs : List JsonMember) :
    Decidable (MatchesTree descr fs) := by
  unfold MatchesTree; infer_instance

theorem nul_notMem_renderSeq {opening closing : Char} {items : List (List Char)}
    (hopening : nul ≠ opening) (hclosing : nul ≠ closing) (h : ∀ x ∈ items, nul ∉ x) :
    nul ∉ renderSeq opening closing items := by
  have hitems : nul ∉ [','].intercalate items := by
    intro hmem
    rcases mem_of_mem_intercalate hmem with heq | ⟨x, hx, hn⟩
    · exact absurd heq (by decide)
    · exact h x hx hn
  simp [renderSeq, hopening, hclosing, hitems]

/-- The text of a plain object is a C string. -/
theorem nul_notMem_renderTree {fs : List JsonMember} (h : ∀ f ∈ fs, PlainMember f) :
    nul ∉ renderTree fs := by
  have hq : nul ≠ '"' := by decide
  have hc : nul ≠ ':' := by decide
  have hvalue : ∀ v : JsonTree, PlainTree v → nul ∉ renderTreeValue v := by
    intro v hv
    cases v with
    | prim v =>
      cases v with
      | str s => simp [renderTreeValue, hq, nul_notMem_plain (s := s) hv]
      | num n => exact nul_notMem_intChars n
    | objs rows =>
      refine nul_notMem_renderSeq (by decide) (by decide) fun x hx => ?_
      obtain ⟨row, hrow, rfl⟩ := List.mem_map.mp hx
      refine nul_notMem_renderSeq (by decide) (by decide) fun x hx => ?_
      obtain ⟨f, hf, rfl⟩ := List.mem_map.mp hx
      exact nul_notMem_renderField ((hv row hrow).2.2 f hf).nulFree
  refine nul_notMem_renderSeq (by decide) (by decide) fun x hx => ?_
  obtain ⟨f, hf, rfl⟩ := List.mem_map.mp hx
  have hkey := nul_notMem_plain (h f hf).1
  have hval := hvalue f.2 (h f hf).2
  simp [renderMember, hq, hc, hkey, hval]

/-! ## What the library documents -/

/-- What a parse does with numbers, whatever the text. -/
structure JsonTreeLib.Numeric (lib : JsonTreeLib) : Prop where
  /-- only strings are ended in place, so a parse without string
  descriptors leaves the text as it was -/
  keeps : ∀ descr text, (∀ d ∈ descr, d.type = .prim .number) → (lib.parse descr text).buf = text
  /-- two successful parses of a text agree on a number that both ask for -/
  agrees : ∀ descr descr' text (name : String),
    ⟨name.toList, .prim .number⟩ ∈ descr → ⟨name.toList, .prim .number⟩ ∈ descr' →
    0 ≤ (lib.parse descr text).ret → 0 ≤ (lib.parse descr' text).ret →
      (lib.parse descr' text).num name = (lib.parse descr text).num name

/-- What a parse does with the text of an object, whole or cut short. -/
structure JsonTreeLib.Decodes (lib : JsonTreeLib) : Prop where
  /-- a complete object is decoded, whatever follows its closing brace -/
  whole : ∀ descr fs rest, fs ≠ [] → (∀ f ∈ fs, PlainMember f) → (fs.map Prod.fst).Nodup →
    MatchesTree descr fs →
      0 ≤ (lib.parse descr (renderTree fs ++ rest)).ret ∧
      ∀ d ∈ descr, (lib.parse descr (renderTree fs ++ rest)).val d.fieldName = fs.lookup d.fieldName
  /-- an object cut short is an error -/
  cut : ∀ descr fs n, fs ≠ [] → (∀ f ∈ fs, PlainMember f) → n < (renderTree fs).length →
    (lib.parse descr ((renderTree fs).take n)).ret < 0

end Ceell.Osal
