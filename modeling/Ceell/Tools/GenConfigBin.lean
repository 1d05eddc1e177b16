/-
Ceell.Tools.GenConfigBin — `tools/gen_config_bin.py`: from a configuration
file to the image of the configuration partition.

The input is the dictionary that `json.load` returns, as the list of its
members. A dictionary keeps the order of the file, so nothing here relies
on an order. `dumps` is `json.dumps` with compact separators; on printable
text it writes what `Osal.JsonTree` calls the text of the object.
-/
import Ceell.Osal.JsonTree

namespace Ceell.Tools

open Ceell.Lib Ceell.Osal

/-! ## `json.dumps` -/

/-- Four hexadecimal digits. -/
def hex4 (n : Nat) : List Char := [3, 2, 1, 0].map fun i => Nat.digitChar (n / 16 ^ i % 16)

/-- A character of a string, for `ensure_ascii`. -/
def escapeAscii (c : Char) : List Char :=
  match c with
  | '"' => ['\\', '"']
  | '\\' => ['\\', '\\']
  | '\n' => ['\\', 'n']
  | '\r' => ['\\', 'r']
  | '\t' => ['\\', 't']
  | '\x0c' => ['\\', 'f']
  | '\x08' => ['\\', 'b']
  | c =>
      if ' ' ≤ c ∧ c ≤ '~' then [c]
      else if c.toNat < 0x10000 then '\\' :: 'u' :: hex4 c.toNat
      else -- a surrogate pair
        let n := c.toNat - 0x10000
        '\\' :: 'u' :: hex4 (0xd800 + n / 0x400) ++ '\\' :: 'u' :: hex4 (0xdc00 + n % 0x400)

def dumpsStr (s : List Char) : List Char := '"' :: s.flatMap escapeAscii ++ ['"']

def dumpsPrim : JsonVal → List Char
  | .str s => dumpsStr s
  | .num n => intChars n

def dumpsRow (row : List JsonField) : List Char :=
  renderSeq '{' '}' (row.map fun f => dumpsStr f.1 ++ ':' :: dumpsPrim f.2)

def dumpsValue : JsonTree → List Char
  | .prim v => dumpsPrim v
  | .objs rows => renderSeq '[' ']' (rows.map dumpsRow)

/-- `json.dumps(config, separators=(",", ":"))`. -/
def dumps (config : List JsonMember) : List Char :=
  renderSeq '{' '}' (config.map fun f => dumpsStr f.1 ++ ':' :: dumpsValue f.2)

/-! ## `main` -/

/-- `PARTITION_SIZE` -/
abbrev partitionSize : Nat := 64 * 1024

/-- `REQUIRED_FIELDS` -/
def requiredFields : List (List Char) :=
  ["version".toList, "node_id".toList, "role".toList, "name".toList, "ip".toList, "netmask".toList]

/-- `SUPPORTED_VERSIONS` -/
def supportedVersions : List Int := [1, 2]

/-- The errors `main` exits with. -/
inductive GenConfigError where
  | missingFields (missing : List (List Char))
  | unsupportedVersion (version : Option JsonTree)
  | exceedsPartition (length : Nat)
  deriving DecidableEq

/-- `main`, from the dictionary to the bytes it writes. -/
def genConfigBin (config : List JsonMember) : Except GenConfigError (List Char) :=
  let missing := requiredFields.filter fun f => (config.lookup f).isNone
  let version := config.lookup "version".toList
  if missing ≠ [] then .error (.missingFields missing)
  else if ¬ ∃ v ∈ supportedVersions, version = some (.prim (.num v)) then
    .error (.unsupportedVersion version)
  else
    let json := dumps config
    if json.length ≥ partitionSize then .error (.exceedsPartition json.length)
    else .ok (json ++ List.replicate (partitionSize - json.length) '\xff')

/-! ## On printable text -/

/-- Plain ASCII that `json.dumps` writes as it is. -/
def printableChar (c : Char) : Bool := ' ' ≤ c && c ≤ '~' && c ≠ '"' && c ≠ '\\'

def Printable (s : List Char) : Prop := ∀ c ∈ s, printableChar c = true

instance (s : List Char) : Decidable (Printable s) :=
  List.decidableBAll (fun c => printableChar c = true) s

theorem escapeAscii_printable {c : Char} (h : printableChar c = true) : escapeAscii c = [c] := by
  simp only [printableChar, Bool.and_eq_true, decide_eq_true_eq] at h
  obtain ⟨⟨⟨hlow, hhigh⟩, hquote⟩, hslash⟩ := h
  unfold escapeAscii
  split
  · exact absurd rfl hquote
  · exact absurd rfl hslash
  · exact absurd hlow (by decide)
  · exact absurd hlow (by decide)
  · exact absurd hlow (by decide)
  · exact absurd hlow (by decide)
  · exact absurd hlow (by decide)
  · exact if_pos ⟨hlow, hhigh⟩

theorem dumpsStr_printable {s : List Char} (h : Printable s) : dumpsStr s = '"' :: s ++ ['"'] := by
  have hflat : s.flatMap escapeAscii = s := by
    induction s with
    | nil => rfl
    | cons c s ih =>
      have hc := escapeAscii_printable (h c List.mem_cons_self)
      rw [List.flatMap_cons, hc, ih fun x hx => h x (List.mem_cons_of_mem _ hx),
        List.singleton_append]
  rw [dumpsStr, hflat]

/-- Printable text needs no escape in the library either. -/
theorem Printable.plain {s : List Char} (h : Printable s) : Plain s := by
  intro c hc
  have hp := h c hc
  simp only [printableChar, Bool.and_eq_true, decide_eq_true_eq] at hp
  obtain ⟨⟨⟨hlow, _⟩, hquote⟩, hslash⟩ := hp
  simp only [plainChar, Bool.and_eq_true, decide_eq_true_eq]
  refine ⟨⟨⟨⟨⟨⟨⟨hquote, hslash⟩, ?_⟩, ?_⟩, ?_⟩, ?_⟩, ?_⟩, ?_⟩ <;>
    (rintro rfl; exact absurd hlow (by decide))

def PrintableVal : JsonVal → Prop
  | .str s => Printable s
  | .num n => IsInt32 n

/-- `PlainTree`, for printable strings. -/
def PrintableTree : JsonTree → Prop
  | .prim v => PrintableVal v
  | .objs rows => ∀ row ∈ rows, row ≠ [] ∧ (row.map Prod.fst).Nodup ∧
      ∀ f ∈ row, Printable f.1 ∧ PrintableVal f.2

def PrintableMember (f : JsonMember) : Prop := Printable f.1 ∧ PrintableTree f.2

theorem PrintableMember.plain {f : JsonMember} (h : PrintableMember f) : PlainMember f := by
  obtain ⟨key, v⟩ := f
  refine ⟨h.1.plain, ?_⟩
  have hv : PrintableTree v := h.2
  show PlainTree v
  cases v with
  | prim v =>
    cases v with
    | str s => exact Printable.plain hv
    | num n => exact hv
  | objs rows =>
    intro row hrow
    obtain ⟨hne, hnodup, hfields⟩ := hv row hrow
    refine ⟨hne, hnodup, fun f hf => ?_⟩
    obtain ⟨hkey, hval⟩ := hfields f hf
    obtain ⟨key, v⟩ := f
    cases v with
    | str s => exact ⟨hkey.plain, Printable.plain hval⟩
    | num n => exact ⟨hkey.plain, hval⟩

theorem dumpsRow_printable {row : List JsonField}
    (h : ∀ f ∈ row, Printable f.1 ∧ PrintableVal f.2) : dumpsRow row = renderRow row := by
  have hfield : ∀ f ∈ row, dumpsStr f.1 ++ ':' :: dumpsPrim f.2 = renderField '"' f := by
    rintro ⟨key, v⟩ hf
    obtain ⟨hkey, hval⟩ := h _ hf
    rw [dumpsStr_printable hkey]
    cases v with
    | str s => simp [dumpsPrim, dumpsStr_printable hval, renderField]
    | num n => simp [dumpsPrim, renderField]
  rw [dumpsRow, renderRow, List.map_congr_left hfield]

theorem dumpsValue_printable {v : JsonTree} (h : PrintableTree v) :
    dumpsValue v = renderTreeValue v := by
  cases v with
  | prim v =>
    cases v with
    | str s => exact dumpsStr_printable h
    | num n => rfl
  | objs rows =>
    have hrows : ∀ row ∈ rows, dumpsRow row = renderRow row :=
      fun row hrow => dumpsRow_printable (h row hrow).2.2
    rw [dumpsValue, renderTreeValue, List.map_congr_left hrows]

/-- The tool writes the text of the object. -/
theorem dumps_printable {config : List JsonMember} (h : ∀ f ∈ config, PrintableMember f) :
    dumps config = renderTree config := by
  have hmember : ∀ f ∈ config, dumpsStr f.1 ++ ':' :: dumpsValue f.2 = renderMember f := by
    intro f hf
    obtain ⟨hkey, hval⟩ := h f hf
    rw [dumpsStr_printable hkey, dumpsValue_printable hval]
    simp [renderMember]
  rw [dumps, renderTree, List.map_congr_left hmember]

end Ceell.Tools
