/-
Ceell.Osal.JsonTreeReference — a small parser for objects with an array of
objects that behaves as `Osal.JsonTree` says the library does.

It scans an object and accepts it if the text it renders to is the text it
read, so it accepts nothing that is not canonical. Ending strings in place
is rendering with a NUL for the closing quote of each string stored.
-/
import Ceell.Osal.JsonReference
import Ceell.Osal.JsonTree

namespace Ceell.Osal

open Ceell.Lib

/-! ## The scanners -/

/-- Items up to a closing character, a comma between two of them; the fuel
bounds their number. -/
def scanSeq {α : Type} (item : List Char → Option (α × List Char)) (closing : Char) :
    Nat → List Char → Option (List α × List Char)
  | 0, _ => none
  | fuel + 1, cs =>
      match item cs with
      | some (x, c :: rest) =>
          if c = closing then some ([x], rest)
          else if c = ',' then (scanSeq item closing fuel rest).map fun r => (x :: r.1, r.2)
          else none
      | _ => none

/-- A member of a flat object. -/
def scanRowField (cs : List Char) : Option (JsonField × List Char) :=
  (scanField (fun _ => '"') cs).map fun r => (r.val, r.rest)

/-- A flat object. -/
def scanRow : List Char → Option (List JsonField × List Char)
  | '{' :: cs => scanSeq scanRowField '}' cs.length cs
  | _ => none

/-- A value. -/
def scanTreeValue : List Char → Option (JsonTree × List Char)
  | '"' :: cs => (scanString cs).map fun r => (.prim (.str r.1), r.2)
  | '[' :: ']' :: cs => some (.objs [], cs)
  | '[' :: cs => (scanSeq scanRow ']' cs.length cs).map fun r => (.objs r.1, r.2)
  | cs => (scanInt cs).map fun r => (.prim (.num r.val), r.rest)

/-- A member. -/
def scanMember : List Char → Option (JsonMember × List Char)
  | '"' :: cs =>
      match scanString cs with
      | some (key, ':' :: cs) => (scanTreeValue cs).map fun r => ((key, r.1), r.2)
      | _ => none
  | _ => none

/-- An object and what follows it. -/
def scanTree : List Char → Option (List JsonMember × List Char)
  | '{' :: cs => scanSeq scanMember '}' cs.length cs
  | _ => none

/-! ## The parser -/

/-- What an in-place parse leaves of a value: a NUL over the closing quote
of every string it stores. -/
def spoiledTreeValue : Option JsonTreeTok → JsonTree → List Char
  | some (.prim .string), .prim (.str s) => '"' :: s ++ [nul]
  | some (.objArray elem _), .objs rows => renderSeq '[' ']' (rows.map (spoiledObj elem))
  | _, v => renderTreeValue v

/-- What it leaves of an object. -/
def spoiledTree (descr : List JsonTreeDescr) (fs : List JsonMember) : List Char :=
  renderSeq '{' '}' <| fs.map fun f =>
    '"' :: f.1 ++ '"' :: ':' ::
      spoiledTreeValue ((descr.find? fun d => d.fieldName == f.1).map (·.type)) f.2

/-- The parse of an object; a member without a descriptor is skipped. -/
def referenceTreeParse (descr : List JsonTreeDescr) (buf : List Char) : JsonTreeParsed :=
  let failed : JsonTreeParsed := ⟨-EINVAL, fun _ => none, buf⟩
  match scanTree buf with
  | some (fs, rest) =>
      if (∀ f ∈ fs, PlainMember f) ∧ MatchesTree descr fs ∧ renderTree fs ++ rest = buf then
        { ret := (fs.countP fun f => descr.any fun d => d.fieldName == f.1 : Nat)
          val := fun name => if descr.any fun d => d.fieldName == name then fs.lookup name else none
          buf := spoiledTree descr fs ++ rest }
      else failed
  | none => failed

def jsonTreeReference : JsonTreeLib := ⟨referenceTreeParse⟩

/-! ## The scanners on rendered text -/

/-- A sequence is read back if each of its items is, whatever follows it. -/
theorem scanSeq_render {α : Type} (item : List Char → Option (α × List Char)) (closing : Char)
    (render : α → List Char) (hclosing : closing.isDigit = false) (hcomma : closing ≠ ',')
    (rest : List Char) :
    ∀ (fuel : Nat) (xs : List α), xs ≠ [] → xs.length ≤ fuel →
      (∀ x ∈ xs, ∀ r, NoDigitHead r → item (render x ++ r) = some (x, r)) →
      scanSeq item closing fuel ([','].intercalate (xs.map render) ++ closing :: rest)
        = some (xs, rest)
  | _, [], hne, _, _ => absurd rfl hne
  | 0, x :: xs, _, hlen, _ => by simp at hlen
  | fuel + 1, [x], _, _, hitem => by
      have hx := hitem x List.mem_cons_self (closing :: rest) (noDigitHead_cons hclosing rest)
      simp [scanSeq, hx]
  | fuel + 1, x :: y :: xs, _, hlen, hitem => by
      have hx := hitem x List.mem_cons_self
        (',' :: ([','].intercalate ((y :: xs).map render) ++ closing :: rest))
        (noDigitHead_cons (by decide) _)
      have ih := scanSeq_render item closing render hclosing hcomma rest fuel (y :: xs)
        (List.cons_ne_nil _ _)
        (by simpa using hlen) (fun z hz => hitem z (List.mem_cons_of_mem _ hz))
      rw [List.map_cons, List.map_cons, List.intercalate_cons_cons, ← List.map_cons]
      simp only [List.append_assoc, List.cons_append, List.nil_append, scanSeq, hx, ih,
        Option.map_some]
      rw [if_neg (Ne.symm hcomma)]
      simp

/-- The fuel that is the length of the text is enough. -/
theorem length_le_intercalate {α : Type} (render : α → List Char) (rest : List Char) (c : Char) :
    ∀ xs : List α,
      xs.length ≤ ([','].intercalate (xs.map render) ++ c :: rest).length
  | [] => Nat.zero_le _
  | [x] => by
      simp only [List.map_cons, List.map_nil, List.intercalate_singleton, List.length_append,
        List.length_cons, List.length_nil]
      omega
  | x :: y :: xs => by
      have ih := length_le_intercalate render rest c (y :: xs)
      rw [List.map_cons, List.map_cons, List.intercalate_cons_cons, ← List.map_cons]
      simp only [List.length_append, List.length_cons, List.length_nil] at ih ⊢
      omega

theorem scanRowField_render {f : JsonField} (hf : PlainField f) {r : List Char}
    (hr : NoDigitHead r) : scanRowField (renderField '"' f ++ r) = some (f, r) := by
  rw [scanRowField, scanField_render _ hf hr]
  rfl

theorem scanRow_render {row : List JsonField} (hne : row ≠ []) (hplain : ∀ f ∈ row, PlainField f)
    (r : List Char) : scanRow (renderRow row ++ r) = some (row, r) := by
  have hscan :=
    scanSeq_render scanRowField '}' (renderField '"') (by decide) (by decide) r _ row hne
    (length_le_intercalate (renderField '"') r '}' row)
    (fun f hf r hr => scanRowField_render (hplain f hf) hr)
  simpa [renderRow, renderSeq, scanRow] using hscan

/-- A number starts neither a string nor an array. -/
theorem intChars_append_ne_cons {c : Char} (hc : c.isDigit = false) (hminus : c ≠ '-') (n : Int)
    (r cs : List Char) : intChars n ++ r ≠ c :: cs := by
  intro h
  unfold intChars at h
  split at h
  · exact hminus (List.cons.inj h).1.symm
  · exact toDigits_append_ne_cons hc _ _ _ h

/-- A value is read back, whatever follows it. -/
theorem scanTreeValue_render {v : JsonTree} (hv : PlainTree v) {r : List Char}
    (hr : NoDigitHead r) : scanTreeValue (renderTreeValue v ++ r) = some (v, r) := by
  cases v with
  | prim v =>
    cases v with
    | str s =>
      have hs := scanString_append (s := s) hv r
      simp [renderTreeValue, scanTreeValue, hs]
    | num n =>
      have hn := scanInt_intChars (n := n) hv hr
      show scanTreeValue (intChars n ++ r) = _
      unfold scanTreeValue
      split
      · rename_i cs h
        exact absurd h (intChars_append_ne_cons (by decide) (by decide) n r cs)
      · rename_i cs h
        exact absurd h (intChars_append_ne_cons (by decide) (by decide) n r _)
      · rename_i cs _ h
        exact absurd h (intChars_append_ne_cons (by decide) (by decide) n r cs)
      · rw [hn]
        rfl
  | objs rows =>
    cases rows with
    | nil => rfl
    | cons row rows =>
      have hscan := scanSeq_render scanRow ']' renderRow (by decide)
        (by decide) r _ (row :: rows) (List.cons_ne_nil _ _)
        (length_le_intercalate renderRow r ']' (row :: rows))
        (fun x hx r _ => scanRow_render (hv x hx).1 (hv x hx).2.2 r)
      have htext :
          ∃ cs, [','].intercalate ((row :: rows).map renderRow) ++ ']' :: r = '{' :: cs := by
        cases rows <;> simp [renderRow, renderSeq]
      obtain ⟨cs, htext⟩ := htext
      have hvalue : renderTreeValue (.objs (row :: rows)) ++ r = '[' :: '{' :: cs := by
        rw [← htext]
        simp [renderTreeValue, renderSeq]
      rw [htext] at hscan
      rw [hvalue, scanTreeValue, hscan]
      · rfl
      · intro cs h
        cases h

theorem scanMember_render {f : JsonMember} (hf : PlainMember f) {r : List Char}
    (hr : NoDigitHead r) : scanMember (renderMember f ++ r) = some (f, r) := by
  obtain ⟨key, v⟩ := f
  obtain ⟨hkey, hv⟩ := hf
  have hscan := scanString_append hkey (':' :: (renderTreeValue v ++ r))
  have hvalue := scanTreeValue_render (v := v) hv hr
  simp [renderMember, scanMember, hscan, hvalue]

/-- An object is read back, whatever follows its closing brace. -/
theorem scanTree_render {fs : List JsonMember} (hne : fs ≠ []) (hplain : ∀ f ∈ fs, PlainMember f)
    (r : List Char) : scanTree (renderTree fs ++ r) = some (fs, r) := by
  have hscan := scanSeq_render scanMember '}' renderMember (by decide)
    (by decide) r _ fs hne (length_le_intercalate renderMember r '}' fs)
    (fun f hf r hr => scanMember_render (hplain f hf) hr)
  simpa [renderTree, renderSeq, scanTree] using hscan

/-! ## The library is as documented -/

theorem spoiledTree_number {descr : List JsonTreeDescr}
    (hnum : ∀ d ∈ descr, d.type = .prim .number) (fs : List JsonMember) :
    spoiledTree descr fs = renderTree fs := by
  have hvalue : ∀ f : JsonMember,
      spoiledTreeValue ((descr.find? fun d => d.fieldName == f.1).map (·.type)) f.2
        = renderTreeValue f.2 := by
    intro f
    cases hfind : descr.find? fun d => d.fieldName == f.1 with
    | none => simp [spoiledTreeValue]
    | some d =>
      have htype : d.type = .prim .number := hnum d (List.mem_of_find?_eq_some hfind)
      simp [htype, spoiledTreeValue]
  unfold spoiledTree renderTree renderMember
  simp only [hvalue]

/-- What a successful parse has read. -/
theorem referenceTreeParse_ok {descr : List JsonTreeDescr} {buf : List Char}
    (h : 0 ≤ (referenceTreeParse descr buf).ret) :
    ∃ fs rest, scanTree buf = some (fs, rest) ∧ (∀ f ∈ fs, PlainMember f) ∧ MatchesTree descr fs ∧
      renderTree fs ++ rest = buf ∧
      (referenceTreeParse descr buf).val =
        (fun name => if descr.any fun d => d.fieldName == name then fs.lookup name else none) ∧
      (referenceTreeParse descr buf).buf = spoiledTree descr fs ++ rest := by
  cases hscan : scanTree buf with
  | none =>
    simp only [referenceTreeParse, hscan] at h
    exact absurd (show (0 : Int) ≤ -EINVAL from h) (by decide)
  | some r =>
    obtain ⟨fs, rest⟩ := r
    simp only [referenceTreeParse, hscan] at h ⊢
    split at h
    · rename_i hok
      rw [if_pos hok]
      exact ⟨fs, rest, rfl, hok.1, hok.2.1, hok.2.2, rfl, rfl⟩
    · exact absurd (show (0 : Int) ≤ -EINVAL from h) (by decide)

theorem scanSeq_ne_nil {α : Type} {item : List Char → Option (α × List Char)} {closing : Char} :
    ∀ {fuel : Nat} {cs : List Char} {r : List α × List Char},
      scanSeq item closing fuel cs = some r → r.1 ≠ []
  | 0, _, _, h => by cases h
  | fuel + 1, cs, r, h => by
      simp only [scanSeq] at h
      split at h
      · split at h
        · cases h
          exact List.cons_ne_nil _ _
        · split at h
          · obtain ⟨r', _, rfl⟩ := Option.map_eq_some_iff.mp h
            exact List.cons_ne_nil _ _
          · cases h
      · cases h

theorem scanTree_ne_nil {cs : List Char} {r : List JsonMember × List Char}
    (h : scanTree cs = some r) : r.1 ≠ [] := by
  unfold scanTree at h
  split at h
  · exact scanSeq_ne_nil h
  · cases h

theorem jsonTreeReference_numeric : jsonTreeReference.Numeric where
  keeps := by
    intro descr text hnum
    show (referenceTreeParse descr text).buf = text
    unfold referenceTreeParse
    split
    · split
      · rename_i hok
        rw [← hok.2.2, ← spoiledTree_number hnum]
      · rfl
    · rfl
  agrees := by
    intro descr descr' text name hd hd' hret hret'
    obtain ⟨fs, rest, hscan, _, _, _, hval, _⟩ := referenceTreeParse_ok hret
    obtain ⟨fs', rest', hscan', _, _, _, hval', _⟩ := referenceTreeParse_ok hret'
    rw [hscan] at hscan'
    cases hscan'
    have hany : ∀ {descr : List JsonTreeDescr}, ⟨name.toList, .prim .number⟩ ∈ descr →
        (descr.any fun d => d.fieldName == name.toList) = true :=
      fun hd => List.any_eq_true.mpr ⟨_, hd, beq_self_eq_true _⟩
    show (referenceTreeParse descr' text).num name = (referenceTreeParse descr text).num name
    rw [JsonTreeParsed.num, JsonTreeParsed.num, hval, hval']
    simp only [hany hd, hany hd', if_true]

theorem jsonTreeReference_decodes : jsonTreeReference.Decodes where
  whole := by
    intro descr fs rest hne hplain _ hmatch
    have hscan := scanTree_render hne hplain rest
    have hparse : referenceTreeParse descr (renderTree fs ++ rest) =
        { ret := (fs.countP fun f => descr.any fun d => d.fieldName == f.1 : Nat)
          val := fun name => if descr.any fun d => d.fieldName == name then fs.lookup name else none
          buf := spoiledTree descr fs ++ rest } := by
      have hok : (∀ f ∈ fs, PlainMember f) ∧ MatchesTree descr fs ∧
          renderTree fs ++ rest = renderTree fs ++ rest := ⟨hplain, hmatch, rfl⟩
      rw [referenceTreeParse, hscan]
      exact if_pos hok
    show 0 ≤ (referenceTreeParse descr (renderTree fs ++ rest)).ret ∧
      ∀ d ∈ descr, (referenceTreeParse descr (renderTree fs ++ rest)).val d.fieldName
        = fs.lookup d.fieldName
    rw [hparse]
    constructor
    · exact Int.natCast_nonneg _
    · intro d hd
      have hany : (descr.any fun d' => d'.fieldName == d.fieldName) = true :=
        List.any_eq_true.mpr ⟨d, hd, beq_self_eq_true _⟩
      exact if_pos hany
  cut := by
    intro descr fs n hne hplain hn
    show (referenceTreeParse descr ((renderTree fs).take n)).ret < 0
    by_contra hret
    obtain ⟨gs, rest, hscan, hgs, _, htext, _, _⟩ := referenceTreeParse_ok (Int.not_lt.mp hret)
    -- what was read is a whole object, so more text than there is would follow it
    have hwhole : renderTree fs = renderTree gs ++ (rest ++ (renderTree fs).drop n) := by
      rw [← List.append_assoc, htext, List.take_append_drop]
    have hfs := scanTree_render hne hplain []
    have hgs := scanTree_render (scanTree_ne_nil hscan) hgs (rest ++ (renderTree fs).drop n)
    rw [← hwhole] at hgs
    rw [List.append_nil, hgs] at hfs
    have hrest : rest ++ (renderTree fs).drop n = [] := (Prod.mk.inj (Option.some.inj hfs)).2
    have hdrop := (List.append_eq_nil_iff.mp hrest).2
    exact absurd (List.drop_eq_nil_iff.mp hdrop) (Nat.not_le.mpr hn)

end Ceell.Osal
