/-
Ceell.Core.ServicesCsv — `parse_services_csv` of
`ceell/core/config_parser.c` with the reads of its text, for every text and
every struct it may find.

`parseServicesCsvLoop` is the function over the bytes of the string.
It does what `parseServicesCsv` does, and so leaves the services of the
text in the first slots, over whatever the slots held.
`parseServicesCsvLoop_tokens` is the result.
-/
import Ceell.Core.ConfigParser
import Ceell.Lib.TokenLoop

namespace Ceell.Core

open Ceell.Lib

/-! ## The loop and its reads -/

/-- The body of the loop of `parse_services_csv`, for the `len` bytes at
`p`. -/
def parseServicesCsvBody (cfg : CeellConfig) (p : List Char) (len : Nat) :
    Option (CeellConfig × Bool) :=
  if len > 0 ∧ len < 32 then
    if len ≤ p.length then some (parseServicesCsvStep cfg (p.take len), false)
    else none -- the memcpy reads behind the array
  else some (cfg, false)

/-- `parse_services_csv` on the bytes at `csv`. -/
def parseServicesCsvLoop (fuel : Nat) (csv : Option (List Char)) (cfg : CeellConfig) :
    Option CeellConfig :=
  let cfg := { cfg with serviceCount := 0 }
  match csv with
  | none => some cfg
  | some csv => do
      let c ← csv.head?
      if c = nul then some cfg
      else
        tokenLoop ',' (fun cfg => decide (cfg.serviceCount < maxConfigServices))
          parseServicesCsvBody fuel cfg csv

theorem parseServicesCsvBody_append (cfg : CeellConfig) (t rest : List Char) :
    parseServicesCsvBody cfg (t ++ rest) t.length = some (parseServicesCsvStep cfg t, false) := by
  unfold parseServicesCsvBody
  by_cases hlen : t.length > 0 ∧ t.length < 32
  · have hroom : t.length ≤ (t ++ rest).length := by
      rw [List.length_append]
      exact Nat.le_add_right _ _
    rw [if_pos hlen, if_pos hroom, List.take_left]
  · have hskip : parseServicesCsvStep cfg t = cfg := by
      simp only [parseServicesCsvStep, if_neg hlen, dite_eq_ite, ite_self]
    rw [if_neg hlen, hskip]

/-- Whatever is behind the terminator, the loop ends without reading it,
and does to the struct what `parseServicesCsv` does. -/
theorem parseServicesCsvLoop_eq {text : List Char} (htext : nul ∉ text) (rest : List Char)
    {fuel : Nat} (hfuel : text.length < fuel) (cfg : CeellConfig) :
    parseServicesCsvLoop fuel (some (text ++ nul :: rest)) cfg
      = some (parseServicesCsv (some (text ++ nul :: rest)) cfg) := by
  simp only [parseServicesCsvLoop, parseServicesCsv, cstr_append_nul htext]
  cases htail : text with
  | nil => simp
  | cons c cs =>
    have hc : c ≠ nul := by
      intro h
      exact htext (htail ▸ h ▸ List.mem_cons_self)
    have hdone : ∀ (cfg : CeellConfig) (t : List Char),
        decide (cfg.serviceCount < maxConfigServices) = false → parseServicesCsvStep cfg t = cfg :=
      fun cfg t hfull => parseServicesCsvStep_full (of_decide_eq_false hfull) t
    have hbody : ∀ (cfg : CeellConfig) (t rest : List Char), ',' ∉ t → nul ∉ t →
        parseServicesCsvBody cfg (t ++ rest) t.length = some (parseServicesCsvStep cfg t, false) :=
      fun cfg t rest _ _ => parseServicesCsvBody_append cfg t rest
    rw [← htail, tokenLoop_eq (by decide) hbody htext rest hfuel, tokenFold_foldl hdone]
    simp [htail, hc]

section Names

variable {cfg : CeellConfig} {l : List Service}

/-- The names in use. -/
theorem configuredNames_fillServices (hl : l.length ≤ maxConfigServices)
    (hname : ∀ s ∈ l, nul ∉ s.name ∧ s.name.length < 32) :
    configuredNames (cfg.fillServices l) = l.map (·.name) := by
  refine List.ext_getElem ?_ fun i hi hi' => ?_
  · simp only [configuredNames, serviceIndices, CeellConfig.fillServices, List.length_map,
      List.length_take, List.length_finRange]
    omega
  · rw [List.length_map] at hi'
    obtain ⟨hnul, hlen⟩ := hname l[i] (List.getElem_mem hi')
    have hget : l[i]? = some l[i] := List.getElem?_eq_getElem hi'
    simp only [configuredNames, serviceIndices, CeellConfig.fillServices, List.getElem_map,
      List.getElem_take, List.getElem_finRange, Fin.val_cast, hget, Option.elim_some]
    exact CharBuf.str_memcpy_nul _ hnul hlen

end Names

/-! ## The tokens of the text -/

/-- The first `CEELL_CONFIG_MAX_SERVICES` tokens of 1 to 31 bytes. -/
def csvTokens (text : List Char) : List (List Char) :=
  ((text.splitOn ',').filter fun t => 1 ≤ t.length ∧ t.length ≤ 31).take maxConfigServices

theorem ofPiece_eq (p : List Char) : Service.ofPiece p
    = if decide (1 ≤ p.length ∧ p.length ≤ 31) then some ⟨p, 1, 0⟩ else none := by
  simp only [Service.ofPiece, decide_eq_true_eq, gt_iff_lt, Nat.lt_succ_iff, Nat.succ_le_iff]

/-- An empty token at the end is none of them, so the pieces will do. -/
theorem csvServices_eq {text : List Char} (htext : nul ∉ text) (rest : List Char) :
    csvServices (some (text ++ nul :: rest)) = (csvTokens text).map fun t => ⟨t, 1, 0⟩ := by
  have hfilter : ((text.splitOn ',').filter fun t => 1 ≤ t.length ∧ t.length ≤ 31)
      = (pieces ',' text).filter fun t => 1 ≤ t.length ∧ t.length ≤ 31 := by
    rcases splitOn_eq_pieces ',' text with h | h
    · simp [h]
    · rw [h]
  have hmap : (pieces ',' text).filterMap Service.ofPiece
      = ((pieces ',' text).filter fun t => 1 ≤ t.length ∧ t.length ≤ 31).map
          fun t => ⟨t, 1, 0⟩ := by
    rw [funext ofPiece_eq, ← List.filterMap_filter, List.filterMap_eq_map']
  rw [csvServices, cstr_append_nul htext, hmap, csvTokens, hfilter, List.map_take]

/-- **The services of a text**: for every string, whatever the struct held,
the loop ends without a read behind the terminator and leaves the first
tokens of 1 to 31 bytes, in order, with NORMAL priority and no deadline;
what the struct holds beside them is as before. -/
theorem parseServicesCsvLoop_tokens {text : List Char} (htext : nul ∉ text) (rest : List Char)
    {fuel : Nat} (hfuel : text.length < fuel) (cfg : CeellConfig) :
    ∃ cfg', parseServicesCsvLoop fuel (some (text ++ nul :: rest)) cfg = some cfg' ∧
      cfg'.serviceCount = (csvTokens text).length ∧
      configuredNames cfg' = csvTokens text ∧
      (∀ i, i.val < cfg'.serviceCount →
        (cfg'.serviceSlas i).priority = 1 ∧ (cfg'.serviceSlas i).deadlineMs = 0) ∧
      (∀ i, cfg'.serviceCount ≤ i.val →
        cfg'.services i = cfg.services i ∧ cfg'.serviceSlas i = cfg.serviceSlas i) ∧
      cfg' = { cfg with
        services := cfg'.services
        serviceCount := cfg'.serviceCount
        serviceSlas := cfg'.serviceSlas } := by
  have hcount : (csvTokens text).length ≤ maxConfigServices := List.length_take_le _ _
  have hservices := csvServices_eq htext rest
  have hname : ∀ s ∈ (csvTokens text).map (fun t => Service.mk t 1 0),
      nul ∉ s.name ∧ s.name.length < 32 := fun s hs => csvServices_name (hservices ▸ hs)
  refine ⟨_, parseServicesCsvLoop_eq htext rest hfuel cfg, ?_⟩
  rw [parseServicesCsv_fill, hservices]
  have hlength : (cfg.fillServices ((csvTokens text).map fun t => ⟨t, 1, 0⟩)).serviceCount
      = (csvTokens text).length := List.length_map _
  refine ⟨hlength, ?_, ?_, ?_, rfl⟩
  · rw [configuredNames_fillServices (by rwa [List.length_map]) hname, List.map_map]
    exact List.map_id _
  · intro i hi
    have ht := List.getElem?_eq_getElem (hlength ▸ hi)
    simp only [CeellConfig.fillServices, List.getElem?_map, ht, Option.map_some, Option.elim_some,
      and_self]
  · intro i hi
    have hnone := List.getElem?_eq_none (hlength ▸ hi)
    simp only [CeellConfig.fillServices, List.getElem?_map, hnone, Option.map_none,
      Option.elim_none, and_self]

/-- Empty tokens, one of 32 bytes, and more than the arrays take. -/
def mixedTokens : List Char :=
  ",ota,,".toList ++ List.replicate 32 'x' ++ ",brake,c,d,e,".toList

theorem parseServicesCsvLoop_tokens_mixed :
    ∃ cfg', parseServicesCsvLoop 64 (some (mixedTokens ++ [nul])) .zero = some cfg' ∧
      configuredNames cfg' = ["ota".toList, "brake".toList, ['c'], ['d']] := by
  have htext : nul ∉ mixedTokens := by decide
  have htokens : csvTokens mixedTokens = ["ota".toList, "brake".toList, ['c'], ['d']] := by decide
  have hfuel : mixedTokens.length < 64 := by decide
  obtain ⟨cfg', hrun, _, hnames, _⟩ :=
    parseServicesCsvLoop_tokens htext [] hfuel .zero
  exact ⟨cfg', hrun, hnames.trans htokens⟩

end Ceell.Core
