/-
Ceell.Core.ConfigFormats — one list of service names in the two formats of
the configuration.

`parse_services_csv` and `parse_services_v2` both skip an empty name. They
part at `CEELL_CONFIG_MAX_SVC_NAME_LEN`: the first skips a name that does
not fit, the second cuts it. `formats_names` says which names each leaves,
`formats_agree_iff` for which lists they are the same.
-/
import Ceell.Core.ConfigParser

namespace Ceell.Core

open Ceell.Lib

/-! ## The names in use -/

section Names

variable {cfg : CeellConfig}

/-- The indices in use after one more service. -/
theorem take_finRange_succ (h : cfg.serviceCount < maxConfigServices) :
    (List.finRange maxConfigServices).take (cfg.serviceCount + 1)
      = serviceIndices cfg ++ [⟨cfg.serviceCount, h⟩] := by
  have hlen : cfg.serviceCount < (List.finRange maxConfigServices).length := by
    rw [List.length_finRange]
    exact h
  rw [List.take_succ_eq_append_getElem hlen, List.getElem_finRange]
  rfl

/-- A write at the count adds its name behind those in use. -/
theorem configuredNames_setService (h : cfg.serviceCount < maxConfigServices) (name : CharBuf 32)
    (sla : ServiceSla) :
    configuredNames (cfg.setService ⟨cfg.serviceCount, h⟩ name sla)
      = configuredNames cfg ++ [name.str] := by
  have hbefore : ∀ i ∈ serviceIndices cfg,
      (Function.update cfg.services ⟨cfg.serviceCount, h⟩ name i).str = (cfg.services i).str := by
    intro i hi
    obtain ⟨j, hj, rfl⟩ := List.mem_take_iff_getElem.mp hi
    have hne : (List.finRange maxConfigServices)[j] ≠ ⟨cfg.serviceCount, h⟩ := by
      rw [List.getElem_finRange]
      intro heq
      have hval : j = cfg.serviceCount := congrArg Fin.val heq
      omega
    rw [Function.update_of_ne hne]
  have hnames := List.map_congr_left hbefore
  show ((List.finRange maxConfigServices).take (cfg.serviceCount + 1)).map
    (fun i => (Function.update cfg.services ⟨cfg.serviceCount, h⟩ name i).str) = _
  rw [take_finRange_succ h, List.map_append, hnames, List.map_singleton, Function.update_self]
  rfl

end Names

/-! ## What each loop leaves -/

/-- The name that `parse_services_csv` writes for a piece. -/
def csvName (p : List Char) : Option (List Char) :=
  if p.length > 0 ∧ p.length < 32 then some p else none

/-- The name that `parse_services_v2` writes for an entry's. -/
def entryName : Option (List Char) → Option (List Char)
  | none => none
  | some name => if cstr name = [] then none else some ((cstr name).take 31)

/-- A loop body has added the names: the count and the strings in use. -/
def Adds (cfg cfg' : CeellConfig) (names : List (List Char)) : Prop :=
  cfg'.serviceCount = cfg.serviceCount + names.length ∧
    configuredNames cfg' = configuredNames cfg ++ names

section Loops

variable {cfg : CeellConfig}

theorem adds_none (cfg : CeellConfig) : Adds cfg cfg [] := by
  constructor
  · rfl
  · exact (List.append_nil _).symm

theorem adds_setService (h : cfg.serviceCount < maxConfigServices) (name : CharBuf 32)
    (sla : ServiceSla) :
    Adds cfg (cfg.setService ⟨cfg.serviceCount, h⟩ name sla) [name.str] := by
  constructor
  · rfl
  · exact configuredNames_setService h name sla

/-- A loop whose body adds the name of its item, while there is room. -/
theorem adds_foldl {β : Type} {step : CeellConfig → β → CeellConfig}
    {name : β → Option (List Char)} {xs : List β}
    (hstep : ∀ cfg, ∀ x ∈ xs, cfg.serviceCount + (name x).toList.length ≤ maxConfigServices →
      Adds cfg (step cfg x) (name x).toList)
    (hroom : cfg.serviceCount + (xs.filterMap name).length ≤ maxConfigServices) :
    Adds cfg (xs.foldl step cfg) (xs.filterMap name) := by
  induction xs generalizing cfg with
  | nil => exact adds_none cfg
  | cons x xs ih =>
    obtain ⟨hx, hxs⟩ := List.forall_mem_cons.mp fun y hy cfg => hstep cfg y hy
    have hcons : (x :: xs).filterMap name = (name x).toList ++ xs.filterMap name := by
      cases hname : name x with
      | none => rw [List.filterMap_cons_none hname, Option.toList_none, List.nil_append]
      | some n => rw [List.filterMap_cons_some hname, Option.toList_some, List.singleton_append]
    rw [hcons, List.length_append] at hroom
    obtain ⟨hcount, hnames⟩ := hx cfg (by omega)
    have hrest : Adds (step cfg x) (xs.foldl step (step cfg x)) (xs.filterMap name) :=
      ih (fun cfg y hy => hxs y hy cfg) (by omega)
    obtain ⟨hcount', hnames'⟩ := hrest
    rw [List.foldl_cons, hcons]
    constructor
    · rw [hcount', hcount, List.length_append, Nat.add_assoc]
    · rw [hnames', hnames, List.append_assoc]

theorem adds_csvStep {p : List Char} (hp : nul ∉ p)
    (hroom : cfg.serviceCount + (csvName p).toList.length ≤ maxConfigServices) :
    Adds cfg (parseServicesCsvStep cfg p) (csvName p).toList := by
  unfold parseServicesCsvStep csvName at *
  by_cases hlen : p.length > 0 ∧ p.length < 32
  · rw [if_pos hlen, Option.toList_some] at hroom ⊢
    have hlt : cfg.serviceCount < maxConfigServices := hroom
    rw [dif_pos hlt, if_pos hlen]
    have h := adds_setService hlt
      (((cfg.services ⟨cfg.serviceCount, hlt⟩).memcpy 0 p).memcpy p.length [nul])
    rw [CharBuf.str_memcpy_nul _ hp hlen.2] at h
    exact h _
  · simp only [if_neg hlen, ite_self, dite_eq_ite, Option.toList_none]
    exact adds_none cfg

theorem adds_v2Step (entry : JsonSvcEntry)
    (hroom : cfg.serviceCount + (entryName entry.name).toList.length ≤ maxConfigServices) :
    Adds cfg (parseServicesV2Step cfg entry) (entryName entry.name).toList := by
  unfold parseServicesV2Step
  cases hname : entry.name with
  | none =>
    simp only [entryName, dite_eq_ite, ite_self, Option.toList_none]
    exact adds_none cfg
  | some name =>
    rw [hname] at hroom
    by_cases hempty : cstr name = []
    · simp only [entryName, if_pos hempty, dite_eq_ite, ite_self, Option.toList_none]
      exact adds_none cfg
    · rw [entryName, if_neg hempty, Option.toList_some] at hroom ⊢
      have hlt : cfg.serviceCount < maxConfigServices := hroom
      rw [dif_pos hlt]
      simp only [if_neg hempty]
      have h := adds_setService hlt
        ((cfg.services ⟨cfg.serviceCount, hlt⟩).copy name).terminate
      rw [CharBuf.terminate_copy, CharBuf.str_copy_zero] at h
      rw [CharBuf.terminate_copy]
      exact h _

end Loops

/-! ## The two formats -/

/-- The same services in use: the count and the strings, in order. -/
def SameServices (a b : CeellConfig) : Prop :=
  a.serviceCount = b.serviceCount ∧ configuredNames a = configuredNames b

instance (a b : CeellConfig) : Decidable (SameServices a b) := by
  unfold SameServices; infer_instance

section Formats

variable {names : List (List Char)} {entries : List JsonSvcEntry}

theorem filterMap_csvName (names : List (List Char)) :
    names.filterMap csvName = names.filter fun n => n ≠ [] ∧ n.length ≤ 31 := by
  have hguard : ∀ n ∈ names,
      csvName n = if decide (n ≠ [] ∧ n.length ≤ 31) then some n else none := by
    intro n _
    simp only [csvName, decide_eq_true_eq, gt_iff_lt, List.length_pos_iff, Nat.lt_succ_iff]
  rw [List.filterMap_congr hguard, ← List.filterMap_filter, List.filterMap_some]

theorem filterMap_entryName (hnul : ∀ n ∈ names, nul ∉ n)
    (hentries : entries.map (·.name) = names.map some) :
    entries.filterMap (fun e => entryName e.name) = (names.filter (· ≠ [])).map (List.take 31) := by
  have hguard : ∀ n ∈ names,
      entryName (some n) = if decide (n ≠ []) then some (n.take 31) else none := by
    intro n hn
    by_cases h : n = []
    · simp [entryName, h, cstr]
    · simp [entryName, h, cstr_eq_self (hnul n hn)]
  calc entries.filterMap (fun e => entryName e.name)
      = (entries.map (·.name)).filterMap entryName := by rw [List.filterMap_map]; rfl
    _ = names.filterMap fun n => entryName (some n) := by rw [hentries, List.filterMap_map]; rfl
    _ = (names.filter (· ≠ [])).filterMap fun n => some (n.take 31) := by
      rw [List.filterMap_congr hguard, ← List.filterMap_filter]
    _ = (names.filter (· ≠ [])).map (List.take 31) :=
      congrFun List.filterMap_eq_map' _

/-- **The names each format leaves** of a list that fits the array. -/
theorem formats_names (hlen : names.length ≤ maxConfigServices) (hcomma : ∀ n ∈ names, ',' ∉ n)
    (hnul : ∀ n ∈ names, nul ∉ n) (hentries : entries.map (·.name) = names.map some)
    (cfg₁ cfg₂ : CeellConfig) :
    Adds { cfg₁ with serviceCount := 0 } (parseServicesCsv (some ([','].intercalate names)) cfg₁)
        (names.filter fun n => n ≠ [] ∧ n.length ≤ 31) ∧
      Adds { cfg₂ with serviceCount := 0 } (parseServicesV2 entries cfg₂)
        ((names.filter (· ≠ [])).map (List.take 31)) := by
  have htext : nul ∉ [','].intercalate names := by
    intro h
    rcases mem_of_mem_intercalate h with heq | ⟨n, hn, hc⟩
    · exact absurd heq (by decide)
    · exact hnul n hn hc
  have hpieces : (pieces ',' ([','].intercalate names)).filterMap csvName
      = names.filter fun n => n ≠ [] ∧ n.length ≤ 31 := by
    rw [filterMap_pieces_intercalate rfl hcomma, filterMap_csvName]
  constructor
  · rw [← hpieces]
    simp only [parseServicesCsv, cstr_eq_self htext]
    refine adds_foldl (fun cfg p hp hroom => ?_) ?_
    · exact adds_csvStep (fun hc => htext (mem_of_mem_pieces hp hc)) hroom
    · have hle := List.length_filter_le (fun n => decide (n ≠ [] ∧ n.length ≤ 31)) names
      rw [hpieces]
      dsimp only
      omega
  · rw [← filterMap_entryName hnul hentries, parseServicesV2]
    refine adds_foldl (fun cfg e _ hroom => adds_v2Step e hroom) ?_
    have hle := List.length_filter_le (fun n : List Char => decide (n ≠ [])) names
    rw [filterMap_entryName hnul hentries, List.length_map]
    dsimp only
    omega

end Formats

/-- **The two formats on one list**: for every list of names that fits the
array, version 1 leaves the names of at most 31 bytes, version 2 all of
them cut to 31, and empty ones neither; so both leave the same services
exactly if no name is longer. -/
theorem formats_agree_iff {names : List (List Char)} {entries : List JsonSvcEntry}
    (hlen : names.length ≤ maxConfigServices) (hcomma : ∀ n ∈ names, ',' ∉ n)
    (hnul : ∀ n ∈ names, nul ∉ n) (hentries : entries.map (·.name) = names.map some)
    (cfg₁ cfg₂ : CeellConfig) :
    configuredNames (parseServicesCsv (some ([','].intercalate names)) cfg₁)
        = (names.filter fun n => n ≠ [] ∧ n.length ≤ 31) ∧
      configuredNames (parseServicesV2 entries cfg₂)
        = (names.filter (· ≠ [])).map (List.take 31) ∧
      (SameServices (parseServicesCsv (some ([','].intercalate names)) cfg₁)
          (parseServicesV2 entries cfg₂) ↔ ∀ n ∈ names, n.length ≤ 31) := by
  obtain ⟨⟨hcount₁, hnames₁⟩, hcount₂, hnames₂⟩ :=
    formats_names hlen hcomma hnul hentries cfg₁ cfg₂
  refine ⟨hnames₁, hnames₂, ?_⟩
  have hfilter : (names.filter fun n => n ≠ [] ∧ n.length ≤ 31)
      = (names.filter (· ≠ [])).filter (·.length ≤ 31) := by
    rw [List.filter_filter]
    exact List.filter_congr fun n _ => by rw [Bool.decide_and, Bool.and_comm]
  constructor
  · rintro ⟨hcount, _⟩ n hn
    rw [hcount₁, hcount₂, hfilter, List.length_map] at hcount
    have hall := List.length_filter_eq_length_iff.mp (Nat.add_left_cancel hcount)
    by_cases hne : n = []
    · rw [hne]
      exact Nat.zero_le _
    · exact of_decide_eq_true (hall n (List.mem_filter.mpr ⟨hn, by simpa using hne⟩))
  · intro hshort
    have hcut : (names.filter (· ≠ [])).map (List.take 31) = names.filter (· ≠ []) := by
      refine (List.map_congr_left fun n hn => ?_).trans (List.map_id _)
      exact List.take_of_length_le (hshort n (List.mem_of_mem_filter hn))
    have hall : (names.filter (· ≠ [])).filter (·.length ≤ 31) = names.filter (· ≠ []) :=
      List.filter_eq_self.mpr fun n hn => decide_eq_true (hshort n (List.mem_of_mem_filter hn))
    rw [hfilter, hall] at hcount₁ hnames₁
    rw [hcut] at hcount₂ hnames₂
    constructor
    · rw [hcount₁, hcount₂]
    · exact hnames₁.trans hnames₂.symm

/-- A name of 32 bytes is no service in version 1, and one in version 2. -/
theorem longName_differs :
    (parseServicesCsv (some ([','].intercalate [List.replicate 32 'a'])) .zero).serviceCount = 0 ∧
    (parseServicesV2 [⟨some (List.replicate 32 'a'), 1, 0⟩] .zero).serviceCount = 1 ∧
    ¬ SameServices (parseServicesCsv (some ([','].intercalate [List.replicate 32 'a'])) .zero)
      (parseServicesV2 [⟨some (List.replicate 32 'a'), 1, 0⟩] .zero) := by
  decide +kernel

theorem formats_agree_iff_longest :
    SameServices
      (parseServicesCsv (some ([','].intercalate [List.replicate 31 'a', [], "ota".toList])) .zero)
      (parseServicesV2 [⟨some (List.replicate 31 'a'), 0, 50⟩, ⟨some [], 1, 0⟩,
        ⟨some "ota".toList, 2, 10⟩] .zero) :=
  (formats_agree_iff (by decide) (by decide) (by decide) rfl .zero .zero).2.2.mpr (by decide)

end Ceell.Core
