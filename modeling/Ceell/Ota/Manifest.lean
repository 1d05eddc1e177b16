/-
Ceell.Ota.Manifest — the manifest as `fetch_manifest` takes it in, and what
a manifest without a field leads to.

`manifest_cb` gathers the body in globals that outlive the request. What
they hold is what a `Collected` has taken in (`Holding`): one call of the
callback keeps that, so the calls of a request do, and the cut of the body
into fragments drops out (`fetchManifest_eq`). The request resets the
globals first, so an earlier fetch drops out too.

A manifest may lack any field. Only a missing `url` is not looked at before
it is used: `safeCycle_iff`.
-/
import Ceell.Lib.Collector
import Ceell.Ota.Image

namespace Ceell.Ota

open Ceell.Lib Ceell.Osal

/-! ## The callback -/

/-- The longest body `manifest_buf` takes: a byte is kept for the terminator. -/
def manifestMax : Nat := manifestBufSize - 1

/-- The body of a response, its fragments joined. -/
def HttpResult.body {β : Type} (rsp : HttpResult β) : List β :=
  (rsp.calls.map (·.bodyFrag)).flatten

/-- `available`, as `manifest_cb` computes it. -/
def manifestAvailable (w : OtaWorld) : SizeT := .ofNat manifestBufSize - 1 - w.manifestLen

/-- The fragment passes the checks of `manifest_cb` and is copied. -/
def Copied (w : OtaWorld) (rsp : HttpCall Char) : Prop :=
  0 < rsp.bodyFrag.length ∧ w.manifestTruncated = false ∧
    rsp.bodyFrag.length ≤ (manifestAvailable w).toNat

/-- The globals hold what has been taken in of a body. -/
def Holding (w : OtaWorld) : Collected Char manifestMax → Prop
  | none => w.manifestLen.toNat ≤ manifestMax ∧ w.manifestTruncated = true
  | some xs => w.manifestLen.toNat = xs.val.length ∧ w.manifestTruncated = false ∧
      w.manifestBuf.bytes.take xs.val.length = xs.val

section Callback

variable {w : OtaWorld} {c : Collected Char manifestMax}

theorem Holding.len_le (h : Holding w c) : w.manifestLen.toNat ≤ manifestMax := by
  cases c with
  | none => exact h.1
  | some xs =>
    rw [h.1]
    exact xs.property

/-- The subtraction does not wrap. -/
theorem manifestAvailable_toNat (h : w.manifestLen.toNat ≤ manifestMax) :
    (manifestAvailable w).toNat = manifestMax - w.manifestLen.toNat := by
  have hmax : (.ofNat manifestBufSize - 1 : SizeT).toNat = manifestMax := by decide
  have hle : w.manifestLen ≤ (.ofNat manifestBufSize - 1 : SizeT) := by
    rw [UInt32.le_iff_toNat_le, hmax]
    exact h
  rw [manifestAvailable, UInt32.toNat_sub_of_le _ _ hle, hmax]

theorem manifestCb_copied {rsp : HttpCall Char} (h : Copied w rsp) :
    manifestCb w rsp =
      { w with
        manifestBuf := w.manifestBuf.memcpy w.manifestLen.toNat rsp.bodyFrag
        manifestLen := w.manifestLen + .ofNat rsp.bodyFrag.length } := by
  obtain ⟨hpos, htrunc, hfits⟩ := h
  unfold manifestAvailable at hfits
  simp [manifestCb, hpos, htrunc, hfits]

/-- What is not copied leaves all as it is but the flag. -/
theorem manifestCb_not_copied {rsp : HttpCall Char} (h : ¬ Copied w rsp) :
    manifestCb w rsp =
      { w with manifestTruncated := w.manifestTruncated || decide (0 < rsp.bodyFrag.length) } := by
  unfold Copied manifestAvailable at h
  by_cases hpos : 0 < rsp.bodyFrag.length
  · cases htrunc : w.manifestTruncated with
    | true =>
      have hsame : w = { w with manifestTruncated := true } := by rw [← htrunc]
      simp only [manifestCb, htrunc, Bool.not_true, Bool.and_false, Bool.true_or]
      exact hsame
    | false =>
      have hmore := not_le.mp fun hfits => h ⟨hpos, htrunc, hfits⟩
      simp [manifestCb, hpos, htrunc, hmore]
  · simp [manifestCb, hpos]

/-- A fragment that fits is copied behind what is there. -/
theorem holding_copied {xs : { xs : List Char // xs.length ≤ manifestMax }} {rsp : HttpCall Char}
    (h : Holding w (some xs)) (hcopy : Copied w rsp) :
    Holding (manifestCb w rsp) (Collected.feed (some xs) rsp.bodyFrag) := by
  have hfits := hcopy.2.2
  rw [manifestAvailable_toNat h.len_le] at hfits
  rw [manifestCb_copied hcopy]
  obtain ⟨hlen, htrunc, hbuf⟩ := h
  have hxs := xs.property
  have hmax : manifestMax = 511 := rfl
  have hall : (xs.val ++ rsp.bodyFrag).length ≤ manifestMax := by
    rw [List.length_append]
    omega
  have hfeed : Collected.feed (some xs) rsp.bodyFrag =
      (some ⟨xs.val ++ rsp.bodyFrag, hall⟩ : Collected Char manifestMax) :=
    Collected.ofList_eq_some hall
  rw [hfeed]
  refine ⟨?_, htrunc, ?_⟩
  · rw [UInt32.toNat_add, UInt32.toNat_ofNat', hlen, List.length_append]
    omega
  · have hroom : w.manifestLen.toNat + rsp.bodyFrag.length ≤ manifestBufSize := by
      rw [manifestBufSize]
      omega
    dsimp only
    rw [List.length_append, ← hlen, CharBuf.take_memcpy _ _ _ hroom, hlen, hbuf]

/-- A fragment that is not copied is empty, or does not fit. -/
theorem holding_not_copied {xs : { xs : List Char // xs.length ≤ manifestMax }}
    {rsp : HttpCall Char} (h : Holding w (some xs)) (hcopy : ¬ Copied w rsp) :
    Holding (manifestCb w rsp) (Collected.feed (some xs) rsp.bodyFrag) := by
  have havail := manifestAvailable_toNat h.len_le
  rw [manifestCb_not_copied hcopy]
  obtain ⟨hlen, htrunc, hbuf⟩ := h
  by_cases hpos : 0 < rsp.bodyFrag.length
  · have hmore := not_le.mp fun hfits => hcopy ⟨hpos, htrunc, hfits⟩
    rw [havail, hlen] at hmore
    have hall : manifestMax < (xs.val ++ rsp.bodyFrag).length := by
      rw [List.length_append]
      omega
    have hfeed : Collected.feed (some xs) rsp.bodyFrag = (none : Collected Char manifestMax) :=
      Collected.ofList_eq_none hall
    rw [hfeed]
    refine ⟨?_, ?_⟩
    · rw [hlen]
      exact xs.property
    · simp [hpos]
  · have hempty : rsp.bodyFrag = [] := by simpa using hpos
    have hfeed : Collected.feed (some xs) rsp.bodyFrag = some xs := by
      rw [hempty]
      refine (Collected.ofList_eq_some (by simp [xs.property])).trans ?_
      simp
    rw [hfeed]
    exact ⟨hlen, by simp [htrunc, hempty], hbuf⟩

/-- **One call takes in its fragment.** -/
theorem manifestCb_holding (h : Holding w c) (rsp : HttpCall Char) :
    Holding (manifestCb w rsp) (c.feed rsp.bodyFrag) := by
  cases c with
  | none =>
    have hcopy : ¬ Copied w rsp := by
      rintro ⟨_, htrunc, _⟩
      rw [h.2] at htrunc
      cases htrunc
    rw [manifestCb_not_copied hcopy]
    exact ⟨h.1, by simp [h.2]⟩
  | some xs =>
    by_cases hcopy : Copied w rsp
    · exact holding_copied h hcopy
    · exact holding_not_copied h hcopy

/-- The calls of a request. -/
theorem foldl_manifestCb_holding (h : Holding w c) (calls : List (HttpCall Char)) :
    Holding (calls.foldl manifestCb w) ((calls.map (·.bodyFrag)).foldl Collected.feed c) := by
  induction calls generalizing w c with
  | nil => exact h
  | cons rsp calls ih => exact ih (manifestCb_holding h rsp)

end Callback

/-! ## The fetch -/

def OtaOp.text? : OtaOp → Option (List Char)
  | .jsonParse text _ _ => some text
  | _ => none

/-- The texts parsed. -/
def texts (es : OtaLog) : List (List Char) := es.filterMap OtaOp.text?

/-- What a fetch is to come to, from the body and the result of the request
alone: the result, the manifest and the texts parsed. -/
def manifestOutcome (lib : JsonLib) (body : List Char) (ret : Int) :
    Int × OtaManifest × List (List Char) :=
  if ret < 0 then (ret, {}, [])
  else if manifestMax < body.length then (-ENOBUFS, {}, [])
  else
    let parsed := lib.parse manifestDescr body
    (if parsed.ret < 0 then -EPROTO else 0, .ofParsed parsed, [body])

section Fetch

variable {cfg : OtaConfig} {p : Platform} {w start : OtaWorld}

@[simp] theorem texts_append (es fs : OtaLog) : texts (es ++ fs) = texts es ++ texts fs :=
  List.filterMap_append

@[simp] theorem texts_cons (e : OtaOp) (es : OtaLog) :
    texts (e :: es) = e.text?.toList ++ texts es := by
  cases h : e.text? <;> simp [texts, h]

@[simp] theorem texts_nil : texts [] = [] := rfl

theorem texts_of_without {es : OtaLog} (h : Without .manifest es) : texts es = [] :=
  filterMap_eq_nil_of_without
    (fun e he => by cases e <;> first | rfl | exact absurd rfl he) h

/-- The request starts with an empty buffer, whatever was there before. -/
theorem manifestRequest_holding (h : manifestRequest cfg p w = some start) :
    Holding start (Collected.ofList []) ∧ texts start.ops = texts w.ops := by
  obtain ⟨es, rfl, hnet, _⟩ := manifestRequest_spec h
  have hnone := texts_of_without (hnet.without (k := .manifest) (by decide))
  exact ⟨⟨rfl, rfl, rfl⟩, by simp [hnone, OtaOp.text?]⟩

/-- The buffer at the end of the request holds the body, or there was more
than it can hold. -/
theorem foldl_manifestCb_body (h : manifestRequest cfg p w = some start)
    (rsp : HttpResult Char) :
    Holding (rsp.calls.foldl manifestCb start) (Collected.ofList rsp.body) := by
  have hfold := foldl_manifestCb_holding (manifestRequest_holding h).1 rsp.calls
  rw [Collected.foldl_feed, List.nil_append] at hfold
  exact hfold

/-- **A fetch is decided by the body and the result of its request.** -/
theorem fetchManifest_eq (lib : JsonLib) (h : manifestRequest cfg p w = some start)
    {rsp : HttpResult Char} (hrsp : p.httpManifest start.ops = rsp) :
    (fetchManifest cfg lib p w).1 = (manifestOutcome lib rsp.body rsp.ret).1 ∧
      (fetchManifest cfg lib p w).2.1 = (manifestOutcome lib rsp.body rsp.ret).2.1 ∧
      texts (fetchManifest cfg lib p w).2.2.ops =
        texts w.ops ++ (manifestOutcome lib rsp.body rsp.ret).2.2 := by
  rcases fetchManifest_cases cfg lib p w with ⟨_, hnone, _⟩ | ⟨start', rsp', hstart, hrsp', hend⟩
  · rw [hnone] at h
    cases h
  obtain rfl := Option.some.inj (h.symm.trans hstart)
  obtain rfl := hrsp.symm.trans hrsp'
  have hbody : Holding (manifestAnswered start rsp) (Collected.ofList rsp.body) :=
    foldl_manifestCb_body h rsp
  have htexts : texts (manifestAnswered start rsp).ops = texts w.ops := by
    simp [manifestAnswered_ops, (manifestRequest_holding h).2, OtaOp.text?]
  generalize manifestAnswered start rsp = w2 at hend hbody htexts
  generalize fetchManifest cfg lib p w = r at hend ⊢
  unfold manifestOutcome
  cases hend with
  | requestFailed hret => simp [hret, htexts]
  | tooLong hret htrunc =>
    have hlong : manifestMax < rsp.body.length := by
      by_contra hfits
      rw [Collected.ofList_eq_some (not_lt.mp hfits)] at hbody
      rw [hbody.2.1] at htrunc
      cases htrunc
    simp [hret, hlong, htexts]
  | @parsed text parsed buf hret htrunc htext hparsed =>
    have hfits : ¬ manifestMax < rsp.body.length := by
      intro hlong
      rw [Collected.ofList_eq_none hlong] at hbody
      exact htrunc hbody.2
    rw [Collected.ofList_eq_some (not_lt.mp hfits)] at hbody
    obtain ⟨hlen, _, hbuf⟩ := hbody
    dsimp only at hlen hbuf
    -- the terminator goes behind the body
    have hroom : w2.manifestLen.toNat + [nul].length ≤ manifestBufSize := by
      rw [hlen, List.length_singleton, manifestBufSize]
      have hmax : manifestMax = 511 := rfl
      omega
    rw [CharBuf.take_memcpy_before _ _ _ hroom, hlen, hbuf] at htext
    subst htext
    simp [hret, hfits, hparsed, OtaWorld.did, htexts, OtaOp.text?]

end Fetch

/-! ## Every fragmentation -/

/-- What one call of the callback does stays inside the buffer. -/
structure CallInBounds (w : OtaWorld) (rsp : HttpCall Char) : Prop where
  /-- the subtraction does not wrap -/
  no_wrap : (manifestAvailable w).toNat + w.manifestLen.toNat = manifestBufSize - 1
  copied : Copied w rsp → w.manifestLen.toNat + rsp.bodyFrag.length ≤ manifestBufSize - 1
  not_copied : ¬ Copied w rsp → (manifestCb w rsp).manifestBuf = w.manifestBuf

/-- What a fetch from `w` is to meet, whose request went out in `start` and
was answered by `rsp`; `r` is what it returns. -/
structure FetchOk (w start : OtaWorld) (rsp : HttpResult Char)
    (r : Int × OtaManifest × OtaWorld) : Prop where
  calls : ∀ pre call post, rsp.calls = pre ++ call :: post →
    CallInBounds (pre.foldl manifestCb start) call
  terminator : (rsp.calls.foldl manifestCb start).manifestLen.toNat < manifestBufSize
  /-- a body that fits is parsed, and nothing else -/
  whole : 0 ≤ rsp.ret → rsp.body.length ≤ manifestMax →
    texts r.2.2.ops = texts w.ops ++ [rsp.body]
  tooLong : 0 ≤ rsp.ret → manifestMax < rsp.body.length →
    r.1 = -ENOBUFS ∧ texts r.2.2.ops = texts w.ops
  failed : rsp.ret < 0 → r.1 = rsp.ret ∧ texts r.2.2.ops = texts w.ops

/-- Two fetches, from `w` and `w'`, return the same and parse the same. -/
def SameOutcome (w w' : OtaWorld) (r r' : Int × OtaManifest × OtaWorld) : Prop :=
  r.1 = r'.1 ∧ r.2.1 = r'.2.1 ∧
    ∃ parsed, texts r.2.2.ops = texts w.ops ++ parsed ∧ texts r'.2.2.ops = texts w'.ops ++ parsed

theorem Holding.callInBounds {w : OtaWorld} {c : Collected Char manifestMax} (h : Holding w c)
    (rsp : HttpCall Char) : CallInBounds w rsp := by
  have hlen := h.len_le
  have havail := manifestAvailable_toNat hlen
  rw [manifestMax] at hlen havail
  constructor
  · omega
  · rintro ⟨_, _, hfits⟩
    omega
  · intro hcopy
    rw [manifestCb_not_copied hcopy]

/-- **Whatever the fragments**, the buffer is kept and the fetch comes to what
the body and the result of the request say: another run, of other fragments
or after other fetches, comes to the same. -/
theorem fetchManifest_ok (cfg : OtaConfig) (lib : JsonLib) (p : Platform) (w : OtaWorld)
    {start : OtaWorld} {rsp : HttpResult Char} (hstart : manifestRequest cfg p w = some start)
    (hrsp : p.httpManifest start.ops = rsp) :
    FetchOk w start rsp (fetchManifest cfg lib p w) ∧
      ∀ p' w' start' rsp', manifestRequest cfg p' w' = some start' →
        p'.httpManifest start'.ops = rsp' → rsp'.body = rsp.body → rsp'.ret = rsp.ret →
        SameOutcome w w' (fetchManifest cfg lib p w) (fetchManifest cfg lib p' w') := by
  obtain ⟨hret, hmanifest, htexts⟩ := fetchManifest_eq lib hstart hrsp
  refine ⟨?_, ?_⟩
  · constructor
    · intro pre call post _
      have hpre := foldl_manifestCb_holding (manifestRequest_holding hstart).1 pre
      exact hpre.callInBounds call
    · have hlen := (foldl_manifestCb_body hstart rsp).len_le
      exact Nat.lt_of_le_of_lt hlen (by decide)
    · intro hok hfits
      rw [htexts, manifestOutcome, if_neg (not_lt.mpr hok), if_neg (not_lt.mpr hfits)]
    · intro hok hlong
      rw [hret, htexts, manifestOutcome, if_neg (not_lt.mpr hok), if_pos hlong, List.append_nil]
      exact ⟨rfl, rfl⟩
    · intro hneg
      rw [hret, htexts, manifestOutcome, if_pos hneg, List.append_nil]
      exact ⟨rfl, rfl⟩
  · intro p' w' start' rsp' hstart' hrsp' hbody hsame
    obtain ⟨hret', hmanifest', htexts'⟩ := fetchManifest_eq lib hstart' hrsp'
    rw [hbody, hsame] at hret' hmanifest' htexts'
    exact ⟨hret.trans hret'.symm, hmanifest.trans hmanifest'.symm, _, htexts, htexts'⟩

/-- The sample manifest, in three fragments of which one is empty. -/
def cutPlatform : Platform :=
  { samplePlatform with
    httpManifest := fun log =>
      let body := (samplePlatform.httpManifest log).body
      ⟨[⟨body.take 10, false⟩, ⟨[], false⟩, ⟨body.drop 10, true⟩], 0⟩ }

/-- The sample manifest comes to the same when it is cut. -/
theorem fetchManifest_ok_cut :
    ∃ start, manifestRequest sampleConfig samplePlatform {} = some start ∧
      FetchOk {} start (samplePlatform.httpManifest start.ops)
        (fetchManifest sampleConfig jsonReference samplePlatform {}) ∧
      SameOutcome {} {} (fetchManifest sampleConfig jsonReference samplePlatform {})
        (fetchManifest sampleConfig jsonReference cutPlatform {}) := by
  have hstart : ∃ start, manifestRequest sampleConfig samplePlatform {} = some start := ⟨_, rfl⟩
  obtain ⟨start, hstart⟩ := hstart
  have hcut : manifestRequest sampleConfig cutPlatform {} = some start := hstart
  obtain ⟨hok, hsame⟩ :=
    fetchManifest_ok sampleConfig jsonReference samplePlatform {} hstart rfl
  refine ⟨start, hstart, hok, hsame cutPlatform {} start _ hcut rfl ?_ rfl⟩
  simp [cutPlatform, HttpResult.body]

/-- A server that sends 600 bytes and then no more. -/
def timeoutPlatform : Platform :=
  { samplePlatform with
    httpManifest := fun _ => ⟨[⟨List.replicate 600 'x', false⟩], -ETIMEDOUT⟩ }

/-- The result is that of the request, though the body is too long. -/
theorem tooLong_timeout :
    (manifestRequest sampleConfig timeoutPlatform {}).isSome = true ∧
      (∀ start, manifestRequest sampleConfig timeoutPlatform {} = some start →
        manifestMax < (timeoutPlatform.httpManifest start.ops).body.length) ∧
      (fetchManifest sampleConfig jsonReference timeoutPlatform {}).1 = -ETIMEDOUT ∧
      -ETIMEDOUT ≠ -ENOBUFS := by
  refine ⟨rfl, ?_, ?_, by decide⟩
  · intro start _
    have hbody : (timeoutPlatform.httpManifest start.ops).body = List.replicate 600 'x' :=
      List.append_nil _
    rw [hbody, List.length_replicate]
    decide
  · decide +kernel

/-! ## A manifest that lacks a field -/

section Missing

variable {cfg : OtaConfig} {lib : JsonLib} {p : Platform} {w w1 : OtaWorld} {m : OtaManifest}

/-- What a cycle from `w` with the manifest `m` is to meet. -/
structure SafeCycle (current : OtaVer) (m : OtaManifest) (w : OtaWorld) (o : Outcome)
    (w' : OtaWorld) : Prop where
  /-- no missing string is used -/
  noFault : o ≠ .fault
  /-- a newer manifest without a URL is refused, and slot1 is not touched -/
  noUrl : ∀ v, Announces m v → current < v → m.url = none →
    (∃ ret, o = .returned ret ∧ ret < 0) ∧ w'.state.Settled ∧
      ∃ es, w'.ops = w.ops ++ es ∧ Without .flash es ∧ Without .stream es

/-- The manifest announces a newer version and has no URL. -/
def NewerWithoutUrl (current : OtaVer) (m : OtaManifest) : Prop :=
  m.url = none ∧ ∃ v, Announces m v ∧ current < v

/-- The cycle faults on such a manifest only. -/
theorem otaCheckAndUpdate_fault_iff
    (hfetch : fetchManifest cfg lib p (ceellOtaSetState .checking w) = (0, m, w1)) :
    (otaCheckAndUpdate cfg lib p w).1 = .fault ↔ NewerWithoutUrl cfg.current m := by
  rcases otaCheckAndUpdate_accepted hfetch with
    ⟨ret, hver, hneg, heq⟩ | ⟨v, hann, hle, heq⟩ | ⟨v, hann, hlt, heq⟩
  · have hnone : ¬ NewerWithoutUrl cfg.current m := by
      intro ⟨_, v, hann, _⟩
      rw [hver.symm] at hneg
      exact hann.parses hneg
    simp [heq, hnone]
  · have hnone : ¬ NewerWithoutUrl cfg.current m := by
      intro ⟨_, v', hann', hlt⟩
      rw [hann'.unique hann] at hlt
      exact absurd hle (not_le.mpr hlt)
    simp [heq, hnone]
  · rw [heq]
    constructor
    · intro hfault
      exact ⟨(installUpdate_fault hfault).1, v, hann, hlt⟩
    · intro ⟨hurl, _⟩
      simp [installUpdate, hurl]

/-- **Of all manifests that are accepted**, a cycle is safe exactly on those
that do not announce a newer version without a URL. -/
theorem safeCycle_iff
    (hfetch : fetchManifest cfg lib p (ceellOtaSetState .checking w) = (0, m, w1)) :
    SafeCycle cfg.current m w (otaCheckAndUpdate cfg lib p w).1
        (otaCheckAndUpdate cfg lib p w).2 ↔
      ¬ NewerWithoutUrl cfg.current m := by
  rw [← otaCheckAndUpdate_fault_iff hfetch]
  constructor
  · intro h
    exact h.noFault
  · intro h
    refine ⟨h, ?_⟩
    intro v hann hlt hurl
    exact absurd ((otaCheckAndUpdate_fault_iff hfetch).mpr ⟨hurl, v, hann, hlt⟩) h

end Missing

/-- The sample server with a manifest of these members. -/
def withManifest (fs : List JsonField) : Platform :=
  { samplePlatform with httpManifest := fun _ => ⟨[⟨renderObj fs, true⟩], 0⟩ }

/-- A manifest without any string. -/
def stringlessPlatform : Platform := withManifest [("size".toList, .num 5)]

/-- The sample manifest without its URL. -/
def noUrlPlatform : Platform :=
  withManifest [("version".toList, .str "0.2.0".toList), ("size".toList, .num 5)]

theorem safeCycle_iff_stringless :
    ∃ w1, fetchManifest sampleConfig jsonReference stringlessPlatform
        (ceellOtaSetState .checking {}) = (0, ⟨none, none, none, 5⟩, w1) ∧
      SafeCycle sampleConfig.current ⟨none, none, none, 5⟩ {}
        (otaCheckAndUpdate sampleConfig jsonReference stringlessPlatform {}).1
        (otaCheckAndUpdate sampleConfig jsonReference stringlessPlatform {}).2 := by
  have hret : (fetchManifest sampleConfig jsonReference stringlessPlatform
      (ceellOtaSetState .checking {})).1 = 0 := by decide +kernel
  have hm : (fetchManifest sampleConfig jsonReference stringlessPlatform
      (ceellOtaSetState .checking {})).2.1 = ⟨none, none, none, 5⟩ := by decide +kernel
  have hfetch : fetchManifest sampleConfig jsonReference stringlessPlatform
      (ceellOtaSetState .checking {}) = (0, ⟨none, none, none, 5⟩, _) :=
    Prod.ext hret (Prod.ext hm rfl)
  refine ⟨_, hfetch, (safeCycle_iff hfetch).mpr ?_⟩
  intro ⟨_, v, hann, _⟩
  exact absurd hann.parses (by decide)

/-- The node that runs 0.1.0 takes a URL that is not there. -/
theorem noUrl_faults :
    (fetchManifest sampleConfig jsonReference noUrlPlatform (ceellOtaSetState .checking {})).1 = 0 ∧
      (fetchManifest sampleConfig jsonReference noUrlPlatform
        (ceellOtaSetState .checking {})).2.1 = ⟨some "0.2.0".toList, none, none, 5⟩ ∧
      (otaCheckAndUpdate sampleConfig jsonReference noUrlPlatform {}).1 = .fault ∧
      ¬ SafeCycle sampleConfig.current ⟨some "0.2.0".toList, none, none, 5⟩ {}
        (otaCheckAndUpdate sampleConfig jsonReference noUrlPlatform {}).1
        (otaCheckAndUpdate sampleConfig jsonReference noUrlPlatform {}).2 := by
  have hfault : (otaCheckAndUpdate sampleConfig jsonReference noUrlPlatform {}).1 = .fault := by
    decide +kernel
  refine ⟨by decide +kernel, by decide +kernel, hfault, ?_⟩
  intro h
  exact h.noFault hfault

end Ceell.Ota
