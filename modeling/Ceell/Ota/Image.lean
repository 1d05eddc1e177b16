/-
Ceell.Ota.Image — the image in slot1 and the manifest it was fetched for.

A cycle that gets a newer manifest is to end in one of two ways: the
upgrade is requested with the image the manifest describes, fetched from
its URL and of its size, or it returns a negative value and requests
nothing (`ImageOk`). Three things are in the way of that. The size is
compared only where it is positive; the bytes are counted in a `size_t`;
and the URL is requested as the local array has it. `ImageTold` is what a
manifest and a body must be for none of them to matter, and
`imageOk_iff` says that it is all: a cycle is as it should be exactly if
its manifest and its body are so, or another step fails.
-/
import Ceell.Ota.Cycle

namespace Ceell.Ota

open Ceell.Lib Ceell.Osal

/-! ## A manifest without a URL -/

/-- Only a missing URL faults, and nothing happens before. -/
theorem installUpdate_fault {p : Platform} {m : OtaManifest} {w : OtaWorld}
    (h : (installUpdate p m w).1 = .fault) : m.url = none ∧ (installUpdate p m w).2 = w := by
  unfold installUpdate at h ⊢
  cases hurl : m.url with
  | none => exact ⟨rfl, rfl⟩
  | some url =>
    simp only [hurl] at h
    split at h
    · cases h
    · split at h
      · cases h
      · split at h <;> cases h

/-- A cycle faults where the newer manifest has no URL. -/
theorem otaCheckAndUpdate_fault {cfg : OtaConfig} {lib : JsonLib} {p : Platform} {w : OtaWorld}
    (h : (otaCheckAndUpdate cfg lib p w).1 = .fault) :
    ∃ es m v, (otaCheckAndUpdate cfg lib p w).2.ops = w.ops ++ es ∧ manifests es = [m] ∧
      Announces m v ∧ cfg.current < v ∧ m.url = none ∧ ¬ AnyFailed es := by
  rcases otaCheckAndUpdate_cases cfg lib p w with
    ⟨fetch, ret, _, _, ho, _⟩ | ⟨fetch, m, v, w1, hfetch, _, hann, hlt, hops, heq⟩
  · rw [h] at ho
    cases ho
  · rw [heq] at h ⊢
    obtain ⟨hurl, hsame⟩ := installUpdate_fault h
    refine ⟨.setState .checking :: fetch, m, v, ?_, ?_, hann, hlt, hurl, ?_⟩
    · rw [hsame, hops]
    · simp [OtaOp.manifest?, hfetch.manifests]
    · simp [OtaOp.Failed, hfetch.clean]

/-! ## The image and its manifest -/

/-- The bytes of the body. -/
def received (es : OtaLog) : Nat := (bodyFrags es).flatten.length

/-- The copy of the URL is the URL, and as many bytes were received as the
manifest says. -/
def Fits (m : OtaManifest) (n : Nat) : Prop :=
  ∃ url, m.url = some url ∧ fwUrl url = url ∧ (n : Int) = m.size

/-- What a cycle with the log `es` is to meet. -/
structure ImageOk (cfg : OtaConfig) (es : OtaLog) (o : Outcome) : Prop where
  /-- an upgrade is requested for the image of the manifest: its URL is the
  one requested after the manifest's, and its size that of what was written -/
  image : ∀ pre ret post, es = pre ++ .requestUpgrade ret :: post →
    ∃ m url, manifests pre = [m] ∧ m.url = some url ∧ gets pre = [cfg.manifestPath, url] ∧
      ((stored pre).flatten.length : Int) = m.size
  /-- a newer manifest that the URL or the body does not fit is refused -/
  otherwise : ∀ m ∈ manifests es, ∀ v, Announces m v → cfg.current < v →
    ¬ Fits m (received es) → (∃ ret, o = .returned ret ∧ ret < 0) ∧ Without .request es

/-- The size check sees that the body is not of the size. -/
def SizeCaught (size : Int) (n : Nat) : Prop := 0 < size ∧ n % 2 ^ 32 ≠ size.toNat % 2 ^ 32

/-- The size check says whether the body is of the size. -/
def SizeTold (size : Int) (n : Nat) : Prop :=
  if 0 < size then n % 2 ^ 32 = size.toNat % 2 ^ 32 → n = size.toNat else size = 0 ∧ n = 0

instance (size : Int) (n : Nat) : Decidable (SizeTold size n) := by
  unfold SizeTold; infer_instance

/-- What a newer manifest and the body it led to are to be: the URL is no
absolute path, or the size check fails, or the URL fits its copy and the
size check would have failed on a wrong size. -/
def ImageTold (m : OtaManifest) (n : Nat) : Prop :=
  ∃ url, m.url = some url ∧ (url.head? ≠ some '/' ∨ SizeCaught m.size n ∨
    url.length ≤ 127 ∧ nul ∉ url ∧ SizeTold m.size n)

/-- An operation before the upgrade request fails. -/
def FailedEarly (es : OtaLog) : Prop := ∃ e ∈ es, e.Failed ∧ e.kind ≠ .request

theorem fwUrl_eq (url : List Char) : fwUrl url = (cstr url).take 127 := by
  rw [fwUrl, CharBuf.terminate_copy, CharBuf.str_copy_zero]

/-- The copy is the URL where the array holds it. -/
theorem fwUrl_eq_self_iff (url : List Char) : fwUrl url = url ↔ url.length ≤ 127 ∧ nul ∉ url := by
  rw [fwUrl_eq]
  constructor
  · intro h
    constructor
    · rw [← h]
      exact List.length_take_le _ _
    · rw [← h]
      exact nul_notMem_take_cstr url 127
  · rintro ⟨hlen, hnul⟩
    rw [cstr_eq_self hnul, List.take_of_length_le hlen]

theorem head_fwUrl_iff (url : List Char) :
    (fwUrl url).head? = some '/' ↔ url.head? = some '/' := by
  rw [fwUrl_eq]
  cases url with
  | nil => simp [cstr]
  | cons c url =>
    by_cases hc : c = nul
    · simp [cstr, hc, nul]
    · simp [cstr, hc]

theorem sizeMismatch_iff (size : Int) (es : OtaLog) :
    SizeMismatch size es ↔ SizeCaught size (received es) := by
  rw [SizeMismatch, SizeCaught, received, Ne, ← UInt32.toNat_inj, UInt32.toNat_ofNat',
    UInt32.toNat_ofNat']

/-- What passes the size check is of the size, if the check says so. -/
theorem sizeTold_iff {size : Int} {n : Nat} (h : ¬ SizeCaught size n) :
    SizeTold size n ↔ (n : Int) = size := by
  unfold SizeCaught at h
  unfold SizeTold
  split
  · have hsame : n % 2 ^ 32 = size.toNat % 2 ^ 32 := by
      by_contra hne
      exact h ⟨by assumption, hne⟩
    constructor
    · intro htold
      have := htold hsame
      omega
    · intro _ _
      omega
  · omega

/-- The exact condition on a cycle: an operation before the request fails, or
the checks tell the image of the newer manifest from any other. -/
def Told (cfg : OtaConfig) (es : OtaLog) : Prop :=
  ∀ m ∈ manifests es, ∀ v, Announces m v → cfg.current < v →
    FailedEarly es ∨ ImageTold m (received es)

section Ends

variable {cfg : OtaConfig} {es : OtaLog} {o : Outcome} {m : OtaManifest} {v : OtaVer}

theorem without_not_split (h : Without .request es) {pre post : OtaLog} {ret : Int} :
    es ≠ pre ++ .requestUpgrade ret :: post := by
  rintro rfl
  exact h (.requestUpgrade ret) (by simp) rfl

/-- A cycle that got no newer manifest. -/
theorem imageOk_iff_of_notNewer (hreq : Without .request es)
    (hm : ∀ m ∈ manifests es, ∀ v, Announces m v → ¬ cfg.current < v) :
    ImageOk cfg es o ↔ Told cfg es := by
  constructor
  · intro _ m hmem v hv hlt
    exact absurd hlt (hm m hmem v hv)
  · intro _
    constructor
    · intro pre ret post hes
      exact absurd hes (without_not_split hreq)
    · intro m hmem v hv hlt
      exact absurd hlt (hm m hmem v hv)

/-- A cycle that was refused, for a reason. -/
theorem imageOk_iff_of_refused (hreq : Without .request es)
    (ho : ∃ ret, o = .returned ret ∧ ret < 0) (hwhy : Told cfg es) :
    ImageOk cfg es o ↔ Told cfg es := by
  constructor
  · intro _
    exact hwhy
  · intro _
    constructor
    · intro pre ret post hes
      exact absurd hes (without_not_split hreq)
    · intro _ _ _ _ _ _
      exact ⟨ho, hreq⟩

/-- A cycle that faulted. -/
theorem imageOk_iff_of_fault (hm : manifests es = [m]) (hv : Announces m v)
    (hlt : cfg.current < v) (hurl : m.url = none) (hclean : ¬ AnyFailed es) :
    ImageOk cfg es .fault ↔ Told cfg es := by
  have hmem : m ∈ manifests es := by rw [hm]; exact List.mem_singleton_self m
  constructor
  · intro h
    obtain ⟨⟨ret, ho, _⟩, _⟩ := h.otherwise m hmem v hv hlt (by simp [Fits, hurl])
    cases ho
  · intro h
    rcases h m hmem v hv hlt with ⟨e, he, hf, _⟩ | ⟨url, hurl', _⟩
    · exact absurd ⟨e, he, hf⟩ hclean
    · rw [hurl] at hurl'
      cases hurl'

/-- A cycle that requested the upgrade. -/
theorem imageOk_iff_of_requested {pre post : OtaLog} {ret : Int} {url : List Char}
    (hes : es = pre ++ .requestUpgrade ret :: post) (hpre : Without .request pre)
    (hpost : Only [.state, .reboot] post) (hm : manifests pre = [m]) (hv : Announces m v)
    (hlt : cfg.current < v) (hurl : m.url = some url)
    (hgets : gets es = [cfg.manifestPath, fwUrl url]) (hstored : stored pre = bodyFrags pre)
    (habsolute : (fwUrl url).head? = some '/') (hsize : ¬ SizeMismatch m.size pre)
    (hclean : ¬ FailedEarly es) : ImageOk cfg es o ↔ Told cfg es := by
  have hmes : manifests es = [m] := by
    simp [hes, hm, OtaOp.manifest?, manifests_of_without (hpost.without _)]
  have hget : gets pre = [cfg.manifestPath, fwUrl url] := by
    simpa [hes, OtaOp.get?, gets_of_without (hpost.without _)] using hgets
  have hrec : received es = received pre := by
    simp [received, hes, OtaOp.bodyFrag?, bodyFrags_of_without (hpost.without _)]
  rw [sizeMismatch_iff] at hsize
  have hmem : m ∈ manifests es := by rw [hmes]; exact List.mem_singleton_self m
  constructor
  · intro h m' hm' _ _ _
    rw [hmes, List.mem_singleton] at hm'
    subst hm'
    obtain ⟨m'', url', hm'', hurl', hget', hsize'⟩ := h.image pre ret post hes
    rw [hm, List.cons.injEq] at hm''
    rw [← hm''.1] at hurl' hsize'
    rw [hurl, Option.some.injEq] at hurl'
    have hsame : fwUrl url = url := by
      rw [hget, ← hurl'] at hget'
      simpa using hget'
    rw [hstored, ← received] at hsize'
    obtain ⟨hlen, hnul⟩ := (fwUrl_eq_self_iff url).mp hsame
    rw [hrec]
    exact Or.inr ⟨url, hurl, Or.inr (Or.inr ⟨hlen, hnul, (sizeTold_iff hsize).mpr hsize'⟩)⟩
  · intro h
    have htold := (h m hmem v hv hlt).resolve_left hclean
    rw [hrec] at htold
    obtain ⟨url', hurl', htold⟩ := htold
    rw [hurl, Option.some.injEq] at hurl'
    subst hurl'
    have htold :=
      (htold.resolve_left (not_not.mpr ((head_fwUrl_iff url).mp habsolute))).resolve_left
      hsize
    have hsame : fwUrl url = url := (fwUrl_eq_self_iff url).mpr ⟨htold.1, htold.2.1⟩
    have hn : (received pre : Int) = m.size := (sizeTold_iff hsize).mp htold.2.2
    constructor
    · intro pre' ret' post' hes'
      have heq : pre' = pre :=
        prefix_eq_of_split (P := fun e => e.kind = .request) (fun e he => hpre e he)
          (fun e he => hpost.without (k := .request) (by decide) e he) rfl (hes.symm.trans hes')
      subst heq
      refine ⟨m, url, hm, hurl, ?_, ?_⟩
      · rw [hget, hsame]
      · rw [hstored]
        exact hn
    · intro m' hm' _ _ _ hfits
      rw [hmes, List.mem_singleton] at hm'
      subst hm'
      refine absurd ⟨url, hurl, hsame, ?_⟩ hfits
      rw [hrec]
      exact hn

end Ends

theorem failedEarly_of_anyFailed {es : OtaLog} (hreq : Without .request es) (h : AnyFailed es) :
    FailedEarly es := by
  obtain ⟨e, he, hf⟩ := h
  exact ⟨e, he, hf, hreq e he⟩

/-- A cycle that passed all the stages. -/
theorem imageOk_iff_of_stages {cfg : OtaConfig} {fetch download validate post : OtaLog}
    {m : OtaManifest} {v : OtaVer} {url : List Char} {ret : Int} {o : Outcome}
    (hfetch : Fetched m fetch) (hver : Announces m v) (hlt : cfg.current < v)
    (hurl : m.url = some url) (hdownload : Downloaded (fwUrl url) m.size download)
    (hvalidate : Only [.boot] validate) (hclean : ¬ AnyFailed validate)
    (hpost : Only [.state, .reboot] post)
    (hasked : Asked cfg.manifestPath
      (stages fetch download validate ++ .requestUpgrade ret :: post)) :
    ImageOk cfg (stages fetch download validate ++ .requestUpgrade ret :: post) o ↔
      Told cfg (stages fetch download validate ++ .requestUpgrade ret :: post) := by
  have hm := stages_manifests hfetch hdownload hvalidate
  have hfrags : bodyFrags (stages fetch download validate) = bodyFrags download :=
    stages_bodyFrags hfetch hvalidate
  have hstored : stored (stages fetch download validate) =
      bodyFrags (stages fetch download validate) := by
    rw [hfrags, ← hdownload.stored]
    simp [stages, OtaOp.stored?, hfetch.stored, stored_of_without (hvalidate.without _)]
  have hsize : ¬ SizeMismatch m.size (stages fetch download validate) := by
    rw [SizeMismatch, hfrags]
    exact hdownload.size
  have hearly : ¬ FailedEarly (stages fetch download validate ++ .requestUpgrade ret :: post) := by
    rintro ⟨e, he, hf, hkind⟩
    rcases List.mem_append.mp he with he | he
    · exact stages_clean hfetch hdownload hclean ⟨e, he, hf⟩
    rcases List.mem_cons.mp he with rfl | he
    · exact hkind rfl
    · have hk := hpost e he
      cases e <;> simp [OtaOp.kind, OtaOp.Failed] at hk hf
  have hget : gets (stages fetch download validate ++ .requestUpgrade ret :: post) =
      [cfg.manifestPath, fwUrl url] := by
    rcases hasked with hnone | ⟨m', url', hm', hurl', hget⟩
    · exact absurd rfl (hnone (.requestUpgrade ret) (by simp))
    · have hm' : m = m' := by
        simpa [hm, OtaOp.manifest?, manifests_of_without (hpost.without _)] using hm'
      subst hm'
      rw [hurl, Option.some.injEq] at hurl'
      rw [hget, hurl']
  exact imageOk_iff_of_requested rfl
    (stages_without hfetch hdownload hvalidate (Or.inl rfl)) hpost hm hver hlt hurl hget hstored
    hdownload.absolute hsize hearly

/-- Each of the ways a cycle can go. -/
theorem imageOk_iff_of_cycle {cfg : OtaConfig} {es : OtaLog} {o : Outcome} {s : OtaState}
    (h : Cycle cfg.current es o s)
    (hasked : Asked cfg.manifestPath es) : ImageOk cfg es o ↔ Told cfg es := by
  cases h with
  | fetchFailed hfetch hret =>
    refine imageOk_iff_of_notNewer ?_ ?_
    · simp [OtaOp.kind, hfetch.only.without]
    · simp [OtaOp.manifest?, hfetch.manifests]
  | badVersion hfetch hver hret =>
    refine imageOk_iff_of_notNewer ?_ ?_
    · simp [OtaOp.kind, hfetch.only.without]
    · intro m hm v hv
      have hm := by simpa [OtaOp.manifest?, hfetch.manifests] using hm
      subst hm
      exact absurd (hver ▸ hret) hv.parses
  | notNewer hfetch hver hle =>
    refine imageOk_iff_of_notNewer ?_ ?_
    · simp [OtaOp.kind, hfetch.only.without]
    · intro m hm v hv
      have hm := by simpa [OtaOp.manifest?, hfetch.manifests] using hm
      subst hm
      rw [hv.unique hver]
      exact not_lt.mpr hle
  | @downloadFailed fetch download m v url ret hfetch hver hlt hurl hdownload hret =>
    have hreq : Without .request (.setState .checking :: fetch ++
        .setState .downloading :: download ++ [.setState .error]) := by
      simp [OtaOp.kind, hfetch.only.without, hdownload.only.without]
    refine imageOk_iff_of_refused hreq ⟨ret, rfl, hret⟩ ?_
    intro m' hm' _ _ _
    have hm' : m' = m := by
      simpa [OtaOp.manifest?, hfetch.manifests, hdownload.manifests] using hm'
    subst hm'
    rcases hdownload.why with hwhy | hwhy | hwhy
    · exact Or.inl (failedEarly_of_anyFailed hreq (by simp [hwhy]))
    · rw [Ne, head_fwUrl_iff] at hwhy
      exact Or.inr ⟨url, hurl, Or.inl hwhy⟩
    · refine Or.inr ⟨url, hurl, Or.inr (Or.inl ?_)⟩
      rw [sizeMismatch_iff] at hwhy
      simpa [received, OtaOp.bodyFrag?, hfetch.bodyFrags] using hwhy
  | @confirmFailed fetch download validate m v url ret hfetch hver hlt hurl hdownload hvalidate
      hfailed hret =>
    have hreq : Without .request (.setState .checking :: fetch ++
        .setState .downloading :: download ++ .setState .validating :: validate ++
          [.setState .error]) := by
      simp [OtaOp.kind, hfetch.only.without, hdownload.only.without, hvalidate.without]
    refine imageOk_iff_of_refused hreq ⟨ret, rfl, hret⟩ ?_
    intro _ _ _ _ _
    exact Or.inl (failedEarly_of_anyFailed hreq (by simp [hfailed]))
  | markFailed hfetch hver hlt hurl hdownload hvalidate hconfirmed hclean hret =>
    refine imageOk_iff_of_stages hfetch hver hlt hurl hdownload hvalidate hclean ?_ hasked
    simp [Only, OtaOp.kind]
  | rebooted hfetch hver hlt hurl hdownload hvalidate hconfirmed hclean hret =>
    refine imageOk_iff_of_stages hfetch hver hlt hurl hdownload hvalidate hclean ?_ hasked
    simp [Only, OtaOp.kind]

/-- **An upgrade is requested for the image of the manifest, where the
manifest and the body tell.** A cycle, from whatever globals and against
whatever the platform answers, is as it should be exactly if, the manifest
being newer, an operation before the request fails or the manifest and the
body are told apart by the checks. -/
theorem imageOk_iff (cfg : OtaConfig) (lib : JsonLib) (p : Platform) (hp : p.FinalLast)
    (w : OtaWorld) :
    ∃ es, (otaCheckAndUpdate cfg lib p w).2.ops = w.ops ++ es ∧
      (ImageOk cfg es (otaCheckAndUpdate cfg lib p w).1 ↔ Told cfg es) := by
  by_cases hfault : (otaCheckAndUpdate cfg lib p w).1 = .fault
  · obtain ⟨es, m, v, hops, hm, hv, hlt, hurl, hclean⟩ := otaCheckAndUpdate_fault hfault
    refine ⟨es, hops, ?_⟩
    rw [hfault]
    exact imageOk_iff_of_fault hm hv hlt hurl hclean
  · obtain ⟨es, hops, hcycle, hasked⟩ := otaCheckAndUpdate_cycle cfg lib p hp w hfault
    exact ⟨es, hops, imageOk_iff_of_cycle hcycle hasked⟩

theorem samplePlatform_finalLast : samplePlatform.FinalLast := by
  intro log _
  exact ⟨[⟨[1, 2, 3], false⟩], ⟨[4, 5], true⟩, rfl, rfl⟩

/-- The sample node's update is told apart, so it is as it should be. -/
theorem imageOk_iff_sample :
    ∃ es, (otaCheckAndUpdate sampleConfig jsonReference samplePlatform {}).2.ops = [] ++ es ∧
      ImageOk sampleConfig es .rebooted := by
  obtain ⟨es, hops, hiff⟩ :=
    imageOk_iff sampleConfig jsonReference samplePlatform samplePlatform_finalLast {}
  have hes : (otaCheckAndUpdate sampleConfig jsonReference samplePlatform {}).2.ops = es := hops
  have hreboots :
      (otaCheckAndUpdate sampleConfig jsonReference samplePlatform {}).1 = .rebooted := by
    decide +kernel
  have hm : manifests es =
      [⟨some "0.2.0".toList, some "/fw.bin".toList, none, 5⟩] := by
    rw [← hes]
    decide +kernel
  have hn : received es = 5 := by
    rw [← hes]
    decide +kernel
  refine ⟨es, hops, hreboots ▸ hiff.mpr ?_⟩
  intro m hmem _ _ _
  rw [hm, List.mem_singleton] at hmem
  subst hmem
  refine Or.inr ⟨_, rfl, Or.inr (Or.inr ⟨by decide, by decide, ?_⟩)⟩
  rw [hn]
  decide

/-- A URL of 128 bytes, one more than the cycle's copy of it holds. -/
def longUrl : List Char := '/' :: List.replicate 127 'a'

/-- The sample server with that URL in the manifest. -/
def longUrlPlatform : Platform :=
  { samplePlatform with
    httpManifest := fun _ =>
      ⟨[⟨renderObj [("version".toList, .str "0.2.0".toList), ("url".toList, .str longUrl),
        ("size".toList, .num 5)], true⟩], 0⟩ }

/-- The firmware is asked for under the first 127 bytes of its URL, and what
comes is taken for the image. -/
theorem longUrl_requested :
    longUrlPlatform.FinalLast ∧
      ∃ es, (otaCheckAndUpdate sampleConfig jsonReference longUrlPlatform {}).2.ops = [] ++ es ∧
        gets es = [sampleConfig.manifestPath, longUrl.take 127] ∧
        ¬ ImageOk sampleConfig es
          (otaCheckAndUpdate sampleConfig jsonReference longUrlPlatform {}).1 := by
  refine ⟨samplePlatform_finalLast,
    (otaCheckAndUpdate sampleConfig jsonReference longUrlPlatform {}).2.ops,
    (List.nil_append _).symm, by decide +kernel, ?_⟩
  intro h
  have hreboots :
      (otaCheckAndUpdate sampleConfig jsonReference longUrlPlatform {}).1 = .rebooted := by
    decide +kernel
  have hm : ⟨some "0.2.0".toList, some longUrl, none, 5⟩ ∈
      manifests (otaCheckAndUpdate sampleConfig jsonReference longUrlPlatform {}).2.ops := by
    decide +kernel
  have hv : Announces ⟨some "0.2.0".toList, some longUrl, none, 5⟩ ⟨0, 2, 0⟩ := by
    unfold Announces
    decide +kernel
  have hfits : ∀ n, ¬ Fits ⟨some "0.2.0".toList, some longUrl, none, 5⟩ n := by
    rintro n ⟨url, hurl, hcopy, _⟩
    obtain rfl := Option.some.inj hurl
    exact absurd hcopy (by decide +kernel)
  obtain ⟨⟨ret, ho, _⟩, _⟩ := h.otherwise _ hm ⟨0, 2, 0⟩ hv (by decide) (hfits _)
  rw [hreboots] at ho
  cases ho

end Ceell.Ota
