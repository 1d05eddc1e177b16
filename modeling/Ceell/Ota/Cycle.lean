/-
Ceell.Ota.Cycle — what an update cycle may do, and that this is all
`ota_check_and_update` does.

`Cycle` lists the seven ways a completed cycle can go, each with the log
it leaves. `otaCheckAndUpdate_cycle` says that every completed cycle of
the program is one of them, whatever the network, the flash and the boot
loader answer; all that is then said about a cycle is read off the seven.
-/
import Ceell.Osal.JsonReference
import Ceell.Ota.Answers

namespace Ceell.Ota

open Ceell.Lib Ceell.Osal

/-! ## The ways a cycle can go -/

/-- The running image is confirmed. -/
def Confirmed (es : OtaLog) : Prop :=
  .bootIsConfirmed true ∈ es ∨ ∃ ret, .bootConfirm ret ∈ es ∧ 0 ≤ ret

/-- The manifest announces this version. -/
def Announces (m : OtaManifest) (v : OtaVer) : Prop :=
  ceellOtaVerParse m.version ⟨0, 0, 0⟩ = (0, v)

/-- The stages before the request: the check, the download, the validation
of the running image. -/
def stages (fetch download validate : OtaLog) : OtaLog :=
  .setState .checking :: fetch ++ .setState .downloading :: download ++
    .setState .validating :: validate ++ [.setState .marking]

/-- The log of a completed cycle, with its outcome and the state it leaves;
`current` is the running version. -/
inductive Cycle (current : OtaVer) : OtaLog → Outcome → OtaState → Prop where
  | fetchFailed {fetch ret} (hfetch : FetchFailed fetch) (hret : ret < 0) :
      Cycle current (.setState .checking :: fetch ++ [.setState .idle]) (.returned ret) .idle
  | badVersion {fetch m ret} (hfetch : Fetched m fetch)
      (hver : (ceellOtaVerParse m.version ⟨0, 0, 0⟩).1 = ret) (hret : ret < 0) :
      Cycle current (.setState .checking :: fetch ++ [.setState .idle]) (.returned ret) .idle
  | notNewer {fetch m v} (hfetch : Fetched m fetch) (hver : Announces m v) (hle : v ≤ current) :
      Cycle current (.setState .checking :: fetch ++ [.setState .idle]) (.returned 0) .idle
  | downloadFailed {fetch download m v url ret} (hfetch : Fetched m fetch) (hver : Announces m v)
      (hlt : current < v) (hurl : m.url = some url)
      (hdownload : DownloadFailed (fwUrl url) m.size download) (hret : ret < 0) :
      Cycle current
        (.setState .checking :: fetch ++ .setState .downloading :: download ++ [.setState .error])
        (.returned ret) .error
  | confirmFailed {fetch download validate m v url ret} (hfetch : Fetched m fetch)
      (hver : Announces m v) (hlt : current < v) (hurl : m.url = some url)
      (hdownload : Downloaded (fwUrl url) m.size download) (hvalidate : Only [.boot] validate)
      (hfailed : AnyFailed validate) (hret : ret < 0) :
      Cycle current
        (.setState .checking :: fetch ++ .setState .downloading :: download ++
          .setState .validating :: validate ++ [.setState .error])
        (.returned ret) .error
  | markFailed {fetch download validate m v url ret} (hfetch : Fetched m fetch)
      (hver : Announces m v) (hlt : current < v) (hurl : m.url = some url)
      (hdownload : Downloaded (fwUrl url) m.size download) (hvalidate : Only [.boot] validate)
      (hconfirmed : Confirmed validate) (hclean : ¬ AnyFailed validate) (hret : ret < 0) :
      Cycle current
        (stages fetch download validate ++ .requestUpgrade ret :: [.setState .error])
        (.returned ret) .error
  | rebooted {fetch download validate m v url ret} (hfetch : Fetched m fetch)
      (hver : Announces m v) (hlt : current < v) (hurl : m.url = some url)
      (hdownload : Downloaded (fwUrl url) m.size download) (hvalidate : Only [.boot] validate)
      (hconfirmed : Confirmed validate) (hclean : ¬ AnyFailed validate) (hret : ¬ ret < 0) :
      Cycle current
        (stages fetch download validate ++
          .requestUpgrade ret :: [.setState .rebooting, .sysReboot])
        .rebooted .rebooting

theorem confirmImage_spec (p : Platform) (w : OtaWorld) :
    ∃ es, (confirmImage p w).2.ops = w.ops ++ es ∧ Only [.boot] es ∧
      ((confirmImage p w).1 < 0 ∧ AnyFailed es ∨
        ¬ (confirmImage p w).1 < 0 ∧ Confirmed es ∧ ¬ AnyFailed es) := by
  unfold confirmImage
  dsimp only
  cases p.bootIsConfirmed w.ops with
  | true =>
    refine ⟨[.bootIsConfirmed true], rfl, by simp [Only, OtaOp.kind], Or.inr ⟨by simp, ?_, ?_⟩⟩
    · exact Or.inl (by simp)
    · simp [OtaOp.Failed]
  | false =>
    simp only [Bool.not_false, if_true]
    generalize p.bootConfirm _ = ret
    refine ⟨[.bootIsConfirmed false, .bootConfirm ret], ?_, by simp [Only, OtaOp.kind], ?_⟩
    · simp only [OtaWorld.did, List.append_assoc, List.cons_append, List.nil_append]
    by_cases hret : ret < 0
    · exact Or.inl ⟨hret, by simp [OtaOp.Failed, hret]⟩
    · refine Or.inr ⟨hret, Or.inr ⟨ret, by simp, not_lt.mp hret⟩, ?_⟩
      simp [OtaOp.Failed, hret]

theorem setState_ops (s : OtaState) (w : OtaWorld) :
    (ceellOtaSetState s w).ops = w.ops ++ [.setState s] := rfl

theorem setState_state (s : OtaState) (w : OtaWorld) : (ceellOtaSetState s w).state = s := rfl

/-- The URLs requested in a cycle that requests the upgrade: the manifest's,
and then the copy of the one in it. -/
def Asked (manifestPath : List Char) (es : OtaLog) : Prop :=
  Without .request es ∨ ∃ m url, manifests es = [m] ∧ m.url = some url ∧
    gets es = [manifestPath, fwUrl url]

/-- The cycle from the download on. -/
theorem installUpdate_cycle (p : Platform) (hp : p.FinalLast) {current v : OtaVer}
    {m : OtaManifest} {path : List Char} {log fetch : OtaLog} {w : OtaWorld}
    (hfetch : Fetched m fetch) (hget : gets fetch = [path]) (hver : Announces m v)
    (hlt : current < v) (hops : w.ops = log ++ .setState .checking :: fetch)
    (hfault : (installUpdate p m w).1 ≠ .fault) :
    ∃ es, (installUpdate p m w).2.ops = log ++ es ∧
      Cycle current es (installUpdate p m w).1 (installUpdate p m w).2.state ∧ Asked path es := by
  unfold installUpdate at hfault ⊢
  cases hurl : m.url with
  | none =>
    rw [hurl] at hfault
    exact absurd rfl hfault
  | some url =>
    dsimp only
    obtain ⟨download, hops1, hdownload⟩ :=
      downloadFirmware_spec p hp (fwUrl url) m.size (ceellOtaSetState .downloading w)
    generalize downloadFirmware p (some (fwUrl url)) m.size (ceellOtaSetState .downloading w) = r
      at hops1 hdownload ⊢
    obtain ⟨ret, w1⟩ := r
    dsimp only at hops1 hdownload ⊢
    rcases hdownload with ⟨hret, hdownload⟩ | ⟨hret, hdownload, hdget⟩
    · simp only [if_pos hret, setState_state]
      refine ⟨_, ?_, .downloadFailed hfetch hver hlt hurl hdownload hret, Or.inl ?_⟩
      · simp only [setState_ops, hops1, hops, List.append_assoc, List.cons_append, List.nil_append]
      · simp [OtaOp.kind, hfetch.only.without, hdownload.only.without]
    rw [setState_ops, hops] at hops1
    have hret : ¬ ret < 0 := by omega
    simp only [if_neg hret]
    obtain ⟨validate, hops2, honly, hvalidate⟩ :=
      confirmImage_spec p (ceellOtaSetState .validating w1)
    generalize confirmImage p (ceellOtaSetState .validating w1) = r at hops2 hvalidate ⊢
    obtain ⟨ret2, w2⟩ := r
    dsimp only at hops2 hvalidate ⊢
    rw [setState_ops, hops1] at hops2
    rcases hvalidate with ⟨hret2, hfailed⟩ | ⟨hret2, hconfirmed, hclean⟩
    · simp only [if_pos hret2, setState_state]
      refine ⟨_, ?_, .confirmFailed hfetch hver hlt hurl hdownload honly hfailed hret2, Or.inl ?_⟩
      · simp only [setState_ops, hops2, List.append_assoc, List.cons_append, List.nil_append]
      · simp [OtaOp.kind, hfetch.only.without, hdownload.only.without, honly.without]
    simp only [if_neg hret2]
    -- the request and what follows it ask the server for nothing
    have hasked : ∀ rest, Only [.state, .request, .reboot] rest →
        Asked path (stages fetch download validate ++ rest) := by
      intro rest hrest
      refine Or.inr ⟨m, url, ?_, hurl, ?_⟩
      · simp [stages, OtaOp.manifest?, hfetch.manifests,
          manifests_of_without (hdownload.only.without _),
          manifests_of_without (honly.without _), manifests_of_without (hrest.without _)]
      · simp [stages, OtaOp.get?, hget, hdget, gets_of_without (honly.without _),
          gets_of_without (hrest.without _)]
    generalize p.requestUpgrade (ceellOtaSetState .marking w2).ops = ret3
    by_cases hret3 : ret3 < 0
    · simp only [if_pos hret3, setState_state]
      refine ⟨_, ?_, .markFailed hfetch hver hlt hurl hdownload honly hconfirmed hclean hret3,
        hasked _ (by simp [Only, OtaOp.kind])⟩
      simp only [OtaWorld.did, setState_ops, hops2, stages, List.append_assoc, List.cons_append,
        List.nil_append]
    · simp only [if_neg hret3]
      refine ⟨_, ?_, .rebooted hfetch hver hlt hurl hdownload honly hconfirmed hclean hret3,
        hasked _ (by simp [Only, OtaOp.kind])⟩
      simp only [OtaWorld.did, setState_ops, hops2, stages, List.append_assoc, List.cons_append,
        List.nil_append]

/-- The check of a manifest that was accepted: its version is none, or not
newer, or the cycle goes on with it. -/
theorem otaCheckAndUpdate_accepted {cfg : OtaConfig} {lib : JsonLib} {p : Platform}
    {w w1 : OtaWorld} {m : OtaManifest}
    (hfetch : fetchManifest cfg lib p (ceellOtaSetState .checking w) = (0, m, w1)) :
    (∃ ret, (ceellOtaVerParse m.version ⟨0, 0, 0⟩).1 = ret ∧ ret < 0 ∧
      otaCheckAndUpdate cfg lib p w = (.returned ret, ceellOtaSetState .idle w1)) ∨
    (∃ v, Announces m v ∧ v ≤ cfg.current ∧
      otaCheckAndUpdate cfg lib p w = (.returned 0, ceellOtaSetState .idle w1)) ∨
    ∃ v, Announces m v ∧ cfg.current < v ∧
      otaCheckAndUpdate cfg lib p w = installUpdate p m w1 := by
  unfold otaCheckAndUpdate
  dsimp only
  rw [hfetch]
  rcases hver : ceellOtaVerParse m.version ⟨0, 0, 0⟩ with ⟨vret, v⟩
  simp only [lt_irrefl, if_false]
  by_cases h2 : vret < 0
  · left
    exact ⟨vret, rfl, h2, by rw [if_pos h2]⟩
  have hann : Announces m v := by
    have hzero := ceellOtaVerParse_ret m.version ⟨0, 0, 0⟩
    simp only [hver, EINVAL] at hzero
    rw [Announces, hver, show vret = 0 by omega]
  simp only [if_neg h2]
  right
  by_cases h3 : ceellOtaVerCmp v cfg.current ≤ 0
  · left
    have hle : v ≤ cfg.current := by
      rw [← not_lt, ← ceellOtaVerCmp_pos_iff]
      omega
    exact ⟨v, hann, hle, by rw [if_pos h3]⟩
  · right
    have hlt : cfg.current < v := by
      rw [← ceellOtaVerCmp_pos_iff]
      omega
    exact ⟨v, hann, hlt, by rw [if_neg h3]⟩

/-- A cycle ends with the check, or goes on with the manifest of a newer
version. -/
theorem otaCheckAndUpdate_cases (cfg : OtaConfig) (lib : JsonLib) (p : Platform) (w : OtaWorld) :
    (∃ fetch ret, Only [.net, .manifest] fetch ∧
      Cycle cfg.current (.setState .checking :: fetch ++ [.setState .idle]) (.returned ret) .idle ∧
      (otaCheckAndUpdate cfg lib p w).1 = .returned ret ∧
      (otaCheckAndUpdate cfg lib p w).2.ops =
        w.ops ++ (.setState .checking :: fetch ++ [.setState .idle]) ∧
      (otaCheckAndUpdate cfg lib p w).2.state = .idle) ∨
    ∃ fetch m v w1, Fetched m fetch ∧ gets fetch = [cfg.manifestPath] ∧ Announces m v ∧
      cfg.current < v ∧ w1.ops = w.ops ++ .setState .checking :: fetch ∧
      otaCheckAndUpdate cfg lib p w = installUpdate p m w1 := by
  obtain ⟨fetch, hops1, hfetch⟩ := fetchManifest_spec cfg lib p (ceellOtaSetState .checking w)
  rcases hr : fetchManifest cfg lib p (ceellOtaSetState .checking w) with ⟨ret, m, w1⟩
  rw [hr] at hops1 hfetch
  dsimp only at hops1 hfetch
  have hidle : (ceellOtaSetState .idle w1).ops =
      w.ops ++ (.setState .checking :: fetch ++ [.setState .idle]) := by
    simp only [setState_ops, hops1, List.append_assoc, List.cons_append, List.nil_append]
  rcases hfetch with ⟨hret, hfetch⟩ | ⟨rfl, hfetch, hfget⟩
  · left
    refine ⟨fetch, ret, hfetch.only, .fetchFailed hfetch hret, ?_⟩
    simp only [otaCheckAndUpdate, hr, if_pos hret, hidle, setState_state, and_self]
  rcases otaCheckAndUpdate_accepted hr with
    ⟨vret, hver, hneg, heq⟩ | ⟨v, hann, hle, heq⟩ | ⟨v, hann, hlt, heq⟩
  · left
    refine ⟨fetch, vret, hfetch.only, .badVersion hfetch hver hneg, ?_⟩
    simp only [heq, hidle, setState_state, and_self]
  · left
    refine ⟨fetch, 0, hfetch.only, .notNewer hfetch hann hle, ?_⟩
    simp only [heq, hidle, setState_state, and_self]
  · right
    refine ⟨fetch, m, v, w1, hfetch, hfget, hann, hlt, ?_, heq⟩
    rw [hops1, setState_ops, List.append_assoc, List.singleton_append]

/-- **A completed cycle goes one of the seven ways.** -/
theorem otaCheckAndUpdate_cycle (cfg : OtaConfig) (lib : JsonLib) (p : Platform)
    (hp : p.FinalLast) (w : OtaWorld) (hfault : (otaCheckAndUpdate cfg lib p w).1 ≠ .fault) :
    ∃ es, (otaCheckAndUpdate cfg lib p w).2.ops = w.ops ++ es ∧
      Cycle cfg.current es (otaCheckAndUpdate cfg lib p w).1
        (otaCheckAndUpdate cfg lib p w).2.state ∧ Asked cfg.manifestPath es := by
  rcases otaCheckAndUpdate_cases cfg lib p w with
    ⟨fetch, ret, honly, hcycle, ho, hops, hstate⟩ |
      ⟨fetch, m, v, w1, hfetch, hget, hann, hlt, hops, heq⟩
  · refine ⟨_, hops, ?_, Or.inl ?_⟩
    · rw [ho, hstate]
      exact hcycle
    · simp [OtaOp.kind, honly.without]
  · rw [heq] at hfault ⊢
    exact installUpdate_cycle p hp hfetch hget hann hlt hops hfault

/-! ## What a cycle's parts leave out -/

section Parts

variable {m : OtaManifest} {url : List Char} {size : Int} {es : OtaLog}

theorem FetchFailed.states (h : FetchFailed es) : states es = [] :=
  states_of_without (h.only.without (by decide))

theorem Fetched.states (h : Fetched m es) : states es = [] :=
  states_of_without (h.only.without (by decide))

theorem Fetched.bodyFrags (h : Fetched m es) : bodyFrags es = [] :=
  bodyFrags_of_without (h.only.without (by decide))

theorem Fetched.stored (h : Fetched m es) : stored es = [] :=
  stored_of_without (h.only.without (by decide))

theorem DownloadFailed.states (h : DownloadFailed url size es) : states es = [] :=
  states_of_without (h.only.without (by decide))

theorem DownloadFailed.manifests (h : DownloadFailed url size es) : manifests es = [] :=
  manifests_of_without (h.only.without (by decide))

theorem Downloaded.states (h : Downloaded url size es) : states es = [] :=
  states_of_without (h.only.without (by decide))

theorem Downloaded.manifests (h : Downloaded url size es) : manifests es = [] :=
  manifests_of_without (h.only.without (by decide))

end Parts

/-! ## Paths -/

/-- The states a cycle sets are a path from where the last one ended, and
the path ends in the state the cycle leaves. -/
theorem Cycle.path {current : OtaVer} {es : OtaLog} {o : Outcome} {s before : OtaState}
    (h : Cycle current es o s) (hbefore : before.Settled) :
    Path before (states es) ∧ pathEnd before (states es) = s := by
  have hcheck : Next before .checking := .check hbefore
  cases h with
  | fetchFailed hfetch hret =>
    simp [Path, pathEnd, OtaOp.state?, hfetch.states, hcheck, Next.nothing]
  | badVersion hfetch hver hret =>
    simp [Path, pathEnd, OtaOp.state?, hfetch.states, hcheck, Next.nothing]
  | notNewer hfetch hver hle =>
    simp [Path, pathEnd, OtaOp.state?, hfetch.states, hcheck, Next.nothing]
  | downloadFailed hfetch hver hlt hurl hdownload hret =>
    simp [Path, pathEnd, OtaOp.state?, hfetch.states, hdownload.states, hcheck, Next.download,
      Next.downloadFailed]
  | confirmFailed hfetch hver hlt hurl hdownload hvalidate hfailed hret =>
    simp [Path, pathEnd, OtaOp.state?, hfetch.states, hdownload.states,
      states_of_without (hvalidate.without (by decide)), hcheck, Next.download, Next.validate,
      Next.validateFailed]
  | markFailed hfetch hver hlt hurl hdownload hvalidate hconfirmed hclean hret =>
    simp [Path, pathEnd, stages, OtaOp.state?, hfetch.states, hdownload.states,
      states_of_without (hvalidate.without (by decide)), hcheck, Next.download, Next.validate,
      Next.mark, Next.markFailed]
  | rebooted hfetch hver hlt hurl hdownload hvalidate hconfirmed hclean hret =>
    simp [Path, pathEnd, stages, OtaOp.state?, hfetch.states, hdownload.states,
      states_of_without (hvalidate.without (by decide)), hcheck, Next.download, Next.validate,
      Next.mark, Next.reboot]

/-! ## Requests -/

/-- An element that stands out splits a list in one way. -/
theorem prefix_eq_of_split {α : Type*} {P : α → Prop} {xs ys pre post : List α} {a b : α}
    (hxs : ∀ e ∈ xs, ¬ P e) (hys : ∀ e ∈ ys, ¬ P e) (hb : P b)
    (h : xs ++ a :: ys = pre ++ b :: post) : pre = xs := by
  rcases List.append_eq_append_iff.mp h with ⟨zs, hpre, htail⟩ | ⟨zs, hxs', htail⟩
  · cases zs with
    | nil => simpa using hpre
    | cons z zs =>
      simp only [List.cons_append, List.cons.injEq] at htail
      exact absurd hb (hys b (by simp [htail.2]))
  · cases zs with
    | nil => simpa using hxs'.symm
    | cons z zs =>
      simp only [List.cons_append, List.cons.injEq] at htail
      exact absurd hb (hxs b (by simp [hxs', htail.1]))

/-- What has happened when the upgrade may be requested. -/
structure UpgradeReady (current : OtaVer) (es : OtaLog) : Prop where
  newer : ∃ m ∈ manifests es, ∃ v, Announces m v ∧ current < v
  erased : Erased es
  stored : stored es = bodyFrags es
  flushed : Flushed es
  confirmed : Confirmed es
  clean : ¬ AnyFailed es

theorem Confirmed.of_subset {es fs : OtaLog} (h : Confirmed es) (hsub : es ⊆ fs) :
    Confirmed fs := by
  rcases h with h | ⟨ret, h, hret⟩
  · exact Or.inl (hsub h)
  · exact Or.inr ⟨ret, hsub h, hret⟩

section Stages

variable {current v : OtaVer} {m : OtaManifest} {url : List Char} {size : Int}
  {fetch download validate : OtaLog}

theorem stages_clean (hfetch : Fetched m fetch) (hdownload : Downloaded url size download)
    (hclean : ¬ AnyFailed validate) : ¬ AnyFailed (stages fetch download validate) := by
  simp [stages, OtaOp.Failed, hfetch.clean, hdownload.clean, hclean]

theorem stages_manifests (hfetch : Fetched m fetch) (hdownload : Downloaded url size download)
    (hvalidate : Only [.boot] validate) : manifests (stages fetch download validate) = [m] := by
  simp [stages, OtaOp.manifest?, hfetch.manifests, hdownload.manifests,
    manifests_of_without (hvalidate.without (by decide))]

theorem stages_bodyFrags (hfetch : Fetched m fetch) (hvalidate : Only [.boot] validate) :
    bodyFrags (stages fetch download validate) = bodyFrags download := by
  simp [stages, OtaOp.bodyFrag?, hfetch.bodyFrags,
    bodyFrags_of_without (hvalidate.without (by decide))]

/-- The stages before a request make the image ready. -/
theorem stages_ready (hfetch : Fetched m fetch) (hver : Announces m v) (hlt : current < v)
    (hdownload : Downloaded url size download) (hvalidate : Only [.boot] validate)
    (hconfirmed : Confirmed validate) (hclean : ¬ AnyFailed validate) :
    UpgradeReady current (stages fetch download validate) := by
  have hsplit : stages fetch download validate =
      (.setState .checking :: fetch ++ [.setState .downloading]) ++ download ++
        (.setState .validating :: validate ++ [.setState .marking]) := by
    simp [stages]
  have hbefore : Without .stream (.setState .checking :: fetch ++ [.setState .downloading]) := by
    simp [OtaOp.kind, hfetch.only.without]
  have hafter : Without .stream (.setState .validating :: validate ++ [.setState .marking]) := by
    simp [OtaOp.kind, hvalidate.without]
  refine ⟨⟨m, ?_, v, hver, hlt⟩, ?_, ?_, ?_, ?_, stages_clean hfetch hdownload hclean⟩
  · rw [stages_manifests hfetch hdownload hvalidate]
    exact List.mem_singleton_self m
  · rw [hsplit]
    exact (hdownload.erased.after hbefore).append _
  · rw [stages_bodyFrags hfetch hvalidate, ← hdownload.stored]
    simp [stages, OtaOp.stored?, hfetch.stored, stored_of_without (hvalidate.without (by decide))]
  · rw [hsplit]
    exact (hdownload.flushed.after _).append hafter
  · exact hconfirmed.of_subset fun e he => by simp [stages, he]

end Stages

theorem stages_without {m : OtaManifest} {url : List Char} {size : Int}
    {fetch download validate : OtaLog} (hfetch : Fetched m fetch)
    (hdownload : Downloaded url size download) (hvalidate : Only [.boot] validate) {k : OpKind}
    (hk : k = .request ∨ k = .reboot) : Without k (stages fetch download validate) := by
  rcases hk with rfl | rfl <;>
  simp [stages, OtaOp.kind, hfetch.only.without, hdownload.only.without, hvalidate.without]

/-- A cycle requests no upgrade and does not reboot, or it makes one
request with all the stages before it done; it reboots if the request is
granted. -/
theorem Cycle.request {current : OtaVer} {es : OtaLog} {o : Outcome} {s : OtaState}
    (h : Cycle current es o s) :
    Without .request es ∧ Without .reboot es ∧ o ≠ .rebooted ∨
    ∃ pre ret post, es = pre ++ .requestUpgrade ret :: post ∧ UpgradeReady current pre ∧
      Without .request pre ∧ Without .request post ∧
      (ret < 0 ∧ Without .reboot es ∧ o = .returned ret ∨ ¬ ret < 0 ∧ o = .rebooted) := by
  cases h with
  | fetchFailed hfetch hret =>
    left
    simp [OtaOp.kind, hfetch.only.without]
  | badVersion hfetch hver hret =>
    left
    simp [OtaOp.kind, hfetch.only.without]
  | notNewer hfetch hver hle =>
    left
    simp [OtaOp.kind, hfetch.only.without]
  | downloadFailed hfetch hver hlt hurl hdownload hret =>
    left
    simp [OtaOp.kind, hfetch.only.without,
      hdownload.only.without]
  | confirmFailed hfetch hver hlt hurl hdownload hvalidate hfailed hret =>
    left
    simp [OtaOp.kind, hfetch.only.without,
      hdownload.only.without, hvalidate.without]
  | @markFailed fetch download validate m v url ret hfetch hver hlt hurl hdownload hvalidate
      hconfirmed hclean hret =>
    refine Or.inr ⟨_, ret, _, rfl,
      stages_ready hfetch hver hlt hdownload hvalidate hconfirmed hclean,
      stages_without hfetch hdownload hvalidate (Or.inl rfl), ?_, Or.inl ⟨hret, ?_, rfl⟩⟩
    · simp [OtaOp.kind]
    · rw [without_append]
      refine ⟨stages_without hfetch hdownload hvalidate (Or.inr rfl), ?_⟩
      simp [OtaOp.kind]
  | @rebooted fetch download validate m v url ret hfetch hver hlt hurl hdownload hvalidate
      hconfirmed hclean hret =>
    refine Or.inr ⟨_, ret, _, rfl,
      stages_ready hfetch hver hlt hdownload hvalidate hconfirmed hclean,
      stages_without hfetch hdownload hvalidate (Or.inl rfl), ?_, Or.inr ⟨hret, rfl⟩⟩
    simp [OtaOp.kind]

/-- A request is made only when the image is ready. -/
theorem Cycle.ready {current : OtaVer} {es : OtaLog} {o : Outcome} {s : OtaState}
    (h : Cycle current es o s) {pre post : OtaLog} {ret : Int}
    (hes : es = pre ++ .requestUpgrade ret :: post) : UpgradeReady current pre := by
  rcases h.request with ⟨hnone, _, _⟩ | ⟨pre', ret', post', hes', hready, hpre, hpost, _⟩
  · exact absurd rfl (hnone (.requestUpgrade ret) (by simp [hes]))
  · have heq : pre = pre' :=
      prefix_eq_of_split (P := fun e => e.kind = .request) (fun e he => hpre e he)
        (fun e he => hpost e he) rfl (hes'.symm.trans hes)
    exact heq ▸ hready

/-! ## Outcomes -/

/-- The manifest announces no newer version. -/
def NotNewer (current : OtaVer) (es : OtaLog) : Prop :=
  ∃ m ∈ manifests es, ∃ v, Announces m v ∧ v ≤ current

/-- A step of the cycle fails: an operation reports it, the manifest does
not fit its buffer and is not parsed, its version is none, or, the version
being newer, its URL is no absolute path or its size not the size received. -/
inductive StepFailed (current : OtaVer) (es : OtaLog) : Prop where
  | operation (h : AnyFailed es)
  | notParsed (h : Without .manifest es)
  | version {m} (hm : m ∈ manifests es) (h : (ceellOtaVerParse m.version ⟨0, 0, 0⟩).1 < 0)
  | url {m v url} (hm : m ∈ manifests es) (hv : Announces m v) (hlt : current < v)
      (hurl : m.url = some url) (h : (fwUrl url).head? ≠ some '/')
  | size {m v} (hm : m ∈ manifests es) (hv : Announces m v) (hlt : current < v)
      (h : SizeMismatch m.size es)

theorem Announces.unique {m : OtaManifest} {v v' : OtaVer} (h : Announces m v)
    (h' : Announces m v') : v = v' := by
  unfold Announces at h h'
  exact (Prod.mk.inj (h.symm.trans h')).2

theorem Announces.parses {m : OtaManifest} {v : OtaVer} (h : Announces m v) :
    ¬ (ceellOtaVerParse m.version ⟨0, 0, 0⟩).1 < 0 := by
  rw [show ceellOtaVerParse m.version ⟨0, 0, 0⟩ = (0, v) from h]
  exact lt_irrefl 0

theorem not_notNewer {current v : OtaVer} {m : OtaManifest} {es : OtaLog}
    (hm : manifests es = [m]) (hv : Announces m v) (hlt : current < v) :
    ¬ NotNewer current es := by
  intro h
  obtain ⟨m', hm', v', hv', hle⟩ := h
  rw [hm, List.mem_singleton] at hm'
  rw [hm'] at hv'
  exact absurd hle (not_le.mpr (hv.unique hv' ▸ hlt))

/-- A manifest that is not newer, or one that was downloaded as it says,
leaves no step that failed. -/
theorem not_stepFailed {current v : OtaVer} {m : OtaManifest} {es : OtaLog}
    (hm : manifests es = [m]) (hv : Announces m v) (hclean : ¬ AnyFailed es)
    (hdownload : current < v → (∀ url, m.url = some url → (fwUrl url).head? = some '/') ∧
      ¬ SizeMismatch m.size es) : ¬ StepFailed current es := by
  have hmem : ∀ m', m' ∈ manifests es → m' = m := by
    intro m' h
    rwa [hm, List.mem_singleton] at h
  intro h
  cases h with
  | operation h => exact hclean h
  | notParsed h =>
    rw [manifests_of_without h] at hm
    exact absurd hm (by simp)
  | version hm' h =>
    rw [hmem _ hm'] at h
    exact hv.parses h
  | url hm' hv' hlt hurl h =>
    obtain rfl := hmem _ hm'
    obtain rfl := hv.unique hv'
    exact h ((hdownload hlt).1 _ hurl)
  | size hm' hv' hlt h =>
    obtain rfl := hmem _ hm'
    obtain rfl := hv.unique hv'
    exact (hdownload hlt).2 h

/-- If the version is not newer, the cycle returns 0 and is idle. -/
theorem Cycle.of_notNewer {current : OtaVer} {es : OtaLog} {o : Outcome} {s : OtaState}
    (h : Cycle current es o s) (hn : NotNewer current es) :
    o = .returned 0 ∧ s = .idle ∧ Without .request es ∧ Without .reboot es := by
  cases h with
  | fetchFailed hfetch hret =>
    obtain ⟨m, hm, _⟩ := hn
    simp [OtaOp.manifest?, hfetch.manifests] at hm
  | @badVersion fetch m ret hfetch hver hret =>
    obtain ⟨m', hm, v, hv, _⟩ := hn
    have hm : m' = m := by simpa [OtaOp.manifest?, hfetch.manifests] using hm
    exact absurd (hver ▸ hret) (hm ▸ hv.parses)
  | notNewer hfetch hver hle =>
    simp [OtaOp.kind, hfetch.only.without]
  | downloadFailed hfetch hver hlt hurl hdownload hret =>
    refine absurd hn (not_notNewer ?_ hver hlt)
    simp [OtaOp.manifest?, hfetch.manifests, hdownload.manifests]
  | confirmFailed hfetch hver hlt hurl hdownload hvalidate hfailed hret =>
    refine absurd hn (not_notNewer ?_ hver hlt)
    simp [OtaOp.manifest?, hfetch.manifests, hdownload.manifests,
      manifests_of_without (hvalidate.without (by decide))]
  | markFailed hfetch hver hlt hurl hdownload hvalidate hconfirmed hclean hret =>
    refine absurd hn (not_notNewer ?_ hver hlt)
    simp [OtaOp.manifest?, stages_manifests hfetch hdownload hvalidate]
  | rebooted hfetch hver hlt hurl hdownload hvalidate hconfirmed hclean hret =>
    refine absurd hn (not_notNewer ?_ hver hlt)
    simp [OtaOp.manifest?, stages_manifests hfetch hdownload hvalidate]

/-- If a step fails, the cycle returns a negative value and settles. -/
theorem Cycle.of_stepFailed {current : OtaVer} {es : OtaLog} {o : Outcome} {s : OtaState}
    (h : Cycle current es o s) (hf : StepFailed current es) :
    (∃ ret, o = .returned ret ∧ ret < 0) ∧ s.Settled := by
  cases h with
  | fetchFailed hfetch hret => exact ⟨⟨_, rfl, hret⟩, Or.inl rfl⟩
  | badVersion hfetch hver hret => exact ⟨⟨_, rfl, hret⟩, Or.inl rfl⟩
  | notNewer hfetch hver hle =>
    refine absurd hf (not_stepFailed ?_ hver ?_ fun hlt => absurd hle (not_le.mpr hlt))
    · simp [OtaOp.manifest?, hfetch.manifests]
    · simp [OtaOp.Failed, hfetch.clean]
  | downloadFailed hfetch hver hlt hurl hdownload hret => exact ⟨⟨_, rfl, hret⟩, Or.inr rfl⟩
  | confirmFailed hfetch hver hlt hurl hdownload hvalidate hfailed hret =>
    exact ⟨⟨_, rfl, hret⟩, Or.inr rfl⟩
  | markFailed hfetch hver hlt hurl hdownload hvalidate hconfirmed hclean hret =>
    exact ⟨⟨_, rfl, hret⟩, Or.inr rfl⟩
  | rebooted hfetch hver hlt hurl hdownload hvalidate hconfirmed hclean hret =>
    refine absurd hf (not_stepFailed ?_ hver ?_ fun _ => ⟨?_, ?_⟩)
    · simp [OtaOp.manifest?, stages_manifests hfetch hdownload hvalidate]
    · simp [OtaOp.Failed, stages_clean hfetch hdownload hclean, hret]
    · intro url' hurl'
      rw [hurl, Option.some.injEq] at hurl'
      exact hurl' ▸ hdownload.absolute
    · have hsize := hdownload.size
      rw [SizeMismatch] at hsize ⊢
      rw [bodyFrags_append, stages_bodyFrags hfetch hvalidate]
      simpa [OtaOp.bodyFrag?] using hsize

/-- Nothing else keeps a cycle from rebooting into the new image. -/
theorem Cycle.rebooted_otherwise {current : OtaVer} {es : OtaLog} {o : Outcome} {s : OtaState}
    (h : Cycle current es o s) (hn : ¬ NotNewer current es) (hf : ¬ StepFailed current es) :
    o = .rebooted := by
  cases h with
  | fetchFailed hfetch hret =>
    refine absurd ?_ hf
    rcases hfetch.why with hwhy | hwhy
    · exact .operation (by simp [hwhy])
    · exact .notParsed (by simp [OtaOp.kind, hwhy.without])
  | @badVersion fetch m ret hfetch hver hret =>
    refine absurd (.version (m := m) ?_ (hver ▸ hret)) hf
    simp [hfetch.manifests]
  | @notNewer fetch m v hfetch hver hle =>
    refine absurd ⟨m, ?_, v, hver, hle⟩ hn
    simp [hfetch.manifests]
  | @downloadFailed fetch download m v url ret hfetch hver hlt hurl hdownload hret =>
    have hm : m ∈ manifests (.setState .checking :: fetch ++ .setState .downloading :: download ++
        [.setState .error]) := by simp [hfetch.manifests]
    refine absurd ?_ hf
    rcases hdownload.why with hwhy | hwhy | hwhy
    · exact .operation (by simp [hwhy])
    · exact .url hm hver hlt hurl hwhy
    · refine .size hm hver hlt ?_
      rw [SizeMismatch] at hwhy ⊢
      simpa [OtaOp.bodyFrag?, hfetch.bodyFrags] using hwhy
  | confirmFailed hfetch hver hlt hurl hdownload hvalidate hfailed hret =>
    exact absurd (.operation (by simp [hfailed])) hf
  | markFailed hfetch hver hlt hurl hdownload hvalidate hconfirmed hclean hret =>
    exact absurd (.operation (by simp [OtaOp.Failed, hret])) hf
  | rebooted => rfl

/-! ## Cycle after cycle -/

/-- What holds between cycles: the node is settled, and the states set
since it booted are a path from `idle` that ends in its state. -/
structure OtaInv (w : OtaWorld) : Prop where
  settled : w.state.Settled
  path : Path .idle (states w.ops)
  pathEnd : pathEnd .idle (states w.ops) = w.state

theorem otaInv_init : OtaInv {} := ⟨Or.inl rfl, by simp [Path], rfl⟩

/-- A cycle that returns leaves the node settled. -/
theorem Cycle.settled {current : OtaVer} {es : OtaLog} {ret : Int} {s : OtaState}
    (h : Cycle current es (.returned ret) s) : s.Settled := by
  generalize ho : Outcome.returned ret = o at h
  cases h with
  | fetchFailed => exact Or.inl rfl
  | badVersion => exact Or.inl rfl
  | notNewer => exact Or.inl rfl
  | downloadFailed => exact Or.inr rfl
  | confirmFailed => exact Or.inr rfl
  | markFailed => exact Or.inr rfl
  | rebooted => exact absurd ho (by simp)

/-- A cycle prolongs the path of the states set since the boot. -/
theorem OtaInv.cycle {current : OtaVer} {w : OtaWorld} {es : OtaLog} {o : Outcome}
    {s : OtaState} (hw : OtaInv w) (h : Cycle current es o s) :
    Path .idle (states (w.ops ++ es)) ∧ Ota.pathEnd .idle (states (w.ops ++ es)) = s := by
  obtain ⟨hpath, hend⟩ := h.path hw.settled
  rw [states_append]
  refine ⟨hw.path.append hw.pathEnd hpath, ?_⟩
  have hne : states es ≠ [] := by cases h <;> simp [stages, OtaOp.state?]
  rw [pathEnd_append_of_ne_nil _ hne, ← hend, Ota.pathEnd, Ota.pathEnd]
  cases hs : states es with
  | nil => exact absurd hs hne
  | cons t ts => simp [List.getLast?_cons]

section Runs

variable (cfg : OtaConfig) (lib : JsonLib)

theorem otaInv_step {w w' : OtaWorld} {p : Platform} (hw : OtaInv w) (hp : p.FinalLast)
    (hstep : otaStep cfg lib w p = some w') : OtaInv w' := by
  have hcycle := otaCheckAndUpdate_cycle cfg lib p hp w
  unfold otaStep at hstep
  rcases hr : otaCheckAndUpdate cfg lib p w with ⟨o, w1⟩
  rw [hr] at hcycle hstep
  cases o with
  | returned ret =>
    obtain rfl : w1 = w' := by simpa using hstep
    obtain ⟨es, hops, hes, -⟩ := hcycle (by simp)
    obtain ⟨hpath, hend⟩ := hw.cycle hes
    exact ⟨hes.settled, by rw [hops]; exact hpath, by rw [hops]; exact hend⟩
  | rebooted =>
    obtain rfl : ({} : OtaWorld) = w' := by simpa using hstep
    exact otaInv_init
  | fault => simp at hstep

/-- The invariant holds after any number of cycles. -/
theorem otaInv_reachable {w : OtaWorld}
    (hr : (otaMachine cfg lib).ReachableUnder (fun _ p => p.FinalLast) w) : OtaInv w := by
  refine hr.induct otaInv_init ?_
  intro w p w' hw hp hstep
  exact otaInv_step cfg lib hw hp hstep

end Runs

/-- What a cycle from `w` to `w'`, with the log `es`, is to meet. -/
structure CycleOk (current : OtaVer) (w : OtaWorld) (es : OtaLog) (o : Outcome)
    (w' : OtaWorld) : Prop where
  ops : w'.ops = w.ops ++ es
  /-- an upgrade is requested only when the image is ready -/
  ready : ∀ pre ret post, es = pre ++ .requestUpgrade ret :: post → UpgradeReady current pre
  /-- a version that is not newer ends the cycle at once -/
  notNewer : NotNewer current es →
    o = .returned 0 ∧ w'.state = .idle ∧ Without .request es ∧ Without .reboot es
  /-- a failure ends it with a negative value, and no upgrade is requested:
  if there is a request, it is the step that failed -/
  failed : StepFailed current es →
    (∃ ret, o = .returned ret ∧ ret < 0) ∧ w'.state.Settled ∧
      (∀ ret, .requestUpgrade ret ∈ es → ret < 0) ∧ Without .reboot es
  /-- there is no third way but the reboot -/
  otherwise : ¬ NotNewer current es → ¬ StepFailed current es → o = .rebooted
  /-- the states set since the boot, this cycle's included, are a path -/
  path : Path .idle (states w'.ops)

/-- **An update is requested only when it is ready.** After any number of
completed cycles, whatever the platform answers in them, the next cycle,
if it completes, goes one of the seven ways, on the answers that its
platform gives, and is as it should be. -/
theorem otaCycle_ok (cfg : OtaConfig) (lib : JsonLib) {w : OtaWorld}
    (hr : (otaMachine cfg lib).ReachableUnder (fun _ p => p.FinalLast) w) (p : Platform)
    (hp : p.FinalLast) (hfault : (otaCheckAndUpdate cfg lib p w).1 ≠ .fault) :
    ∃ es, Answered lib p w.ops es ∧
      Cycle cfg.current es (otaCheckAndUpdate cfg lib p w).1
        (otaCheckAndUpdate cfg lib p w).2.state ∧
      CycleOk cfg.current w es (otaCheckAndUpdate cfg lib p w).1
        (otaCheckAndUpdate cfg lib p w).2 := by
  obtain ⟨es, hops, hes, -⟩ := otaCheckAndUpdate_cycle cfg lib p hp w hfault
  obtain ⟨fs, hran⟩ := otaCheckAndUpdate_ran cfg lib p w
  obtain rfl : fs = es := List.append_cancel_left (hran.ops_eq.symm.trans hops)
  have hw := otaInv_reachable cfg lib hr
  refine ⟨fs, hran.answered, hes, hops, fun _ _ _ h => hes.ready h, hes.of_notNewer, ?_,
    hes.rebooted_otherwise, by rw [hops]; exact (hw.cycle hes).1⟩
  intro hf
  obtain ⟨⟨ret, ho, hret⟩, hsettled⟩ := hes.of_stepFailed hf
  refine ⟨⟨ret, ho, hret⟩, hsettled, ?_⟩
  rcases hes.request with ⟨hnone, hboot, _⟩ | ⟨pre, ret', post, hes', _, hpre, hpost, hend⟩
  · exact ⟨fun ret' h => absurd rfl (hnone _ h), hboot⟩
  · rcases hend with ⟨hret', hboot, _⟩ | ⟨_, hreb⟩
    · refine ⟨?_, hboot⟩
      intro ret'' h
      rw [hes'] at h
      rcases List.mem_append.mp h with h | h
      · exact absurd rfl (hpre _ h)
      · rcases List.mem_cons.mp h with h | h
        · cases h
          exact hret'
        · exact absurd rfl (hpost _ h)
    · rw [hreb] at ho
      cases ho

/-- A server with version 0.2.0 in two fragments, and a node that runs an
image not yet confirmed. -/
def samplePlatform : Platform where
  inetPton _ := 1
  socket _ := 3
  connect _ := 0
  errno _ := ⟨ EIO, by decide⟩
  httpManifest _ :=
    ⟨[⟨renderObj [("version".toList, .str "0.2.0".toList), ("url".toList, .str "/fw.bin".toList),
      ("size".toList, .num 5)], true⟩], 0⟩
  httpFirmware _ := ⟨[⟨[1, 2, 3], false⟩, ⟨[4, 5], true⟩], 0⟩
  flashOpen _ := 0
  flashErase _ := 0
  streamInit _ := 0
  streamWrite _ := 0
  bootIsConfirmed _ := false
  bootConfirm _ := 0
  requestUpgrade _ := 0

def sampleConfig : OtaConfig := ⟨⟨0, 1, 0⟩, "/firmware/latest.json".toList⟩

/-- The update of the sample node goes through. -/
theorem otaCycle_ok_sample :
    (otaCheckAndUpdate sampleConfig jsonReference samplePlatform {}).1 = .rebooted ∧
      ∃ es, Answered jsonReference samplePlatform [] es ∧
        Cycle sampleConfig.current es
          (otaCheckAndUpdate sampleConfig jsonReference samplePlatform {}).1
          (otaCheckAndUpdate sampleConfig jsonReference samplePlatform {}).2.state ∧
        CycleOk sampleConfig.current {} es
          (otaCheckAndUpdate sampleConfig jsonReference samplePlatform {}).1
          (otaCheckAndUpdate sampleConfig jsonReference samplePlatform {}).2 := by
  have hreboots :
      (otaCheckAndUpdate sampleConfig jsonReference samplePlatform {}).1 = .rebooted := by
    decide +kernel
  have hboot : (otaMachine sampleConfig jsonReference).ReachableUnder (fun _ p => p.FinalLast) {} :=
    ⟨[], rfl, trivial⟩
  refine ⟨hreboots, otaCycle_ok sampleConfig jsonReference hboot samplePlatform ?_ ?_⟩
  · intro log _
    exact ⟨[⟨[1, 2, 3], false⟩], ⟨[4, 5], true⟩, rfl, rfl⟩
  · rw [hreboots]
    decide

end Ceell.Ota
