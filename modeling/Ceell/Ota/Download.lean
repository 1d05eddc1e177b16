/-
Ceell.Ota.Download — what the parts of an update cycle append to the log.

Every part gets one lemma that says which kinds of operation it performs
and how its result follows from their answers. The heart is the download:
`firmware_cb` reports only through the globals `stream_active` and
`firmware_downloaded`, and `Streamed` is what these two say about the
operations performed so far. It holds of one callback and composes, so it
holds of the callbacks of a request, whatever fragments they carry.
-/
import Ceell.Ota.Client
import Mathlib.Data.List.Basic

namespace Ceell.Ota

open Ceell.Lib Ceell.Osal

/-! ## Reading a log -/

inductive OpKind where
  | state | net | manifest | flash | stream | boot | request | reboot
  deriving DecidableEq

def OtaOp.kind : OtaOp → OpKind
  | .setState _ => .state
  | .inetPton _ | .socket _ | .connect _ | .close | .httpGet _ | .httpDone _ => .net
  | .jsonParse _ _ _ => .manifest
  | .flashOpen _ | .flashErase _ | .flashClose | .streamInit _ => .flash
  | .firmwareCb _ _ | .streamWrite _ _ | .streamFlush _ => .stream
  | .bootIsConfirmed _ | .bootConfirm _ => .boot
  | .requestUpgrade _ => .request
  | .sysReboot => .reboot

def OtaOp.state? : OtaOp → Option OtaState
  | .setState state => some state
  | _ => none

def OtaOp.manifest? : OtaOp → Option OtaManifest
  | .jsonParse _ ret manifest => if ret < 0 then none else some manifest
  | _ => none

def OtaOp.bodyFrag? : OtaOp → Option (List UInt8)
  | .firmwareCb bodyFrag _ => if bodyFrag = [] then none else some bodyFrag
  | _ => none

def OtaOp.stored? : OtaOp → Option (List UInt8)
  | .streamWrite data ret => if ret < 0 then none else some data
  | _ => none

def OtaOp.get? : OtaOp → Option (List Char)
  | .httpGet url => some url
  | _ => none

/-- The states set. -/
def states (es : OtaLog) : List OtaState := es.filterMap OtaOp.state?

/-- The manifests parsed. -/
def manifests (es : OtaLog) : List OtaManifest := es.filterMap OtaOp.manifest?

/-- The body fragments handed to `firmware_cb`. -/
def bodyFrags (es : OtaLog) : List (List UInt8) := es.filterMap OtaOp.bodyFrag?

/-- What was written to the stream without an error. -/
def stored (es : OtaLog) : List (List UInt8) := es.filterMap OtaOp.stored?

/-- The URLs requested. -/
def gets (es : OtaLog) : List (List Char) := es.filterMap OtaOp.get?

/-- The operations of a log are of these kinds. -/
def Only (kinds : List OpKind) (es : OtaLog) : Prop := ∀ e ∈ es, e.kind ∈ kinds

/-- The log has no operation of this kind. -/
def Without (k : OpKind) (es : OtaLog) : Prop := ∀ e ∈ es, e.kind ≠ k

/-- An operation of the log failed. -/
def AnyFailed (es : OtaLog) : Prop := ∃ e ∈ es, e.Failed

section Projections

@[simp] theorem states_append (es fs : OtaLog) : states (es ++ fs) = states es ++ states fs :=
  List.filterMap_append

@[simp] theorem manifests_append (es fs : OtaLog) :
    manifests (es ++ fs) = manifests es ++ manifests fs := List.filterMap_append

@[simp] theorem bodyFrags_append (es fs : OtaLog) :
    bodyFrags (es ++ fs) = bodyFrags es ++ bodyFrags fs := List.filterMap_append

@[simp] theorem stored_append (es fs : OtaLog) : stored (es ++ fs) = stored es ++ stored fs :=
  List.filterMap_append

@[simp] theorem gets_append (es fs : OtaLog) : gets (es ++ fs) = gets es ++ gets fs :=
  List.filterMap_append

@[simp] theorem states_cons (e : OtaOp) (es : OtaLog) :
    states (e :: es) = e.state?.toList ++ states es := by
  cases h : e.state? <;> simp [states, h]

@[simp] theorem manifests_cons (e : OtaOp) (es : OtaLog) :
    manifests (e :: es) = e.manifest?.toList ++ manifests es := by
  cases h : e.manifest? <;> simp [manifests, h]

@[simp] theorem bodyFrags_cons (e : OtaOp) (es : OtaLog) :
    bodyFrags (e :: es) = e.bodyFrag?.toList ++ bodyFrags es := by
  cases h : e.bodyFrag? <;> simp [bodyFrags, h]

@[simp] theorem stored_cons (e : OtaOp) (es : OtaLog) :
    stored (e :: es) = e.stored?.toList ++ stored es := by
  cases h : e.stored? <;> simp [stored, h]

@[simp] theorem gets_cons (e : OtaOp) (es : OtaLog) :
    gets (e :: es) = e.get?.toList ++ gets es := by
  cases h : e.get? <;> simp [gets, h]

@[simp] theorem states_nil : states [] = [] := rfl
@[simp] theorem manifests_nil : manifests [] = [] := rfl
@[simp] theorem bodyFrags_nil : bodyFrags [] = [] := rfl
@[simp] theorem stored_nil : stored [] = [] := rfl
@[simp] theorem gets_nil : gets [] = [] := rfl

@[simp] theorem anyFailed_append (es fs : OtaLog) :
    AnyFailed (es ++ fs) ↔ AnyFailed es ∨ AnyFailed fs := by
  simp [AnyFailed, or_and_right, exists_or]

@[simp] theorem anyFailed_cons (e : OtaOp) (es : OtaLog) :
    AnyFailed (e :: es) ↔ e.Failed ∨ AnyFailed es := by
  simp [AnyFailed]

@[simp] theorem anyFailed_nil : ¬ AnyFailed [] := by
  simp [AnyFailed]

variable {kinds : List OpKind} {es fs : OtaLog}

theorem Only.append (h1 : Only kinds es) (h2 : Only kinds fs) : Only kinds (es ++ fs) := by
  intro e he
  rcases List.mem_append.mp he with he | he
  · exact h1 e he
  · exact h2 e he

theorem Only.mono {more : List OpKind} (h : Only kinds es) (hsub : kinds ⊆ more) : Only more es :=
  fun e he => hsub (h e he)

theorem Only.without {k : OpKind} (h : Only kinds es) (hk : k ∉ kinds) : Without k es :=
  fun e he hek => hk (hek ▸ h e he)

@[simp] theorem without_nil {k : OpKind} : Without k [] := List.forall_mem_nil _

@[simp] theorem without_cons {k : OpKind} {e : OtaOp} :
    Without k (e :: es) ↔ e.kind ≠ k ∧ Without k es := List.forall_mem_cons

@[simp] theorem without_append {k : OpKind} :
    Without k (es ++ fs) ↔ Without k es ∧ Without k fs := List.forall_mem_append

/-- A projection that reads one kind of operation finds nothing in a log
without that kind. -/
theorem filterMap_eq_nil_of_without {β : Type} {f : OtaOp → Option β} {k : OpKind}
    (hf : ∀ e, e.kind ≠ k → f e = none) (h : Without k es) : es.filterMap f = [] := by
  rw [List.filterMap_eq_nil_iff]
  intro e he
  exact hf e (h e he)

theorem states_of_without (h : Without .state es) : states es = [] :=
  filterMap_eq_nil_of_without
    (fun e he => by cases e <;> first | rfl | exact absurd rfl he) h

theorem manifests_of_without (h : Without .manifest es) : manifests es = [] :=
  filterMap_eq_nil_of_without
    (fun e he => by cases e <;> first | rfl | exact absurd rfl he) h

theorem bodyFrags_of_without (h : Without .stream es) : bodyFrags es = [] :=
  filterMap_eq_nil_of_without
    (fun e he => by cases e <;> first | rfl | exact absurd rfl he) h

theorem stored_of_without (h : Without .stream es) : stored es = [] :=
  filterMap_eq_nil_of_without
    (fun e he => by cases e <;> first | rfl | exact absurd rfl he) h

theorem gets_of_without (h : Without .net es) : gets es = [] :=
  filterMap_eq_nil_of_without
    (fun e he => by cases e <;> first | rfl | exact absurd rfl he) h

end Projections

/-! ## Connecting and the manifest -/

/-- `connect_to_server` touches the network only and requests nothing, and
its result is negative exactly if an operation failed. -/
theorem connectToServer_spec (p : Platform) (w : OtaWorld) :
    ∃ es, (connectToServer p w).2 = { w with ops := w.ops ++ es } ∧ Only [.net] es ∧
      gets es = [] ∧ ((connectToServer p w).1 < 0 ↔ AnyFailed es) := by
  unfold connectToServer
  have herrno : ∀ e : Errno, 0 < e.val := fun e => e.property
  by_cases h1 : p.inetPton w.ops ≠ 1
  · refine ⟨[.inetPton (p.inetPton w.ops)], ?_, ?_, ?_, ?_⟩
    · simp only [if_pos h1, OtaWorld.did]
    · simp [Only, OtaOp.kind]
    · simp [OtaOp.get?]
    · simp [h1, OtaOp.Failed, EINVAL]
  simp only [if_neg h1]
  generalize hw1 : w.did (.inetPton (p.inetPton w.ops)) = w1
  by_cases h2 : p.socket w1.ops < 0
  · refine ⟨[.inetPton (p.inetPton w.ops), .socket (p.socket w1.ops)], ?_, ?_, ?_, ?_⟩
    · simp only [if_pos h2]
      simp only [← hw1, OtaWorld.did, List.append_assoc, List.cons_append, List.nil_append]
    · simp [Only, OtaOp.kind]
    · simp [OtaOp.get?]
    · simp [h2, OtaOp.Failed, herrno]
  simp only [if_neg h2]
  generalize hw2 : w1.did (.socket (p.socket w1.ops)) = w2
  by_cases h3 : p.connect w2.ops < 0
  · refine ⟨[.inetPton (p.inetPton w.ops), .socket (p.socket w1.ops),
      .connect (p.connect w2.ops), .close], ?_, ?_, ?_, ?_⟩
    · simp only [if_pos h3]
      simp only [← hw2, ← hw1, OtaWorld.did, List.append_assoc, List.cons_append, List.nil_append]
    · simp [Only, OtaOp.kind]
    · simp [OtaOp.get?]
    · simp [h3, OtaOp.Failed, herrno]
  · refine ⟨[.inetPton (p.inetPton w.ops), .socket (p.socket w1.ops),
      .connect (p.connect w2.ops)], ?_, ?_, ?_, ?_⟩
    · simp only [if_neg h3]
      simp only [← hw2, ← hw1, OtaWorld.did, List.append_assoc, List.cons_append, List.nil_append]
    · simp [Only, OtaOp.kind]
    · simp [OtaOp.get?]
    · have h1' : p.inetPton w.ops = 1 := not_not.mp h1
      simp [h1', h2, h3, OtaOp.Failed]

/-- A fetch that failed: an operation failed, or nothing was parsed. -/
structure FetchFailed (es : OtaLog) : Prop where
  only : Only [.net, .manifest] es
  manifests : manifests es = []
  why : AnyFailed es ∨ Only [.net] es

/-- A fetch that touched the network only. -/
theorem FetchFailed.of_net {es : OtaLog} (h : Only [.net] es) : FetchFailed es where
  only := h.mono (by simp)
  manifests := manifests_of_without (h.without (by decide))
  why := Or.inr h

/-- A fetch that got the manifest. -/
structure Fetched (manifest : OtaManifest) (es : OtaLog) : Prop where
  only : Only [.net, .manifest] es
  manifests : manifests es = [manifest]
  clean : ¬ AnyFailed es

theorem manifestCb_ops (w : OtaWorld) (rsp : HttpCall Char) : (manifestCb w rsp).ops = w.ops := by
  unfold manifestCb
  split
  · show (if _ then _ else _ : OtaWorld).ops = _
    split <;> rfl
  · rfl

theorem foldl_manifestCb_ops (calls : List (HttpCall Char)) (w : OtaWorld) :
    (calls.foldl manifestCb w).ops = w.ops := by
  induction calls generalizing w with
  | nil => rfl
  | cons rsp calls ih => exact (ih _).trans (manifestCb_ops w rsp)

/-- The globals when the request for the manifest has gone out, if the
server could be reached. -/
def manifestRequest (cfg : OtaConfig) (p : Platform) (w : OtaWorld) : Option OtaWorld :=
  let (sock, w) := connectToServer p w
  if sock < 0 then none
  else
    let w := { w with manifestLen := 0, manifestTruncated := false }
    some (w.did (.httpGet cfg.manifestPath))

/-- The globals when the request is over. -/
def manifestAnswered (start : OtaWorld) (rsp : HttpResult Char) : OtaWorld :=
  ((rsp.calls.foldl manifestCb start).did (.httpDone rsp.ret)).did .close

/-- The ways a fetch can go on from the end of its request, in `w`: what it
returns. -/
inductive FetchEnd (lib : JsonLib) (ret : Int) (w : OtaWorld) :
    Int × OtaManifest × OtaWorld → Prop where
  | requestFailed (hret : ret < 0) : FetchEnd lib ret w (ret, {}, w)
  | tooLong (hret : ¬ ret < 0) (htrunc : w.manifestTruncated = true) :
      FetchEnd lib ret w (-ENOBUFS, {}, w)
  | parsed {text parsed} (buf : CharBuf manifestBufSize) (hret : ¬ ret < 0)
      (htrunc : ¬ w.manifestTruncated = true)
      (htext : (w.manifestBuf.memcpy w.manifestLen.toNat [nul]).bytes.take w.manifestLen.toNat =
        text)
      (hparsed : lib.parse manifestDescr text = parsed) :
      FetchEnd lib ret w (if parsed.ret < 0 then -EPROTO else 0, .ofParsed parsed,
        { w with manifestBuf := buf }.did (.jsonParse text parsed.ret (.ofParsed parsed)))

/-- A fetch ends with the connection, or goes on from its request. -/
theorem fetchManifest_cases (cfg : OtaConfig) (lib : JsonLib) (p : Platform) (w : OtaWorld) :
    ((connectToServer p w).1 < 0 ∧ manifestRequest cfg p w = none ∧
      fetchManifest cfg lib p w = ((connectToServer p w).1, {}, (connectToServer p w).2)) ∨
    ∃ start rsp, manifestRequest cfg p w = some start ∧ p.httpManifest start.ops = rsp ∧
      FetchEnd lib rsp.ret (manifestAnswered start rsp) (fetchManifest cfg lib p w) := by
  unfold fetchManifest manifestRequest
  rcases connectToServer p w with ⟨sock, w1⟩
  by_cases h1 : sock < 0
  · left
    simp only [if_pos h1, and_self, and_true]
    exact h1
  right
  simp only [if_neg h1, Option.some.injEq]
  refine ⟨_, _, rfl, rfl, ?_⟩
  generalize OtaWorld.did _ (.httpGet cfg.manifestPath) = start
  generalize p.httpManifest start.ops = rsp
  rw [manifestAnswered]
  generalize ((rsp.calls.foldl manifestCb start).did (.httpDone rsp.ret)).did .close = w3
  by_cases h2 : rsp.ret < 0
  · rw [if_pos h2]
    exact .requestFailed h2
  rw [if_neg h2]
  by_cases h3 : w3.manifestTruncated = true
  · rw [if_pos h3]
    exact .tooLong h2 h3
  rw [if_neg h3]
  generalize hparsed : lib.parse manifestDescr _ = parsed
  generalize CharBuf.memcpy _ 0 parsed.buf = buf
  have hend := FetchEnd.parsed buf h2 h3 rfl hparsed
  by_cases h4 : parsed.ret < 0
  · rw [if_pos h4] at hend ⊢
    exact hend
  · rw [if_neg h4] at hend ⊢
    exact hend

theorem manifestRequest_spec {cfg : OtaConfig} {p : Platform} {w start : OtaWorld}
    (h : manifestRequest cfg p w = some start) :
    ∃ es, start = { w with
        manifestLen := 0
        manifestTruncated := false
        ops := w.ops ++ (es ++ [.httpGet cfg.manifestPath]) } ∧
      Only [.net] es ∧ gets es = [] ∧ ¬ AnyFailed es := by
  obtain ⟨es, hw, hnet, hget, hneg⟩ := connectToServer_spec p w
  unfold manifestRequest at h
  rcases hc : connectToServer p w with ⟨sock, w1⟩
  rw [hc] at h hw hneg
  have hw : w1 = { w with ops := w.ops ++ es } := hw
  by_cases h1 : sock < 0
  · simp [h1] at h
  · simp only [if_neg h1, Option.some.injEq] at h
    refine ⟨es, ?_, hnet, hget, fun hfailed => h1 (hneg.mpr hfailed)⟩
    rw [← h, hw]
    simp only [OtaWorld.did, List.append_assoc]

theorem manifestAnswered_ops (start : OtaWorld) (rsp : HttpResult Char) :
    (manifestAnswered start rsp).ops = start.ops ++ [.httpDone rsp.ret, .close] := by
  simp [manifestAnswered, OtaWorld.did, foldl_manifestCb_ops]

/-- A fetch touches the network and the parser, and its result is 0 exactly
if it got the manifest. -/
theorem fetchManifest_spec (cfg : OtaConfig) (lib : JsonLib) (p : Platform) (w : OtaWorld) :
    ∃ es, (fetchManifest cfg lib p w).2.2.ops = w.ops ++ es ∧
      ((fetchManifest cfg lib p w).1 < 0 ∧ FetchFailed es ∨
        (fetchManifest cfg lib p w).1 = 0 ∧ Fetched (fetchManifest cfg lib p w).2.1 es ∧
          gets es = [cfg.manifestPath]) := by
  rcases fetchManifest_cases cfg lib p w with ⟨hneg, _, heq⟩ | ⟨start, rsp, hstart, _, hend⟩
  · obtain ⟨es, hw, hnet, _⟩ := connectToServer_spec p w
    rw [heq, hw]
    exact ⟨es, rfl, Or.inl ⟨hneg, .of_net hnet⟩⟩
  obtain ⟨es, hw, hnet, hget, hclean⟩ := manifestRequest_spec hstart
  have hops : (manifestAnswered start rsp).ops =
      w.ops ++ (es ++ [.httpGet cfg.manifestPath, .httpDone rsp.ret, .close]) := by
    rw [manifestAnswered_ops, hw]
    simp only [List.append_assoc, List.cons_append, List.nil_append]
  generalize manifestAnswered start rsp = w2 at hend hops
  generalize fetchManifest cfg lib p w = r at hend ⊢
  have hnet3 : Only [.net] (es ++ [.httpGet cfg.manifestPath, .httpDone rsp.ret, .close]) :=
    hnet.append (by simp [Only, OtaOp.kind])
  cases hend with
  | requestFailed hret => exact ⟨_, hops, Or.inl ⟨hret, .of_net hnet3⟩⟩
  | tooLong hret htrunc =>
    have hneg : -ENOBUFS < 0 := by decide
    exact ⟨_, hops, Or.inl ⟨hneg, .of_net hnet3⟩⟩
  | @parsed text parsed buf hret htrunc htext hparsed =>
    generalize hfs : es ++ [.httpGet cfg.manifestPath, .httpDone rsp.ret, .close] = fs at hops hnet3
    have honly : Only [.net, .manifest] (fs ++ [.jsonParse text parsed.ret (.ofParsed parsed)]) :=
      (hnet3.mono (by simp)).append (by simp [Only, OtaOp.kind])
    have hnone := manifests_of_without (hnet3.without (by decide))
    refine ⟨fs ++ [.jsonParse text parsed.ret (.ofParsed parsed)], ?_, ?_⟩
    · simp only [OtaWorld.did, hops, List.append_assoc]
    by_cases h4 : parsed.ret < 0
    · refine Or.inl ⟨?_, honly, ?_, Or.inl ?_⟩
      · simp only [if_pos h4, EPROTO]
        decide
      · simp [hnone, OtaOp.manifest?, h4]
      · simp [OtaOp.Failed, h4]
    · refine Or.inr ⟨?_, ⟨honly, ?_, ?_⟩, ?_⟩
      · simp only [if_neg h4]
      · simp [hnone, OtaOp.manifest?, h4]
      · simp [← hfs, OtaOp.Failed, hclean, h4, hret]
      · simp [← hfs, OtaOp.get?, hget]

/-! ## The stream -/

/-- What `stream_active` and `firmware_downloaded` say about the
operations `es` performed from `w` to `w'`. -/
structure Streamed (w w' : OtaWorld) (es : OtaLog) : Prop where
  ops_eq : w'.ops = w.ops ++ es
  only : Only [.stream] es
  was_active : w'.streamActive = true → w.streamActive = true
  stored : w'.streamActive = true → stored es = bodyFrags es
  clean : w'.streamActive = true → ¬ AnyFailed es
  size : w'.streamActive = true →
    w'.firmwareDownloaded = w.firmwareDownloaded + .ofNat (bodyFrags es).flatten.length
  broken : w.streamActive = true → w'.streamActive = false → AnyFailed es

theorem Streamed.trans {w w' w'' : OtaWorld} {es fs : OtaLog} (h1 : Streamed w w' es)
    (h2 : Streamed w' w'' fs) : Streamed w w'' (es ++ fs) where
  ops_eq := by rw [h2.ops_eq, h1.ops_eq, List.append_assoc]
  only := h1.only.append h2.only
  was_active h := h1.was_active (h2.was_active h)
  stored h := by rw [stored_append, bodyFrags_append, h1.stored (h2.was_active h), h2.stored h]
  clean h := by
    rw [anyFailed_append, not_or]
    exact ⟨h1.clean (h2.was_active h), h2.clean h⟩
  size h := by
    rw [h2.size h, h1.size (h2.was_active h), bodyFrags_append, List.flatten_append,
      List.length_append, UInt32.ofNat_add, UInt32.add_assoc]
  broken h h'' := by
    rw [anyFailed_append]
    cases h' : w'.streamActive with
    | false => exact Or.inl (h1.broken h h')
    | true => exact Or.inr (h2.broken h' h'')

theorem Streamed.gets {w w' : OtaWorld} {es : OtaLog} (h : Streamed w w' es) : gets es = [] :=
  gets_of_without (h.only.without (by decide))

theorem firmwareFlush_streamed (p : Platform) (final : Bool) (w : OtaWorld) :
    ∃ es, Streamed w (firmwareFlush p final w) es ∧
      (final = true → (firmwareFlush p final w).streamActive = true →
        ∃ ret, es = [.streamFlush ret]) := by
  unfold firmwareFlush
  by_cases h : (final && w.streamActive) = true
  · obtain ⟨hfinal, ha⟩ := Bool.and_eq_true_iff.mp h
    simp only [if_pos h]
    generalize p.streamWrite w.ops = ret
    refine ⟨[.streamFlush ret], ?_, fun _ _ => ⟨ret, rfl⟩⟩
    by_cases hret : ret < 0
    · rw [if_pos hret]
      constructor <;> simp [OtaWorld.did, Only, OtaOp.kind, OtaOp.Failed, hret]
    · rw [if_neg hret]
      constructor <;>
        simp [OtaWorld.did, Only, OtaOp.kind, OtaOp.Failed, OtaOp.stored?, OtaOp.bodyFrag?,
          hret, ha]
  · rw [if_neg h]
    refine ⟨[], ?_, fun hfinal ha => absurd (by rw [hfinal, ha]; rfl) h⟩
    constructor <;> simp [Only]

/-- One callback. After the last one of a body, if the stream is still
active, the last operation was a flush. -/
theorem firmwareCb_streamed (p : Platform) (w : OtaWorld) (rsp : HttpCall UInt8) :
    ∃ es, Streamed w (firmwareCb p w rsp) es ∧
      (rsp.final = true → (firmwareCb p w rsp).streamActive = true →
        ∃ before ret, es = before ++ [.streamFlush ret]) := by
  unfold firmwareCb
  generalize hw1 : w.did (.firmwareCb rsp.bodyFrag rsp.final) = w1
  by_cases h : (decide (rsp.bodyFrag.length > 0) && w1.streamActive) = true
  · obtain ⟨hlen, ha⟩ := Bool.and_eq_true_iff.mp h
    have ha' : w.streamActive = true := by rw [← ha, ← hw1, OtaWorld.did]
    have hne : rsp.bodyFrag ≠ [] := List.ne_nil_of_length_pos (of_decide_eq_true hlen)
    simp only [if_pos h]
    generalize p.streamWrite w1.ops = ret
    by_cases hret : ret < 0
    · refine ⟨[.firmwareCb rsp.bodyFrag rsp.final, .streamWrite rsp.bodyFrag ret], ?_, ?_⟩
      · rw [if_pos hret]
        constructor <;> simp [← hw1, OtaWorld.did, Only, OtaOp.kind, OtaOp.Failed, hret]
      · simp [hret]
    simp only [if_neg hret]
    generalize hw2 : OtaWorld.mk _ _ _ _ _ _ _ = w2
    have hwrite : Streamed w w2
        [.firmwareCb rsp.bodyFrag rsp.final, .streamWrite rsp.bodyFrag ret] := by
      constructor <;>
        simp [← hw2, ← hw1, OtaWorld.did, Only, OtaOp.kind, OtaOp.Failed, OtaOp.stored?,
          OtaOp.bodyFrag?, hret, hne, ha']
    obtain ⟨es, hflush, hlast⟩ := firmwareFlush_streamed p rsp.final w2
    refine ⟨_, hwrite.trans hflush, ?_⟩
    intro hfinal hact
    obtain ⟨ret', rfl⟩ := hlast hfinal hact
    exact ⟨_, ret', rfl⟩
  · rw [if_neg h]
    have hskip : w.streamActive = true → rsp.bodyFrag = [] := by
      intro ha
      by_contra hne
      refine h (Bool.and_eq_true_iff.mpr ⟨decide_eq_true (List.length_pos_iff.mpr hne), ?_⟩)
      rw [← hw1]
      exact ha
    have hcall : Streamed w w1 [.firmwareCb rsp.bodyFrag rsp.final] := by
      constructor <;>
        simp +contextual [← hw1, OtaWorld.did, Only, OtaOp.kind, OtaOp.Failed, OtaOp.stored?,
          OtaOp.bodyFrag?, hskip]
    obtain ⟨es, hflush, hlast⟩ := firmwareFlush_streamed p rsp.final w1
    refine ⟨_, hcall.trans hflush, ?_⟩
    intro hfinal hact
    obtain ⟨ret', rfl⟩ := hlast hfinal hact
    exact ⟨_, ret', rfl⟩

/-- The callbacks of a request, by induction over them. -/
theorem foldl_firmwareCb_streamed (p : Platform) (calls : List (HttpCall UInt8)) (w : OtaWorld) :
    ∃ es, Streamed w (calls.foldl (firmwareCb p) w) es := by
  induction calls generalizing w with
  | nil => exact ⟨[], by constructor <;> simp [Only]⟩
  | cons rsp calls ih =>
    obtain ⟨es, hone, _⟩ := firmwareCb_streamed p w rsp
    obtain ⟨fs, hrest⟩ := ih (firmwareCb p w rsp)
    exact ⟨es ++ fs, hone.trans hrest⟩

/-- A body whose last callback is the final one: if the stream is still
active after it, the last operation was a flush. -/
theorem foldl_firmwareCb_final (p : Platform) {calls : List (HttpCall UInt8)} {before last}
    (hcalls : calls = before ++ [last]) (hfinal : last.final = true) (w : OtaWorld) :
    ∃ es, Streamed w (calls.foldl (firmwareCb p) w) es ∧
      ((calls.foldl (firmwareCb p) w).streamActive = true →
        ∃ fs ret, es = fs ++ [.streamFlush ret]) := by
  obtain ⟨es, hbefore⟩ := foldl_firmwareCb_streamed p before w
  obtain ⟨fs, hlast, hflush⟩ := firmwareCb_streamed p (before.foldl (firmwareCb p) w) last
  rw [hcalls, List.foldl_append, List.foldl_cons, List.foldl_nil]
  refine ⟨es ++ fs, hbefore.trans hlast, ?_⟩
  intro hact
  obtain ⟨gs, ret, rfl⟩ := hflush hfinal hact
  exact ⟨es ++ gs, ret, by rw [List.append_assoc]⟩

/-! ## The download -/

/-- slot1 was erased, before anything was handed to the stream. -/
def Erased (es : OtaLog) : Prop :=
  ∃ before ret after, es = before ++ .flashErase ret :: after ∧ 0 ≤ ret ∧
    Without .stream before

/-- The stream was flushed, after all that was handed to it. -/
def Flushed (es : OtaLog) : Prop :=
  ∃ before ret after, es = before ++ .streamFlush ret :: after ∧ 0 ≤ ret ∧
    Without .stream after

/-- The size the manifest names is not the number of bytes received. -/
def SizeMismatch (expectedSize : Int) (es : OtaLog) : Prop :=
  0 < expectedSize ∧
    (.ofNat (bodyFrags es).flatten.length : SizeT) ≠ .ofNat expectedSize.toNat

theorem Erased.after {es fs : OtaLog} (h : Erased es) (hfs : Without .stream fs) :
    Erased (fs ++ es) := by
  obtain ⟨before, ret, after, rfl, hret, hbefore⟩ := h
  exact ⟨fs ++ before, ret, after, by rw [List.append_assoc], hret,
    without_append.mpr ⟨hfs, hbefore⟩⟩

theorem Erased.append {es : OtaLog} (h : Erased es) (fs : OtaLog) : Erased (es ++ fs) := by
  obtain ⟨before, ret, after, rfl, hret, hbefore⟩ := h
  exact ⟨before, ret, after ++ fs, by rw [List.append_assoc, List.cons_append], hret, hbefore⟩

theorem Flushed.after {es : OtaLog} (h : Flushed es) (fs : OtaLog) : Flushed (fs ++ es) := by
  obtain ⟨before, ret, after, rfl, hret, hafter⟩ := h
  exact ⟨fs ++ before, ret, after, by rw [List.append_assoc], hret, hafter⟩

theorem Flushed.append {es fs : OtaLog} (h : Flushed es) (hfs : Without .stream fs) :
    Flushed (es ++ fs) := by
  obtain ⟨before, ret, after, rfl, hret, hafter⟩ := h
  exact ⟨before, ret, after ++ fs, by rw [List.append_assoc, List.cons_append], hret,
    without_append.mpr ⟨hafter, hfs⟩⟩

section Request

variable {p : Platform} {url : List Char} {w : OtaWorld} {fs : OtaLog} {ret : Int}

/-- The response to the request. -/
def firmwareResponse (p : Platform) (url : List Char) (w : OtaWorld) : HttpResult UInt8 :=
  p.httpFirmware (w.did (.httpGet url)).ops

/-- The globals after the callbacks, and once the socket is closed. -/
def firmwareReceived (p : Platform) (url : List Char) (w : OtaWorld) : OtaWorld :=
  (firmwareResponse p url w).calls.foldl (firmwareCb p) (w.did (.httpGet url))

def firmwareClosed (p : Platform) (url : List Char) (w : OtaWorld) : OtaWorld :=
  ((firmwareReceived p url w).did (.httpDone (firmwareResponse p url w).ret)).did .close

/-- The operations of a request, around those of its callbacks. -/
def requestLog (url : List Char) (fs : OtaLog) (ret : Int) : OtaLog :=
  [.httpGet url] ++ fs ++ [.httpDone ret, .close]

theorem only_requestLog (h : Only [.stream] fs) : Only [.net, .stream] (requestLog url fs ret) :=
  (Only.append (by simp [Only, OtaOp.kind]) (h.mono (by simp))).append
    (by simp [Only, OtaOp.kind])

theorem gets_requestLog (h : gets fs = []) : gets (requestLog url fs ret) = [url] := by
  simp [requestLog, OtaOp.get?, h]

theorem firmwareClosed_ops
    (hst : Streamed (w.did (.httpGet url)) (firmwareReceived p url w) fs) :
    (firmwareClosed p url w).ops = w.ops ++ requestLog url fs (firmwareResponse p url w).ret := by
  simp only [firmwareClosed, requestLog, OtaWorld.did, hst.ops_eq, List.append_assoc,
    List.cons_append, List.nil_append]

/-- The flush behind a request that failed. -/
theorem firmwareRequest_eq (p : Platform) (url : List Char) (w : OtaWorld) :
    firmwareRequest p url w = ((firmwareResponse p url w).ret,
      if (firmwareClosed p url w).streamActive && (firmwareResponse p url w).ret < 0 then
        (firmwareClosed p url w).did (.streamFlush (p.streamWrite (firmwareClosed p url w).ops))
      else firmwareClosed p url w) :=
  (apply_ite (Prod.mk (firmwareResponse p url w).ret) _ _ _).symm

/-- A request that failed, whatever the callbacks did before. -/
theorem firmwareRequest_failed (hret : (firmwareResponse p url w).ret < 0) :
    ∃ es, (firmwareRequest p url w).2.ops = w.ops ++ es ∧ Only [.net, .stream] es ∧
      gets es = [url] ∧ AnyFailed es := by
  obtain ⟨fs, hst⟩ := foldl_firmwareCb_streamed p (firmwareResponse p url w).calls
    (w.did (.httpGet url))
  have hops := firmwareClosed_ops hst
  have honly : Only [.net, .stream] (requestLog url fs (firmwareResponse p url w).ret) :=
    only_requestLog hst.only
  have hgets : gets (requestLog url fs (firmwareResponse p url w).ret) = [url] :=
    gets_requestLog hst.gets
  have hfailed : AnyFailed (requestLog url fs (firmwareResponse p url w).ret) := by
    simp [requestLog, OtaOp.Failed, hret]
  rw [firmwareRequest_eq]
  by_cases hact : (firmwareClosed p url w).streamActive = true
  · refine ⟨_ ++ [.streamFlush (p.streamWrite (firmwareClosed p url w).ops)], ?_,
      honly.append (by simp [Only, OtaOp.kind]), ?_, (anyFailed_append _ _).mpr (Or.inl hfailed)⟩
    · simp only [hact, hret, decide_true, Bool.and_true, if_true, OtaWorld.did]
      rw [hops, List.append_assoc]
    · simp [hgets, OtaOp.get?]
  · refine ⟨_, ?_, honly, hgets, hfailed⟩
    simp only [hact, Bool.false_and, Bool.false_eq_true, if_false, hops]

/-- A request that did not fail leaves the stream as its callbacks do, and
flushed if it is still active. -/
theorem firmwareRequest_done (hp : p.FinalLast) (hret : ¬ (firmwareResponse p url w).ret < 0) :
    ∃ fs, Streamed (w.did (.httpGet url)) (firmwareReceived p url w) fs ∧
      (firmwareRequest p url w).2 = firmwareClosed p url w ∧
      ((firmwareReceived p url w).streamActive = true → Flushed fs) := by
  obtain ⟨before, last, hcalls, hfinal⟩ := hp _ (Int.not_lt.mp hret)
  obtain ⟨fs, hst, hflush⟩ := foldl_firmwareCb_final p hcalls hfinal (w.did (.httpGet url))
  refine ⟨fs, hst, ?_, fun hact => ?_⟩
  · simp only [firmwareRequest_eq, hret, decide_false, Bool.and_false, Bool.false_eq_true,
      if_false]
  · obtain ⟨gs, ret, rfl⟩ := hflush hact
    have hclean := hst.clean hact
    rw [anyFailed_append, not_or] at hclean
    have hret0 : 0 ≤ ret := by simpa [OtaOp.Failed] using hclean.2
    exact ⟨gs, ret, [], rfl, hret0, fun _ he => absurd he List.not_mem_nil⟩

/-- A request for the firmware that did not fail either broke the stream
or stored all it took in, in the order of the callbacks. -/
theorem firmwareRequest_spec (p : Platform) (hp : p.FinalLast) (url : List Char) (w : OtaWorld) :
    ∃ es, (firmwareRequest p url w).2.ops = w.ops ++ es ∧ Only [.net, .stream] es ∧
      gets es = [url] ∧ ((firmwareRequest p url w).1 < 0 → AnyFailed es) ∧
      (w.streamActive = true → ¬ (firmwareRequest p url w).1 < 0 →
        ((firmwareRequest p url w).2.streamActive = false → AnyFailed es) ∧
        ((firmwareRequest p url w).2.streamActive = true →
          stored es = bodyFrags es ∧ Flushed es ∧ ¬ AnyFailed es ∧
          (firmwareRequest p url w).2.firmwareDownloaded =
            w.firmwareDownloaded + .ofNat (bodyFrags es).flatten.length)) := by
  have hfst : (firmwareRequest p url w).1 = (firmwareResponse p url w).ret := by
    rw [firmwareRequest_eq]
  rw [hfst]
  by_cases hret : (firmwareResponse p url w).ret < 0
  · obtain ⟨es, hops, honly, hgets, hfailed⟩ := firmwareRequest_failed hret
    exact ⟨es, hops, honly, hgets, fun _ => hfailed, fun _ h => absurd hret h⟩
  obtain ⟨fs, hst, heq, hflush⟩ := firmwareRequest_done hp hret
  rw [heq]
  refine ⟨_, firmwareClosed_ops hst, only_requestLog hst.only, gets_requestLog hst.gets,
    fun h => absurd h hret, fun hact _ => ⟨fun h => ?_, fun h => ?_⟩⟩
  · have hbroken := hst.broken hact h
    simp [requestLog, hbroken]
  · have hfrags : bodyFrags (requestLog url fs (firmwareResponse p url w).ret) = bodyFrags fs := by
      simp [requestLog, OtaOp.bodyFrag?]
    refine ⟨?_, ?_, ?_, ?_⟩
    · rw [hfrags, ← hst.stored h]
      simp [requestLog, OtaOp.stored?]
    · exact ((hflush h).after _).append (by simp [OtaOp.kind])
    · simp [requestLog, OtaOp.Failed, hst.clean h, hret]
    · rw [hfrags]
      exact hst.size h

end Request

/-- What `download_firmware` makes of the request once slot1 is closed. -/
def firmwareVerdict (expectedSize : Int) (r : Int × OtaWorld) : Int × OtaWorld :=
  if r.1 < 0 || !r.2.streamActive then (if r.1 < 0 then r.1 else - EIO, r.2.did .flashClose)
  else if expectedSize > 0 && r.2.firmwareDownloaded ≠ .ofNat expectedSize.toNat then
    (-EMSGSIZE, r.2.did .flashClose)
  else (0, r.2.did .flashClose)

theorem firmwareVerdict_ops (expectedSize : Int) (r : Int × OtaWorld) :
    (firmwareVerdict expectedSize r).2.ops = r.2.ops ++ [.flashClose] := by
  unfold firmwareVerdict
  split
  · rfl
  · split <;> rfl

/-- The verdict is 0 exactly if nothing failed and the size is right. -/
theorem firmwareVerdict_ret (expectedSize : Int) (r : Int × OtaWorld) :
    (firmwareVerdict expectedSize r).1 < 0 ∧
        (r.1 < 0 ∨ r.2.streamActive = false ∨
          0 < expectedSize ∧ r.2.firmwareDownloaded ≠ .ofNat expectedSize.toNat) ∨
      (firmwareVerdict expectedSize r).1 = 0 ∧ ¬ r.1 < 0 ∧ r.2.streamActive = true ∧
        ¬ (0 < expectedSize ∧ r.2.firmwareDownloaded ≠ .ofNat expectedSize.toNat) := by
  unfold firmwareVerdict
  by_cases hret : r.1 < 0
  · simp [hret]
  cases hact : r.2.streamActive with
  | false => simp [hret, EIO]
  | true =>
    by_cases hsize : 0 < expectedSize ∧ r.2.firmwareDownloaded ≠ .ofNat expectedSize.toNat
    · simp [hret, hsize, EMSGSIZE]
    · right
      simp only [hret, decide_false, Bool.not_true, Bool.or_self, Bool.false_eq_true, if_false]
      rw [if_neg (by simpa using hsize)]
      exact ⟨rfl, fun h => h, trivial, hsize⟩

/-- The download either fails to connect, or ends with the verdict on the
request, which starts with a fresh stream. -/
theorem receiveFirmware_cases (p : Platform) (url : List Char) (expectedSize : Int)
    (w : OtaWorld) :
    (∃ es, (receiveFirmware p url expectedSize w).2.ops = w.ops ++ es ∧
      (receiveFirmware p url expectedSize w).1 < 0 ∧ Only [.net, .flash] es ∧ AnyFailed es) ∨
    ∃ es w', w'.ops = w.ops ++ es ∧ Only [.net] es ∧ gets es = [] ∧ ¬ AnyFailed es ∧
      w'.streamActive = true ∧ w'.firmwareDownloaded = 0 ∧
      receiveFirmware p url expectedSize w
        = firmwareVerdict expectedSize (firmwareRequest p url w') := by
  unfold receiveFirmware
  dsimp only
  generalize hw0 : ({ w with streamActive := true, firmwareDownloaded := 0 } : OtaWorld) = w0
  obtain ⟨es, hw1, hnet, hget, hneg⟩ := connectToServer_spec p w0
  rcases hc : connectToServer p w0 with ⟨sock, w1⟩
  rw [hc] at hw1 hneg
  have hw1 : w1 = { w0 with ops := w0.ops ++ es } := hw1
  have hops1 : w1.ops = w.ops ++ es := by rw [hw1, ← hw0]
  by_cases h1 : sock < 0
  · simp only [if_pos h1]
    refine Or.inl ⟨es ++ [.flashClose], ?_, h1, ?_, (anyFailed_append _ _).mpr (Or.inl ?_)⟩
    · rw [OtaWorld.did, hops1, List.append_assoc]
    · exact (hnet.mono (by simp)).append (by simp [Only, OtaOp.kind])
    · exact hneg.mp h1
  · have hact1 : w1.streamActive = true := by rw [hw1, ← hw0]
    have hdown1 : w1.firmwareDownloaded = 0 := by rw [hw1, ← hw0]
    simp only [if_neg h1]
    exact Or.inr ⟨es, w1, hops1, hnet, hget, fun h => h1 (hneg.mpr h), hact1, hdown1, rfl⟩

/-- The download after the stream is initialised: what was taken in is
what was stored, and its size is right, or the result is negative. -/
theorem receiveFirmware_spec (p : Platform) (hp : p.FinalLast) (url : List Char)
    (expectedSize : Int) (w : OtaWorld) :
    ∃ es, (receiveFirmware p url expectedSize w).2.ops = w.ops ++ es ∧
      Only [.net, .flash, .stream] es ∧
      ((receiveFirmware p url expectedSize w).1 < 0 ∧
          (AnyFailed es ∨ SizeMismatch expectedSize es) ∨
        (receiveFirmware p url expectedSize w).1 = 0 ∧ gets es = [url] ∧
          stored es = bodyFrags es ∧ Flushed es ∧ ¬ AnyFailed es ∧
          ¬ SizeMismatch expectedSize es) := by
  rcases receiveFirmware_cases p url expectedSize w with
    ⟨es, hops, hneg, honly, hfailed⟩ | ⟨es, w1, hops1, hnet, hget, hclean, hact1, hdown1, heq⟩
  · exact ⟨es, hops, honly.mono (by simp), Or.inl ⟨hneg, Or.inl hfailed⟩⟩
  obtain ⟨fs, hops2, honly2, hget2, hfail2, hok2⟩ := firmwareRequest_spec p hp url w1
  rw [heq]
  have hverdict := firmwareVerdict_ret expectedSize (firmwareRequest p url w1)
  have hops := firmwareVerdict_ops expectedSize (firmwareRequest p url w1)
  rw [hops2, hops1, List.append_assoc, List.append_assoc] at hops
  have honly : Only [.net, .flash, .stream] (es ++ (fs ++ [.flashClose])) :=
    (hnet.mono (by simp)).append
      ((honly2.mono (by simp)).append (by simp [Only, OtaOp.kind]))
  refine ⟨es ++ (fs ++ [.flashClose]), hops, honly, ?_⟩
  have hfrags : bodyFrags (es ++ (fs ++ [.flashClose])) = bodyFrags fs := by
    simp [bodyFrags_of_without (hnet.without (k := .stream) (by decide)), OtaOp.bodyFrag?]
  -- the counter is the number of bytes received, where the stream is intact
  have hmismatch : (firmwareRequest p url w1).2.firmwareDownloaded
        = .ofNat (bodyFrags fs).flatten.length →
      (0 < expectedSize ∧
          (firmwareRequest p url w1).2.firmwareDownloaded ≠ .ofNat expectedSize.toNat ↔
        SizeMismatch expectedSize (es ++ (fs ++ [.flashClose]))) := by
    intro hsize
    rw [SizeMismatch, hfrags, hsize]
  by_cases hret : (firmwareRequest p url w1).1 < 0
  · rcases hverdict with ⟨hneg, _⟩ | ⟨_, hdone, _⟩
    · exact Or.inl ⟨hneg, Or.inl (by simp [hfail2 hret])⟩
    · exact absurd hret hdone
  obtain ⟨hbroken, hstored⟩ := hok2 hact1 hret
  cases ha : (firmwareRequest p url w1).2.streamActive with
  | false =>
    rcases hverdict with ⟨hneg, _⟩ | ⟨_, _, hintact, _⟩
    · exact Or.inl ⟨hneg, Or.inl (by simp [hbroken ha])⟩
    · exact absurd (ha.symm.trans hintact) Bool.false_ne_true
  | true =>
    obtain ⟨hst, hflush, hclean2, hsize⟩ := hstored ha
    rw [hdown1, UInt32.zero_add] at hsize
    rcases hverdict with ⟨hneg, hwhy⟩ | ⟨hzero, _, _, hfits⟩
    · have hwrong := (hwhy.resolve_left hret).resolve_left (by simp [ha])
      exact Or.inl ⟨hneg, Or.inr ((hmismatch hsize).mp hwrong)⟩
    · refine Or.inr ⟨hzero, ?_, ?_, ?_, ?_, mt (hmismatch hsize).mpr hfits⟩
      · simp [hget, hget2, OtaOp.get?]
      · rw [hfrags, ← hst]
        simp [stored_of_without (hnet.without (k := .stream) (by decide)), OtaOp.stored?]
      · exact (hflush.append (by simp [OtaOp.kind])).after es
      · simp [OtaOp.Failed, hclean, hclean2]

/-- A download that failed: an operation failed, the URL is not an absolute
path, or the size is not what the manifest says. -/
structure DownloadFailed (url : List Char) (expectedSize : Int) (es : OtaLog) : Prop where
  only : Only [.net, .flash, .stream] es
  why : AnyFailed es ∨ url.head? ≠ some '/' ∨ SizeMismatch expectedSize es

/-- A download that succeeded. -/
structure Downloaded (url : List Char) (expectedSize : Int) (es : OtaLog) : Prop where
  only : Only [.net, .flash, .stream] es
  absolute : url.head? = some '/'
  erased : Erased es
  stored : stored es = bodyFrags es
  flushed : Flushed es
  clean : ¬ AnyFailed es
  size : ¬ SizeMismatch expectedSize es

/-- The operations on slot1 in front of the request. -/
def slotLog (openRet eraseRet initRet : Int) : OtaLog :=
  [.flashOpen openRet, .flashErase eraseRet, .streamInit initRet]

/-- A download of an absolute path either fails on slot1, or goes on to the
request with slot1 erased and the stream initialised. -/
theorem downloadFirmware_cases (p : Platform) {url : List Char} (hurl : url.head? = some '/')
    (expectedSize : Int) (w : OtaWorld) :
    (∃ es, (downloadFirmware p (some url) expectedSize w).2.ops = w.ops ++ es ∧
      (downloadFirmware p (some url) expectedSize w).1 < 0 ∧
      Only [.net, .flash, .stream] es ∧ AnyFailed es) ∨
    ∃ openRet eraseRet initRet w', 0 ≤ openRet ∧ 0 ≤ eraseRet ∧ 0 ≤ initRet ∧
      w'.ops = w.ops ++ slotLog openRet eraseRet initRet ∧
      downloadFirmware p (some url) expectedSize w = receiveFirmware p url expectedSize w' := by
  unfold downloadFirmware
  simp only [hurl, ne_eq, not_true_eq_false, if_false]
  generalize p.flashOpen w.ops = openRet
  generalize hw1 : w.did (.flashOpen openRet) = w1
  have hops1 : w1.ops = w.ops ++ [.flashOpen openRet] := by rw [← hw1, OtaWorld.did]
  by_cases h1 : openRet < 0
  · simp only [if_pos h1]
    exact Or.inl ⟨_, hops1, h1, by simp [Only, OtaOp.kind], by simp [OtaOp.Failed, h1]⟩
  simp only [if_neg h1]
  generalize p.flashErase w1.ops = eraseRet
  generalize hw2 : w1.did (.flashErase eraseRet) = w2
  have hops2 : w2.ops = w.ops ++ [.flashOpen openRet, .flashErase eraseRet] := by
    rw [← hw2, OtaWorld.did, hops1, List.append_assoc, List.cons_append, List.nil_append]
  by_cases h2 : eraseRet < 0
  · simp only [if_pos h2]
    refine Or.inl ⟨[.flashOpen openRet, .flashErase eraseRet, .flashClose], ?_, h2, ?_, ?_⟩
    · simp only [OtaWorld.did, hops2, List.append_assoc, List.cons_append, List.nil_append]
    · simp [Only, OtaOp.kind]
    · simp [OtaOp.Failed, h2]
  simp only [if_neg h2]
  generalize p.streamInit w2.ops = initRet
  generalize hw3 : w2.did (.streamInit initRet) = w3
  have hops3 : w3.ops = w.ops ++ slotLog openRet eraseRet initRet := by
    rw [← hw3, OtaWorld.did, hops2, List.append_assoc, List.cons_append, List.cons_append,
      List.nil_append]
    rfl
  by_cases h3 : initRet < 0
  · simp only [if_pos h3]
    refine Or.inl ⟨slotLog openRet eraseRet initRet ++ [.flashClose], ?_, h3, ?_, ?_⟩
    · simp only [OtaWorld.did, hops3, List.append_assoc]
    · simp [slotLog, Only, OtaOp.kind]
    · simp [slotLog, OtaOp.Failed, h3]
  simp only [if_neg h3]
  exact Or.inr ⟨openRet, eraseRet, initRet, w3, Int.not_lt.mp h1, Int.not_lt.mp h2,
    Int.not_lt.mp h3, hops3, rfl⟩

theorem downloadFirmware_spec (p : Platform) (hp : p.FinalLast) (url : List Char)
    (expectedSize : Int) (w : OtaWorld) :
    ∃ es, (downloadFirmware p (some url) expectedSize w).2.ops = w.ops ++ es ∧
      ((downloadFirmware p (some url) expectedSize w).1 < 0 ∧ DownloadFailed url expectedSize es ∨
        (downloadFirmware p (some url) expectedSize w).1 = 0 ∧ Downloaded url expectedSize es ∧
          gets es = [url]) := by
  by_cases hurl : url.head? = some '/'
  · rcases downloadFirmware_cases p hurl expectedSize w with
      ⟨es, hops, hneg, honly, hfailed⟩ | ⟨openRet, eraseRet, initRet, w', h1, h2, h3, hops, heq⟩
    · exact ⟨es, hops, Or.inl ⟨hneg, honly, Or.inl hfailed⟩⟩
    obtain ⟨es, hes, honly, hret⟩ := receiveFirmware_spec p hp url expectedSize w'
    have honly' : Only [.net, .flash, .stream] (slotLog openRet eraseRet initRet ++ es) :=
      Only.append (by simp [slotLog, Only, OtaOp.kind]) honly
    have hfrags : bodyFrags (slotLog openRet eraseRet initRet ++ es) = bodyFrags es := by
      simp [slotLog, OtaOp.bodyFrag?]
    have hsize : SizeMismatch expectedSize (slotLog openRet eraseRet initRet ++ es) ↔
        SizeMismatch expectedSize es := by rw [SizeMismatch, SizeMismatch, hfrags]
    rw [heq]
    refine ⟨slotLog openRet eraseRet initRet ++ es, ?_, ?_⟩
    · rw [hes, hops, List.append_assoc]
    rcases hret with ⟨hneg, hwhy⟩ | ⟨hzero, hget, hst, hflush, hclean, hfits⟩
    · refine Or.inl ⟨hneg, honly', ?_⟩
      rcases hwhy with hwhy | hwhy
      · exact Or.inl ((anyFailed_append _ _).mpr (Or.inr hwhy))
      · exact Or.inr (Or.inr (hsize.mpr hwhy))
    · refine Or.inr ⟨hzero, ⟨honly', hurl, ?_, ?_, ?_, ?_, ?_⟩, ?_⟩
      · exact ⟨[.flashOpen openRet], eraseRet, .streamInit initRet :: es, rfl, h2, by
          simp [OtaOp.kind]⟩
      · rw [hfrags, ← hst]
        simp [slotLog, OtaOp.stored?]
      · exact hflush.after _
      · simp [slotLog, OtaOp.Failed, Int.not_lt.mpr h1, Int.not_lt.mpr h2, Int.not_lt.mpr h3,
          hclean]
      · exact fun h => hfits (hsize.mp h)
      · simp [slotLog, hget, OtaOp.get?]
  · unfold downloadFirmware
    dsimp only
    refine ⟨[], ?_, Or.inl ⟨?_, fun e he => absurd he (List.not_mem_nil), Or.inr (Or.inl hurl)⟩⟩
    · simp only [ne_eq, hurl, not_false_eq_true, if_true, List.append_nil]
    · simp only [ne_eq, hurl, not_false_eq_true, if_true, EPROTO]
      decide

end Ceell.Ota
