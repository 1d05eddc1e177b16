/-
Ceell.Ota.Answers — the answers in a cycle's log are the platform's.

`Answered` reads a log from its front: each operation has the answer that
the platform gives after all that was performed before it, and behind a
request that went out stand the calls the HTTP client makes and its result.
Every part of the cycle appends such a log (`Ran`), and such logs compose.
-/
import Ceell.Ota.Download

namespace Ceell.Ota

open Ceell.Lib Ceell.Osal

/-! ## Answers -/

def OtaOp.call? : OtaOp → Option (HttpCall UInt8)
  | .firmwareCb bodyFrag final => some ⟨bodyFrag, final⟩
  | _ => none

/-- The calls of `firmware_cb`. -/
def calls (es : OtaLog) : List (HttpCall UInt8) := es.filterMap OtaOp.call?

@[simp] theorem calls_nil : calls [] = [] := rfl

@[simp] theorem calls_append (es fs : OtaLog) : calls (es ++ fs) = calls es ++ calls fs :=
  List.filterMap_append

@[simp] theorem calls_cons (e : OtaOp) (es : OtaLog) :
    calls (e :: es) = e.call?.toList ++ calls es := by
  cases h : e.call? <;> simp [calls, h]

/-- What follows a request that went out: the calls of the HTTP client, what
they do, and its result. -/
def Responded (cs : List (HttpCall UInt8)) (ret : Int) (rest : OtaLog) : Prop :=
  ∃ during after, rest = during ++ .httpDone ret :: after ∧ Only [.stream] during ∧
    calls during = cs

/-- The answer to an operation performed after `log` and before `rest`. The
state says which of the two requests goes out; `manifest_cb` leaves no
operation behind. -/
def OtaOp.AnsweredBy (lib : JsonLib) (p : Platform) (log rest : OtaLog) : OtaOp → Prop
  | .inetPton ret => ret = p.inetPton log
  | .socket ret => ret = p.socket log
  | .connect ret => ret = p.connect log
  | .httpGet url =>
      if (states log).getLast? = some .checking then
        Responded [] (p.httpManifest (log ++ [.httpGet url])).ret rest
      else
        Responded (p.httpFirmware (log ++ [.httpGet url])).calls
          (p.httpFirmware (log ++ [.httpGet url])).ret rest
  | .jsonParse text ret manifest =>
      ret = (lib.parse manifestDescr text).ret ∧
        manifest = .ofParsed (lib.parse manifestDescr text)
  | .flashOpen ret => ret = p.flashOpen log
  | .flashErase ret => ret = p.flashErase log
  | .streamInit ret => ret = p.streamInit log
  | .streamWrite _ ret | .streamFlush ret => ret = p.streamWrite log
  | .bootIsConfirmed ret => ret = p.bootIsConfirmed log
  | .bootConfirm ret => ret = p.bootConfirm log
  | .requestUpgrade ret => ret = p.requestUpgrade log
  | .setState _ | .close | .httpDone _ | .flashClose | .firmwareCb _ _ | .sysReboot => True

/-- Every operation of `es`, performed after `log`, has the platform's
answer. -/
def Answered (lib : JsonLib) (p : Platform) : OtaLog → OtaLog → Prop
  | _, [] => True
  | log, e :: es => e.AnsweredBy lib p log es ∧ Answered lib p (log ++ [e]) es

section Logs

variable {lib : JsonLib} {p : Platform} {log es fs : OtaLog} {e : OtaOp}

theorem Responded.append {cs ret rest} (h : Responded cs ret rest) (fs : OtaLog) :
    Responded cs ret (rest ++ fs) := by
  obtain ⟨during, after, rfl, honly, hcalls⟩ := h
  exact ⟨during, after ++ fs, by rw [List.append_assoc, List.cons_append], honly, hcalls⟩

theorem answeredBy_manifest {url : List Char} (hstate : (states log).getLast? = some .checking) :
    (OtaOp.httpGet url).AnsweredBy lib p log es ↔
      Responded [] (p.httpManifest (log ++ [.httpGet url])).ret es :=
  iff_of_eq (if_pos hstate)

theorem answeredBy_firmware {url : List Char} (hstate : (states log).getLast? ≠ some .checking) :
    (OtaOp.httpGet url).AnsweredBy lib p log es ↔
      Responded (p.httpFirmware (log ++ [.httpGet url])).calls
        (p.httpFirmware (log ++ [.httpGet url])).ret es :=
  iff_of_eq (if_neg hstate)

/-- What comes later does not touch an answer. -/
theorem OtaOp.AnsweredBy.append (h : e.AnsweredBy lib p log es) (fs : OtaLog) :
    e.AnsweredBy lib p log (es ++ fs) := by
  cases e with
  | httpGet url =>
    by_cases hstate : (states log).getLast? = some .checking
    · rw [answeredBy_manifest hstate] at h ⊢
      exact h.append fs
    · rw [answeredBy_firmware hstate] at h ⊢
      exact h.append fs
  | _ => exact h

theorem answered_append (h1 : Answered lib p log es) (h2 : Answered lib p (log ++ es) fs) :
    Answered lib p log (es ++ fs) := by
  induction es generalizing log with
  | nil => simpa using h2
  | cons e es ih =>
    obtain ⟨he, hes⟩ := h1
    exact ⟨he.append fs, ih hes (by simpa using h2)⟩

end Logs

/-- From `w` to `w'` the operations `es` were performed, each with the
platform's answer. -/
structure Ran (lib : JsonLib) (p : Platform) (w w' : OtaWorld) (es : OtaLog) : Prop where
  ops_eq : w'.ops = w.ops ++ es
  answered : Answered lib p w.ops es

section Parts

variable {lib : JsonLib} {p : Platform} {w w' w'' : OtaWorld} {es fs : OtaLog} {e : OtaOp}

theorem Ran.nothing (h : w'.ops = w.ops) : Ran lib p w w' [] where
  ops_eq := by rw [h, List.append_nil]
  answered := trivial

theorem Ran.trans (h1 : Ran lib p w w' es) (h2 : Ran lib p w' w'' fs) :
    Ran lib p w w'' (es ++ fs) where
  ops_eq := by rw [h2.ops_eq, h1.ops_eq, List.append_assoc]
  answered := answered_append h1.answered (h1.ops_eq ▸ h2.answered)

/-- One more operation. -/
theorem Ran.did (h : Ran lib p w w' es) (he : e.AnsweredBy lib p w'.ops []) :
    Ran lib p w (w'.did e) (es ++ [e]) :=
  h.trans ⟨rfl, he, trivial⟩

/-- A change to the globals alone. -/
theorem Ran.set (h : Ran lib p w w' es) (hops : w''.ops = w'.ops) : Ran lib p w w'' es where
  ops_eq := by rw [hops, h.ops_eq]
  answered := h.answered

/-! ## The network -/

theorem connectToServer_ran (lib : JsonLib) (p : Platform) (w : OtaWorld) :
    ∃ es, Ran lib p w (connectToServer p w).2 es := by
  unfold connectToServer
  have h1 : Ran lib p w (w.did (.inetPton (p.inetPton w.ops))) _ := (Ran.nothing rfl).did rfl
  have h2 := h1.did (e := .socket (p.socket _)) rfl
  have h3 := h2.did (e := .connect (p.connect _)) rfl
  dsimp only
  split
  · exact ⟨_, h1⟩
  split
  · exact ⟨_, h2⟩
  split
  · exact ⟨_, h3.did trivial⟩
  · exact ⟨_, h3⟩

/-- Connecting sets no state. -/
theorem states_connectToServer (p : Platform) (w : OtaWorld) :
    states (connectToServer p w).2.ops = states w.ops := by
  obtain ⟨es, hw, hnet, _⟩ := connectToServer_spec p w
  rw [hw]
  simp [states_of_without (hnet.without (k := .state) (by decide))]

theorem fetchManifest_ran (cfg : OtaConfig) (lib : JsonLib) (p : Platform) {w : OtaWorld}
    (hstate : (states w.ops).getLast? = some .checking) :
    ∃ es, Ran lib p w (fetchManifest cfg lib p w).2.2 es := by
  obtain ⟨es, hconnect⟩ := connectToServer_ran lib p w
  rcases fetchManifest_cases cfg lib p w with ⟨_, _, heq⟩ | ⟨start, rsp, hstart, hrsp, hend⟩
  · exact ⟨es, heq ▸ hconnect⟩
  have hops : start.ops = (connectToServer p w).2.ops ++ [.httpGet cfg.manifestPath] := by
    unfold manifestRequest at hstart
    split at hstart
    rename_i sock w1 hc
    split at hstart
    · cases hstart
    · rw [hc, ← Option.some.inj hstart]
      rfl
  have hrequest : Ran lib p w (manifestAnswered start rsp)
      (es ++ [.httpGet cfg.manifestPath, .httpDone rsp.ret, .close]) := by
    refine hconnect.trans ⟨?_, ?_, trivial, trivial, trivial⟩
    · rw [manifestAnswered_ops, hops, List.append_assoc]
      rfl
    · rw [answeredBy_manifest (by rw [states_connectToServer]; exact hstate), ← hops, hrsp]
      exact ⟨[], [.close], rfl, List.forall_mem_nil _, rfl⟩
  generalize manifestAnswered start rsp = w2 at hrequest hend
  generalize fetchManifest cfg lib p w = r at hend ⊢
  cases hend with
  | requestFailed hret => exact ⟨_, hrequest⟩
  | tooLong hret htrunc => exact ⟨_, hrequest⟩
  | @parsed text parsed buf hret htrunc htext hparsed =>
    have hbuf : Ran lib p w { w2 with manifestBuf := buf } _ := hrequest.set rfl
    exact ⟨_, hbuf.did ⟨by rw [hparsed], by rw [hparsed]⟩⟩

/-! ## The firmware -/

/-- A flush is no call. -/
theorem Ran.flush (h : Ran lib p w w' es) (final : Bool) (hops : w''.ops = w'.ops) :
    ∃ fs, Ran lib p w (firmwareFlush p final w'') fs ∧ calls fs = calls es := by
  unfold firmwareFlush
  split
  · have hflush := (h.set hops).did (e := .streamFlush (p.streamWrite w''.ops)) rfl
    dsimp only
    split
    · exact ⟨_, hflush.set rfl, by simp [OtaOp.call?]⟩
    · exact ⟨_, hflush, by simp [OtaOp.call?]⟩
  · exact ⟨es, h.set hops, rfl⟩

/-- A callback is one call. -/
theorem firmwareCb_ran (lib : JsonLib) (p : Platform) (w : OtaWorld) (rsp : HttpCall UInt8) :
    ∃ es, Ran lib p w (firmwareCb p w rsp) es ∧ calls es = [rsp] := by
  have hcall : Ran lib p w (w.did (.firmwareCb rsp.bodyFrag rsp.final)) _ :=
    (Ran.nothing rfl).did trivial
  have hwrite := hcall.did (e := .streamWrite rsp.bodyFrag (p.streamWrite _)) rfl
  unfold firmwareCb
  dsimp only
  split
  · split
    · exact ⟨_, hwrite.set rfl, rfl⟩
    · exact hwrite.flush rsp.final rfl
  · exact hcall.flush rsp.final rfl

/-- The callbacks of a request are its calls, by induction over them. -/
theorem foldl_firmwareCb_ran (lib : JsonLib) (p : Platform) (cs : List (HttpCall UInt8))
    (w : OtaWorld) : ∃ es, Ran lib p w (cs.foldl (firmwareCb p) w) es ∧ calls es = cs := by
  induction cs generalizing w with
  | nil => exact ⟨[], Ran.nothing rfl, rfl⟩
  | cons rsp cs ih =>
    obtain ⟨es, hone, hcall⟩ := firmwareCb_ran lib p w rsp
    obtain ⟨fs, hrest, hcalls⟩ := ih (firmwareCb p w rsp)
    exact ⟨es ++ fs, hone.trans hrest, by rw [calls_append, hcall, hcalls]; rfl⟩

theorem firmwareRequest_ran (lib : JsonLib) (p : Platform) (url : List Char)
    (hstate : (states w.ops).getLast? ≠ some .checking) :
    ∃ es, Ran lib p w (firmwareRequest p url w).2 es := by
  obtain ⟨es, hbody, hcalls⟩ :=
    foldl_firmwareCb_ran lib p (firmwareResponse p url w).calls (w.did (.httpGet url))
  -- the operations of the callbacks are those of the stream
  obtain ⟨fs, hstreamed⟩ :=
    foldl_firmwareCb_streamed p (firmwareResponse p url w).calls (w.did (.httpGet url))
  obtain rfl : es = fs := List.append_cancel_left (hbody.ops_eq.symm.trans hstreamed.ops_eq)
  have hclosed : Ran lib p w (firmwareClosed p url w)
      (requestLog url es (firmwareResponse p url w).ret) := by
    refine ⟨firmwareClosed_ops hstreamed, ?_⟩
    have hrest : Answered lib p (w.ops ++ [.httpGet url])
        (es ++ [.httpDone (firmwareResponse p url w).ret, .close]) :=
      answered_append hbody.answered ⟨trivial, trivial, trivial⟩
    rw [requestLog, List.append_assoc]
    refine ⟨?_, hrest⟩
    rw [answeredBy_firmware hstate]
    exact ⟨es, [.close], rfl, hstreamed.only, hcalls⟩
  rw [firmwareRequest_eq]
  dsimp only
  split
  · exact ⟨_, hclosed.did (e := .streamFlush (p.streamWrite _)) rfl⟩
  · exact ⟨_, hclosed⟩

theorem receiveFirmware_ran (lib : JsonLib) (p : Platform) (url : List Char) (expectedSize : Int)
    (hstate : (states w.ops).getLast? ≠ some .checking) :
    ∃ es, Ran lib p w (receiveFirmware p url expectedSize w).2 es := by
  unfold receiveFirmware
  dsimp only
  generalize hw0 : ({ w with streamActive := true, firmwareDownloaded := 0 } : OtaWorld) = w0
  have hops0 : w0.ops = w.ops := by rw [← hw0]
  obtain ⟨es, hconnect⟩ := connectToServer_ran lib p w0
  have hstates := states_connectToServer p w0
  rcases hc : connectToServer p w0 with ⟨sock, w1⟩
  rw [hc] at hconnect hstates
  dsimp only at hconnect hstates ⊢
  have hw1 : Ran lib p w w1 _ := (Ran.nothing hops0).trans hconnect
  split
  · exact ⟨_, hw1.did trivial⟩
  obtain ⟨fs, hrequest⟩ :=
    firmwareRequest_ran lib p url (w := w1) (by rw [hstates, hops0]; exact hstate)
  have hend := (hw1.trans hrequest).did (e := .flashClose) trivial
  rcases hr : firmwareRequest p url w1 with ⟨ret, w2⟩
  rw [hr] at hend
  dsimp only at hend ⊢
  split
  · exact ⟨_, hend⟩
  split
  · exact ⟨_, hend⟩
  · exact ⟨_, hend⟩

theorem downloadFirmware_ran (lib : JsonLib) (p : Platform) (url : Option (List Char))
    (expectedSize : Int) (hstate : (states w.ops).getLast? ≠ some .checking) :
    ∃ es, Ran lib p w (downloadFirmware p url expectedSize w).2 es := by
  cases url with
  | none => exact ⟨[], Ran.nothing rfl⟩
  | some url =>
    have hopen : Ran lib p w (w.did (.flashOpen (p.flashOpen w.ops))) _ := (Ran.nothing rfl).did rfl
    have herase := hopen.did (e := .flashErase (p.flashErase _)) rfl
    have hinit := herase.did (e := .streamInit (p.streamInit _)) rfl
    unfold downloadFirmware
    dsimp only
    split
    · exact ⟨[], Ran.nothing rfl⟩
    split
    · exact ⟨_, hopen⟩
    split
    · exact ⟨_, herase.did trivial⟩
    split
    · exact ⟨_, hinit.did trivial⟩
    generalize hw3 : OtaWorld.did _ (.streamInit _) = w3 at hinit ⊢
    have hstate3 : (states w3.ops).getLast? ≠ some .checking := by
      simpa [← hw3, OtaWorld.did, OtaOp.state?] using hstate
    obtain ⟨es, hreceive⟩ := receiveFirmware_ran lib p url expectedSize hstate3
    exact ⟨_, hinit.trans hreceive⟩

/-! ## The cycle -/

theorem confirmImage_ran (lib : JsonLib) (p : Platform) (w : OtaWorld) :
    ∃ es, Ran lib p w (confirmImage p w).2 es := by
  have hasked : Ran lib p w (w.did (.bootIsConfirmed (p.bootIsConfirmed w.ops))) _ :=
    (Ran.nothing rfl).did rfl
  unfold confirmImage
  dsimp only
  split
  · exact ⟨_, hasked.did rfl⟩
  · exact ⟨_, hasked⟩

/-- Setting a state needs no answer. -/
theorem Ran.setState (h : Ran lib p w w' es) (s : OtaState) :
    Ran lib p w (ceellOtaSetState s w') (es ++ [.setState s]) :=
  (h.did (e := .setState s) trivial).set rfl

theorem installUpdate_ran (lib : JsonLib) (p : Platform) (m : OtaManifest) (w : OtaWorld) :
    ∃ es, Ran lib p w (installUpdate p m w).2 es := by
  unfold installUpdate
  cases m.url with
  | none => exact ⟨[], Ran.nothing rfl⟩
  | some url =>
    dsimp only
    have hstart : Ran lib p w (ceellOtaSetState .downloading w) _ := (Ran.nothing rfl).setState _
    obtain ⟨es, hdownload⟩ := downloadFirmware_ran lib p (some (fwUrl url)) m.size
      (w := ceellOtaSetState .downloading w)
      (by simp [ceellOtaSetState, OtaWorld.did, OtaOp.state?])
    have h1 := hstart.trans hdownload
    generalize downloadFirmware p (some (fwUrl url)) m.size (ceellOtaSetState .downloading w) = r
      at h1 ⊢
    obtain ⟨ret1, w1⟩ := r
    dsimp only at h1 ⊢
    split
    · exact ⟨_, h1.setState _⟩
    obtain ⟨fs, hconfirm⟩ := confirmImage_ran lib p (ceellOtaSetState .validating w1)
    have h2 := (h1.setState .validating).trans hconfirm
    generalize confirmImage p (ceellOtaSetState .validating w1) = r at h2 ⊢
    obtain ⟨ret2, w2⟩ := r
    dsimp only at h2 ⊢
    split
    · exact ⟨_, h2.setState _⟩
    have h3 := (h2.setState .marking).did (e := .requestUpgrade (p.requestUpgrade _)) rfl
    split
    · exact ⟨_, h3.setState _⟩
    · exact ⟨_, (h3.setState _).did trivial⟩

/-- **The answers in the log of a cycle are the platform's.** -/
theorem otaCheckAndUpdate_ran (cfg : OtaConfig) (lib : JsonLib) (p : Platform) (w : OtaWorld) :
    ∃ es, Ran lib p w (otaCheckAndUpdate cfg lib p w).2 es := by
  have hstart : Ran lib p w (ceellOtaSetState .checking w) _ := (Ran.nothing rfl).setState _
  obtain ⟨es, hfetch⟩ := fetchManifest_ran cfg lib p (w := ceellOtaSetState .checking w)
    (by simp [ceellOtaSetState, OtaWorld.did, OtaOp.state?])
  unfold otaCheckAndUpdate
  dsimp only
  have h1 := hstart.trans hfetch
  generalize fetchManifest cfg lib p (ceellOtaSetState .checking w) = r at h1 ⊢
  obtain ⟨ret, m, w1⟩ := r
  dsimp only at h1 ⊢
  split
  · exact ⟨_, h1.setState _⟩
  split
  · exact ⟨_, h1.setState _⟩
  split
  · exact ⟨_, h1.setState _⟩
  · obtain ⟨fs, hinstall⟩ := installUpdate_ran lib p m w1
    exact ⟨_, h1.trans hinstall⟩

end Parts

end Ceell.Ota
