/-
Ceell.Ota.Client — `ceell/ota/ota_client.c`: one update cycle, with the
globals it works on and every operation outside the file it performs.

* `OtaOp` — an operation and what it answered. `OtaWorld.ops` lists those
  performed since the node booted, the oldest first.
* `Platform` — the answers. Each may depend on all that happened before,
  so a platform resolves every choice of the network, the flash and the
  boot loader; what a server sends is the list of body fragments the HTTP
  client hands to the callback.
* `otaCheckAndUpdate` — the cycle of `ota_check_and_update`. It returns,
  or the node reboots, or the cycle runs into undefined behaviour: a
  manifest without `url` gives `strncpy` a NULL pointer, and that fault is
  an outcome of its own.
* `otaMachine` — cycle after cycle, each against a platform of its own; a
  node that rebooted starts over with its globals as the image has them.
-/
import Ceell.Core.Types
import Ceell.Lib.Machine
import Ceell.Osal.Json
import Ceell.Ota.State
import Ceell.Ota.Version

namespace Ceell.Ota

open Ceell.Lib Ceell.Osal

/-! ## Operations -/

/-- `struct ota_manifest`; an absent string is NULL. -/
structure OtaManifest where
  version : Option (List Char) := none
  url : Option (List Char) := none
  sha256 : Option (List Char) := none
  size : Int := 0
  deriving DecidableEq

/-- An operation the update performs and its answer. -/
inductive OtaOp where
  | setState (state : OtaState)
  | inetPton (ret : Int)
  | socket (ret : Int)
  | connect (ret : Int)
  | close
  | httpGet (url : List Char) -- the request goes out
  | httpDone (ret : Int) -- ceell_http_client_req returns
  | jsonParse (text : List Char) (ret : Int) (manifest : OtaManifest)
  | flashOpen (ret : Int)
  | flashErase (ret : Int)
  | flashClose
  | streamInit (ret : Int)
  | firmwareCb (bodyFrag : List UInt8) (final : Bool) -- the HTTP client calls firmware_cb
  | streamWrite (data : List UInt8) (ret : Int)
  | streamFlush (ret : Int)
  | bootIsConfirmed (ret : Bool)
  | bootConfirm (ret : Int)
  | requestUpgrade (ret : Int)
  | sysReboot
  deriving DecidableEq

/-- The operation reports a failure. `inet_pton` answers 1 or has failed;
every other operation that can fail answers with a negative value. -/
def OtaOp.Failed : OtaOp → Prop
  | .inetPton ret => ret ≠ 1
  | .socket ret | .connect ret | .httpDone ret | .jsonParse _ ret _ | .flashOpen ret
  | .flashErase ret | .streamInit ret | .streamWrite _ ret | .streamFlush ret
  | .bootConfirm ret | .requestUpgrade ret => ret < 0
  | .setState _ | .close | .httpGet _ | .flashClose | .firmwareCb _ _ | .bootIsConfirmed _
  | .sysReboot => False

instance (op : OtaOp) : Decidable op.Failed := by
  cases op <;> unfold OtaOp.Failed <;> infer_instance

abbrev OtaLog := List OtaOp

/-- One call of a response callback: `rsp->body_frag_start` with its
length, and whether `final_data` is `CEELL_HTTP_DATA_FINAL`. The bytes are
characters where the body is read as text. -/
structure HttpCall (β : Type) where
  bodyFrag : List β
  final : Bool

/-- What `ceell_http_client_req` does: the calls it makes and its result. -/
structure HttpResult (β : Type) where
  calls : List (HttpCall β)
  ret : Int

/-- The answers to the operations of a cycle. -/
structure Platform where
  inetPton : OtaLog → Int
  socket : OtaLog → Int
  connect : OtaLog → Int
  errno : OtaLog → Errno
  httpManifest : OtaLog → HttpResult Char
  httpFirmware : OtaLog → HttpResult UInt8
  flashOpen : OtaLog → Int
  flashErase : OtaLog → Int
  streamInit : OtaLog → Int
  streamWrite : OtaLog → Int
  bootIsConfirmed : OtaLog → Bool
  bootConfirm : OtaLog → Int
  requestUpgrade : OtaLog → Int

/-- A firmware request that succeeded has ended in a callback with
`CEELL_HTTP_DATA_FINAL`. -/
def Platform.FinalLast (p : Platform) : Prop :=
  ∀ log, 0 ≤ (p.httpFirmware log).ret →
    ∃ calls last, (p.httpFirmware log).calls = calls ++ [last] ∧ last.final = true

/-! ## Globals -/

/-- `sizeof(manifest_buf)`. -/
def manifestBufSize : Nat := 512

/-- The globals of the file and of `ota_state.c`, with their values at
boot, and what has happened since. -/
structure OtaWorld where
  state : OtaState := .idle
  streamActive : Bool := false
  firmwareDownloaded : SizeT := 0
  manifestBuf : CharBuf manifestBufSize := .zero manifestBufSize
  manifestLen : SizeT := 0
  manifestTruncated : Bool := false
  ops : OtaLog := []

/-- The operation is performed. -/
def OtaWorld.did (w : OtaWorld) (op : OtaOp) : OtaWorld := { w with ops := w.ops ++ [op] }

/-- `ceell_ota_set_state`. -/
def ceellOtaSetState (state : OtaState) (w : OtaWorld) : OtaWorld :=
  { w.did (.setState state) with state := state }

/-- The build's constants: the running version and
`CONFIG_CEELL_OTA_MANIFEST_PATH`. -/
structure OtaConfig where
  current : OtaVer
  manifestPath : List Char

/-! ## The manifest -/

/-- `connect_to_server`. -/
def connectToServer (p : Platform) (w : OtaWorld) : Int × OtaWorld :=
  let ret := p.inetPton w.ops
  let w := w.did (.inetPton ret)
  if ret ≠ 1 then (-EINVAL, w)
  else
    let sock := p.socket w.ops
    let w := w.did (.socket sock)
    if sock < 0 then (-(p.errno w.ops).val, w)
    else
      let ret := p.connect w.ops
      let w := w.did (.connect ret)
      if ret < 0 then
        let w := w.did .close
        (-(p.errno w.ops).val, w)
      else (sock, w)

/-- `manifest_cb`. -/
def manifestCb (w : OtaWorld) (rsp : HttpCall Char) : OtaWorld :=
  if rsp.bodyFrag.length > 0 && !w.manifestTruncated then
    let available : SizeT := .ofNat manifestBufSize - 1 - w.manifestLen
    if rsp.bodyFrag.length > available.toNat then { w with manifestTruncated := true }
    else
      { w with
        manifestBuf := w.manifestBuf.memcpy w.manifestLen.toNat rsp.bodyFrag
        manifestLen := w.manifestLen + .ofNat rsp.bodyFrag.length }
  else w

/-- `manifest_descr`. -/
def manifestDescr : List JsonObjDescr :=
  [⟨"version".toList, .string⟩, ⟨"url".toList, .string⟩, ⟨"sha256".toList, .string⟩,
    ⟨"size".toList, .number⟩]

/-- What the parser stores in a zeroed `struct ota_manifest`. -/
def OtaManifest.ofParsed (r : JsonParsed) : OtaManifest where
  version := r.str "version"
  url := r.str "url"
  sha256 := r.str "sha256"
  size := r.num "size"

/-- `fetch_manifest`: its result, the manifest, and the globals. -/
def fetchManifest (cfg : OtaConfig) (lib : JsonLib) (p : Platform) (w : OtaWorld) :
    Int × OtaManifest × OtaWorld :=
  let (sock, w) := connectToServer p w
  if sock < 0 then (sock, {}, w)
  else
    let w := { w with manifestLen := 0, manifestTruncated := false }
    let w := w.did (.httpGet cfg.manifestPath)
    let rsp := p.httpManifest w.ops
    let w := (rsp.calls.foldl manifestCb w).did (.httpDone rsp.ret)
    let w := w.did .close
    if rsp.ret < 0 then (rsp.ret, {}, w)
    else if w.manifestTruncated then (-ENOBUFS, {}, w)
    else
      let w := { w with manifestBuf := w.manifestBuf.memcpy w.manifestLen.toNat [nul] }
      let text := w.manifestBuf.bytes.take w.manifestLen.toNat
      let parsed := lib.parse manifestDescr text
      let manifest := OtaManifest.ofParsed parsed
      -- the parser writes into the text it parses
      let w := { w with manifestBuf := w.manifestBuf.memcpy 0 parsed.buf }
      let w := w.did (.jsonParse text parsed.ret manifest)
      if parsed.ret < 0 then (-EPROTO, manifest, w) else (0, manifest, w)

/-! ## The download -/

/-- The second half of `firmware_cb`: the flush after the last fragment. -/
def firmwareFlush (p : Platform) (final : Bool) (w : OtaWorld) : OtaWorld :=
  if final && w.streamActive then
    let ret := p.streamWrite w.ops
    let w := w.did (.streamFlush ret)
    if ret < 0 then { w with streamActive := false } else w
  else w

/-- `firmware_cb`. -/
def firmwareCb (p : Platform) (w : OtaWorld) (rsp : HttpCall UInt8) : OtaWorld :=
  let w := w.did (.firmwareCb rsp.bodyFrag rsp.final)
  if rsp.bodyFrag.length > 0 && w.streamActive then
    let ret := p.streamWrite w.ops
    let w := w.did (.streamWrite rsp.bodyFrag ret)
    if ret < 0 then { w with streamActive := false }
    else
      firmwareFlush p rsp.final
        { w with firmwareDownloaded := w.firmwareDownloaded + .ofNat rsp.bodyFrag.length }
  else firmwareFlush p rsp.final w

/-- The request of `download_firmware`: its result, and the globals once
the socket is closed. -/
def firmwareRequest (p : Platform) (url : List Char) (w : OtaWorld) : Int × OtaWorld :=
  let w := w.did (.httpGet url)
  let rsp := p.httpFirmware w.ops
  let w := (rsp.calls.foldl (firmwareCb p) w).did (.httpDone rsp.ret)
  let w := w.did .close
  -- always attempt a flush if the stream was active
  if w.streamActive && rsp.ret < 0 then (rsp.ret, w.did (.streamFlush (p.streamWrite w.ops)))
  else (rsp.ret, w)

/-- The part of `download_firmware` after the stream is initialised. -/
def receiveFirmware (p : Platform) (url : List Char) (expectedSize : Int) (w : OtaWorld) :
    Int × OtaWorld :=
  let w := { w with streamActive := true, firmwareDownloaded := 0 }
  let (sock, w) := connectToServer p w
  if sock < 0 then (sock, w.did .flashClose)
  else
    let (ret, w) := firmwareRequest p url w
    let w := w.did .flashClose
    if ret < 0 || !w.streamActive then (if ret < 0 then ret else - EIO, w)
    else if expectedSize > 0 && w.firmwareDownloaded ≠ .ofNat expectedSize.toNat then (-EMSGSIZE, w)
    else (0, w)

/-- `download_firmware`; `none` is NULL. -/
def downloadFirmware (p : Platform) (url : Option (List Char)) (expectedSize : Int)
    (w : OtaWorld) : Int × OtaWorld :=
  match url with
  | none => (-EPROTO, w)
  | some url =>
      if url.head? ≠ some '/' then (-EPROTO, w)
      else
        let ret := p.flashOpen w.ops
        let w := w.did (.flashOpen ret)
        if ret < 0 then (ret, w)
        else
          let ret := p.flashErase w.ops
          let w := w.did (.flashErase ret)
          if ret < 0 then (ret, w.did .flashClose)
          else
            let ret := p.streamInit w.ops
            let w := w.did (.streamInit ret)
            if ret < 0 then (ret, w.did .flashClose)
            else receiveFirmware p url expectedSize w

/-! ## The cycle -/

/-- How a cycle ends. -/
inductive Outcome where
  | returned (ret : Int)
  | rebooted
  | fault -- undefined behaviour
  deriving DecidableEq

/-- `fw_url`: the manifest's URL, cut to the local array. -/
def fwUrl (url : List Char) : List Char := ((CharBuf.zero 128).copy url).terminate.str

/-- Confirm the running image unless it is confirmed. -/
def confirmImage (p : Platform) (w : OtaWorld) : Int × OtaWorld :=
  let confirmed := p.bootIsConfirmed w.ops
  let w := w.did (.bootIsConfirmed confirmed)
  if !confirmed then
    let ret := p.bootConfirm w.ops
    (ret, w.did (.bootConfirm ret))
  else (0, w)

/-- `ota_check_and_update` after the manifest announced a newer version. -/
def installUpdate (p : Platform) (manifest : OtaManifest) (w : OtaWorld) : Outcome × OtaWorld :=
  match manifest.url with
  | none => (.fault, w)
  | some url =>
      let w := ceellOtaSetState .downloading w
      let (ret, w) := downloadFirmware p (some (fwUrl url)) manifest.size w
      if ret < 0 then (.returned ret, ceellOtaSetState .error w)
      else
        let w := ceellOtaSetState .validating w
        let (ret, w) := confirmImage p w
        if ret < 0 then (.returned ret, ceellOtaSetState .error w)
        else
          let w := ceellOtaSetState .marking w
          let ret := p.requestUpgrade w.ops
          let w := w.did (.requestUpgrade ret)
          if ret < 0 then (.returned ret, ceellOtaSetState .error w)
          else (.rebooted, (ceellOtaSetState .rebooting w).did .sysReboot)

/-- `ota_check_and_update`. -/
def otaCheckAndUpdate (cfg : OtaConfig) (lib : JsonLib) (p : Platform) (w : OtaWorld) :
    Outcome × OtaWorld :=
  let w := ceellOtaSetState .checking w
  let (ret, manifest, w) := fetchManifest cfg lib p w
  if ret < 0 then (.returned ret, ceellOtaSetState .idle w)
  else
    let (ret, remote) := ceellOtaVerParse manifest.version ⟨0, 0, 0⟩
    if ret < 0 then (.returned ret, ceellOtaSetState .idle w)
    else if ceellOtaVerCmp remote cfg.current ≤ 0 then (.returned 0, ceellOtaSetState .idle w)
    else installUpdate p manifest w

/-- A completed cycle: the globals after it, those of a fresh boot if the
node rebooted. -/
def otaStep (cfg : OtaConfig) (lib : JsonLib) (w : OtaWorld) (p : Platform) : Option OtaWorld :=
  match otaCheckAndUpdate cfg lib p w with
  | (.returned _, w) => some w
  | (.rebooted, _) => some {}
  | (.fault, _) => none

/-- Cycle after cycle. -/
def otaMachine (cfg : OtaConfig) (lib : JsonLib) : Machine OtaWorld Platform where
  init := {}
  step := otaStep cfg lib

end Ceell.Ota
