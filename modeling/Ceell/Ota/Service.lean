/-
Ceell.Ota.Service — `ceell_ota_service_handler`, the service by which other
nodes ask about updates, and `ceell_ota_state_str` of
`ceell/ota/ota_state.c`.

The replies are texts. `stateStr_injective` says that a state can be read
off its text; that a version can is in `VersionText`.
-/
import Ceell.Osal.JsonEscape
import Ceell.Ota.State
import Ceell.Ota.VersionText

namespace Ceell.Ota

open Ceell.Lib Ceell.Osal

/-- `ceell_ota_state_str`; the enumeration has no other values. -/
def ceellOtaStateStr : OtaState → List Char
  | .idle => "idle".toList
  | .checking => "checking".toList
  | .downloading => "downloading".toList
  | .validating => "validating".toList
  | .marking => "marking".toList
  | .rebooting => "rebooting".toList
  | .error => "error".toList

/-- `snprintf` of a text: what does not fit is left out, and a NUL is put
behind the rest. -/
def snprintf {n : Nat} (buf : CharBuf n) (text : List Char) : CharBuf n :=
  buf.memcpy 0 (text.take (n - 1) ++ [nul])

/-- What the handler leaves: the buffer, the value it returns, and whether it
has called `ceell_ota_trigger_check`. -/
structure OtaServiceReply (n : Nat) where
  rspPayload : CharBuf n
  ret : Int
  triggered : Bool

/-- `ceell_ota_service_handler`, where `ceell_ota_get_state` and
`ceell_ota_ver_current` give these. -/
def ceellOtaServiceHandler {n : Nat} (state : OtaState) (current : OtaVer) (payload : List Char)
    (rspPayload : CharBuf n) : OtaServiceReply n :=
  if cstr payload = "status".toList then
    ⟨snprintf rspPayload (ceellOtaStateStr state), 0, false⟩
  else if cstr payload = "version".toList then
    ⟨(ceellOtaVerToStr current rspPayload).1, 0, false⟩
  else if cstr payload = "check".toList then
    ⟨snprintf rspPayload "triggered".toList, 0, true⟩
  else ⟨snprintf rspPayload "unknown command".toList, -EINVAL, false⟩

/-- The text of its reply. -/
def otaReplyText (state : OtaState) (current : OtaVer) (payload : List Char) : List Char :=
  if cstr payload = "status".toList then ceellOtaStateStr state
  else if cstr payload = "version".toList then verText current
  else if cstr payload = "check".toList then "triggered".toList
  else "unknown command".toList

/-! ## The replies -/

section Reply

variable {n : Nat} {state : OtaState} {current : OtaVer} {payload : List Char}

theorem stateStr_injective : Function.Injective ceellOtaStateStr := by
  intro a b h
  cases a <;> cases b <;> first | rfl | exact absurd h (by decide)

theorem nul_notMem_otaReplyText : nul ∉ otaReplyText state current payload := by
  unfold otaReplyText
  split
  · cases state <;> decide
  · split
    · exact nul_notMem_verText current
    · split <;> decide

theorem escapeAs_verChar {c : Char} (h : verChar c = true) : escapeAs c = none := by
  unfold escapeAs
  split_ifs with hc hc hc hc hc hc hc
  all_goals first
    | rfl
    | subst hc
      exact absurd h (by decide)

/-- No reply needs an escape. -/
theorem clear_otaReplyText : jsonEscape.Clear (otaReplyText state current payload) := by
  unfold otaReplyText
  split
  · cases state <;> decide
  · split
    · exact fun c hc => escapeAs_verChar ((isVersion_verText current).chars.1 c hc)
    · split <;> decide

theorem length_otaReplyText_le : (otaReplyText state current payload).length ≤ 15 := by
  unfold otaReplyText
  split
  · cases state <;> decide
  · split
    · have := length_verText_le current
      omega
    · split <;> decide

/-- Every reply is printed, over whatever the buffer held. -/
theorem rspPayload_otaServiceHandler (buf : CharBuf n) :
    (ceellOtaServiceHandler state current payload buf).rspPayload
      = snprintf buf (otaReplyText state current payload) := by
  unfold ceellOtaServiceHandler otaReplyText
  split
  · rfl
  · split
    · rfl
    · split <;> rfl

theorem str_snprintf (buf : CharBuf n) {text : List Char} (h : nul ∉ text)
    (hlen : text.length < n) : (snprintf buf text).Terminated ∧ (snprintf buf text).str = text := by
  have hroom : ([] : List Char).length + (text ++ [nul]).length ≤ n := by
    simp only [List.length_nil, List.length_append, List.length_singleton]
    omega
  have hwritten := (CharBuf.writtenOver_nil buf).memcpy (text ++ [nul]) hroom
  rw [snprintf, List.take_of_length_le (by omega)]
  exact hwritten.terminated_str h

/-- **The reply** is whole in a buffer of 16 bytes. -/
theorem str_otaServiceHandler (hn : 16 ≤ n) (buf : CharBuf n) :
    (ceellOtaServiceHandler state current payload buf).rspPayload.Terminated ∧
      (ceellOtaServiceHandler state current payload buf).rspPayload.str
        = otaReplyText state current payload := by
  rw [rspPayload_otaServiceHandler]
  have hlen : (otaReplyText state current payload).length ≤ 15 := length_otaReplyText_le
  exact str_snprintf buf nul_notMem_otaReplyText (by omega)

theorem ret_otaServiceHandler (buf : CharBuf n) :
    (ceellOtaServiceHandler state current payload buf).ret = 0 ∨
      (ceellOtaServiceHandler state current payload buf).ret = -EINVAL := by
  unfold ceellOtaServiceHandler
  split
  · exact Or.inl rfl
  · split
    · exact Or.inl rfl
    · split
      · exact Or.inl rfl
      · exact Or.inr rfl

/-- A printed version parses to the version. -/
theorem parse_verText (ver out : OtaVer) :
    ceellOtaVerParse (some (verText ver)) out = (0, ver) := by
  obtain ⟨t, ht, hrange, _, hver⟩ := (isVersion_verText ver).strict
  have hstr : cstr (verText ver) = t.text := by rw [cstr_eq_self (nul_notMem_verText ver), ht]
  rw [ceellOtaVerParse_text hstr hrange, hver]

/-- It triggers a check for `check` only. -/
theorem triggered_otaServiceHandler (buf : CharBuf n) :
    (ceellOtaServiceHandler state current payload buf).triggered = true ↔
      cstr payload = "check".toList := by
  unfold ceellOtaServiceHandler
  split
  · rename_i hstatus
    exact iff_of_false Bool.false_ne_true (hstatus ▸ by decide)
  · split
    · rename_i _ hversion
      exact iff_of_false Bool.false_ne_true (hversion ▸ by decide)
    · split
      · rename_i hcheck
        exact iff_of_true rfl hcheck
      · rename_i hcheck
        exact iff_of_false Bool.false_ne_true hcheck

end Reply

end Ceell.Ota
