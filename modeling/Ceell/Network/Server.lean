/-
Ceell.Network.Server — the receiving side of the messaging pipeline: the
dispatcher thread, the three queues and the three handler threads, under
every schedule.

A label says which thread takes its next step and what the environment
gives it (the datagram received, the world a handler meets). How a
datagram is decoded is a parameter, and so is the type of datagrams.
Each datagram is known by its place in the order of arrival. The state
keeps, next to what the threads hold, the answers each thread has given.

The `line` of a priority is everything ever put in its queue, in order:
what its thread has answered, what it has in hand, what still waits. Only
the dispatcher changes a line, by adding to its end; the steps of the
handler threads leave it as it is. So the conservation law
(`ServerInv.places`) and the order (`ServerInv.order`) are about two
kinds of steps only.
-/
import Ceell.Lib.Machine
import Ceell.Network.Messaging
import Mathlib.Logic.Function.Basic
import Mathlib.Data.List.Perm.Basic

namespace Ceell.Network

open Ceell.Lib Ceell.Core

/-! ## The threads -/

/-- Where the dispatcher stands; its datagram is the `i`-th received. -/
inductive DispPc (δ : Type) where
  | recv -- at `ceell_recvfrom`
  | got (i : Nat) (data : δ) (src : SockAddr)
  | refuse (i : Nat) (a : RspArgs) -- at `send_response`, the queue was full

/-- Where a handler thread stands. -/
inductive HandPc where
  | get -- at `ceell_msgq_get`
  | handle (i : Nat) (item : MsgDispatchItem)
  | respond (i : Nat) (a : RspArgs) -- at one of its `send_response`s

structure ServerState (δ : Type) where
  disp : DispPc δ
  queue : MsgPriority → List (Nat × MsgDispatchItem)
  hand : MsgPriority → HandPc
  /-- the datagrams received, with their source addresses -/
  received : List (δ × SockAddr)
  /-- the `send_response` calls of each handler thread -/
  answered : MsgPriority → List (Nat × RspArgs)
  /-- the `send_response` calls of the dispatcher -/
  refused : List (Nat × RspArgs)
  /-- the datagrams that were no requests -/
  passed : List Nat

inductive ServerAct (δ ν : Type) where
  | recv (data : δ) (src : SockAddr)
  | dispatch
  | refuse
  | get (p : MsgPriority)
  | handle (p : MsgPriority) (w : World ν)
  | respond (p : MsgPriority)

variable {δ ν : Type} (decode : δ → Dispatch) (depth : Nat)

/-- What `msg_dispatcher_fn` does with a datagram. -/
def dispatchStep (s : ServerState δ) (i : Nat) (data : δ) (src : SockAddr) : ServerState δ :=
  match decode data with
  | .request req =>
      let p := msgPriorityOf req.priority
      if (s.queue p).length < depth then
        { s with
          disp := .recv
          queue := Function.update s.queue p (s.queue p ++ [(i, dispatchItem req src)]) }
      else { s with disp := .refuse i (queueFull req src) }
  | .response _ => { s with disp := .recv, passed := s.passed ++ [i] }
  | .ignored => { s with disp := .recv, passed := s.passed ++ [i] }

/-- One step of one thread. -/
def serverStep (s : ServerState δ) : ServerAct δ ν → Option (ServerState δ)
  | .recv data src =>
      match s.disp with
      | .recv =>
          some { s with
            disp := .got s.received.length data src
            received := s.received ++ [(data, src)] }
      | _ => none
  | .dispatch =>
      match s.disp with
      | .got i data src => some (dispatchStep decode depth s i data src)
      | _ => none
  | .refuse =>
      match s.disp with
      | .refuse i a => some { s with disp := .recv, refused := s.refused ++ [(i, a)] }
      | _ => none
  | .get p =>
      match s.hand p, s.queue p with
      | .get, (i, item) :: rest =>
          some { s with
            hand := Function.update s.hand p (.handle i item)
            queue := Function.update s.queue p rest }
      | _, _ => none
  | .handle p w =>
      match s.hand p with
      | .handle i item =>
          some { s with hand := Function.update s.hand p (.respond i (handlerThreadFn w p item)) }
      | _ => none
  | .respond p =>
      match s.hand p with
      | .respond i a =>
          some { s with
            hand := Function.update s.hand p .get
            answered := Function.update s.answered p (s.answered p ++ [(i, a)]) }
      | _ => none

/-- The threads after `ceell_messaging_init`. -/
def serverMachine (ν : Type) : Machine (ServerState δ) (ServerAct δ ν) where
  init := ⟨.recv, fun _ => [], fun _ => .get, [], fun _ => [], [], []⟩
  step := serverStep decode depth

/-! ## Where a datagram is -/

def DispPc.idx : DispPc δ → List Nat
  | .recv => []
  | .got i _ _ => [i]
  | .refuse i _ => [i]

def HandPc.idx : HandPc → List Nat
  | .get => []
  | .handle i _ => [i]
  | .respond i _ => [i]

namespace ServerState

/-- Everything ever put in the queue of a priority, in order: answered, in
hand, waiting. -/
def line (s : ServerState δ) (p : MsgPriority) : List Nat :=
  (s.answered p).map Prod.fst ++ (s.hand p).idx ++ (s.queue p).map Prod.fst

/-- Every place a datagram can be: with the dispatcher, in the line of a
priority, refused, or passed over because it was no request. -/
def places (s : ServerState δ) : List Nat :=
  s.disp.idx ++ MsgPriority.all.flatMap s.line ++ s.refused.map Prod.fst ++ s.passed

end ServerState

/-- The `i`-th datagram was the request `req` from `src`. -/
def IsRequest (received : List (δ × SockAddr)) (i : Nat) (req : MsgReq) (src : SockAddr) : Prop :=
  ∃ data, received[i]? = some (data, src) ∧ decode data = .request req

/-- The same, for a request of priority `p`, and what is to hold of it. -/
def OfLine (received : List (δ × SockAddr)) (p : MsgPriority) (i : Nat)
    (P : MsgReq → SockAddr → Prop) : Prop :=
  ∃ req src, IsRequest decode received i req src ∧ msgPriorityOf req.priority = p ∧ P req src

/-- An answer of a handler thread to a request. -/
def Answers (ν : Type) (a : RspArgs) (req : MsgReq) (src : SockAddr) : Prop :=
  ∃ w : World ν, a = handlerThreadFn w (msgPriorityOf req.priority) (dispatchItem req src)

/-! ## What each step does -/

section Steps

variable {decode depth} {s s' : ServerState δ}

theorem step_recv {data : δ} {src : SockAddr}
    (h : serverStep decode depth s (.recv data src : ServerAct δ ν) = some s') :
    s.disp = .recv ∧ s' = { s with
      disp := .got s.received.length data src, received := s.received ++ [(data, src)] } := by
  cases hd : s.disp <;> simp only [serverStep, hd, Option.some.injEq, reduceCtorEq] at h
  exact ⟨rfl, h.symm⟩

/-- The dispatcher puts a request in the queue of its priority, refuses it
because that queue is full, or passes over what is no request. -/
theorem step_dispatch
    (h : serverStep decode depth s (.dispatch : ServerAct δ ν) = some s') :
    ∃ i data src, s.disp = .got i data src ∧
      ((∃ req, decode data = .request req ∧
          (s.queue (msgPriorityOf req.priority)).length < depth ∧
          s' = { s with
            disp := .recv
            queue := Function.update s.queue (msgPriorityOf req.priority)
              (s.queue (msgPriorityOf req.priority) ++ [(i, dispatchItem req src)]) }) ∨
        (∃ req, decode data = .request req ∧
          ¬ (s.queue (msgPriorityOf req.priority)).length < depth ∧
          s' = { s with disp := .refuse i (queueFull req src) }) ∨
        ((∀ req, decode data ≠ .request req) ∧
          s' = { s with disp := .recv, passed := s.passed ++ [i] })) := by
  cases hd : s.disp with
  | got i data src =>
    simp only [serverStep, hd, Option.some.injEq] at h
    refine ⟨i, data, src, rfl, ?_⟩
    rw [← h, dispatchStep]
    cases hdec : decode data with
    | request req =>
      by_cases hroom : (s.queue (msgPriorityOf req.priority)).length < depth
      · exact Or.inl ⟨req, rfl, hroom, by simp [hroom]⟩
      · exact Or.inr (Or.inl ⟨req, rfl, hroom, by simp [hroom]⟩)
    | response rsp => exact Or.inr (Or.inr ⟨fun req => by simp, rfl⟩)
    | ignored => exact Or.inr (Or.inr ⟨fun req => by simp, rfl⟩)
  | recv => simp [serverStep, hd] at h
  | refuse i a => simp [serverStep, hd] at h

theorem step_refuse (h : serverStep decode depth s (.refuse : ServerAct δ ν) = some s') :
    ∃ i a, s.disp = .refuse i a ∧
      s' = { s with disp := .recv, refused := s.refused ++ [(i, a)] } := by
  cases hd : s.disp <;> simp only [serverStep, hd, Option.some.injEq, reduceCtorEq] at h
  exact ⟨_, _, rfl, h.symm⟩

theorem step_get {p : MsgPriority}
    (h : serverStep decode depth s (.get p : ServerAct δ ν) = some s') :
    ∃ i item rest, s.hand p = .get ∧ s.queue p = (i, item) :: rest ∧
      s' = { s with
        hand := Function.update s.hand p (.handle i item)
        queue := Function.update s.queue p rest } := by
  cases hh : s.hand p with
  | get =>
    cases hq : s.queue p with
    | nil => simp [serverStep, hh, hq] at h
    | cons x rest =>
      simp only [serverStep, hh, hq, Option.some.injEq] at h
      exact ⟨x.1, x.2, rest, rfl, rfl, h.symm⟩
  | handle i item => simp [serverStep, hh] at h
  | respond i a => simp [serverStep, hh] at h

theorem step_handle {p : MsgPriority} {w : World ν}
    (h : serverStep decode depth s (.handle p w) = some s') :
    ∃ i item, s.hand p = .handle i item ∧
      s' = { s with hand := Function.update s.hand p (.respond i (handlerThreadFn w p item)) } := by
  cases hh : s.hand p <;> simp only [serverStep, hh, Option.some.injEq, reduceCtorEq] at h
  exact ⟨_, _, rfl, h.symm⟩

theorem step_respond {p : MsgPriority}
    (h : serverStep decode depth s (.respond p : ServerAct δ ν) = some s') :
    ∃ i a, s.hand p = .respond i a ∧
      s' = { s with
        hand := Function.update s.hand p .get
        answered := Function.update s.answered p (s.answered p ++ [(i, a)]) } := by
  cases hh : s.hand p <;> simp only [serverStep, hh, Option.some.injEq, reduceCtorEq] at h
  exact ⟨_, _, rfl, h.symm⟩

end Steps

/-! ## The lines -/

section Lines

variable {decode depth} {s s' : ServerState δ} {p : MsgPriority}

/-- The handler threads move along the lines without changing them. -/
theorem line_get {i : Nat} {item : MsgDispatchItem} {rest : List (Nat × MsgDispatchItem)}
    (hh : s.hand p = .get) (hq : s.queue p = (i, item) :: rest) :
    { s with
      hand := Function.update s.hand p (.handle i item)
      queue := Function.update s.queue p rest }.line = s.line := by
  funext q
  by_cases h : q = p
  · subst h
    simp [ServerState.line, hh, hq, HandPc.idx]
  · simp [ServerState.line, h]

theorem line_handle {i : Nat} {item : MsgDispatchItem} {a : RspArgs}
    (hh : s.hand p = .handle i item) :
    { s with hand := Function.update s.hand p (.respond i a) }.line = s.line := by
  funext q
  by_cases h : q = p
  · subst h
    simp [ServerState.line, hh, HandPc.idx]
  · simp [ServerState.line, h]

theorem line_respond {i : Nat} {a : RspArgs} (hh : s.hand p = .respond i a) :
    { s with
      hand := Function.update s.hand p .get
      answered := Function.update s.answered p (s.answered p ++ [(i, a)]) }.line = s.line := by
  funext q
  by_cases h : q = p
  · subst h
    simp [ServerState.line, hh, HandPc.idx]
  · simp [ServerState.line, h]

/-- The dispatcher adds to the end of one line. -/
theorem line_put {i : Nat} {item : MsgDispatchItem} :
    { s with
      disp := .recv
      queue := Function.update s.queue p (s.queue p ++ [(i, item)]) }.line
      = Function.update s.line p (s.line p ++ [i]) := by
  funext q
  by_cases h : q = p
  · subst h
    simp [ServerState.line]
  · simp [ServerState.line, h]

/-- The lines with one entry added to one of them. -/
theorem flatMap_update_line (f : MsgPriority → List Nat) (p : MsgPriority) (i : Nat) :
    (MsgPriority.all.flatMap (Function.update f p (f p ++ [i]))).Perm
      (i :: MsgPriority.all.flatMap f) := by
  rw [List.perm_iff_count]
  intro j
  cases p <;> simp [MsgPriority.all, Function.update, List.count_cons] <;> omega

theorem mem_places_of_line {i : Nat} (h : i ∈ s.line p) : i ∈ s.places := by
  have : i ∈ MsgPriority.all.flatMap s.line :=
    List.mem_flatMap.mpr ⟨p, MsgPriority.mem_all p, h⟩
  simp [ServerState.places, this]

end Lines

/-! ## The invariant -/

/-- What the dispatcher holds. -/
def DispOk (received : List (δ × SockAddr)) : DispPc δ → Prop
  | .recv => True
  | .got i data src => i + 1 = received.length ∧ received[i]? = some (data, src)
  | .refuse i a => ∃ req src, IsRequest decode received i req src ∧ a = queueFull req src

/-- What the handler thread of a priority holds. -/
def HandOk (ν : Type) (received : List (δ × SockAddr)) (p : MsgPriority) : HandPc → Prop
  | .get => True
  | .handle i item => OfLine decode received p i fun req src => item = dispatchItem req src
  | .respond i a => OfLine decode received p i (Answers ν a)

/-- The invariant of the threads. -/
structure ServerInv (ν : Type) (s : ServerState δ) : Prop where
  disp : DispOk decode s.received s.disp
  queued : ∀ p, ∀ x ∈ s.queue p,
    OfLine decode s.received p x.1 fun req src => x.2 = dispatchItem req src
  hand : ∀ p, HandOk decode ν s.received p (s.hand p)
  answered : ∀ p, ∀ x ∈ s.answered p, OfLine decode s.received p x.1 (Answers ν x.2)
  refused : ∀ x ∈ s.refused,
    ∃ req src, IsRequest decode s.received x.1 req src ∧ x.2 = queueFull req src
  passed : ∀ i ∈ s.passed, ∀ req src, ¬ IsRequest decode s.received i req src
  room : ∀ p, (s.queue p).length ≤ depth
  order : ∀ p, (s.line p).Pairwise (· < ·)
  places : s.places.Perm (List.range s.received.length)

section Invariant

variable {decode depth} {s s' : ServerState δ}

theorem IsRequest.append {received : List (δ × SockAddr)} {i : Nat} {req : MsgReq}
    {src : SockAddr} (h : IsRequest decode received i req src) (x : δ × SockAddr) :
    IsRequest decode (received ++ [x]) i req src := by
  obtain ⟨data, hget, hdec⟩ := h
  have hlt : i < received.length := by
    obtain ⟨hlt, _⟩ := List.getElem?_eq_some_iff.mp hget
    exact hlt
  exact ⟨data, by rw [List.getElem?_append_left hlt, hget], hdec⟩

theorem OfLine.append {received : List (δ × SockAddr)} {p : MsgPriority} {i : Nat}
    {P : MsgReq → SockAddr → Prop} (h : OfLine decode received p i P) (x : δ × SockAddr) :
    OfLine decode (received ++ [x]) p i P := by
  obtain ⟨req, src, hreq, hrest⟩ := h
  exact ⟨req, src, hreq.append x, hrest⟩

theorem HandOk.append {received : List (δ × SockAddr)} {p : MsgPriority} {pc : HandPc}
    (h : HandOk decode ν received p pc) (x : δ × SockAddr) :
    HandOk decode ν (received ++ [x]) p pc := by
  cases pc with
  | get => trivial
  | handle i item => exact OfLine.append h x
  | respond i a => exact OfLine.append h x

theorem lt_of_mem_places (hi : ServerInv decode depth ν s) {i : Nat} (h : i ∈ s.places) :
    i < s.received.length := List.mem_range.mp (hi.places.mem_iff.mp h)

theorem serverInv_init : ServerInv decode depth ν (serverMachine decode depth ν).init := by
  constructor <;> simp [serverMachine, ServerState.line, ServerState.places, HandPc.idx, DispPc.idx,
    MsgPriority.all, DispOk, HandOk]

theorem inv_recv {data : δ} {src : SockAddr} (hi : ServerInv decode depth ν s)
    (h : serverStep decode depth s (.recv data src : ServerAct δ ν) = some s') :
    ServerInv decode depth ν s' := by
  obtain ⟨hd, rfl⟩ := step_recv h
  exact
    { disp := by simp [DispOk]
      queued := fun p x hx => (hi.queued p x hx).append _
      hand := fun p => (hi.hand p).append _
      answered := fun p x hx => (hi.answered p x hx).append _
      refused := by
        intro x hx
        obtain ⟨req, c, hreq, heq⟩ := hi.refused x hx
        exact ⟨req, c, hreq.append _, heq⟩
      passed := by
        intro i hp req c ⟨d, hget, hdec⟩
        have hlt := lt_of_mem_places hi (List.mem_append_right _ hp)
        rw [List.getElem?_append_left hlt] at hget
        exact hi.passed i hp req c ⟨d, hget, hdec⟩
      room := hi.room
      order := hi.order
      places := by
        have hold := hi.places
        simp only [ServerState.places, hd, DispPc.idx, List.nil_append] at hold
        have hnew := (List.perm_append_singleton s.received.length (List.range s.received.length))
        rw [List.length_append, List.length_singleton, List.range_succ]
        exact (hold.cons _).trans hnew.symm }

/-- Everything in a line arrived before the datagram the dispatcher holds. -/
theorem lt_got {i j : Nat} {data : δ} {src : SockAddr} {p : MsgPriority}
    (hi : ServerInv decode depth ν s) (hd : s.disp = .got i data src) (hj : j ∈ s.line p) :
    j < i := by
  have hlt := lt_of_mem_places hi (mem_places_of_line hj)
  have hdisp := hi.disp
  rw [hd] at hdisp
  have hlast := hdisp.1
  have hnd : s.places.Nodup := hi.places.nodup_iff.mpr List.nodup_range
  have hne : j ≠ i := by
    rintro rfl
    have hmem : j ∈ MsgPriority.all.flatMap s.line :=
      List.mem_flatMap.mpr ⟨p, MsgPriority.mem_all p, hj⟩
    simp only [ServerState.places, hd, DispPc.idx, List.append_assoc, List.singleton_append] at hnd
    exact (List.nodup_cons.mp hnd).1 (List.mem_append_left _ hmem)
  omega

theorem inv_dispatch (hi : ServerInv decode depth ν s)
    (h : serverStep decode depth s (.dispatch : ServerAct δ ν) = some s') :
    ServerInv decode depth ν s' := by
  obtain ⟨i, data, src, hd, hcases⟩ := step_dispatch h
  have hdisp := hi.disp
  rw [hd] at hdisp
  have hget := hdisp.2
  rcases hcases with ⟨req, hdec, hroom, rfl⟩ | ⟨req, hdec, hfull, rfl⟩ | ⟨hno, rfl⟩
  · -- put in the queue of its priority
    exact
      { disp := trivial
        queued := by
          refine (Function.forall_update_iff s.queue fun p l => ∀ x ∈ l,
            OfLine decode s.received p x.1 fun req src => x.2 = dispatchItem req src).mpr
            ⟨?_, fun p _ => hi.queued p⟩
          intro x hx
          rcases List.mem_append.mp hx with hx | hx
          · exact hi.queued _ x hx
          · obtain rfl := List.mem_singleton.mp hx
            exact ⟨req, src, ⟨data, hget, hdec⟩, rfl, rfl⟩
        hand := hi.hand
        answered := hi.answered
        refused := hi.refused
        passed := hi.passed
        room := by
          refine (Function.forall_update_iff s.queue fun _ l => l.length ≤ depth).mpr
            ⟨?_, fun p _ => hi.room p⟩
          rw [List.length_append, List.length_singleton]
          exact hroom
        order := by
          rw [line_put]
          refine (Function.forall_update_iff s.line fun _ l => l.Pairwise (· < ·)).mpr
            ⟨?_, fun p _ => hi.order p⟩
          refine List.pairwise_append.mpr
            ⟨hi.order _, List.pairwise_singleton _ _, ?_⟩
          intro j hj k hk
          obtain rfl := List.mem_singleton.mp hk
          exact lt_got hi hd hj
        places := by
          have hold := hi.places
          simp only [ServerState.places, hd, DispPc.idx, List.cons_append] at hold
          simp only [ServerState.places, line_put, DispPc.idx, List.nil_append]
          refine List.Perm.trans ?_ hold
          exact ((flatMap_update_line s.line _ i).append_right _).append_right _ }
  · -- refused
    exact
      { hi with
        disp := ⟨req, src, ⟨data, hget, hdec⟩, rfl⟩
        places := by
          have hold := hi.places
          simp only [ServerState.places, hd, DispPc.idx] at hold
          exact hold }
  · -- passed over
    exact
      { hi with
        disp := trivial
        passed := by
          intro j hj req c ⟨d, hget', hdec⟩
          rcases List.mem_append.mp hj with hj | hj
          · exact hi.passed j hj req c ⟨d, hget', hdec⟩
          · obtain rfl := List.mem_singleton.mp hj
            rw [hget] at hget'
            obtain ⟨rfl, rfl⟩ := Prod.mk.inj (Option.some.inj hget')
            exact hno req hdec
        places := by
          have hold := hi.places
          simp only [ServerState.places, hd, DispPc.idx, List.cons_append] at hold
          simp only [ServerState.places, DispPc.idx, List.nil_append, ← List.append_assoc]
          exact (List.perm_append_singleton i _).trans hold }

theorem inv_refuse (hi : ServerInv decode depth ν s)
    (h : serverStep decode depth s (.refuse : ServerAct δ ν) = some s') :
    ServerInv decode depth ν s' := by
  obtain ⟨i, a, hd, rfl⟩ := step_refuse h
  have hdisp := hi.disp
  rw [hd] at hdisp
  exact
    { hi with
      disp := trivial
      refused := by
        intro x hx
        rcases List.mem_append.mp hx with hx | hx
        · exact hi.refused x hx
        · obtain rfl := List.mem_singleton.mp hx
          exact hdisp
      places := by
        have hold := hi.places
        simp only [ServerState.places, hd, DispPc.idx, List.cons_append] at hold
        simp only [ServerState.places, DispPc.idx, List.nil_append, List.map_append, List.map_cons,
          List.map_nil, ← List.append_assoc]
        refine List.Perm.trans ?_ hold
        exact (List.perm_append_singleton i _).append_right _ }

/-- A step that leaves the lines and what is outside them alone keeps the
order of the lines and every datagram's place. -/
theorem ServerInv.same_line {t : ServerState δ} (hi : ServerInv decode depth ν s)
    (hline : t.line = s.line) (hdisp : t.disp = s.disp) (hrefused : t.refused = s.refused)
    (hpassed : t.passed = s.passed) :
    (∀ p, (t.line p).Pairwise (· < ·)) ∧ t.places.Perm (List.range s.received.length) := by
  have hplaces : t.places = s.places := by
    simp only [ServerState.places, hline, hdisp, hrefused, hpassed]
  rw [hplaces, hline]
  exact ⟨hi.order, hi.places⟩

theorem inv_get {p : MsgPriority} (hi : ServerInv decode depth ν s)
    (h : serverStep decode depth s (.get p : ServerAct δ ν) = some s') :
    ServerInv decode depth ν s' := by
  obtain ⟨i, item, rest, hh, hq, rfl⟩ := step_get h
  have hline := line_get hh hq
  exact
    { hi with
      queued := (Function.forall_update_iff s.queue fun q l => ∀ x ∈ l,
        OfLine decode s.received q x.1 fun req src => x.2 = dispatchItem req src).mpr
          ⟨fun x hx => hi.queued p x (hq ▸ List.mem_cons_of_mem _ hx), fun q _ => hi.queued q⟩
      hand := (Function.forall_update_iff s.hand (HandOk decode ν s.received)).mpr
        ⟨hi.queued p (i, item) (hq ▸ List.mem_cons_self), fun q _ => hi.hand q⟩
      room := by
        refine (Function.forall_update_iff s.queue fun _ l => l.length ≤ depth).mpr
          ⟨?_, fun q _ => hi.room q⟩
        have := hi.room p
        rw [hq, List.length_cons] at this
        omega
      order := (hi.same_line hline rfl rfl rfl).1
      places := (hi.same_line hline rfl rfl rfl).2 }

theorem inv_handle {p : MsgPriority} {w : World ν} (hi : ServerInv decode depth ν s)
    (h : serverStep decode depth s (.handle p w) = some s') : ServerInv decode depth ν s' := by
  obtain ⟨i, item, hh, rfl⟩ := step_handle h
  have hline := line_handle (a := handlerThreadFn w p item) hh
  exact
    { hi with
      hand := by
        refine (Function.forall_update_iff s.hand (HandOk decode ν s.received)).mpr
          ⟨?_, fun q _ => hi.hand q⟩
        have hitem := hi.hand p
        rw [hh] at hitem
        obtain ⟨req, src, hreq, rfl, rfl⟩ := hitem
        exact ⟨req, src, hreq, rfl, w, rfl⟩
      order := (hi.same_line hline rfl rfl rfl).1
      places := (hi.same_line hline rfl rfl rfl).2 }

theorem inv_respond {p : MsgPriority} (hi : ServerInv decode depth ν s)
    (h : serverStep decode depth s (.respond p : ServerAct δ ν) = some s') :
    ServerInv decode depth ν s' := by
  obtain ⟨i, a, hh, rfl⟩ := step_respond h
  have hline := line_respond hh
  exact
    { hi with
      hand := (Function.forall_update_iff s.hand (HandOk decode ν s.received)).mpr
        ⟨trivial, fun q _ => hi.hand q⟩
      answered := by
        refine (Function.forall_update_iff s.answered fun q l => ∀ x ∈ l,
          OfLine decode s.received q x.1 (Answers ν x.2)).mpr
            ⟨?_, fun q _ => hi.answered q⟩
        intro x hx
        rcases List.mem_append.mp hx with hx | hx
        · exact hi.answered p x hx
        · obtain rfl := List.mem_singleton.mp hx
          have hanswer := hi.hand p
          rw [hh] at hanswer
          exact hanswer
      order := (hi.same_line hline rfl rfl rfl).1
      places := (hi.same_line hline rfl rfl rfl).2 }

theorem serverInv_step {act : ServerAct δ ν} (hi : ServerInv decode depth ν s)
    (h : serverStep decode depth s act = some s') : ServerInv decode depth ν s' := by
  cases act with
  | recv data src => exact inv_recv hi h
  | dispatch => exact inv_dispatch hi h
  | refuse => exact inv_refuse hi h
  | get p => exact inv_get hi h
  | handle p w => exact inv_handle hi h
  | respond p => exact inv_respond hi h

/-- The invariant holds under every schedule. -/
theorem serverInv_reachable (hr : (serverMachine decode depth ν).Reachable s) :
    ServerInv decode depth ν s :=
  Machine.Reachable.induct serverInv_init (fun _ _ _ hi hs => serverInv_step hi hs) hr

end Invariant

/-! ## The law of the pipeline -/

/-- A request is refused only when the queue of its priority is full. -/
theorem full_of_refused {decode : δ → Dispatch} {depth : Nat} {s s' : ServerState δ} {i : Nat}
    {a : RspArgs} (hi : ServerInv decode depth ν s)
    (h : serverStep decode depth s (.dispatch : ServerAct δ ν) = some s')
    (hd : s'.disp = .refuse i a) :
    (s.queue a.priority).length = depth := by
  obtain ⟨j, data, src, _, hcases⟩ := step_dispatch h
  rcases hcases with ⟨req, _, _, rfl⟩ | ⟨req, _, hfull, rfl⟩ | ⟨_, rfl⟩
  · cases hd
  · obtain ⟨rfl, rfl⟩ := DispPc.refuse.inj hd
    have := hi.room (msgPriorityOf req.priority)
    show (s.queue (msgPriorityOf req.priority)).length = depth
    omega
  · cases hd

theorem OfLine.imp {decode : δ → Dispatch} {received : List (δ × SockAddr)} {p : MsgPriority}
    {i : Nat} {P Q : MsgReq → SockAddr → Prop} (h : OfLine decode received p i P)
    (himp : ∀ req src, msgPriorityOf req.priority = p → P req src → Q req src) :
    OfLine decode received p i Q := by
  obtain ⟨req, src, hreq, hp, hP⟩ := h
  exact ⟨req, src, hreq, hp, himp req src hp hP⟩

/-- What is in a line is a request of its priority. -/
theorem ofLine_of_mem_line {decode : δ → Dispatch} {depth : Nat} {s : ServerState δ}
    (hi : ServerInv decode depth ν s) {p : MsgPriority} {i : Nat} (h : i ∈ s.line p) :
    OfLine decode s.received p i fun _ _ => True := by
  rcases List.mem_append.mp h with h | h
  · rcases List.mem_append.mp h with h | h
    · obtain ⟨x, hx, rfl⟩ := List.mem_map.mp h
      exact (hi.answered p x hx).imp fun _ _ _ _ => trivial
    · have hhand := hi.hand p
      cases hpc : s.hand p with
      | get =>
        rw [hpc] at h
        exact absurd h List.not_mem_nil
      | handle j item =>
        rw [hpc] at h hhand
        obtain rfl := List.mem_singleton.mp h
        exact OfLine.imp hhand fun _ _ _ _ => trivial
      | respond j a =>
        rw [hpc] at h hhand
        obtain rfl := List.mem_singleton.mp h
        exact OfLine.imp hhand fun _ _ _ _ => trivial
  · obtain ⟨x, hx, rfl⟩ := List.mem_map.mp h
    exact (hi.queued p x hx).imp fun _ _ _ _ => trivial

theorem IsRequest.unique {decode : δ → Dispatch} {received : List (δ × SockAddr)} {i : Nat}
    {req req' : MsgReq} {src src' : SockAddr} (h : IsRequest decode received i req src)
    (h' : IsRequest decode received i req' src') : req = req' ∧ src = src' := by
  obtain ⟨data, hget, hdec⟩ := h
  obtain ⟨data', hget', hdec'⟩ := h'
  rw [hget] at hget'
  obtain ⟨rfl, rfl⟩ := Prod.mk.inj (Option.some.inj hget')
  rw [hdec] at hdec'
  exact ⟨Dispatch.request.inj hdec', rfl⟩

/-- Every request received is still with the dispatcher, or in the line of
its priority, or was refused. -/
theorem request_placed {decode : δ → Dispatch} {depth : Nat} {s : ServerState δ}
    (hi : ServerInv decode depth ν s) {i : Nat} {req : MsgReq} {src : SockAddr}
    (h : IsRequest decode s.received i req src) :
    i ∈ s.disp.idx ∨ i ∈ s.line (msgPriorityOf req.priority) ∨ i ∈ s.refused.map Prod.fst := by
  have hlt : i < s.received.length := by
    obtain ⟨data, hget, _⟩ := h
    exact (List.getElem?_eq_some_iff.mp hget).1
  have hmem : i ∈ s.places := hi.places.mem_iff.mpr (List.mem_range.mpr hlt)
  simp only [ServerState.places, List.mem_append, List.mem_flatMap] at hmem
  rcases hmem with ((hd | ⟨p, _, hl⟩) | hr) | hp
  · exact Or.inl hd
  · obtain ⟨req', src', hreq', rfl, _⟩ := ofLine_of_mem_line hi hl
    obtain ⟨rfl, _⟩ := h.unique hreq'
    exact Or.inr (Or.inl hl)
  · exact Or.inr (Or.inr hr)
  · exact absurd h (hi.passed i hp req src)

/-- **The pipeline under every schedule.** Every datagram received is at
exactly one place; a request is with the dispatcher, in the line of its
priority or refused, and nothing else is in a line. A line, which its
thread takes from the front, is in the order of arrival. Each answer goes
to the sender of its request under that request's number. The dispatcher
refuses a request only when the queue of its own priority is full, and
what it passes over was no request. -/
theorem pipeline_ok (decode : δ → Dispatch) (depth : Nat) (s : ServerState δ)
    (hr : (serverMachine decode depth ν).Reachable s) :
    s.places.Perm (List.range s.received.length) ∧
    (∀ i req src, IsRequest decode s.received i req src →
      i ∈ s.disp.idx ∨ i ∈ s.line (msgPriorityOf req.priority) ∨ i ∈ s.refused.map Prod.fst) ∧
    (∀ p, ∀ i ∈ s.line p, OfLine decode s.received p i fun _ _ => True) ∧
    (∀ p, (s.line p).Pairwise (· < ·)) ∧
    (∀ p, ∀ x ∈ s.answered p, OfLine decode s.received p x.1 fun req src =>
      x.2.seq = req.seq ∧ x.2.dest = src ∧ x.2.priority = p) ∧
    (∀ x ∈ s.refused, ∃ req src, IsRequest decode s.received x.1 req src ∧
      x.2 = queueFull req src) ∧
    (∀ i ∈ s.passed, ∀ req src, ¬ IsRequest decode s.received i req src) ∧
    (∀ s' i a, serverStep decode depth s (.dispatch : ServerAct δ ν) = some s' →
      s'.disp = .refuse i a → (s.queue a.priority).length = depth) := by
  have hi := serverInv_reachable hr
  refine ⟨hi.places, fun _ _ _ h => request_placed hi h, fun p i h => ofLine_of_mem_line hi h,
    hi.order, ?_, hi.refused, hi.passed, fun s' i a hs hd => full_of_refused hi hs hd⟩
  intro p x hx
  refine (hi.answered p x hx).imp ?_
  rintro req src hp ⟨w, ha⟩
  obtain ⟨hdest, hseq, hpri⟩ := handlerThreadFn_addressed w (msgPriorityOf req.priority)
    (dispatchItem req src)
  rw [ha]
  exact ⟨hseq, hdest, hpri.trans hp⟩

/-- A NORMAL request, a second one that finds the queue full, a response,
and a CRITICAL request that is served at once. -/
def samplePipeline : List (ServerAct Dispatch Unit) :=
  let req (seq pri : Int) : Dispatch :=
    .request ⟨some "req".toList, seq, 7, some ['e'], some ['x'], pri, 0, 0⟩
  [.recv (req 1 1) ⟨1, 1⟩, .dispatch, .recv (req 2 9) ⟨1, 1⟩, .dispatch, .refuse,
   .recv (.response ⟨none, 1, 7, 0, none, 1⟩) ⟨2, 2⟩, .dispatch,
   .recv (req 3 0) ⟨1, 1⟩, .dispatch, .get .critical,
   .handle .critical ⟨0, [], fun _ _ => .empty 0⟩, .respond .critical]

theorem pipeline_ok_sample :
    ∃ s, (serverMachine id 1 Unit).run samplePipeline = some s ∧
      s.places.Perm (List.range s.received.length) ∧
      s.line .normal = [0] ∧ s.line .critical = [3] ∧ s.refused.map Prod.fst = [1] := by
  obtain ⟨s, hs⟩ : ∃ s, (serverMachine id 1 Unit).run samplePipeline = some s :=
    Option.isSome_iff_exists.mp (by decide)
  have hend : ((serverMachine id 1 Unit).run samplePipeline).map (fun s =>
      (s.line .normal, s.line .critical, s.refused.map Prod.fst)) = some ([0], [3], [1]) := by
    decide
  simp only [hs, Option.map_some, Option.some.injEq, Prod.mk.injEq] at hend
  exact ⟨s, hs, (pipeline_ok id 1 s ⟨_, hs⟩).1, hend⟩

end Ceell.Network
