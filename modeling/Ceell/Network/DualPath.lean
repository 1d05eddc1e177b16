/-
Ceell.Network.DualPath — the two halves of `ceell/network/msg_redundancy.c`
together: a node that sends each message on both paths, and one that checks
the number of each copy it receives.

A sender numbers its messages one after the other. Copies are lost, delayed,
repeated and put out of order on either path. The receiver is a filter that
remembers 32 messages (`DualInv.filtered`). `dualPath_once_iff` says how much
disorder it stands: each message is processed once as long as no copy
arrives after a message that was sent 16 or more later, and 16 is the limit.
-/
import Ceell.Lib.Window
import Ceell.Network.MsgRedundancy

namespace Ceell.Network

open Ceell.Lib

/-! ## The two nodes -/

/-- A sender with its sockets, and the receiver's initialisation, which got
as far as the ring. -/
structure DualConfig where
  /-- the number of the first message -/
  start : UInt32
  tx : MsgRedundancy
  primarySock : Int
  dest : SockAddr
  /-- `CONFIG_CEELL_MSG_PORT_SECONDARY` -/
  port : UInt16
  rxInit : RedundancyAnswers
  ready : ¬ rxInit.mutexInit < 0

/-- The number of the `m`-th message. -/
def DualConfig.number (p : DualConfig) (m : Nat) : UInt32 := p.start + .ofNat m

/-- Messages are known by the order in which they were sent. -/
structure DualPath where
  rx : MsgRedundancy
  /-- what each send has returned -/
  returned : List Int
  /-- the copies that were sent -/
  wire : List (SentCopy Nat)
  /-- the messages of the copies received, in order -/
  arrivals : List Nat
  /-- the messages taken for new, the newest first -/
  processed : List Nat

inductive DualAct where
  | send (ans : SendtoAnswers)
  | receive (copy : SentCopy Nat)

def dualStep (p : DualConfig) (s : DualPath) : DualAct → Option DualPath
  | .send ans =>
      let r := ceellMsgRedundantSend p.port p.tx p.primarySock s.returned.length p.dest ans
      some { s with returned := s.returned ++ [r.2], wire := r.1 ++ s.wire }
  | .receive copy =>
      if copy ∈ s.wire then
        (ceellMsgDedupCheck (p.number copy.data) s.rx).map fun r =>
          { s with
            rx := r.2
            arrivals := s.arrivals ++ [copy.data]
            processed := if r.1 then s.processed else copy.data :: s.processed }
      else none

def dualMachine (p : DualConfig) : Machine DualPath DualAct where
  init := ⟨(ceellMsgRedundancyInit p.rxInit .zero).1, [], [], [], []⟩
  step := dualStep p

/-! ## What is sent -/

/-- A message is on the wire exactly if its send has returned 0. -/
def SentWhereZero (s : DualPath) : Prop :=
  ∀ m, (∃ copy ∈ s.wire, copy.data = m) ↔ s.returned[m]? = some 0

/-- The copies that were taken are of the message, and 0 is returned exactly
if there are any. -/
theorem redundantSend_spec {β : Type} (port : UInt16) (s : MsgRedundancy) (primarySock : Int)
    (buf : β) (dest : SockAddr) (ans : SendtoAnswers) :
    (∀ copy ∈ (ceellMsgRedundantSend port s primarySock buf dest ans).1, copy.data = buf) ∧
    ((ceellMsgRedundantSend port s primarySock buf dest ans).2 = 0 ↔
      (ceellMsgRedundantSend port s primarySock buf dest ans).1 ≠ []) := by
  unfold ceellMsgRedundantSend
  dsimp only
  generalize (if s.secondarySock ≥ 0 then ans.secondary else -ENODEV) = retSecondary
  by_cases hp : ans.primary ≥ 0
  · by_cases hs : retSecondary ≥ 0
    · simp [hp, hs]
    · simp [hp, hs]
  · by_cases hs : retSecondary ≥ 0
    · simp [hp, hs]
    · simp only [hp, hs, if_false, or_self, List.append_nil, List.not_mem_nil, ne_eq,
        not_true_eq_false, iff_false, false_imp_iff, implies_true, true_and]
      omega

/-! ## The receiver as a filter -/

section Filter

variable {p : DualConfig} {s s' : DualPath}

/-- The numbers have not come round. -/
def Distinct (s : DualPath) : Prop := s.returned.length ≤ 2 ^ 32

theorem number_injective {i j : Nat} (hi : i < 2 ^ 32) (hj : j < 2 ^ 32)
    (h : p.number i = p.number j) : i = j := by
  have heq : UInt32.ofNat i = UInt32.ofNat j := by
    simpa [DualConfig.number] using h
  have hval := congrArg UInt32.toNat heq
  rwa [UInt32.toNat_ofNat_of_lt' hi, UInt32.toNat_ofNat_of_lt' hj] at hval

/-- The invariant of the two nodes. -/
structure DualInv (p : DualConfig) (s : DualPath) : Prop where
  wire : SentWhereZero s
  arrived : ∀ m ∈ s.arrivals, s.returned[m]? = some 0
  ring : Distinct s → DedupInv s.rx (s.processed.map p.number)
  filtered : Distinct s → s.processed = passed msgDedupRingSize s.arrivals

theorem dualInv_init : DualInv p (dualMachine p).init where
  wire m := by simp [dualMachine]
  arrived m h := by cases h
  ring _ := dedupInv_init p.rxInit .zero p.ready
  filtered _ := rfl

/-- The value a list ends in. -/
theorem getElem?_concat_eq_some {α : Type} {xs : List α} {x y : α} {m : Nat} :
    (xs ++ [x])[m]? = some y ↔ xs[m]? = some y ∨ (m = xs.length ∧ x = y) := by
  rcases Nat.lt_trichotomy m xs.length with hlt | rfl | hgt
  · rw [List.getElem?_append_left hlt]
    exact ⟨Or.inl, fun h => h.elim id fun h => absurd h.1 (Nat.ne_of_lt hlt)⟩
  · simp
  · rw [List.getElem?_eq_none (by simp; omega), List.getElem?_eq_none (Nat.le_of_lt hgt)]
    simp [Nat.ne_of_gt hgt]

theorem dualInv_send (h : DualInv p s) {ans : SendtoAnswers}
    (hs : dualStep p s (.send ans) = some s') : DualInv p s' := by
  obtain ⟨hdata, hret⟩ :=
    redundantSend_spec p.port p.tx p.primarySock s.returned.length p.dest ans
  obtain rfl := Option.some.inj hs
  generalize ceellMsgRedundantSend p.port p.tx p.primarySock s.returned.length p.dest ans = r at *
  have hdistinct : ∀ {t : DualPath}, t.returned = s.returned ++ [r.2] →
      Distinct t → Distinct s := by
    intro t ht hd
    rw [Distinct, ht, List.length_append] at hd
    exact Nat.le_trans (Nat.le_add_right _ _) hd
  constructor
  · intro m
    rw [getElem?_concat_eq_some, ← h.wire m, hret]
    constructor
    · rintro ⟨copy, hcopy, rfl⟩
      rcases List.mem_append.mp hcopy with hnew | hold
      · exact Or.inr ⟨hdata copy hnew, List.ne_nil_of_mem hnew⟩
      · exact Or.inl ⟨copy, hold, rfl⟩
    · rintro (⟨copy, hold, rfl⟩ | ⟨rfl, hne⟩)
      · exact ⟨copy, List.mem_append_right _ hold, rfl⟩
      · obtain ⟨copy, hnew⟩ := List.exists_mem_of_ne_nil _ hne
        exact ⟨copy, List.mem_append_left _ hnew, hdata copy hnew⟩
  · exact fun m hm => getElem?_concat_eq_some.mpr (Or.inl (h.arrived m hm))
  · exact fun hd => h.ring (hdistinct rfl hd)
  · exact fun hd => h.filtered (hdistinct rfl hd)

theorem DualInv.lt (h : DualInv p s) {m : Nat} (hm : m ∈ s.arrivals) : m < s.returned.length :=
  (List.getElem?_eq_some_iff.mp (h.arrived m hm)).1

/-- **The check of a copy** takes it for new unless its message is among the
last 32 that were. -/
theorem dedupCheck_receive (h : DualInv p s) (hd : Distinct s) {m : Nat}
    (hm : m < s.returned.length) :
    ∃ t, ceellMsgDedupCheck (p.number m) s.rx =
        some (decide (m ∈ s.processed.take msgDedupRingSize), t) ∧
      DedupInv t ((arrive msgDedupRingSize s.processed m).map p.number) := by
  obtain ⟨t, ht, _, hring⟩ := ceellMsgDedupCheck_eq (h.ring hd) (p.number m)
  have hnumber : p.number m ∈ (s.processed.map p.number).take msgDedupRingSize ↔
      m ∈ s.processed.take msgDedupRingSize := by
    rw [← List.map_take, List.mem_map]
    constructor
    · rintro ⟨j, hj, heq⟩
      have hproc : j ∈ s.processed := List.mem_of_mem_take hj
      rw [h.filtered hd, mem_passed] at hproc
      rwa [← number_injective (Nat.lt_of_lt_of_le (h.lt hproc) hd) (Nat.lt_of_lt_of_le hm hd) heq]
    · exact fun hj => ⟨m, hj, rfl⟩
  refine ⟨t, ?_, ?_⟩
  · rw [ht]
    simp only [hnumber]
  · simp only [hnumber] at hring
    rw [arrive]
    split
    · rename_i hmem
      rwa [if_pos hmem] at hring
    · rename_i hmem
      rwa [if_neg hmem] at hring

theorem dualStep_receive {copy : SentCopy Nat} (hs : dualStep p s (.receive copy) = some s') :
    copy ∈ s.wire ∧ ∃ r, ceellMsgDedupCheck (p.number copy.data) s.rx = some r ∧
      s' = { s with
        rx := r.2
        arrivals := s.arrivals ++ [copy.data]
        processed := if r.1 then s.processed else copy.data :: s.processed } := by
  simp only [dualStep] at hs
  split at hs
  · rename_i hwire
    obtain ⟨r, hr, rfl⟩ := Option.map_eq_some_iff.mp hs
    exact ⟨hwire, r, hr, rfl⟩
  · cases hs

theorem dualInv_receive (h : DualInv p s) {copy : SentCopy Nat}
    (hs : dualStep p s (.receive copy) = some s') : DualInv p s' := by
  obtain ⟨hwire, r, hr, rfl⟩ := dualStep_receive hs
  have hsent : s.returned[copy.data]? = some 0 := (h.wire copy.data).mp ⟨copy, hwire, rfl⟩
  have hlt := (List.getElem?_eq_some_iff.mp hsent).1
  have hpass : Distinct s → (if r.1 then s.processed else copy.data :: s.processed) =
      arrive msgDedupRingSize s.processed copy.data ∧
      DedupInv r.2 ((arrive msgDedupRingSize s.processed copy.data).map p.number) := by
    intro hd
    obtain ⟨t, ht, hring⟩ := dedupCheck_receive h hd hlt
    obtain rfl := Option.some.inj (ht.symm.trans hr)
    exact ⟨by simp only [arrive, decide_eq_true_eq], hring⟩
  constructor
  · exact h.wire
  · intro m hm
    rcases List.mem_append.mp hm with hold | hnew
    · exact h.arrived m hold
    · rw [List.mem_singleton.mp hnew]
      exact hsent
  · intro hd
    obtain ⟨heq, hring⟩ := hpass hd
    show DedupInv r.2 ((if r.1 then s.processed else copy.data :: s.processed).map p.number)
    rw [heq]
    exact hring
  · intro hd
    show (if r.1 then s.processed else copy.data :: s.processed) =
      passed msgDedupRingSize (s.arrivals ++ [copy.data])
    rw [passed_concat, ← h.filtered hd, (hpass hd).1]

theorem dualInv_reachable (hr : (dualMachine p).Reachable s) : DualInv p s := by
  refine Machine.Reachable.induct (P := DualInv p) dualInv_init (fun s a s' h hs => ?_) hr
  cases a with
  | send ans => exact dualInv_send h hs
  | receive copy => exact dualInv_receive h hs

/-! ## How much disorder it stands -/

/-- Any number of messages can be sent. -/
theorem exists_sent (p : DualConfig) (n : Nat) : ∃ s, (dualMachine p).Reachable s ∧
    s.returned = List.replicate n 0 ∧ s.arrivals = [] := by
  induction n with
  | zero => exact ⟨_, Machine.Reachable.init, rfl, rfl⟩
  | succ n ih =>
    obtain ⟨s, hr, hreturned, harrivals⟩ := ih
    refine ⟨_, hr.step (a := .send ⟨0, 0⟩) rfl, ?_, harrivals⟩
    simp [ceellMsgRedundantSend, hreturned, List.replicate_succ']

/-- The copies of sent messages can arrive in any order, any number of
times. -/
theorem exists_arrivals (p : DualConfig) {n : Nat} (hn : n ≤ 2 ^ 32) (xs : List Nat)
    (hxs : ∀ x ∈ xs, x < n) : ∃ s, (dualMachine p).Reachable s ∧
      s.returned = List.replicate n 0 ∧ s.arrivals = xs := by
  induction xs using List.reverseRecOn with
  | nil => exact exists_sent p n
  | append_singleton xs x ih =>
    obtain ⟨s, hr, hreturned, harrivals⟩ :=
      ih fun y hy => hxs y (List.mem_append_left _ hy)
    have hlt : x < n := hxs x (by simp)
    have hinv := dualInv_reachable hr
    have hsent : s.returned[x]? = some 0 := by
      rw [hreturned, List.getElem?_replicate, if_pos hlt]
    obtain ⟨copy, hwire, rfl⟩ := (hinv.wire x).mpr hsent
    have hd : Distinct s := by
      rw [Distinct, hreturned, List.length_replicate]
      exact hn
    have hlen : copy.data < s.returned.length := (List.getElem?_eq_some_iff.mp hsent).1
    obtain ⟨t, ht, _⟩ := dedupCheck_receive hinv hd hlen
    obtain ⟨s', hs⟩ : ∃ s', dualStep p s (.receive copy) = some s' := by
      rw [dualStep, if_pos hwire, ht]
      exact ⟨_, rfl⟩
    obtain ⟨_, r, _, heq⟩ := dualStep_receive hs
    refine ⟨s', hr.step (a := .receive copy) hs, ?_, ?_⟩
    · rw [heq]
      exact hreturned
    · rw [heq]
      exact congrArg (· ++ [copy.data]) harrivals

/-- A message is sent if a path takes it, and processed once if a copy
arrives. -/
structure OnceEach (s : DualPath) : Prop where
  sent : SentWhereZero s
  all : ∀ m, m ∈ s.processed ↔ m ∈ s.arrivals
  once : s.processed.Nodup

/-- **Each message once**, in every run in which the numbers do not come round
and no copy arrives after a message that was sent `w` or more later. That
holds for all `w` up to 16, and for no other. -/
theorem dualPath_once_iff (p : DualConfig) (w : Nat) :
    (∀ s, (dualMachine p).Reachable s → Distinct s → InWindow w s.arrivals → OnceEach s) ↔
      w ≤ 16 := by
  constructor
  · intro h
    by_contra hw
    have hin : InWindow 17 ((17 - 1) :: others 17 ++ [17 - 1]) := inWindow_others (by decide)
    obtain ⟨s, hr, hreturned, harrivals⟩ :=
      exists_arrivals p (n := 33) (by decide) ((17 - 1) :: others 17 ++ [17 - 1]) (by decide)
    have hd : Distinct s := by
      rw [Distinct, hreturned, List.length_replicate]
      decide
    have honce := (h s hr hd (harrivals ▸ hin.mono (by omega))).once
    rw [(dualInv_reachable hr).filtered hd, harrivals] at honce
    exact not_nodup_passed_others (by decide) (by decide) honce
  · intro hw s hr hd hin
    have hinv := dualInv_reachable hr
    have hfiltered := hinv.filtered hd
    refine ⟨hinv.wire, fun m => by rw [hfiltered, mem_passed], ?_⟩
    rw [hfiltered]
    refine hin.nodup_passed ?_
    rw [msgDedupRingSize]
    omega

end Filter

end Ceell.Network
