/-
Ceell.Network.MsgRedundancy — `ceell/network/msg_redundancy.c`: the ring of
sequence numbers by which the second copy of a message is told from the
first.

The ring is searched backwards from its head. `msgDedupCheck_window`: after
any run the search finds a number exactly if it is among the last 32 that
were taken for new, whatever the unused slots hold.
-/
import Ceell.Lib.Machine
import Ceell.Lib.RingBuf
import Ceell.Lib.SwapRemove
import Ceell.Network.Message

namespace Ceell.Network

open Ceell.Lib

/-! ## The module's state -/

/-- `CEELL_MSG_DEDUP_RING_SIZE`. -/
def msgDedupRingSize : Nat := 32

/-- `secondary_sock`, `dedup_ring`, `dedup_head`, `dedup_count`. -/
structure MsgRedundancy where
  secondarySock : Int
  dedupRing : List UInt32
  dedupHead : Int
  dedupCount : Int
  deriving DecidableEq

/-- The module before its init. -/
def MsgRedundancy.zero : MsgRedundancy := ⟨-1, List.replicate msgDedupRingSize 0, 0, 0⟩

/-- What the calls of the init return. -/
structure RedundancyAnswers where
  mutexInit : Int
  socket : Int
  bind : Int

/-- `ceell_msg_redundancy_init`. -/
def ceellMsgRedundancyInit (ans : RedundancyAnswers) (s : MsgRedundancy) : MsgRedundancy × Int :=
  if ans.mutexInit < 0 then (s, ans.mutexInit)
  else
    let s' : MsgRedundancy := ⟨ans.socket, List.replicate msgDedupRingSize 0, 0, 0⟩
    if ans.socket < 0 then (s', ans.socket)
    else if ans.bind < 0 then ({ s' with secondarySock := -1 }, ans.bind)
    else (s', 0)

/-! ## The check -/

/-- `dedup_ring[idx]`; `none` outside the array. -/
def dedupSlot (s : MsgRedundancy) (idx : Int) : Option UInt32 :=
  if 0 ≤ idx then s.dedupRing[idx.toNat]? else none

/-- The index read in pass `i` of the search. -/
def dedupIdx (s : MsgRedundancy) (i : Int) : Int :=
  (s.dedupHead - 1 - i + msgDedupRingSize).tmod msgDedupRingSize

/-- The search from pass `i` with `left` passes to go. -/
def dedupSearch (seq : UInt32) (s : MsgRedundancy) : Nat → Int → Option Bool
  | 0, _ => some false
  | left + 1, i =>
      (dedupSlot s (dedupIdx s i)).bind fun x =>
        if x = seq then some true else dedupSearch seq s left (i + 1)

/-- "New sequence — record it". -/
def dedupRecord (seq : UInt32) (s : MsgRedundancy) : MsgRedundancy :=
  { s with
    dedupRing := s.dedupRing.set s.dedupHead.toNat seq
    dedupHead := (s.dedupHead + 1).tmod msgDedupRingSize
    dedupCount := if s.dedupCount < msgDedupRingSize then s.dedupCount + 1 else s.dedupCount }

/-- `ceell_msg_dedup_check`: the answer and the state; `none` is an access
outside the ring. -/
def ceellMsgDedupCheck (seq : UInt32) (s : MsgRedundancy) : Option (Bool × MsgRedundancy) :=
  let searchCount := if s.dedupCount < msgDedupRingSize then s.dedupCount else msgDedupRingSize
  (dedupSearch seq s searchCount.toNat 0).bind fun found =>
    if found then some (true, s)
    else (dedupSlot s s.dedupHead).map fun _ => (false, dedupRecord seq s)

/-- `ceell_msg_redundancy_get_sock`. -/
def ceellMsgRedundancyGetSock (s : MsgRedundancy) : Int := s.secondarySock

/-! ## The two paths -/

/-- A datagram that a socket has taken. -/
structure SentCopy (β : Type) where
  sock : Int
  dest : SockAddr
  data : β
  deriving DecidableEq

/-- What the two calls of `ceell_sendto` return. -/
structure SendtoAnswers where
  primary : Int
  secondary : Int

/-- `ceell_msg_redundant_send`: the copies that were taken, and what it
returns; `port` is `CONFIG_CEELL_MSG_PORT_SECONDARY`. -/
def ceellMsgRedundantSend {β : Type} (port : UInt16) (s : MsgRedundancy) (primarySock : Int)
    (buf : β) (dest : SockAddr) (ans : SendtoAnswers) : List (SentCopy β) × Int :=
  let retPrimary := ans.primary
  let retSecondary := if s.secondarySock ≥ 0 then ans.secondary else -ENODEV
  let primary : List (SentCopy β) := if retPrimary ≥ 0 then [⟨primarySock, dest, buf⟩] else []
  let secondary : List (SentCopy β) :=
    if retSecondary ≥ 0 then [⟨s.secondarySock, { dest with port := port }, buf⟩] else []
  (primary ++ secondary, if retPrimary ≥ 0 ∨ retSecondary ≥ 0 then 0 else retPrimary)

/-! ## Runs -/

/-- The module, and the numbers its checks have taken for new since the
init, newest first. -/
structure DedupRun where
  msg : MsgRedundancy
  accepted : Option (List UInt32)

inductive DedupAct where
  | init (ans : RedundancyAnswers)
  | check (seq : UInt32)

/-- A check is made after the init has made the mutex. -/
def dedupStep (s : DedupRun) : DedupAct → Option DedupRun
  | .init ans =>
      some ⟨(ceellMsgRedundancyInit ans s.msg).1,
        if ans.mutexInit < 0 then s.accepted else some []⟩
  | .check seq =>
      s.accepted.bind fun accepted =>
        (ceellMsgDedupCheck seq s.msg).map fun r =>
          ⟨r.2, some (if r.1 then accepted else seq :: accepted)⟩

def dedupMachine : Machine DedupRun DedupAct where
  init := ⟨.zero, none⟩
  step := dedupStep

/-! ## The ring behind the search -/

/-- The ring that the arrays and counters make. -/
def MsgRedundancy.ring (s : MsgRedundancy) : RingBuf UInt32 :=
  ⟨s.dedupRing, s.dedupHead.toNat, s.dedupCount.toNat⟩

/-- The ring holds what was accepted. -/
structure DedupInv (s : MsgRedundancy) (accepted : List UInt32) : Prop where
  size : s.dedupRing.length = msgDedupRingSize
  head : 0 ≤ s.dedupHead
  count : 0 ≤ s.dedupCount
  holds : s.ring.Holds accepted

variable {s : MsgRedundancy} {accepted : List UInt32} {seq : UInt32}

theorem DedupInv.size_ring (hi : DedupInv s accepted) : s.ring.size = 32 := hi.size

theorem DedupInv.head_lt (hi : DedupInv s accepted) : s.dedupHead < 32 := by
  have hlt := hi.holds.head_lt (by rw [hi.size_ring]; decide)
  rw [hi.size_ring] at hlt
  have := hi.head
  have : s.dedupHead.toNat < 32 := hlt
  omega

/-- The search goes back slot by slot. -/
theorem DedupInv.idx_eq (hi : DedupInv s accepted) {i : Nat} (hlt : i < 32) :
    dedupIdx s i = s.ring.back i := by
  have hhead := hi.head
  have hback : s.ring.back i = (s.dedupHead.toNat + 32 - 1 - i) % 32 := by
    rw [RingBuf.back, hi.size_ring]
    rfl
  rw [dedupIdx, hback, msgDedupRingSize, Int.tmod_eq_emod_of_nonneg (by omega)]
  omega

theorem DedupInv.slot_eq (hi : DedupInv s accepted) {i : Nat} (hlt : i < s.ring.count) :
    dedupSlot s (dedupIdx s i) = accepted[i]? := by
  have hcount := hi.holds.count_le
  rw [hi.size_ring] at hcount
  rw [hi.idx_eq (by omega), dedupSlot, if_pos (Int.natCast_nonneg _), Int.toNat_natCast]
  exact hi.holds.getElem?_back hlt

/-- **The search**, by induction on the passes to go: it stays in the ring
and looks at the numbers accepted last, one by one. -/
theorem dedupSearch_eq (hi : DedupInv s accepted) :
    ∀ left i : Nat, i + left ≤ s.ring.count →
      dedupSearch seq s left i = some (decide (seq ∈ (accepted.drop i).take left)) := by
  intro left
  induction left with
  | zero =>
    intro i _
    simp [dedupSearch]
  | succ left ih =>
    intro i hle
    have hlen : i < accepted.length := by
      have := hi.holds.count
      omega
    have hx : accepted[i]? = some accepted[i] := List.getElem?_eq_getElem hlen
    rw [dedupSearch, hi.slot_eq (by omega), hx, Option.bind_some, take_drop_succ left hx]
    by_cases heq : accepted[i] = seq
    · simp [heq]
    · have hrest := ih (i + 1) (by omega)
      rw [Int.natCast_add, Int.natCast_one] at hrest
      rw [if_neg heq, hrest]
      simp [Ne.symm heq]

/-- The passes cover what the ring holds. -/
theorem DedupInv.search_eq (hi : DedupInv s accepted) :
    dedupSearch seq s
        (if s.dedupCount < msgDedupRingSize then s.dedupCount else msgDedupRingSize).toNat 0 =
      some (decide (seq ∈ accepted.take msgDedupRingSize)) := by
  have hcount := hi.holds.count
  rw [hi.size_ring] at hcount
  have hpasses : (if s.dedupCount < msgDedupRingSize then s.dedupCount
      else msgDedupRingSize).toNat = s.ring.count := by
    have := hi.count
    have hnat : s.ring.count = s.dedupCount.toNat := rfl
    rw [msgDedupRingSize]
    split <;> omega
  have htake : accepted.take s.ring.count = accepted.take msgDedupRingSize := by
    rw [List.take_eq_take_iff, hcount, msgDedupRingSize]
    omega
  rw [hpasses, ← htake]
  exact dedupSearch_eq hi _ 0 (by omega)

/-- A new number goes into the ring. -/
theorem DedupInv.record (hi : DedupInv s accepted) (seq : UInt32) :
    DedupInv (dedupRecord seq s) (seq :: accepted) := by
  have hhead := hi.head
  have hcount := hi.count
  have hmod : (s.dedupHead + 1).tmod msgDedupRingSize = (s.dedupHead + 1) % 32 :=
    Int.tmod_eq_emod_of_nonneg (by omega)
  have hring : (dedupRecord seq s).ring = s.ring.push seq := by
    refine RingBuf.ext rfl ?_ ?_
    · change ((s.dedupHead + 1).tmod msgDedupRingSize).toNat =
        (s.dedupHead.toNat + 1) % s.ring.size
      rw [hmod, hi.size_ring]
      omega
    · change (if s.dedupCount < msgDedupRingSize then s.dedupCount + 1 else s.dedupCount).toNat =
        if s.dedupCount.toNat < s.ring.size then s.dedupCount.toNat + 1 else s.dedupCount.toNat
      rw [hi.size_ring, msgDedupRingSize]
      split <;> split <;> omega
  refine ⟨?_, ?_, ?_, ?_⟩
  · simpa [dedupRecord] using hi.size
  · rw [dedupRecord, hmod]
    dsimp only
    omega
  · rw [dedupRecord]
    dsimp only
    split <;> omega
  · rw [hring]
    exact hi.holds.push (by rw [hi.size_ring]; decide) seq

/-- **The check**, under the invariant. -/
theorem ceellMsgDedupCheck_eq (hi : DedupInv s accepted) (seq : UInt32) :
    ∃ t, ceellMsgDedupCheck seq s = some (decide (seq ∈ accepted.take msgDedupRingSize), t) ∧
      (seq ∈ accepted.take msgDedupRingSize → t = s) ∧
      DedupInv t (if seq ∈ accepted.take msgDedupRingSize then accepted else seq :: accepted) := by
  rw [ceellMsgDedupCheck, hi.search_eq, Option.bind_some]
  by_cases hmem : seq ∈ accepted.take msgDedupRingSize
  · refine ⟨s, ?_, fun _ => rfl, ?_⟩
    · simp [hmem]
    · rw [if_pos hmem]
      exact hi
  · obtain ⟨x, hx⟩ : ∃ x, dedupSlot s s.dedupHead = some x := by
      have hlt := hi.head_lt
      have hhead := hi.head
      have hsize := hi.size
      rw [dedupSlot, if_pos hhead]
      exact ⟨_, List.getElem?_eq_getElem (by rw [hsize, msgDedupRingSize]; omega)⟩
    refine ⟨dedupRecord seq s, ?_, fun h => absurd h hmem, ?_⟩
    · simp [hmem, hx]
    · rw [if_neg hmem]
      exact hi.record seq

/-! ## Every run -/

theorem dedupInv_init (ans : RedundancyAnswers) (s : MsgRedundancy) (h : ¬ ans.mutexInit < 0) :
    DedupInv (ceellMsgRedundancyInit ans s).1 [] := by
  have hcleared : ∀ sock, DedupInv ⟨sock, List.replicate msgDedupRingSize 0, 0, 0⟩ [] :=
    fun sock => ⟨by simp, by simp, by simp, RingBuf.holds_blank msgDedupRingSize 0⟩
  rw [ceellMsgRedundancyInit, if_neg h]
  dsimp only
  split
  · exact hcleared _
  · split
    · exact hcleared _
    · exact hcleared _

theorem dedupInv_step {s s' : DedupRun} {a : DedupAct}
    (hi : ∀ accepted, s.accepted = some accepted → DedupInv s.msg accepted)
    (hs : dedupStep s a = some s') :
    ∀ accepted, s'.accepted = some accepted → DedupInv s'.msg accepted := by
  cases a with
  | init ans =>
    obtain rfl := Option.some.inj hs
    intro accepted hacc
    dsimp only at hacc ⊢
    by_cases hmutex : ans.mutexInit < 0
    · rw [if_pos hmutex] at hacc
      rw [ceellMsgRedundancyInit, if_pos hmutex]
      exact hi accepted hacc
    · rw [if_neg hmutex] at hacc
      obtain rfl := Option.some.inj hacc
      exact dedupInv_init ans s.msg hmutex
  | check seq =>
    obtain ⟨accepted, hacc, hs⟩ := Option.bind_eq_some_iff.mp hs
    obtain ⟨r, hr, rfl⟩ := Option.map_eq_some_iff.mp hs
    obtain ⟨t, ht, _, hinv⟩ := ceellMsgDedupCheck_eq (hi accepted hacc) seq
    obtain rfl := Option.some.inj (ht.symm.trans hr)
    intro accepted' hacc'
    obtain rfl := Option.some.inj hacc'
    simpa using hinv

theorem dedupInv_of_reachable {s : DedupRun} (hr : dedupMachine.Reachable s) :
    ∀ accepted, s.accepted = some accepted → DedupInv s.msg accepted := by
  refine Machine.Reachable.induct
    (P := fun s : DedupRun => ∀ accepted, s.accepted = some accepted → DedupInv s.msg accepted)
    (fun _ h => by simp [dedupMachine] at h) (fun s a s' hi hs => ?_) hr
  exact dedupInv_step hi hs

/-- Checks only add to what was accepted. -/
theorem accepted_of_checks (seqs : List UInt32) :
    ∀ {s t : DedupRun} {accepted : List UInt32}, s.accepted = some accepted →
      dedupMachine.runFrom s (seqs.map .check) = some t →
      ∃ newer, t.accepted = some (newer ++ accepted) := by
  induction seqs with
  | nil =>
    intro s t accepted hacc hrun
    obtain rfl := Option.some.inj hrun
    exact ⟨[], hacc⟩
  | cons seq seqs ih =>
    intro s t accepted hacc hrun
    obtain ⟨s', hs, hrest⟩ := Machine.runFrom_eq_some_cons hrun
    have hs : dedupStep s (.check seq) = some s' := hs
    rw [dedupStep, hacc, Option.bind_some] at hs
    obtain ⟨r, _, rfl⟩ := Option.map_eq_some_iff.mp hs
    obtain ⟨newer, hnewer⟩ := ih rfl hrest
    by_cases hdup : r.1
    · exact ⟨newer, by simpa [hdup] using hnewer⟩
    · exact ⟨newer ++ [seq], by simpa [hdup] using hnewer⟩

/-- **Over every run**: a check stays in the ring, finds a number exactly if
it is among the last 32 that were taken for new since the init, and then
changes nothing; and the second copy of a number is found as long as the
checks since the first have taken fewer than 32 others for new. -/
theorem msgDedupCheck_window (s : DedupRun) (hr : dedupMachine.Reachable s)
    (accepted : List UInt32) (hacc : s.accepted = some accepted) (seq : UInt32) :
    (∃ dup t, ceellMsgDedupCheck seq s.msg = some (dup, t) ∧
      (dup = true ↔ seq ∈ accepted.take msgDedupRingSize) ∧ (dup = true → t = s.msg)) ∧
    ∀ first, dedupStep s (.check seq) = some first → first.accepted = some (seq :: accepted) →
      ∀ (seqs : List UInt32) t later, dedupMachine.runFrom first (seqs.map .check) = some t →
        t.accepted = some later → later.length < (seq :: accepted).length + msgDedupRingSize →
          ceellMsgDedupCheck seq t.msg = some (true, t.msg) := by
  constructor
  · obtain ⟨t, ht, hsame, _⟩ := ceellMsgDedupCheck_eq (dedupInv_of_reachable hr accepted hacc) seq
    exact ⟨_, t, ht, by simp, fun hdup => hsame (by simpa using hdup)⟩
  · intro first hfirst hnew seqs t later hrun hlater hfew
    obtain ⟨newer, hnewer⟩ := accepted_of_checks seqs hnew hrun
    obtain rfl := Option.some.inj (hnewer.symm.trans hlater)
    have hfirst : dedupMachine.step s (.check seq) = some first := hfirst
    have hreach : dedupMachine.Reachable t := (hr.step hfirst).runFrom hrun
    have hmem : seq ∈ (newer ++ seq :: accepted).take msgDedupRingSize := by
      have hshort : newer.length < msgDedupRingSize := by
        simp only [List.length_append] at hfew
        omega
      rw [List.take_append]
      obtain ⟨k, hk⟩ := Nat.exists_eq_add_of_lt hshort
      have hroom : msgDedupRingSize - newer.length = k + 1 := by omega
      simp [hroom]
    obtain ⟨u, hu, hsame, _⟩ :=
      ceellMsgDedupCheck_eq (dedupInv_of_reachable hreach _ hlater) seq
    rw [hu, hsame hmem, decide_eq_true hmem]

/-- Number 0 among others, in a ring whose unused slots hold 0. -/
theorem msgDedupCheck_window_zero :
    ∃ s first t, dedupMachine.run [.init ⟨0, 3, 0⟩, .check 7] = some s ∧
      dedupStep s (.check 0) = some first ∧
      dedupMachine.runFrom first ([8, 9].map .check) = some t ∧
      (∃ dup u, ceellMsgDedupCheck 0 s.msg = some (dup, u) ∧
        (dup = true ↔ 0 ∈ ([7] : List UInt32).take msgDedupRingSize) ∧
        (dup = true → u = s.msg)) ∧
      ceellMsgDedupCheck 0 t.msg = some (true, t.msg) := by
  refine ⟨_, _, _, rfl, rfl, rfl, ?_⟩
  have hwindow := msgDedupCheck_window _ ⟨[.init ⟨0, 3, 0⟩, .check 7], rfl⟩ [7] rfl 0
  exact ⟨hwindow.1, hwindow.2 _ rfl rfl [8, 9] _ [9, 8, 0, 7] rfl rfl (by decide)⟩

end Ceell.Network
