/-
Ceell.Network.Expiry — the loop of `ceell_discovery_expire_peers`, pass by
pass.

`ceellDiscoveryExpirePeers` of `Ceell.Network.Discovery` is what the loop
leaves, by recursion on the entries that are still to be looked at. Here
the loop is the source's own: an index that stays where it is after a
removal and a bound that shrinks. `expirePeers_ok` says that it ends, after
as many passes as there were peers, and what it leaves.
-/
import Ceell.Network.Discovery

namespace Ceell.Network

open Ceell.Lib

/-- `i`, the table and `expired`. -/
structure ExpireLoop (max : Nat) where
  i : Nat
  table : PeerTable max
  expired : Nat

/-- The loop's body for a stale entry. No index here is outside the array
while `peer_count` is at most its size. -/
def removePeer {max : Nat} (i : Nat) (t : PeerTable max) : PeerTable max where
  peers :=
    if i < t.peerCount - 1 then
      (t.peers[t.peerCount - 1]?).elim t.peers fun last => t.peers.set i last
    else t.peers
  peerCount := t.peerCount - 1
  size_eq := by
    split
    · cases t.peers[t.peerCount - 1]? <;> simp [t.size_eq]
    · exact t.size_eq

/-- The loop's condition and body. -/
def expirePass (k : Kconfig) (now : Int) {max : Nat} (s : ExpireLoop max) :
    Option (ExpireLoop max) :=
  if s.i < s.table.peerCount then
    if (s.table.peers[s.i]?).any (isStale k now) then
      some { s with table := removePeer s.i s.table, expired := s.expired + 1 }
    else some { s with i := s.i + 1 }
  else none

section Loop

variable {k : Kconfig} {now : Int} {max : Nat}

/-- What the loop's variables have to do with the sweep that `t` is to get. -/
structure Sweeping (k : Kconfig) (now : Int) (t : PeerTable max) (s : ExpireLoop max) : Prop where
  index_le : s.i ≤ s.table.peerCount
  count_le : s.table.peerCount ≤ max
  rest : sweep (isStale k now) (s.table.peerCount - s.i) s.i s.table.peers
    = sweep (isStale k now) t.peerCount 0 t.peers
  counted : s.expired + s.table.peerCount = t.peerCount

/-- The peers still to be looked at. -/
def ExpireLoop.left (s : ExpireLoop max) : Nat := s.table.peerCount - s.i

theorem sweeping_pass {t : PeerTable max} {s : ExpireLoop max} (hi : Sweeping k now t s)
    (hleft : 0 < s.left) :
    ∃ s', expirePass k now s = some s' ∧ Sweeping k now t s' ∧ s'.left + 1 = s.left := by
  obtain ⟨i, ⟨peers, count, hsize⟩, expired⟩ := s
  obtain ⟨_, hcount, hrest, hexpired⟩ := hi
  simp only [ExpireLoop.left] at hleft hcount hrest hexpired ⊢
  obtain ⟨left, hcnt⟩ : ∃ left, count = i + (left + 1) := ⟨count - i - 1, by omega⟩
  have hlt : i < peers.length := by omega
  have hlast : i + left < peers.length := by omega
  have hx : peers[i]? = some peers[i] := List.getElem?_eq_getElem hlt
  have hl : peers[i + left]? = some peers[i + left] := List.getElem?_eq_getElem hlast
  have hsub : count - i = left + 1 := by omega
  have hpred : count - 1 = i + left := by omega
  rw [hsub, sweep, hx, hl] at hrest
  cases hstale : isStale k now peers[i] with
  | true =>
    refine ⟨⟨i, removePeer i ⟨peers, count, hsize⟩, expired + 1⟩, ?_, ?_, ?_⟩
    · simp [expirePass, hx, hstale, hcnt]
    · constructor
      · simp only [removePeer]
        omega
      · simp only [removePeer]
        omega
      · simp only [hstale, if_true] at hrest
        have hwindow : i + left - i = left := by omega
        have hmove : i < i + left ↔ 0 < left := by omega
        simp only [removePeer, hpred, hwindow, hl, Option.elim_some, hmove]
        exact hrest
      · simp only [removePeer]
        omega
    · simp only [removePeer]
      omega
  | false =>
    refine ⟨⟨i + 1, ⟨peers, count, hsize⟩, expired⟩, ?_, ?_, ?_⟩
    · simp [expirePass, hx, hstale, hcnt]
    · constructor
      · dsimp only
        omega
      · exact hcount
      · simp only [hstale, Bool.false_eq_true, if_false] at hrest
        have hwindow : count - (i + 1) = left := by omega
        simp only [hwindow]
        exact hrest
      · exact hexpired
    · dsimp only
      omega

theorem expirePass_done {s : ExpireLoop max} (h : s.left = 0) : expirePass k now s = none := by
  have hnot : ¬ s.i < s.table.peerCount := by
    simp only [ExpireLoop.left] at h
    omega
  rw [expirePass, if_neg hnot]

/-- The loop ends in what `ceellDiscoveryExpirePeers` returns. -/
theorem exists_expireLoop (k : Kconfig) (now : Int) (t : PeerTable max)
    (hcount : t.peerCount ≤ max) :
    ∃ e, EndsAfter (expirePass k now) t.peerCount ⟨0, t, 0⟩ e ∧
      (e.table, e.expired) = ceellDiscoveryExpirePeers k now t := by
  have hinit : Sweeping k now t ⟨0, t, 0⟩ := ⟨Nat.zero_le _, hcount, rfl, Nat.zero_add _⟩
  obtain ⟨⟨i, ⟨peers, count, hsize⟩, expired⟩, hends, hi, hdone⟩ :=
    exists_endsAfter (fun s hi => sweeping_pass hi) (fun s _ => expirePass_done) hinit
  refine ⟨_, hends, ?_⟩
  have hrest := hi.rest
  have hindex := hi.index_le
  have hcounted := hi.counted
  simp only [ExpireLoop.left] at hdone hrest hindex hcounted
  have heq : i = count := by omega
  rw [hdone, heq, sweep] at hrest
  simp only [ceellDiscoveryExpirePeers, ← hrest, Prod.mk.injEq, true_and]
  omega

end Loop

/-- **An expiry**, for every table and every time: the loop ends, after as
many passes as there were peers; it leaves the peers heard within the
timeout, each as it was, and returns how many others there were. -/
theorem expirePeers_ok (k : Kconfig) (now : Int) {max : Nat} (t : PeerTable max)
    (hcount : t.peerCount ≤ max) :
    ∃ e, EndsAfter (expirePass k now) t.peerCount ⟨0, t, 0⟩ e ∧
      (e.table, e.expired) = ceellDiscoveryExpirePeers k now t ∧
      e.table.entries.Perm (t.entries.filter fun p => now - p.lastSeen ≤ k.peerTimeoutMs) ∧
      e.table.peerCount = (t.entries.filter fun p => now - p.lastSeen ≤ k.peerTimeoutMs).length ∧
      e.expired = (t.entries.filter fun p => ¬ now - p.lastSeen ≤ k.peerTimeoutMs).length := by
  obtain ⟨e, hends, heq⟩ := exists_expireLoop k now t hcount
  obtain ⟨hle, hperm, hret⟩ := expire_spec k now t hcount
  rw [← heq] at hle hperm hret
  have hstale : (fun p => !isStale k now p)
      = fun p => decide (now - p.lastSeen ≤ k.peerTimeoutMs) := by
    funext p
    rw [isStale, Bool.eq_iff_iff]
    simp
  rw [hstale] at hperm
  have hkept : e.table.peerCount
      = (t.entries.filter fun p => now - p.lastSeen ≤ k.peerTimeoutMs).length := by
    rw [← hperm.length_eq, length_entries (Nat.le_trans hle hcount)]
  refine ⟨e, hends, heq, hperm, hkept, ?_⟩
  have hsum := List.length_eq_length_filter_add (l := t.entries)
    (fun p => decide (now - p.lastSeen ≤ k.peerTimeoutMs))
  rw [length_entries hcount, ← hkept] at hsum
  simp only [decide_not]
  dsimp only at hret hle
  omega

/-- Three peers, of which the first and the last are stale. -/
def stalePeers : PeerTable 3 where
  peers := [{ Peer.zero with nodeId := 1 }, { Peer.zero with nodeId := 2, lastSeen := 4000 },
    { Peer.zero with nodeId := 3 }]
  peerCount := 3
  size_eq := rfl

theorem expirePeers_ok_stalePeers :
    ∃ e, EndsAfter (expirePass {} 6000) 3 ⟨0, stalePeers, 0⟩ e ∧
      e.table.entries.Perm [{ Peer.zero with nodeId := 2, lastSeen := 4000 }] ∧
      e.table.peerCount = 1 ∧ e.expired = 2 := by
  obtain ⟨e, hends, _, hperm, hcount, hret⟩ := expirePeers_ok {} 6000 stalePeers (by decide)
  exact ⟨e, hends, hperm, hcount, hret⟩

end Ceell.Network
