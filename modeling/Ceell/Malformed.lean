/-
Ceell.Malformed — datagrams that are not announcements, from the discovery
socket to the reports of the health monitor.

`rx_thread_fn` drops what the parser rejects. What the parser accepts may
still lack fields: `update_peer` files it under the id it has, 0 if it has
none. `malformedLeaves_iff_harmless` settles which datagrams that leaves without
effect, and that with only those no node is ever reported LOST that has
not announced itself.

`rxMachine` is the node of `Ceell.Main` with datagrams in place of decoded
announcements, and with the history that "announced itself" speaks of.
-/
import Ceell.Core.Lifecycle
import Ceell.Network.Announcement
import Ceell.Recovery

namespace Ceell

open Ceell.Lib Ceell.Osal Ceell.Network Ceell.Core

/-! ## Datagrams -/

/-- What the parser makes of the bytes received. -/
def rxParse (lib : JsonLib) (datagram : List Char) : JsonParsed :=
  lib.parse discoveryMsgDescr (datagram.take (recvBufSize - 1))

/-- A field was decoded as a number. -/
def hasNum (r : JsonParsed) (name : String) : Bool :=
  match r.val name.toList with
  | some (.num _) => true
  | _ => false

/-- A field was decoded as a string. -/
def hasStr (r : JsonParsed) (name : String) : Bool :=
  match r.val name.toList with
  | some (.str _) => true
  | _ => false

/-- An object with the five fields of an announcement, `node_id` a number
and the others strings. -/
def isAnnouncement (lib : JsonLib) (datagram : List Char) : Bool :=
  let r := rxParse lib datagram
  0 ≤ r.ret && hasNum r "node_id" && hasStr r "role" && hasStr r "name" && hasStr r "ip" &&
    hasStr r "services"

/-- The message that reaches `update_peer`, if one does. -/
def rxMsg (lib : JsonLib) (datagram : List Char) : Option DiscoveryMsg :=
  if datagram.take (recvBufSize - 1) = [] ∨ (rxParse lib datagram).ret < 0 then none
  else some (.ofParsed (rxParse lib datagram))

theorem rxThreadFn_eq {max : Nat} (lib : JsonLib) (me : Option Identity) (now : Int)
    (datagram : List Char) (t : PeerTable max) :
    rxThreadFn lib me now datagram t
      = (rxMsg lib datagram).elim t fun msg => updatePeer me now msg t := by
  by_cases hnil : datagram.take (recvBufSize - 1) = []
  · rw [rxThreadFn, if_pos hnil, rxMsg, if_pos (Or.inl hnil), Option.elim_none]
  · by_cases hret : (rxParse lib datagram).ret < 0
    · rw [rxMsg, if_pos (Or.inr hret), Option.elim_none, rxThreadFn, if_neg hnil]
      exact if_pos hret
    · rw [rxMsg, if_neg (not_or.mpr ⟨hnil, hret⟩), Option.elim_some, rxThreadFn, if_neg hnil]
      exact if_neg hret

/-! ## Runs -/

/-- The node, the ids under which complete announcements came in, and the
peers the last step reported LOST. -/
structure RxRun (max : Nat) where
  node : NodeState max
  announced : NodeId → Bool
  lost : NodeId → Bool

inductive RxAct where
  | datagram (now : Int) (bytes : List Char)
  | expire (now : Int)
  | update (now : Int)

/-- One pass of `rx_thread_fn`, one expiry or one health update. -/
def rxStep (lib : JsonLib) (k : Kconfig) (me : Identity) {max : Nat} (s : RxRun max) :
    RxAct → Option (RxRun max)
  | .datagram now bytes =>
      match rxMsg lib bytes with
      | none => some { s with lost := fun _ => false }
      | some msg =>
          (nodeStep k me s.node (.discovery (.announce now msg))).map fun n =>
            { node := n
              announced := fun id => s.announced id || (id == msg.id && isAnnouncement lib bytes)
              lost := fun _ => false }
  | .expire now =>
      (nodeStep k me s.node (.discovery (.expire now))).map fun n =>
        { s with node := n, lost := fun _ => false }
  | .update now =>
      (nodeStep k me s.node (.update now)).map fun n =>
        { s with
          node := n
          lost := fun id =>
            reportsLost (ceellHealthUpdate k now s.node.snapshot s.node.health).2 id }

/-- Datagrams, expiries and health updates in any order. -/
def rxMachine (lib : JsonLib) (k : Kconfig) (me : Identity) :
    Machine (RxRun k.discoveryMaxPeers) RxAct where
  init := ⟨(nodeMachine k me).init, fun _ => false, fun _ => false⟩
  step := rxStep lib k me

/-- A datagram that is not an announcement leaves the peer table as it is. -/
def LeavesTable (lib : JsonLib) (me : Identity) {max : Nat} (s : RxRun max) : RxAct → Prop
  | .datagram now bytes => isAnnouncement lib bytes = false →
      rxThreadFn lib (some me) now bytes s.node.disc.table = s.node.disc.table
  | _ => True

/-- A peer reported LOST has announced itself. -/
def LostAnnounced {max : Nat} (s : RxRun max) : Prop :=
  ∀ id, s.lost id = true → s.announced id = true

/-- A datagram that is not an announcement does not reach `update_peer`, or
is not accepted there, being filed under our own id or under an unknown one
at a full table, or finds the entry of its id as it would leave it: seen in
this very millisecond and with the services that it names, if it names any. -/
def Harmless (lib : JsonLib) (me : Identity) {max : Nat} (s : RxRun max) : RxAct → Prop
  | .datagram now bytes => isAnnouncement lib bytes = false → ∀ msg ∈ rxMsg lib bytes,
      Accepts me s.node.disc.table msg.id → ∃ p ∈ s.node.disc.table.entryOf msg.id,
        p.lastSeen = now ∧ ∀ src ∈ msg.services, (CharBuf.zero 128).copy src = p.services
  | _ => True

section Runs

variable {lib : JsonLib} {k : Kconfig} {me : Identity} {s s' : RxRun k.discoveryMaxPeers}

/-- What a datagram has to be like to leave the table as it is. -/
theorem leavesTable_iff {a : RxAct} (hi : NodeInv k me s.node) :
    LeavesTable lib me s a ↔ Harmless lib me s a := by
  cases a with
  | expire now => exact Iff.rfl
  | update now => exact Iff.rfl
  | datagram now bytes =>
    refine imp_congr_right fun _ => ?_
    rw [rxThreadFn_eq]
    cases rxMsg lib bytes with
    | none => simp
    | some msg =>
      simp only [Option.elim_some, Option.mem_some_iff, forall_eq']
      by_cases hacc : Accepts me s.node.disc.table msg.id
      · simp only [hacc, forall_const, updatePeer_eq_self_iff hacc, refreshPeer_eq_self_iff]
      · simp only [hacc, false_imp_iff, iff_true]
        exact updatePeer_of_not_accepts now hi.disc.count_le hacc

theorem rxStep_node {a : RxAct} (hs : rxStep lib k me s a = some s') :
    s'.node = s.node ∨ ∃ b, nodeStep k me s.node b = some s'.node := by
  cases a with
  | datagram now bytes =>
    simp only [rxStep] at hs
    split at hs
    · obtain rfl := Option.some.inj hs
      exact Or.inl rfl
    · obtain ⟨n, hn, rfl⟩ := Option.map_eq_some_iff.mp hs
      exact Or.inr ⟨_, hn⟩
  | expire now =>
    obtain ⟨n, hn, rfl⟩ := Option.map_eq_some_iff.mp hs
    exact Or.inr ⟨_, hn⟩
  | update now =>
    simp only [rxStep] at hs
    obtain ⟨n, hn, rfl⟩ := Option.map_eq_some_iff.mp hs
    exact Or.inr ⟨_, hn⟩

theorem nodeInv_rxStep {a : RxAct} (hi : NodeInv k me s.node) (hs : rxStep lib k me s a = some s') :
    NodeInv k me s'.node := by
  rcases rxStep_node hs with h | ⟨b, hb⟩
  · rw [h]
    exact hi
  · exact nodeInv_step hi hb

/-- Every peer the node knows of has announced itself. -/
structure AllAnnounced {max : Nat} (s : RxRun max) : Prop where
  peers : ∀ id ∈ s.node.disc.table.ids, s.announced id = true
  tracked : ∀ id ∈ trackedIds s.node.health, s.announced id = true
  lost : LostAnnounced s

/-- A datagram brings no peer in that has not announced itself. -/
theorem allAnnounced_datagram {now : Int} {bytes : List Char} (hi : NodeInv k me s.node)
    (hp : AllAnnounced s) (hleaves : LeavesTable lib me s (.datagram now bytes))
    (hs : rxStep lib k me s (.datagram now bytes) = some s') : AllAnnounced s' := by
  simp only [rxStep] at hs
  split at hs
  · obtain rfl := Option.some.inj hs
    exact ⟨hp.peers, hp.tracked, fun id h => absurd h Bool.false_ne_true⟩
  · rename_i msg hmsg
    obtain ⟨n, hn, rfl⟩ := Option.map_eq_some_iff.mp hs
    refine ⟨?_, ?_, fun id h => absurd h Bool.false_ne_true⟩
    · intro id hid
      obtain ⟨d, hd, rfl⟩ := Option.map_eq_some_iff.mp hn
      cases hcomplete : isAnnouncement lib bytes with
      | true =>
        rcases mem_ids_announce hi.disc hd hid with h | ⟨rfl, _⟩
        · simp [hp.peers id h]
        · simp
      | false =>
        have hsame := hleaves hcomplete
        rw [rxThreadFn_eq, hmsg, Option.elim_some] at hsame
        have htable : d.table = updatePeer (some me) now msg s.node.disc.table :=
          congrArg DiscoveryRun.table (discoveryStep_announce hd).2
        have hid' : id ∈ d.table.ids := hid
        rw [htable, hsame] at hid'
        simp [hp.peers id hid']
    · intro id hid
      have hid' : id ∈ trackedIds n.health := hid
      rw [health_discovery hn] at hid'
      simp [hp.tracked id hid']

/-- An update tracks and reports only what it finds. -/
theorem allAnnounced_update {now : Int} (hi : NodeInv k me s.node) (hp : AllAnnounced s)
    (hs : rxStep lib k me s (.update now) = some s') : AllAnnounced s' := by
  simp only [rxStep] at hs
  obtain ⟨n, hn, rfl⟩ := Option.map_eq_some_iff.mp hs
  obtain ⟨hr, hsame⟩ := hi.ready_served
  have hserved : ∀ id ∈ s.node.served.map (·.nodeId), s.announced id = true := by
    intro id hid
    refine hp.peers id ?_
    have hsub := ((served_sublist _ _).map (·.nodeId)).subset hid
    rwa [snapshot_eq_entries hi] at hsub
  have hdisc : n.disc = s.node.disc := by
    obtain rfl := Option.some.inj hn
    rfl
  refine ⟨?_, ?_, ?_⟩
  · intro id hid
    have hid' : id ∈ n.disc.table.ids := hid
    rw [hdisc] at hid'
    exact hp.peers id hid'
  · intro id hid
    have hid' : id ∈ trackedIds n.health := hid
    rw [health_update hn, ← hsame] at hid'
    rcases hr.tracked.mp hid' with h | h
    · exact hserved id h
    · exact hp.tracked id h
  · intro id hid
    have hid' : reportsLost (ceellHealthUpdate k now s.node.snapshot s.node.health).2 id = true :=
      hid
    rw [← hsame, reportsLost_iff hr] at hid'
    rcases hid'.2 with ⟨p, hmem, rfl, _⟩ | ⟨htracked, _⟩
    · exact hserved _ (List.mem_map_of_mem hmem)
    · exact hp.tracked id htracked

theorem allAnnounced_step {a : RxAct} (hi : NodeInv k me s.node) (hp : AllAnnounced s)
    (hleaves : LeavesTable lib me s a) (hs : rxStep lib k me s a = some s') : AllAnnounced s' := by
  cases a with
  | datagram now bytes => exact allAnnounced_datagram hi hp hleaves hs
  | update now => exact allAnnounced_update hi hp hs
  | expire now =>
    obtain ⟨n, hn, rfl⟩ := Option.map_eq_some_iff.mp hs
    refine ⟨?_, ?_, fun id h => absurd h Bool.false_ne_true⟩
    · intro id hid
      obtain ⟨d, hd, rfl⟩ := Option.map_eq_some_iff.mp hn
      exact hp.peers id (mem_ids_expire hi.disc hd hid)
    · intro id hid
      have hid' : id ∈ trackedIds n.health := hid
      rw [health_discovery hn] at hid'
      exact hp.tracked id hid'

theorem allAnnounced_init : AllAnnounced (rxMachine lib k me).init where
  peers := by
    intro id hid
    obtain ⟨p, hp, _⟩ := mem_ids.mp hid
    cases hp
  tracked := by
    intro id hid
    have hid' : id ∈ trackedIds (ceellHealthRegisterCb (ceellHealthInit k)) := hid
    rw [trackedIds_init] at hid'
    cases hid'
  lost := fun id h => absurd h Bool.false_ne_true

end Runs

/-- **Over every run**: datagrams that are not announcements leave the peer
table as it is, and only peers that have announced themselves are reported
LOST, exactly if each such datagram is harmless. -/
theorem malformedLeaves_iff_harmless (lib : JsonLib) (k : Kconfig) (me : Identity)
    (as : List RxAct) :
    ((rxMachine lib k me).AllSteps (LeavesTable lib me) (rxMachine lib k me).init as ∧
      ∀ u ∈ (rxMachine lib k me).visited (rxMachine lib k me).init as, LostAnnounced u) ↔
      (rxMachine lib k me).AllSteps (Harmless lib me) (rxMachine lib k me).init as := by
  have hiff : (rxMachine lib k me).AllSteps (LeavesTable lib me) (rxMachine lib k me).init as ↔
      (rxMachine lib k me).AllSteps (Harmless lib me) (rxMachine lib k me).init as :=
    Machine.allSteps_iff (I := fun s => NodeInv k me s.node)
      (fun _ _ _ hi hs => nodeInv_rxStep hi hs) (fun _ _ hi => leavesTable_iff hi) nodeInv_init as
  constructor
  · exact fun h => hiff.mp h.1
  · intro h
    refine ⟨hiff.mpr h, fun u hu => ?_⟩
    have hall := Machine.forall_visited (P := fun s => NodeInv k me s.node ∧ AllAnnounced s)
      (fun s a s' hp hg hs => ⟨nodeInv_rxStep hp.1 hs, allAnnounced_step hp.1 hp.2 hg hs⟩)
      ⟨nodeInv_init, allAnnounced_init⟩ (hiff.mpr h) u hu
    exact hall.2.lost

/-- A datagram with an id and nothing else, two updates and an expiry. -/
def strayDatagram : List RxAct :=
  [.datagram 0 (renderObj [("node_id".toList, .num 5)]), .update 10, .expire 6000, .update 6001]

/-- Node 5, which never announced itself, is reported LOST. -/
theorem strayDatagram_reported :
    isAnnouncement jsonReference (renderObj [("node_id".toList, .num 5)]) = false ∧
    ∃ t, (rxMachine jsonReference {} ⟨7⟩).run strayDatagram = some t ∧ t.lost 5 = true ∧
      t.announced 5 = false := by
  obtain ⟨t, ht⟩ : ∃ t, (rxMachine jsonReference {} ⟨7⟩).run strayDatagram = some t :=
    Option.isSome_iff_exists.mp (by decide)
  have hend : ((rxMachine jsonReference {} ⟨7⟩).run strayDatagram).map
      (fun t => (t.lost 5, t.announced 5)) = some (true, false) := by decide
  simp only [ht, Option.map_some, Option.some.injEq, Prod.mk.injEq] at hend
  exact ⟨by decide, t, ht, hend⟩

end Ceell
