/-
Ceell.Network.Routing — whether the peer table, and so a service lookup,
follows what the peers announce.

`routingMachine` is `discoveryMachine` with what the code does not store:
for each node, the last complete announcement accepted from it.
`update_peer` copies role, name and address only into a new entry; into an
entry that exists it copies the services alone. `tableCurrent_iff` says
which announcements that makes no difference for.
-/
import Ceell.Network.ServiceDiscovery

namespace Ceell.Network

open Ceell.Lib

/-! ## Complete announcements -/

/-- The strings of an announcement that has them all. -/
structure CompleteMsg where
  role : List Char
  name : List Char
  ip : List Char
  services : List Char

def DiscoveryMsg.complete? (msg : DiscoveryMsg) : Option CompleteMsg :=
  match msg.role, msg.name, msg.ip, msg.services with
  | some role, some name, some ip, some services => some ⟨role, name, ip, services⟩
  | _, _, _, _ => none

/-- The entry holds the announcement, up to the sizes of its arrays. -/
structure Peer.Holds (p : Peer) (m : CompleteMsg) : Prop where
  role : p.role.str = (cstr m.role).take 31
  name : p.name.str = (cstr m.name).take 63
  ip : p.ip.str = (cstr m.ip).take 15
  services : p.services.str = (cstr m.services).take 127

/-! ## Runs -/

/-- The table with the last complete announcement of each node. -/
structure RoutingRun (max : Nat) where
  disc : DiscoveryRun max
  latest : NodeId → Option CompleteMsg

/-- The announcements after one more. -/
def recordMsg {max : Nat} (me : Identity) (t : PeerTable max) (msg : DiscoveryMsg)
    (latest : NodeId → Option CompleteMsg) : NodeId → Option CompleteMsg :=
  match msg.complete? with
  | some m => if Accepts me t msg.id then Function.update latest msg.id (some m) else latest
  | none => latest

def routingStep (k : Kconfig) (me : Identity) {max : Nat} (s : RoutingRun max) (a : DiscoveryAct) :
    Option (RoutingRun max) :=
  (discoveryStep k me s.disc a).map fun d =>
    { disc := d
      latest := match a with
        | .announce _ msg => recordMsg me s.disc.table msg s.latest
        | .expire _ => s.latest }

/-- Runs of announcements and expiries, with what was announced. -/
def routingMachine (k : Kconfig) (me : Identity) :
    Machine (RoutingRun k.discoveryMaxPeers) DiscoveryAct where
  init := ⟨(discoveryMachine k me).init, fun _ => none⟩
  step := routingStep k me

/-- Every entry holds the last complete announcement of its node. -/
def TableCurrent {max : Nat} (s : RoutingRun max) : Prop :=
  ∀ p ∈ s.disc.table.entries, ∀ m ∈ s.latest p.nodeId, p.Holds m

/-- Every lookup that succeeds returns the address that a peer announced
last, together with the service. -/
def RoutesCurrent (k : Kconfig) (s : RoutingRun k.discoveryMaxPeers) : Prop :=
  ∀ name ip, (ceellServiceFindPeer k s.disc.table (some name) (some ip)).2 = 0 →
    ∃ p ∈ s.disc.table.entries, ∃ out,
      (ceellServiceFindPeer k s.disc.table (some name) (some ip)).1 = some out ∧
      ∀ m ∈ s.latest p.nodeId, out.str = (cstr m.ip).take 15 ∧
        csvContains ((cstr m.services).take 127) (cstr name) = true

/-- A string field of an announcement as an entry made from it has it. -/
def fieldStr (field : Option (List Char)) : List Char := cstr (field.getD [])

/-- What an announcement that is accepted must be for the table to follow
it. From a node in the table: role, name and address are those its entry
has, or, where one of the four strings is absent, the services are absent
or those it announced last. From a node that is not: it is complete, or
repeats what the node announced last. -/
def Repeats (me : Identity) {max : Nat} (s : RoutingRun max) : DiscoveryAct → Prop
  | .expire _ => True
  | .announce _ msg => Accepts me s.disc.table msg.id →
      match s.disc.table.entryOf msg.id, msg.complete? with
      | some p, some m =>
          (cstr m.role).take 31 = p.role.str ∧ (cstr m.name).take 63 = p.name.str ∧
            (cstr m.ip).take 15 = p.ip.str
      | some _, none => ∀ m ∈ s.latest msg.id, ∀ src ∈ msg.services,
          (cstr src).take 127 = (cstr m.services).take 127
      | none, some _ => True
      | none, none => ∀ m ∈ s.latest msg.id,
          (fieldStr msg.role).take 31 = (cstr m.role).take 31 ∧
          (fieldStr msg.name).take 63 = (cstr m.name).take 63 ∧
          (fieldStr msg.ip).take 15 = (cstr m.ip).take 15 ∧
          (fieldStr msg.services).take 127 = (cstr m.services).take 127

instance (me : Identity) {max : Nat} (s : RoutingRun max) : ∀ a, Decidable (Repeats me s a)
  | .expire _ => .isTrue trivial
  | .announce _ msg => by
      unfold Repeats
      dsimp only
      split <;> infer_instance


/-! ## What an entry holds after an announcement -/

section Entry

variable {now : Int} {msg : DiscoveryMsg} {p : Peer} {m : CompleteMsg}

theorem complete?_eq_some (h : msg.complete? = some m) :
    msg.role = some m.role ∧ msg.name = some m.name ∧ msg.ip = some m.ip ∧
      msg.services = some m.services := by
  unfold DiscoveryMsg.complete? at h
  split at h
  · rename_i h1 h2 h3 h4
    obtain rfl := Option.some.inj h
    exact ⟨h1, h2, h3, h4⟩
  · cases h

theorem str_copyOpt_zero {n : Nat} (field : Option (List Char)) :
    ((CharBuf.zero (n + 1)).copyOpt field).str = (fieldStr field).take n := by
  cases field with
  | none =>
    have hnil : (CharBuf.zero (n + 1)).str = [] := by simp [CharBuf.str, CharBuf.zero, cstr]
    exact hnil.trans (by simp [fieldStr, cstr])
  | some src => exact CharBuf.str_copy_zero src

/-- An entry just made holds what its announcement says. -/
theorem newPeer_holds_iff :
    (newPeer now msg).Holds m ↔
      (fieldStr msg.role).take 31 = (cstr m.role).take 31 ∧
      (fieldStr msg.name).take 63 = (cstr m.name).take 63 ∧
      (fieldStr msg.ip).take 15 = (cstr m.ip).take 15 ∧
      (fieldStr msg.services).take 127 = (cstr m.services).take 127 := by
  constructor
  · rintro ⟨h1, h2, h3, h4⟩
    rw [newPeer, str_copyOpt_zero] at h1 h2 h3 h4
    exact ⟨h1, h2, h3, h4⟩
  · rintro ⟨h1, h2, h3, h4⟩
    constructor
    · exact (str_copyOpt_zero msg.role).trans h1
    · exact (str_copyOpt_zero msg.name).trans h2
    · exact (str_copyOpt_zero msg.ip).trans h3
    · exact (str_copyOpt_zero msg.services).trans h4

theorem newPeer_holds_complete (h : msg.complete? = some m) : (newPeer now msg).Holds m := by
  obtain ⟨h1, h2, h3, h4⟩ := complete?_eq_some h
  rw [newPeer_holds_iff, h1, h2, h3, h4]
  exact ⟨rfl, rfl, rfl, rfl⟩

/-- A refreshed entry follows a complete announcement if the strings that
are not copied are the same. -/
theorem refreshPeer_holds_complete_iff (h : msg.complete? = some m) :
    (refreshPeer now msg p).Holds m ↔
      (cstr m.role).take 31 = p.role.str ∧ (cstr m.name).take 63 = p.name.str ∧
        (cstr m.ip).take 15 = p.ip.str := by
  obtain ⟨_, _, _, hservices⟩ := complete?_eq_some h
  constructor
  · rintro ⟨h1, h2, h3, _⟩
    exact ⟨h1.symm, h2.symm, h3.symm⟩
  · rintro ⟨h1, h2, h3⟩
    refine ⟨h1.symm, h2.symm, h3.symm, ?_⟩
    simp only [refreshPeer, hservices, CharBuf.terminate_copy]
    exact CharBuf.str_copy_zero m.services

/-- Any other announcement can only change the services. -/
theorem refreshPeer_holds_iff (hp : p.Holds m) :
    (refreshPeer now msg p).Holds m ↔
      ∀ src ∈ msg.services, (cstr src).take 127 = (cstr m.services).take 127 := by
  cases hs : msg.services with
  | none =>
    have hsame : (refreshPeer now msg p).services = p.services := by simp [refreshPeer, hs]
    simp only [Option.not_mem_none, false_imp_iff, implies_true, iff_true]
    exact ⟨hp.role, hp.name, hp.ip, hsame ▸ hp.services⟩
  | some src =>
    have hnew : (refreshPeer now msg p).services.str = (cstr src).take 127 := by
      simp only [refreshPeer, hs, CharBuf.terminate_copy]
      exact CharBuf.str_copy_zero src
    simp only [Option.mem_some_iff, forall_eq']
    constructor
    · exact fun h => hnew.symm.trans h.services
    · exact fun h => ⟨hp.role, hp.name, hp.ip, hnew.trans h⟩

end Entry

/-! ## Steps -/

section Steps

variable {k : Kconfig} {me : Identity} {max : Nat} {s s' : RoutingRun max} {now : Int}
  {msg : DiscoveryMsg}

theorem routingStep_disc {a : DiscoveryAct} (hs : routingStep k me s a = some s') :
    discoveryStep k me s.disc a = some s'.disc := by
  obtain ⟨d, hd, rfl⟩ := Option.map_eq_some_iff.mp hs
  exact hd

theorem routingStep_announce (hs : routingStep k me s (.announce now msg) = some s') :
    s'.disc.table = updatePeer (some me) now msg s.disc.table ∧
      s'.latest = recordMsg me s.disc.table msg s.latest := by
  obtain ⟨d, hd, rfl⟩ := Option.map_eq_some_iff.mp hs
  obtain ⟨_, rfl⟩ := discoveryStep_announce hd
  exact ⟨rfl, rfl⟩

theorem routingStep_expire (hs : routingStep k me s (.expire now) = some s') :
    s'.disc.table = (ceellDiscoveryExpirePeers k now s.disc.table).1 ∧ s'.latest = s.latest := by
  obtain ⟨d, hd, rfl⟩ := Option.map_eq_some_iff.mp hs
  obtain ⟨_, rfl⟩ := discoveryStep_expire hd
  exact ⟨rfl, rfl⟩

/-- What is recorded of an accepted announcement. -/
theorem recordMsg_self {t : PeerTable max} {latest : NodeId → Option CompleteMsg}
    (hacc : Accepts me t msg.id) :
    recordMsg me t msg latest msg.id = msg.complete?.or (latest msg.id) := by
  unfold recordMsg
  cases msg.complete? with
  | none => rfl
  | some m => simp [hacc]

theorem recordMsg_of_ne {t : PeerTable max} {latest : NodeId → Option CompleteMsg} {id : NodeId}
    (hne : id ≠ msg.id) : recordMsg me t msg latest id = latest id := by
  unfold recordMsg
  cases msg.complete? with
  | none => rfl
  | some m =>
    dsimp only
    split
    · exact Function.update_of_ne hne _ _
    · rfl

theorem recordMsg_of_not_accepts {t : PeerTable max} {latest : NodeId → Option CompleteMsg}
    (hacc : ¬ Accepts me t msg.id) : recordMsg me t msg latest = latest := by
  unfold recordMsg
  split
  · exact if_neg hacc
  · rfl

/-- An accepted announcement matters for the entry of its node only. -/
theorem tableCurrent_announce_iff (hi : Inv k me s.disc) (hp : TableCurrent s)
    (hacc : Accepts me s.disc.table msg.id)
    (hs : routingStep k me s (.announce now msg) = some s') :
    TableCurrent s' ↔ ∀ m ∈ msg.complete?.or (s.latest msg.id),
      (announcedPeer now msg (s.disc.table.entryOf msg.id)).Holds m := by
  obtain ⟨htable, hlatest⟩ := routingStep_announce hs
  have hid : (announcedPeer now msg (s.disc.table.entryOf msg.id)).nodeId = msg.id :=
    nodeId_announcedPeer now msg fun p hp => ((entryOf_eq_some hi.nodup).mp hp).2
  unfold TableCurrent
  rw [htable, hlatest]
  constructor
  · intro h m hm
    refine h _ ((mem_updatePeer hi.count_le hi.nodup hacc).mpr (Or.inl rfl)) m ?_
    rw [hid, recordMsg_self hacc]
    exact hm
  · intro h p hmem m hm
    rcases (mem_updatePeer hi.count_le hi.nodup hacc).mp hmem with rfl | ⟨hold, hne⟩
    · rw [hid, recordMsg_self hacc] at hm
      exact h m hm
    · rw [recordMsg_of_ne hne] at hm
      exact hp p hold m hm

/-- One step keeps the table current exactly if it repeats what is there. -/
theorem tableCurrent_step_iff {a : DiscoveryAct} (hi : Inv k me s.disc) (hp : TableCurrent s)
    (hs : routingStep k me s a = some s') : TableCurrent s' ↔ Repeats me s a := by
  cases a with
  | expire now =>
    obtain ⟨htable, hlatest⟩ := routingStep_expire hs
    simp only [Repeats, iff_true]
    intro p hmem
    rw [htable] at hmem
    rw [hlatest]
    exact hp p ((mem_expire hi.count_le).mp hmem).1
  | announce now msg =>
    by_cases hacc : Accepts me s.disc.table msg.id
    · rw [tableCurrent_announce_iff hi hp hacc hs]
      simp only [Repeats, hacc, forall_const]
      cases hentry : s.disc.table.entryOf msg.id with
      | some p =>
        obtain ⟨hmem, hpid⟩ := (entryOf_eq_some hi.nodup).mp hentry
        cases hcomplete : msg.complete? with
        | some m =>
          simp only [Option.some_or, Option.mem_some_iff, forall_eq']
          exact refreshPeer_holds_complete_iff hcomplete
        | none =>
          simp only [Option.none_or]
          refine forall₂_congr fun m hm => refreshPeer_holds_iff (hp p hmem m ?_)
          rw [hpid]
          exact hm
      | none =>
        cases hcomplete : msg.complete? with
        | some m =>
          simp only [Option.some_or, Option.mem_some_iff, forall_eq', iff_true]
          exact newPeer_holds_complete hcomplete
        | none =>
          simp only [Option.none_or]
          exact forall₂_congr fun m hm => newPeer_holds_iff
    · obtain ⟨htable, hlatest⟩ := routingStep_announce hs
      simp only [Repeats, hacc, false_imp_iff, iff_true]
      intro p hmem
      rw [htable, updatePeer_of_not_accepts now hi.count_le hacc] at hmem
      rw [hlatest, recordMsg_of_not_accepts hacc]
      exact hp p hmem

end Steps

/-! ## Lookups -/

/-- A current table routes to what was announced last. -/
theorem routesCurrent_of_tableCurrent {k : Kconfig} {s : RoutingRun k.discoveryMaxPeers}
    (hcount : s.disc.table.peerCount ≤ k.discoveryMaxPeers) (hp : TableCurrent s) :
    RoutesCurrent k s := by
  intro name ip hret
  obtain ⟨p, hmem, hoffers, hout⟩ := (findPeer_spec hcount name ip).2 hret
  refine ⟨p, hmem, _, hout, fun m hm => ?_⟩
  have hholds := hp p hmem m hm
  constructor
  · rw [CharBuf.str_copy_zero]
    have hip : cstr p.ip.bytes = p.ip.str := rfl
    rw [hip, hholds.ip, List.take_take]
    rfl
  · rw [← hholds.services]
    exact hoffers

/-- **Over every run** of announcements and expiries: every entry holds the
last complete announcement of its node, and every lookup returns the
address announced last, exactly if each announcement that was accepted
repeats what the table has where `update_peer` does not copy it. -/
theorem tableCurrent_iff (k : Kconfig) (me : Identity) (as : List DiscoveryAct)
    (t : RoutingRun k.discoveryMaxPeers) (hrun : (routingMachine k me).run as = some t) :
    (∀ u ∈ (routingMachine k me).visited (routingMachine k me).init as,
        TableCurrent u ∧ RoutesCurrent k u) ↔
      (routingMachine k me).AllSteps (Repeats me) (routingMachine k me).init as := by
  have hinv : ∀ s a s', Inv k me s.disc → (routingMachine k me).step s a = some s' →
      Inv k me s'.disc := fun s a s' hi hs => inv_step hi (routingStep_disc hs)
  refine Machine.forall_visited_iff_allSteps (A := fun _ => True) (I := fun s => Inv k me s.disc)
    (fun s a s' _ hi hs => hinv s a s' hi hs) ?_ as _ t (fun _ _ => trivial) inv_init ?_ hrun
  · intro s a s' _ hi hp hs
    rw [← tableCurrent_step_iff hi hp.1 hs]
    constructor
    · exact And.left
    · exact fun h => ⟨h, routesCurrent_of_tableCurrent (hinv s a s' hi hs).count_le h⟩
  · have hcurrent : TableCurrent (routingMachine k me).init := by
      intro p _ m hm
      cases hm
    exact ⟨hcurrent, routesCurrent_of_tableCurrent (Nat.zero_le _) hcurrent⟩

/-- Node 1 announces itself and comes back with another address. -/
def movedPeer : List DiscoveryAct :=
  [.announce 0 ⟨1, some ['r'], some ['n'], some "10.0.0.1".toList, some ['s']⟩,
   .announce 1000 ⟨1, some ['r'], some ['n'], some "10.0.0.2".toList, some ['s']⟩]

/-- A lookup still returns the old address. -/
theorem movedPeer_stale :
    ∃ t, (routingMachine {} ⟨7⟩).run movedPeer = some t ∧
      (∃ out, ceellServiceFindPeer {} t.disc.table (some ['s']) (some (.zero 16)) = (some out, 0) ∧
        out.str = "10.0.0.1".toList) ∧
      (t.latest 1).map (·.ip) = some "10.0.0.2".toList ∧ ¬ TableCurrent t := by
  obtain ⟨t, ht⟩ : ∃ t, (routingMachine {} ⟨7⟩).run movedPeer = some t :=
    Option.isSome_iff_exists.mp (by decide)
  have hend : ((routingMachine {} ⟨7⟩).run movedPeer).map (fun t =>
      (ceellServiceFindPeer {} t.disc.table (some ['s']) (some (.zero 16)),
        (t.latest 1).map (·.ip), t.disc.table.entries.map fun p => (p.nodeId, p.ip.str)))
      = some ((some ((CharBuf.zero 16).copy "10.0.0.1".toList), 0), some "10.0.0.2".toList,
        [(1, "10.0.0.1".toList)]) := by decide
  simp only [ht, Option.map_some, Option.some.injEq, Prod.mk.injEq] at hend
  obtain ⟨hfind, hlatest, hentries⟩ := hend
  refine ⟨t, ht, ⟨_, hfind, by decide⟩, hlatest, fun hcurrent => ?_⟩
  obtain ⟨p, hp, hpid⟩ := List.mem_map.mp (hentries ▸ List.mem_singleton_self _)
  obtain ⟨hid, hip⟩ := Prod.mk.inj hpid
  obtain ⟨m, hm, hmip⟩ := Option.map_eq_some_iff.mp hlatest
  have hholds := (hcurrent p hp m (hid ▸ hm)).ip
  rw [hip, hmip] at hholds
  exact absurd hholds (by decide)

/-- Node 1 announces the same identity three times, with new services, and
node 2 once; node 1 expires and comes back under another address. -/
def settledPeers : List DiscoveryAct :=
  [.announce 0 ⟨1, some ['r'], some ['n'], some ['i'], some ['s']⟩,
   .announce 1000 ⟨1, some ['r'], some ['n'], some ['i'], some ['t']⟩,
   .announce 2000 ⟨1, none, none, none, none⟩,
   .announce 6000 ⟨2, some ['r'], some ['m'], some ['j'], some ['s']⟩, .expire 8000,
   .announce 9000 ⟨1, some ['r'], some ['n'], some ['k'], some ['t']⟩]

/-- Every announcement repeats what the table has, and the lookups find the
addresses that were announced last. -/
theorem tableCurrent_iff_settledPeers :
    (routingMachine {} ⟨7⟩).AllSteps (Repeats ⟨7⟩) (routingMachine {} ⟨7⟩).init settledPeers ∧
      (∀ u ∈ (routingMachine {} ⟨7⟩).visited (routingMachine {} ⟨7⟩).init settledPeers,
        TableCurrent u ∧ RoutesCurrent {} u) ∧
      ((routingMachine {} ⟨7⟩).run settledPeers).map (fun t =>
          t.disc.table.entries.map fun p => (p.nodeId, p.ip.str, p.services.str)) =
        some [(2, ['j'], ['s']), (1, ['k'], ['t'])] := by
  obtain ⟨t, ht⟩ : ∃ t, (routingMachine {} ⟨7⟩).run settledPeers = some t :=
    Option.isSome_iff_exists.mp (by decide +kernel)
  have hrepeats : (routingMachine {} ⟨7⟩).AllSteps (Repeats ⟨7⟩) (routingMachine {} ⟨7⟩).init
      settledPeers := by
    decide +kernel
  exact ⟨hrepeats, (tableCurrent_iff {} ⟨7⟩ settledPeers t ht).mpr hrepeats, by decide +kernel⟩

end Ceell.Network
