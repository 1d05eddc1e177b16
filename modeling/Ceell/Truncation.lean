/-
Ceell.Truncation — the services a peer announces and those its entry
offers.

`update_peer` cuts the services string to the 127 bytes that `struct
ceell_peer` has for it, wherever that falls; `csv_contains` reads the rest
of the name that was cut through as a name. `offersAnnounced_iff` says for
which datagrams every lookup still resolves to a peer that announced the
service.

`offerMachine` is `discoveryMachine` with datagrams in place of decoded
announcements and, for each node, the services string it announced last.
-/
import Ceell.Malformed

namespace Ceell

open Ceell.Lib Ceell.Osal Ceell.Network

/-! ## Runs -/

/-- The table, and the services string each node announced last. -/
structure OfferRun (max : Nat) where
  disc : DiscoveryRun max
  announced : NodeId → Option (List Char)

inductive OfferAct where
  | datagram (now : Int) (bytes : List Char)
  | expire (now : Int)

/-- The services announced after one more message. -/
def recordServices {max : Nat} (me : Identity) (t : PeerTable max) (msg : DiscoveryMsg)
    (announced : NodeId → Option (List Char)) : NodeId → Option (List Char) :=
  match msg.services with
  | some src =>
      if Accepts me t msg.id then Function.update announced msg.id (some (cstr src)) else announced
  | none => announced

/-- One pass of `rx_thread_fn` or one expiry. -/
def offerStep (lib : JsonLib) (k : Kconfig) (me : Identity) {max : Nat} (s : OfferRun max) :
    OfferAct → Option (OfferRun max)
  | .datagram now bytes =>
      match rxMsg lib bytes with
      | none => some s
      | some msg =>
          (discoveryStep k me s.disc (.announce now msg)).map fun d =>
            { disc := d, announced := recordServices me s.disc.table msg s.announced }
  | .expire now =>
      (discoveryStep k me s.disc (.expire now)).map fun d => { s with disc := d }

/-- Datagrams and expiries in any order. -/
def offerMachine (lib : JsonLib) (k : Kconfig) (me : Identity) :
    Machine (OfferRun k.discoveryMaxPeers) OfferAct where
  init := ⟨(discoveryMachine k me).init, fun _ => none⟩
  step := offerStep lib k me

/-- The name is one of those the node announced last. -/
def Announced {max : Nat} (s : OfferRun max) (id : NodeId) (name : List Char) : Prop :=
  ∃ src ∈ s.announced id, name ∈ src.splitOn ','

/-- Every name that an entry offers, and every name that a lookup resolves,
was announced by that peer. -/
structure OffersAnnounced (k : Kconfig) (s : OfferRun k.discoveryMaxPeers) : Prop where
  offers : ∀ p ∈ s.disc.table.entries, ∀ name, name ≠ [] →
    csvContains p.services.str name = true → Announced s p.nodeId name
  resolves : ∀ name ip, cstr name ≠ [] →
    (ceellServiceFindPeer k s.disc.table (some name) (some ip)).2 = 0 →
      ∃ p ∈ s.disc.table.entries, Announced s p.nodeId (cstr name) ∧
        (ceellServiceFindPeer k s.disc.table (some name) (some ip)).1
          = some ((CharBuf.zero 16).copy p.ip.bytes)

/-- Of the name that the cut to 127 bytes goes through nothing is left, or
another of the names. -/
def CutsClean (services : List Char) : Prop :=
  (services.take 127).rtakeWhile (· ≠ ',') = [] ∨
    (services.take 127).rtakeWhile (· ≠ ',') ∈ services.splitOn ','

/-- The services of an announcement that is accepted are cut clean. -/
def AnnouncesClean (lib : JsonLib) (me : Identity) {max : Nat} (s : OfferRun max) : OfferAct → Prop
  | .datagram _ bytes => ∀ msg ∈ rxMsg lib bytes, Accepts me s.disc.table msg.id →
      ∀ src ∈ msg.services, CutsClean (cstr src)
  | .expire _ => True

instance : DecidablePred CutsClean := fun services =>
  decidable_of_iff ((services.take 127).rtakeWhile (· ≠ ',') = [] ∨
    (services.splitOn ',').elem ((services.take 127).rtakeWhile (· ≠ ',')) = true)
    (or_congr_right List.elem_iff)

instance (lib : JsonLib) (me : Identity) {max : Nat} (s : OfferRun max) :
    ∀ a, Decidable (AnnouncesClean lib me s a)
  | .datagram _ _ => by unfold AnnouncesClean; infer_instance
  | .expire _ => .isTrue trivial

/-! ## Steps -/

section Steps

variable {lib : JsonLib} {k : Kconfig} {me : Identity} {max : Nat} {s s' : OfferRun max} {now : Int}
  {bytes : List Char} {msg : DiscoveryMsg}

/-- A step without a message changes nothing; any other is a step of the
discovery module. -/
theorem offerStep_cases {a : OfferAct} (hs : offerStep lib k me s a = some s') :
    s' = s ∧ (∃ now bytes, a = .datagram now bytes ∧ rxMsg lib bytes = none) ∨
    (∃ now bytes msg, a = .datagram now bytes ∧ rxMsg lib bytes = some msg ∧
      discoveryStep k me s.disc (.announce now msg) = some s'.disc ∧
      s'.disc.table = updatePeer (some me) now msg s.disc.table ∧
      s'.announced = recordServices me s.disc.table msg s.announced) ∨
    (∃ now, a = .expire now ∧ discoveryStep k me s.disc (.expire now) = some s'.disc ∧
      s'.disc.table = (ceellDiscoveryExpirePeers k now s.disc.table).1 ∧
      s'.announced = s.announced) := by
  cases a with
  | datagram now bytes =>
    cases hmsg : rxMsg lib bytes with
    | none =>
      simp only [offerStep, hmsg, Option.some.injEq] at hs
      exact Or.inl ⟨hs.symm, now, bytes, rfl, hmsg⟩
    | some msg =>
      simp only [offerStep, hmsg] at hs
      obtain ⟨d, hd, rfl⟩ := Option.map_eq_some_iff.mp hs
      refine Or.inr (Or.inl ⟨now, bytes, msg, rfl, hmsg, hd, ?_, rfl⟩)
      exact congrArg DiscoveryRun.table (discoveryStep_announce hd).2
  | expire now =>
    obtain ⟨d, hd, rfl⟩ := Option.map_eq_some_iff.mp hs
    refine Or.inr (Or.inr ⟨now, rfl, hd, ?_, rfl⟩)
    exact congrArg DiscoveryRun.table (discoveryStep_expire hd).2

theorem inv_offerStep {a : OfferAct} (hi : Inv k me s.disc)
    (hs : offerStep lib k me s a = some s') : Inv k me s'.disc := by
  rcases offerStep_cases hs with
    ⟨rfl, _⟩ | ⟨now, bytes, msg, _, _, hd, _⟩ | ⟨now, _, hd, _⟩
  · exact hi
  · exact inv_step hi hd
  · exact inv_step hi hd

/-- The announced services of other nodes stay. -/
theorem recordServices_of_ne {t : PeerTable max} {announced : NodeId → Option (List Char)}
    {id : NodeId} (hne : id ≠ msg.id) : recordServices me t msg announced id = announced id := by
  unfold recordServices
  cases msg.services with
  | none => rfl
  | some src =>
    dsimp only
    split
    · exact Function.update_of_ne hne _ _
    · rfl

theorem recordServices_self {t : PeerTable max} {announced : NodeId → Option (List Char)}
    (hacc : Accepts me t msg.id) :
    recordServices me t msg announced msg.id = (msg.services.map cstr).or (announced msg.id) := by
  unfold recordServices
  cases msg.services with
  | none => rfl
  | some src => simp [hacc]

theorem recordServices_of_not_accepts {t : PeerTable max}
    {announced : NodeId → Option (List Char)} (hacc : ¬ Accepts me t msg.id) :
    recordServices me t msg announced = announced := by
  unfold recordServices
  split
  · exact if_neg hacc
  · rfl

/-- An array offers what its string cut to size has for tokens. -/
theorem csvContains_copy_zero {src name : List Char} (hne : name ≠ []) :
    csvContains ((CharBuf.zero 128).copy src).str name = true ↔
      name ∈ ((cstr src).take 127).splitOn ',' := by
  rw [CharBuf.str_copy_zero, csvContains_iff hne]

/-- Every entry offers only what its node announced. -/
def TableAnnounced {max : Nat} (s : OfferRun max) : Prop :=
  ∀ p ∈ s.disc.table.entries, ∀ name, name ≠ [] →
    csvContains p.services.str name = true → Announced s p.nodeId name

/-- An announcement that is accepted matters for the entry of its node. -/
theorem announcedPeer_offers_iff (now : Int) (hi : Inv k me s.disc) (hp : TableAnnounced s)
    (hacc : Accepts me s.disc.table msg.id) :
    (∀ name, name ≠ [] →
      csvContains (announcedPeer now msg (s.disc.table.entryOf msg.id)).services.str name = true →
      ∃ src ∈ recordServices me s.disc.table msg s.announced msg.id, name ∈ src.splitOn ',') ↔
      ∀ src ∈ msg.services, CutsClean (cstr src) := by
  rw [recordServices_self hacc]
  cases hsrc : msg.services with
  | some src =>
    simp only [services_announcedPeer now hsrc, Option.map_some, Option.some_or,
      Option.mem_some_iff, exists_eq_left', forall_eq']
    rw [CutsClean, ← forall_mem_splitOn_take_iff]
    constructor
    · exact fun h name hmem hne => h name hne ((csvContains_copy_zero hne).mpr hmem)
    · exact fun h name hne hoffers => h name ((csvContains_copy_zero hne).mp hoffers) hne
  | none =>
    simp only [Option.map_none, Option.none_or, Option.not_mem_none, false_imp_iff, implies_true,
      iff_true]
    intro name hne hoffers
    cases hentry : s.disc.table.entryOf msg.id with
    | some p =>
      obtain ⟨hmem, hid⟩ := (entryOf_eq_some hi.nodup).mp hentry
      have hsame : (refreshPeer now msg p).services = p.services := by simp [refreshPeer, hsrc]
      rw [hentry, announcedPeer, hsame] at hoffers
      rw [← hid]
      exact hp p hmem name hne hoffers
    | none =>
      have hempty : (newPeer now msg).services.str = [] := by
        simp [newPeer, hsrc, CharBuf.copyOpt, CharBuf.str, CharBuf.zero, cstr]
      rw [hentry, announcedPeer, hempty] at hoffers
      exact absurd hoffers Bool.false_ne_true

/-- One step keeps the offers announced exactly if it announces cleanly. -/
theorem tableAnnounced_step_iff {a : OfferAct} (hi : Inv k me s.disc) (hp : TableAnnounced s)
    (hs : offerStep lib k me s a = some s') : TableAnnounced s' ↔ AnnouncesClean lib me s a := by
  rcases offerStep_cases hs with
    ⟨rfl, now, bytes, rfl, hmsg⟩ | ⟨now, bytes, msg, rfl, hmsg, _, htable, hann⟩ |
      ⟨now, rfl, _, htable, hann⟩
  · simp only [AnnouncesClean, hmsg, Option.not_mem_none, false_imp_iff, implies_true, iff_true]
    exact hp
  · simp only [AnnouncesClean, hmsg, Option.mem_some_iff, forall_eq']
    by_cases hacc : Accepts me s.disc.table msg.id
    · have hmem : ∀ p, p ∈ (updatePeer (some me) now msg s.disc.table).entries ↔
          p = announcedPeer now msg (s.disc.table.entryOf msg.id) ∨
            (p ∈ s.disc.table.entries ∧ p.nodeId ≠ msg.id) :=
        fun p => mem_updatePeer hi.count_le hi.nodup hacc
      have hid : (announcedPeer now msg (s.disc.table.entryOf msg.id)).nodeId = msg.id :=
        nodeId_announcedPeer now msg fun p hp => ((entryOf_eq_some hi.nodup).mp hp).2
      simp only [hacc, forall_const]
      rw [← announcedPeer_offers_iff now hi hp hacc]
      unfold TableAnnounced Announced
      rw [htable, hann]
      constructor
      · intro h name hne hoffers
        have hnew := h _ ((hmem _).mpr (Or.inl rfl)) name hne hoffers
        rwa [hid] at hnew
      · intro h p hpmem name hne hoffers
        rcases (hmem p).mp hpmem with rfl | ⟨hold, hother⟩
        · rw [hid]
          exact h name hne hoffers
        · rw [recordServices_of_ne hother]
          exact hp p hold name hne hoffers
    · simp only [hacc, false_imp_iff, iff_true]
      unfold TableAnnounced Announced
      rw [htable, hann, updatePeer_of_not_accepts now hi.count_le hacc,
        recordServices_of_not_accepts hacc]
      exact hp
  · simp only [AnnouncesClean, iff_true]
    unfold TableAnnounced Announced
    rw [htable, hann]
    exact fun p hpmem => hp p ((mem_expire hi.count_le).mp hpmem).1

end Steps

/-! ## Lookups -/

theorem offersAnnounced_of_table {k : Kconfig} {s : OfferRun k.discoveryMaxPeers}
    (hcount : s.disc.table.peerCount ≤ k.discoveryMaxPeers) (hp : TableAnnounced s) :
    OffersAnnounced k s := by
  refine ⟨hp, fun name ip hne hret => ?_⟩
  obtain ⟨p, hmem, hoffers, hout⟩ := (findPeer_spec hcount name ip).2 hret
  exact ⟨p, hmem, hp p hmem _ hne hoffers, hout⟩

/-- **Over every run** of datagrams and expiries: no entry offers, and no
lookup resolves, a service its peer did not announce, exactly if the
services of every announcement that is accepted are cut clean. -/
theorem offersAnnounced_iff (lib : JsonLib) (k : Kconfig) (me : Identity) (as : List OfferAct)
    (t : OfferRun k.discoveryMaxPeers) (hrun : (offerMachine lib k me).run as = some t) :
    (∀ u ∈ (offerMachine lib k me).visited (offerMachine lib k me).init as, OffersAnnounced k u) ↔
      (offerMachine lib k me).AllSteps (AnnouncesClean lib me) (offerMachine lib k me).init as := by
  refine Machine.forall_visited_iff_allSteps (A := fun _ => True) (I := fun s => Inv k me s.disc)
    (fun s a s' _ hi hs => inv_offerStep hi hs) ?_ as _ t (fun _ _ => trivial) inv_init ?_ hrun
  · intro s a s' _ hi hp hs
    rw [← tableAnnounced_step_iff hi hp.offers hs]
    constructor
    · exact OffersAnnounced.offers
    · exact fun h => offersAnnounced_of_table (inv_offerStep hi hs).count_le h
  · refine offersAnnounced_of_table (Nat.zero_le _) fun p hp => ?_
    cases hp

/-- An announcement of node 1 with these services. -/
def servicesDatagram (services : List Char) : List Char :=
  renderObj [("node_id".toList, .num 1), ("ip".toList, .str "10.0.0.1".toList),
    ("services".toList, .str services)]

/-- A long name and `braking-control`, which byte 127 goes through. -/
def cutServices : List Char := List.replicate 119 'a' ++ ",braking-control".toList

/-- A lookup of `braking` resolves to node 1, which has not announced it. -/
theorem cutServices_offers :
    (servicesDatagram cutServices).length < recvBufSize ∧
    ∃ t, (offerMachine jsonReference {} ⟨7⟩).run [.datagram 0 (servicesDatagram cutServices)]
        = some t ∧
      t.announced 1 = some cutServices ∧ "braking".toList ∉ cutServices.splitOn ',' ∧
      (∃ out, ceellServiceFindPeer {} t.disc.table (some "braking".toList) (some (.zero 16))
        = (some out, 0) ∧ out.str = "10.0.0.1".toList) ∧
      ¬ OffersAnnounced {} t := by
  have hstep : ((offerMachine jsonReference {} ⟨7⟩).run
      [.datagram 0 (servicesDatagram cutServices)]).map (fun t => (t.announced 1,
        ceellServiceFindPeer {} t.disc.table (some "braking".toList) (some (.zero 16)),
        t.disc.table.entries.map fun p => (p.nodeId, csvContains p.services.str "braking".toList)))
      = some (some cutServices, (some ((CharBuf.zero 16).copy "10.0.0.1".toList), 0),
        [(1, true)]) := by
    decide +kernel
  have hnot : "braking".toList ∉ cutServices.splitOn ',' := by decide +kernel
  obtain ⟨t, ht, hend⟩ := Option.map_eq_some_iff.mp hstep
  simp only [Prod.mk.injEq] at hend
  obtain ⟨hann, hfind, hentries⟩ := hend
  refine ⟨by decide +kernel, t, ht, hann, hnot, ⟨_, hfind, by decide⟩, fun h => ?_⟩
  obtain ⟨p, hp, hpid⟩ := List.mem_map.mp (hentries ▸ List.mem_singleton_self _)
  obtain ⟨hid, hoffers⟩ := Prod.mk.inj hpid
  obtain ⟨src, hsrc, hname⟩ := h.offers p hp "braking".toList (by decide) hoffers
  rw [hid, hann, Option.mem_some_iff] at hsrc
  exact hnot (hsrc ▸ hname)

/-- Two announcements that are cut clean, the first at a comma. -/
def cleanServices : List OfferAct :=
  [.datagram 0 (servicesDatagram (List.replicate 127 'a' ++ ",lighting".toList)),
   .datagram 1000 (servicesDatagram "braking,lighting".toList), .expire 7000]

/-- Every announcement is cut clean, so nothing is offered that was not
announced; the first two steps leave one name and then both. -/
theorem offersAnnounced_iff_cleanServices :
    (offerMachine jsonReference {} ⟨7⟩).AllSteps (AnnouncesClean jsonReference ⟨7⟩)
        (offerMachine jsonReference {} ⟨7⟩).init cleanServices ∧
      (∀ u ∈ (offerMachine jsonReference {} ⟨7⟩).visited (offerMachine jsonReference {} ⟨7⟩).init
        cleanServices, OffersAnnounced {} u) ∧
      ((offerMachine jsonReference {} ⟨7⟩).visited (offerMachine jsonReference {} ⟨7⟩).init
          cleanServices).map (fun u => u.disc.table.entries.map fun p => p.services.str) =
        [[List.replicate 127 'a'], ["braking,lighting".toList], []] := by
  obtain ⟨t, ht⟩ : ∃ t, (offerMachine jsonReference {} ⟨7⟩).run cleanServices = some t :=
    Option.isSome_iff_exists.mp (by decide +kernel)
  have hclean : (offerMachine jsonReference {} ⟨7⟩).AllSteps (AnnouncesClean jsonReference ⟨7⟩)
      (offerMachine jsonReference {} ⟨7⟩).init cleanServices := by
    decide +kernel
  exact ⟨hclean, (offersAnnounced_iff jsonReference {} ⟨7⟩ cleanServices t ht).mpr hclean,
    by decide +kernel⟩

end Ceell
