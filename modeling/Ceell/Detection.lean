/-
Ceell.Detection — the network with its health monitors: who takes whom
for lost.

Each node of `Network.DiscoveryNet` runs `ceell_health_update` beside its
discovery threads. Datagrams can be late or lost, a peer can leave the
discovery table before an update has read it, and the health table never
gives a slot back. Still the monitor of a network that fits the tables is
a function of what was heard: `monitoredNet_state` for every
configuration, and `monitoredNet_grades` with the thresholds for a timeout
of four intervals or more.
-/
import Ceell.Core.Severity
import Ceell.Main
import Ceell.Network.DiscoveryNet

namespace Ceell

open Ceell.Lib Ceell.Lib.SlotArray Ceell.Osal Ceell.Core Ceell.Network

/-! ## The network with its monitors -/

structure MonitoredNet (k : Kconfig) (ι ν : Type) where
  net : DiscoveryNet k ι ν
  health : ι → HealthMonitor

inductive MonitoredAct (ι ν : Type) where
  | net (a : DiscoveryNetAct ι ν)
  | update (i : ι) (now : Int)

section Model

variable {ι ν : Type} [DecidableEq ι] (lib : JsonLib) (k : Kconfig) (cfg : ι → CeellConfig)

/-- One call at one node. The lifecycle thread makes both the expiries and
the updates, so an update is not before the last expiry; the discovery
thread may have stored a later uptime than the one the update reads. -/
def monitoredStep (s : MonitoredNet k ι ν) : MonitoredAct ι ν → Option (MonitoredNet k ι ν)
  | .net a => (discoveryNetStep lib k cfg s.net a).map fun net => { s with net := net }
  | .update i now =>
      if ∀ te ∈ (s.net.nodes i).lastExpiry, te ≤ now then
        some { s with
          health := Function.update s.health i
            (ceellHealthUpdate k now
              (ceellDiscoveryGetPeers (s.net.nodes i).table k.discoveryMaxPeers)
              (s.health i)).1 }
      else none

def monitoredMachine (ν : Type) : Machine (MonitoredNet k ι ν) (MonitoredAct ι ν) where
  init :=
    { net := (discoveryNetMachine lib k cfg ν).init
      health := fun _ => ceellHealthRegisterCb (ceellHealthInit k) }
  step := monitoredStep lib k cfg

end Model

/-- What is registered has a name that announcements hold. -/
def PlainMonitored {k : Kconfig} {ι ν : Type} (s : MonitoredNet k ι ν) : MonitoredAct ι ν → Prop
  | .net a => PlainNames s.net a
  | .update _ _ => True

/-! ## The invariant -/

section Invariant

variable {ι ν : Type} {lib : JsonLib} {k : Kconfig} {cfg : ι → CeellConfig}

/-- The monitor of node `i` tracks other nodes of the network only. -/
structure HealthOk (k : Kconfig) (cfg : ι → CeellConfig) (i : ι) (hm : HealthMonitor) : Prop where
  initialized : hm.initialized = true
  cb : hm.cbRegistered = true
  nodup : (trackedIds hm).Nodup
  size : hm.table.length = k.discoveryMaxPeers
  others : ∀ id ∈ trackedIds hm, ∃ j, j ≠ i ∧ (cfg j).nodeId = id

structure MonitoredInv (cfg : ι → CeellConfig) (s : MonitoredNet k ι ν) : Prop where
  net : DiscNetInv cfg s.net
  complete : ∀ i, Complete cfg i (s.net.nodes i) (s.net.heard i)
  health : ∀ i, HealthOk k cfg i (s.health i)

variable {i : ι} {hm : HealthMonitor} {services : ι → Registry ν} {node : NetNode k ν}
  {heard : ι → Option Int}

theorem healthOk_init : HealthOk k cfg i (ceellHealthRegisterCb (ceellHealthInit k)) where
  initialized := rfl
  cb := rfl
  nodup := by
    rw [trackedIds_init]
    exact List.nodup_nil
  size := by simp [ceellHealthRegisterCb, ceellHealthInit]
  others := by
    rw [trackedIds_init]
    exact fun id h => absurd h List.not_mem_nil

/-- In a network that fits the tables an update finds a slot for every
peer it reads. -/
theorem HealthOk.ready [Fintype ι] [DecidableEq ι] (h : HealthOk k cfg i hm)
    (hok : TableOk cfg services i node heard)
    (hcard : Fintype.card ι ≤ k.discoveryMaxPeers + 1) :
    UpdateReady hm (ceellDiscoveryGetPeers node.table k.discoveryMaxPeers) := by
  rw [getPeers_max hok.count_le]
  refine ⟨h.initialized, h.cb, h.nodup, hok.nodup, ?_⟩
  have hothers : ∀ {id : NodeId}, (∃ j, j ≠ i ∧ (cfg j).nodeId = id) →
      id ∈ ((Finset.univ.erase i).toList.map fun j => (cfg j).nodeId) := by
    rintro id ⟨j, hne, hid⟩
    exact List.mem_map.mpr
      ⟨j, Finset.mem_toList.mpr (Finset.mem_erase.mpr ⟨hne, Finset.mem_univ j⟩), hid⟩
  refine fits_of_subset h.nodup hok.nodup ?_ (fun id hid => hothers (h.others id hid)) ?_
  · rw [List.length_map, Finset.length_toList, Finset.card_erase_of_mem (Finset.mem_univ i),
      Finset.card_univ, h.size]
    omega
  · intro p hp
    exact hothers (hok.exists_of_mem_ids (mem_ids.mpr ⟨p, hp, rfl⟩))

theorem HealthOk.update [Fintype ι] [DecidableEq ι] (h : HealthOk k cfg i hm)
    (hok : TableOk cfg services i node heard)
    (hcard : Fintype.card ι ≤ k.discoveryMaxPeers + 1) (now : Int) :
    HealthOk k cfg i (ceellHealthUpdate k now
      (ceellDiscoveryGetPeers node.table k.discoveryMaxPeers) hm).1 := by
  obtain ⟨hlen, hnodup, _, hinit, hcb⟩ := ceellHealthUpdate_keeps k now
    (ceellDiscoveryGetPeers node.table k.discoveryMaxPeers) hm h.nodup
  refine ⟨hinit.trans h.initialized, hcb.trans h.cb, hnodup, hlen.trans h.size, ?_⟩
  intro id hid
  rcases (h.ready hok hcard).tracked.mp hid with hread | hold
  · rw [getPeers_max hok.count_le] at hread
    exact hok.exists_of_mem_ids hread
  · exact h.others id hold

/-- What an update does. -/
theorem monitoredStep_update [DecidableEq ι] {s s' : MonitoredNet k ι ν} {now : Int}
    (hs : monitoredStep lib k cfg s (.update i now) = some s') :
    (∀ te ∈ (s.net.nodes i).lastExpiry, te ≤ now) ∧
      s' = { s with
        health := Function.update s.health i
          (ceellHealthUpdate k now
            (ceellDiscoveryGetPeers (s.net.nodes i).table k.discoveryMaxPeers)
            (s.health i)).1 } := by
  simp only [monitoredStep] at hs
  split at hs
  · rename_i h
    exact ⟨h, (Option.some.inj hs).symm⟩
  · cases hs

variable [Fintype ι] [DecidableEq ι] {s s' : MonitoredNet k ι ν}

omit [Fintype ι] in
theorem monitoredInv_init : MonitoredInv cfg (monitoredMachine lib k cfg ν).init where
  net := @discNetInv_init ι ν _ lib k cfg
  complete := @complete_init ι ν _ lib k cfg
  health := fun _ => healthOk_init

theorem monitoredInv_step (hdoc : lib.Documented) (hnodes : PlainNodes cfg)
    (hcard : Fintype.card ι ≤ k.discoveryMaxPeers + 1) {a : MonitoredAct ι ν}
    (h : MonitoredInv cfg s) (hplain : PlainMonitored s a)
    (hs : monitoredStep lib k cfg s a = some s') : MonitoredInv cfg s' := by
  cases a with
  | net a =>
    obtain ⟨net, hnet, rfl⟩ := Option.map_eq_some_iff.mp hs
    exact
      { net := discNetInv_step hdoc hnodes h.net hplain hnet
        complete := complete_step hdoc hnodes hcard h.net h.complete hnet
        health := h.health }
  | update i now =>
    obtain ⟨_, rfl⟩ := monitoredStep_update hs
    refine { h with health := ?_ }
    exact (Function.forall_update_iff s.health fun j hm => HealthOk k cfg j hm).mpr
      ⟨(h.health i).update (h.net.tables i) hcard now, fun j _ => h.health j⟩

theorem monitoredInv_reachable (hdoc : lib.Documented) (hnodes : PlainNodes cfg)
    (hcard : Fintype.card ι ≤ k.discoveryMaxPeers + 1)
    (hr : (monitoredMachine lib k cfg ν).ReachableUnder PlainMonitored s) : MonitoredInv cfg s :=
  hr.induct monitoredInv_init fun _ _ _ h hplain hs =>
    monitoredInv_step hdoc hnodes hcard h hplain hs

/-! ## What a monitor says -/

/-- The peer was heard at `t`, no longer before the last expiry than the
timeout. -/
def HeardAt (k : Kconfig) (lastExpiry heard : Option Int) (t : Int) : Prop :=
  heard = some t ∧ ∀ te ∈ lastExpiry, te - t ≤ (k.peerTimeoutMs : Int)

/-- What the monitor of node `i` holds of node `j` after an update. -/
theorem MonitoredInv.state_update (h : MonitoredInv cfg s) (hnodes : PlainNodes cfg)
    (hcard : Fintype.card ι ≤ k.discoveryMaxPeers + 1) {now : Int}
    (hs : monitoredStep lib k cfg s (.update i now) = some s') {j : ι} (hne : j ≠ i) :
    (∀ t, HeardAt k (s.net.nodes i).lastExpiry (s.net.heard i j) t →
      ceellHealthGetState (s'.health i) (cfg j).nodeId = computeState k now t) ∧
    ((∀ t, ¬ HeardAt k (s.net.nodes i).lastExpiry (s.net.heard i j) t) →
      ceellHealthGetState (s'.health i) (cfg j).nodeId = .lost) := by
  obtain ⟨_, rfl⟩ := monitoredStep_update hs
  have hok := h.net.tables i
  have hready := (h.health i).ready hok hcard
  rw [getPeers_max hok.count_le] at hready
  have hmember := (h.complete i).mem_ids_iff hok hnodes hne
  dsimp only
  rw [Function.update_self, getPeers_max hok.count_le]
  constructor
  · rintro t ⟨ht, hfresh⟩
    obtain ⟨p, hp, hid⟩ := mem_ids.mp (hmember.mpr ⟨t, ht, hfresh⟩)
    have hseen := (hok.of_mem hnodes.distinct hp hid).2.2
    obtain rfl : p.lastSeen = t := Option.some.inj (hseen.symm.trans ht)
    rw [← hid]
    exact (hready.refreshed hp).2
  · intro hnone
    refine hready.dropped fun hmem => ?_
    obtain ⟨t, ht, hfresh⟩ := hmember.mp hmem
    exact hnone t ⟨ht, hfresh⟩

/-- The state of a peer by the uptime at which it was last heard. -/
def grade (k : Kconfig) (now : Int) : Option Int → HealthState
  | none => .lost
  | some t =>
      if now - t ≤ k.discoveryIntervalMs then .healthy
      else if now - t < 4 * k.discoveryIntervalMs then .degraded
      else if now - t ≥ k.peerTimeoutMs then .lost
      else .critical

theorem grade_lost_iff (hinterval : 0 < k.discoveryIntervalMs)
    (htimeout : 4 * k.discoveryIntervalMs ≤ k.peerTimeoutMs) {now t : Int} :
    grade k now (some t) = .lost ↔ k.peerTimeoutMs ≤ now - t := by
  rw [grade]
  split
  · exact iff_of_false (by decide) (by omega)
  · split
    · exact iff_of_false (by decide) (by omega)
    · split
      · exact iff_of_true rfl (by omega)
      · exact iff_of_false (by decide) (by omega)

/-- With a timeout of four intervals or more, and a recent expiry, the last
datagram is all that matters. -/
theorem MonitoredInv.grade_update (h : MonitoredInv cfg s) (hnodes : PlainNodes cfg)
    (hcard : Fintype.card ι ≤ k.discoveryMaxPeers + 1) (hinterval : 0 < k.discoveryIntervalMs)
    (htimeout : 4 * k.discoveryIntervalMs ≤ k.peerTimeoutMs) {now te : Int}
    (hlast : (s.net.nodes i).lastExpiry = some te) (hrecent : now - te + k.peerTimeoutMs < 2 ^ 31)
    (hs : monitoredStep lib k cfg s (.update i now) = some s') {j : ι} (hne : j ≠ i) :
    ceellHealthGetState (s'.health i) (cfg j).nodeId = grade k now (s.net.heard i j) := by
  have hle := (monitoredStep_update hs).1 te hlast
  have hstate := h.state_update hnodes hcard hs hne
  rw [hlast] at hstate
  cases hheard : s.net.heard i j with
  | none =>
    refine hstate.2 fun t ht => ?_
    have := ht.1.symm.trans hheard
    cases this
  | some t =>
    by_cases hfresh : te - t ≤ k.peerTimeoutMs
    · rw [hstate.1 t ⟨hheard, fun te' hte => by rwa [← Option.some.inj hte]⟩, grade,
        computeState_eq hinterval (by omega)]
    · have hlost : ceellHealthGetState (s'.health i) (cfg j).nodeId = .lost := by
        refine hstate.2 fun t' ht => ?_
        obtain rfl := Option.some.inj (hheard.symm.trans ht.1)
        exact hfresh (ht.2 te rfl)
      rw [hlost, eq_comm, grade_lost_iff hinterval htimeout]
      omega

end Invariant

section Detection

variable {ι ν : Type} [Fintype ι] [DecidableEq ι] {lib : JsonLib} {k : Kconfig}
  {cfg : ι → CeellConfig} {s s' : MonitoredNet k ι ν}

/-- **The monitor is exact**: in every run of a network that fits the
tables, an update of node `i` leaves node `j` in the state `compute_state`
gives for the last datagram heard from it, if that was not over the
timeout before the last expiry; otherwise `j` is LOST. -/
theorem monitoredNet_state (hdoc : lib.Documented) (hnodes : PlainNodes cfg)
    (hcard : Fintype.card ι ≤ k.discoveryMaxPeers + 1)
    (hr : (monitoredMachine lib k cfg ν).ReachableUnder PlainMonitored s) {i j : ι} (hne : j ≠ i)
    {now : Int} (hs : monitoredStep lib k cfg s (.update i now) = some s') :
    (∀ t, HeardAt k (s.net.nodes i).lastExpiry (s.net.heard i j) t →
      ceellHealthGetState (s'.health i) (cfg j).nodeId = computeState k now t) ∧
    ((∀ t, ¬ HeardAt k (s.net.nodes i).lastExpiry (s.net.heard i j) t) →
      ceellHealthGetState (s'.health i) (cfg j).nodeId = .lost) :=
  (monitoredInv_reachable hdoc hnodes hcard hr).state_update hnodes hcard hs hne

/-- The brake is heard at 10, the table expired at 4500. -/
def monitoredRun : List (MonitoredAct Bool Unit) :=
  [.net (.register true (some "brake-status".toList) (some ()) 0 5), .net (.transmit true),
   .net (.receive false true 10 brakeDatagram), .net (.expire false 4500)]

theorem monitoredRun_reachable :
    ∃ s s', (monitoredMachine jsonReference {} twoNodes Unit).ReachableUnder PlainMonitored s ∧
      s.net.heard false true = some 10 ∧ (s.net.nodes false).lastExpiry = some 4500 ∧
      monitoredStep jsonReference {} twoNodes s (.update false 4600) = some s' := by
  have hend : ((monitoredMachine jsonReference {} twoNodes Unit).run monitoredRun).map (fun s =>
      (s.net.heard false true, (s.net.nodes false).lastExpiry,
        (monitoredStep jsonReference {} twoNodes s (.update false 4600)).isSome))
        = some (some 10, some 4500, true) := by decide +kernel
  obtain ⟨s, hs, hvalues⟩ := Option.map_eq_some_iff.mp hend
  obtain ⟨hheard, hlast, hstep⟩ := by simpa using hvalues
  obtain ⟨s', hs'⟩ := Option.isSome_iff_exists.mp hstep
  refine ⟨s, s', ⟨monitoredRun, hs, ?_⟩, hheard, hlast, hs'⟩
  refine ⟨?_, fun _ _ => ⟨trivial, fun _ _ => ⟨trivial, fun _ _ => ⟨trivial, fun _ _ => trivial⟩⟩⟩⟩
  rintro n ⟨⟩
  exact ⟨by decide, by decide, by decide⟩

theorem monitoredNet_state_critical :
    ∃ s : MonitoredNet {} Bool Unit, ceellHealthGetState (s.health false) 3 = .critical := by
  obtain ⟨s, s', hr, hheard, hlast, hs⟩ := monitoredRun_reachable
  have hstate := (monitoredNet_state jsonReference_documented plainNodes_twoNodes (by decide) hr
    (i := false) (j := true) (by decide) hs).1 10 ⟨hheard, by rw [hlast]; decide⟩
  exact ⟨s', hstate.trans (by decide)⟩

/-- **The grades of the monitor**: with a timeout of four intervals or
more, and a last expiry less than 2^31 ms less the timeout ago, an update
of node `i` leaves `j` HEALTHY exactly if `i` has heard from it within an
interval, LOST exactly if not within the timeout, and else DEGRADED before
the fourth interval and CRITICAL after it. -/
theorem monitoredNet_grades (hdoc : lib.Documented) (hnodes : PlainNodes cfg)
    (hcard : Fintype.card ι ≤ k.discoveryMaxPeers + 1) (hinterval : 0 < k.discoveryIntervalMs)
    (htimeout : 4 * k.discoveryIntervalMs ≤ k.peerTimeoutMs)
    (hr : (monitoredMachine lib k cfg ν).ReachableUnder PlainMonitored s) {i j : ι} (hne : j ≠ i)
    {now te : Int} (hlast : (s.net.nodes i).lastExpiry = some te)
    (hrecent : now - te + k.peerTimeoutMs < 2 ^ 31)
    (hs : monitoredStep lib k cfg s (.update i now) = some s') :
    (ceellHealthGetState (s'.health i) (cfg j).nodeId = .healthy ↔
      ∃ t, s.net.heard i j = some t ∧ now - t ≤ k.discoveryIntervalMs) ∧
    (ceellHealthGetState (s'.health i) (cfg j).nodeId = .degraded ↔
      ∃ t, s.net.heard i j = some t ∧
        k.discoveryIntervalMs < now - t ∧ now - t < 4 * k.discoveryIntervalMs) ∧
    (ceellHealthGetState (s'.health i) (cfg j).nodeId = .critical ↔
      ∃ t, s.net.heard i j = some t ∧
        4 * k.discoveryIntervalMs ≤ now - t ∧ now - t < k.peerTimeoutMs) ∧
    (ceellHealthGetState (s'.health i) (cfg j).nodeId = .lost ↔
      ∀ t, s.net.heard i j = some t → k.peerTimeoutMs ≤ now - t) := by
  rw [(monitoredInv_reachable hdoc hnodes hcard hr).grade_update hnodes hcard hinterval htimeout
    hlast hrecent hs hne]
  cases hheard : s.net.heard i j with
  | none => simp [grade]
  | some t =>
    simp only [Option.some.injEq, exists_eq_left', forall_eq', grade]
    split
    · simp
      omega
    · split
      · simp
        omega
      · split
        · simp
          omega
        · simp
          omega

theorem monitoredNet_grades_critical :
    ∃ s : MonitoredNet {} Bool Unit, ceellHealthGetState (s.health false) 3 = .critical := by
  obtain ⟨s, s', hr, hheard, hlast, hs⟩ := monitoredRun_reachable
  have hgrades := monitoredNet_grades jsonReference_documented plainNodes_twoNodes (by decide)
    (by decide) (by decide) hr (i := false) (j := true) (by decide) hlast (by decide) hs
  exact ⟨s', hgrades.2.2.1.mpr ⟨10, hheard, by decide, by decide⟩⟩

end Detection

end Ceell
