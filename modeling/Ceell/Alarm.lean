/-
Ceell.Alarm — the network with its safe-state flags: from the datagrams to
`ceell_safe_state_active`.

Each node of `Detection` has `on_health_change` registered, so its flag
follows the edges of its monitor. Two results carry that to what the
network does: `alarmNet_quiet`, a node that hears the others in time never
enters safe state, and `alarmNet_crashStop`, in a network whose nodes fail
by falling silent the flag says exactly whether some node has fallen.
-/
import Ceell.Detection

namespace Ceell

open Ceell.Lib Ceell.Lib.SlotArray Ceell.Osal Ceell.Core Ceell.Network

/-! ## The network with its flags -/

structure AlarmNet (k : Kconfig) (ι ν : Type) where
  monitored : MonitoredNet k ι ν
  safe : ι → SafeState
  lastUpdate : ι → Option Int

/-- What an update of a node reads. -/
def MonitoredNet.snapshot {k : Kconfig} {ι ν : Type} (s : MonitoredNet k ι ν) (i : ι) : List Peer :=
  ceellDiscoveryGetPeers (s.net.nodes i).table k.discoveryMaxPeers

section Model

variable {ι ν : Type} [DecidableEq ι] (lib : JsonLib) (k : Kconfig) (cfg : ι → CeellConfig)

/-- One call at one node. The callbacks of an update run before it returns,
and one thread makes all updates of a node. -/
def alarmStep (s : AlarmNet k ι ν) : MonitoredAct ι ν → Option (AlarmNet k ι ν)
  | .net a =>
      (monitoredStep lib k cfg s.monitored (.net a)).map fun monitored =>
        { s with monitored := monitored }
  | .update i now =>
      if ∀ u ∈ s.lastUpdate i, u ≤ now then
        (monitoredStep lib k cfg s.monitored (.update i now)).map fun monitored =>
          { monitored := monitored
            safe := Function.update s.safe i
              ((ceellHealthUpdate k now (s.monitored.snapshot i)
                (s.monitored.health i)).2.foldl onHealthChange (s.safe i))
            lastUpdate := Function.update s.lastUpdate i (some now) }
      else none

def alarmMachine (ν : Type) : Machine (AlarmNet k ι ν) (MonitoredAct ι ν) where
  init := ⟨(monitoredMachine lib k cfg ν).init, fun _ => ceellSafeStateInit, fun _ => none⟩
  step := alarmStep lib k cfg

end Model

/-! ## What every run keeps -/

section Alarm

variable {ι ν : Type} [DecidableEq ι] {lib : JsonLib} {k : Kconfig} {cfg : ι → CeellConfig}
  {s s' : AlarmNet k ι ν}

structure AlarmInv (cfg : ι → CeellConfig) (s : AlarmNet k ι ν) : Prop where
  monitored : MonitoredInv cfg s.monitored
  initialized : ∀ i, (s.safe i).initialized = true
  /-- Only nodes that were heard are tracked. -/
  heard : ∀ i j, (cfg j).nodeId ∈ trackedIds (s.monitored.health i) →
    ∃ t, s.monitored.net.heard i j = some t

/-- What was heard stays so until the next datagram of that node. -/
theorem heard_step {net net' : DiscoveryNet k ι ν} {a : DiscoveryNetAct ι ν}
    (hs : discoveryNetStep lib k cfg net a = some net') (i j : ι) :
    net'.heard i j = net.heard i j ∨
      ∃ now datagram, a = .receive i j now datagram ∧ net'.heard i j = some now := by
  cases a with
  | register i' name handler priority deadlineMs =>
    simp only [discoveryNetStep, Option.map_eq_some_iff] at hs
    obtain ⟨tx, _, rfl⟩ := hs
    exact Or.inl rfl
  | transmit i' =>
    simp only [discoveryNetStep, Option.map_eq_some_iff] at hs
    obtain ⟨tx, _, rfl⟩ := hs
    exact Or.inl rfl
  | receive i' j' now datagram =>
    obtain ⟨_, rfl⟩ := discoveryNetStep_receive hs
    by_cases hi : i = i'
    · subst hi
      by_cases hj : j = j'
      · subst hj
        exact Or.inr ⟨now, datagram, rfl, by simp⟩
      · exact Or.inl (by simp [hj])
    · exact Or.inl (by simp [hi])
  | expire i' now =>
    obtain ⟨_, rfl⟩ := discoveryNetStep_expire hs
    exact Or.inl rfl

/-- The last expiry of a node does not go back. -/
theorem expiry_step {net net' : DiscoveryNet k ι ν} {a : DiscoveryNetAct ι ν}
    (hs : discoveryNetStep lib k cfg net a = some net') {i : ι} {te : Int}
    (hte : te ∈ (net.nodes i).lastExpiry) (hle : te ≤ (net.nodes i).clock) :
    ∃ te' ∈ (net'.nodes i).lastExpiry, te ≤ te' := by
  have hsame : ∀ {i' : ι} {node : NetNode k ν}, node.lastExpiry = (net.nodes i').lastExpiry →
      ∃ te' ∈ (Function.update net.nodes i' node i).lastExpiry, te ≤ te' := by
    intro i' node hnode
    refine ⟨te, ?_, Int.le_refl te⟩
    by_cases hi : i = i'
    · subst hi
      rwa [Function.update_self, hnode]
    · rwa [Function.update_of_ne hi]
  cases a with
  | register i' name handler priority deadlineMs =>
    simp only [discoveryNetStep, Option.map_eq_some_iff] at hs
    obtain ⟨tx, _, rfl⟩ := hs
    exact hsame rfl
  | transmit i' =>
    simp only [discoveryNetStep, Option.map_eq_some_iff] at hs
    obtain ⟨tx, _, rfl⟩ := hs
    exact hsame rfl
  | receive i' j now datagram =>
    obtain ⟨_, rfl⟩ := discoveryNetStep_receive hs
    exact hsame rfl
  | expire i' now =>
    obtain ⟨hclock, rfl⟩ := discoveryNetStep_expire hs
    by_cases hi : i = i'
    · subst hi
      exact ⟨now, by simp, hle.trans hclock⟩
    · exact ⟨te, by simpa [hi] using hte, Int.le_refl te⟩

/-- A step of the network leaves the monitors and the flags alone. -/
theorem alarmStep_net {a : DiscoveryNetAct ι ν}
    (hs : (alarmMachine lib k cfg ν).step s (.net a) = some s') :
    ∃ net', discoveryNetStep lib k cfg s.monitored.net a = some net' ∧
      s' = { s with monitored := { s.monitored with net := net' } } := by
  obtain ⟨monitored, hm, rfl⟩ := Option.map_eq_some_iff.mp hs
  obtain ⟨net', hnet, rfl⟩ := Option.map_eq_some_iff.mp hm
  exact ⟨net', hnet, rfl⟩

/-- What an update does. -/
theorem alarmStep_update {i : ι} {now : Int}
    (hs : alarmStep lib k cfg s (.update i now) = some s') :
    (∀ u ∈ s.lastUpdate i, u ≤ now) ∧
      monitoredStep lib k cfg s.monitored (.update i now) = some s'.monitored ∧
      s'.safe = Function.update s.safe i ((ceellHealthUpdate k now (s.monitored.snapshot i)
        (s.monitored.health i)).2.foldl onHealthChange (s.safe i)) ∧
      s'.lastUpdate = Function.update s.lastUpdate i (some now) := by
  simp only [alarmStep] at hs
  split at hs
  · rename_i hlast
    obtain ⟨monitored, hm, rfl⟩ := Option.map_eq_some_iff.mp hs
    exact ⟨hlast, hm, rfl, rfl⟩
  · cases hs

theorem alarmInv_init : AlarmInv cfg (alarmMachine lib k cfg ν).init where
  monitored := monitoredInv_init
  initialized _ := rfl
  heard i j hj := by
    have hnone : (cfg j).nodeId ∈ trackedIds (ceellHealthRegisterCb (ceellHealthInit k)) := hj
    rw [trackedIds_init] at hnone
    exact absurd hnone List.not_mem_nil

variable [Fintype ι]

/-- The monitor is ready for what the update reads. -/
theorem AlarmInv.ready (h : AlarmInv cfg s) (hcard : Fintype.card ι ≤ k.discoveryMaxPeers + 1)
    (i : ι) : UpdateReady (s.monitored.health i) (s.monitored.snapshot i) :=
  (h.monitored.health i).ready (h.monitored.net.tables i) hcard

omit [DecidableEq ι] [Fintype ι] in
/-- A peer that the update of node `i` reads is another node, seen when it
was last heard. -/
theorem AlarmInv.of_snapshot (h : AlarmInv cfg s) {i : ι} {p : Peer}
    (hp : p ∈ s.monitored.snapshot i) :
    ∃ j, j ≠ i ∧ (cfg j).nodeId = p.nodeId ∧ s.monitored.net.heard i j = some p.lastSeen ∧
      ∀ te ∈ (s.monitored.net.nodes i).lastExpiry, te - p.lastSeen ≤ (k.peerTimeoutMs : Int) := by
  have hok := h.monitored.net.tables i
  rw [MonitoredNet.snapshot, getPeers_max hok.count_le] at hp
  obtain ⟨j, hne, hdesc, hheard⟩ := hok.entries p hp
  exact ⟨j, hne, hdesc.nodeId.symm, hheard, hok.fresh p hp⟩

omit [DecidableEq ι] [Fintype ι] in
/-- Who is read, by what was heard and when the last expiry was. -/
theorem AlarmInv.mem_snapshot_iff (h : AlarmInv cfg s) (hnodes : PlainNodes cfg) {i j : ι}
    (hne : j ≠ i) :
    (cfg j).nodeId ∈ (s.monitored.snapshot i).map (·.nodeId) ↔
      ∃ t, HeardAt k (s.monitored.net.nodes i).lastExpiry (s.monitored.net.heard i j) t := by
  have hok := h.monitored.net.tables i
  rw [MonitoredNet.snapshot, getPeers_max hok.count_le]
  exact (h.monitored.complete i).mem_ids_iff hok hnodes hne

/-- What is registered has a name that announcements hold. -/
def PlainAlarm {k : Kconfig} {ι ν : Type} (s : AlarmNet k ι ν) (a : MonitoredAct ι ν) : Prop :=
  PlainMonitored s.monitored a

theorem alarmInv_step (hdoc : lib.Documented) (hnodes : PlainNodes cfg)
    (hcard : Fintype.card ι ≤ k.discoveryMaxPeers + 1) {a : MonitoredAct ι ν}
    (h : AlarmInv cfg s) (hplain : PlainAlarm s a)
    (hs : alarmStep lib k cfg s a = some s') : AlarmInv cfg s' := by
  cases a with
  | net a =>
    obtain ⟨net', hnet, rfl⟩ := alarmStep_net hs
    have hm : monitoredStep lib k cfg s.monitored (.net a)
        = some { s.monitored with net := net' } := by simp [monitoredStep, hnet]
    refine ⟨monitoredInv_step hdoc hnodes hcard h.monitored hplain hm, h.initialized, ?_⟩
    intro i j hj
    rcases heard_step hnet i j with hsame | ⟨now, _, _, hnow⟩
    · obtain ⟨t, ht⟩ := h.heard i j hj
      exact ⟨t, hsame.trans ht⟩
    · exact ⟨now, hnow⟩
  | update i now =>
    obtain ⟨_, hm, hsafe, _⟩ := alarmStep_update hs
    refine ⟨monitoredInv_step hdoc hnodes hcard h.monitored hplain hm, ?_, ?_⟩
    · rw [hsafe]
      exact (Function.forall_update_iff s.safe fun _ safe => safe.initialized = true).mpr
        ⟨(active_foldl_onHealthChange _ (h.initialized i)).1, fun j _ => h.initialized j⟩
    · obtain ⟨_, hmonitored⟩ := monitoredStep_update hm
      rw [hmonitored]
      refine (Function.forall_update_iff s.monitored.health fun i' hm => ∀ j,
        (cfg j).nodeId ∈ trackedIds hm → ∃ t, s.monitored.net.heard i' j = some t).mpr
          ⟨?_, fun i' _ => h.heard i'⟩
      intro j hj
      rcases (h.ready hcard i).tracked.mp hj with hread | hold
      · obtain ⟨p, hp, hid⟩ := List.mem_map.mp hread
        obtain ⟨j', _, hid', hheard, _⟩ := h.of_snapshot hp
        obtain rfl : j' = j := hnodes.distinct (hid'.trans hid)
        exact ⟨p.lastSeen, hheard⟩
      · exact h.heard i j hold

/-! ## No alarm without silence -/

/-- When a node updates, it has heard all nodes that it ever heard within
the timeout. -/
def InTime {k : Kconfig} {ι ν : Type} (s : AlarmNet k ι ν) : MonitoredAct ι ν → Prop
  | .net a => PlainNames s.monitored.net a
  | .update i now => ∀ j t, j ≠ i → s.monitored.net.heard i j = some t →
      now - t < (k.peerTimeoutMs : Int)

omit [DecidableEq ι] [Fintype ι] in
theorem InTime.plain {a : MonitoredAct ι ν} (h : InTime s a) : PlainAlarm s a := by
  cases a with
  | net a => exact h
  | update i now => trivial

/-- A peer within the timeout is not LOST, whatever the cast of the missed
intervals makes of a long timeout. -/
theorem computeState_ne_lost {now t : Int} (h : now - t < (k.peerTimeoutMs : Int)) :
    computeState k now t ≠ .lost := by
  unfold computeState
  dsimp only
  split
  · decide
  · split
    · decide
    · rw [if_neg (by omega)]
      decide

theorem quiet_update (hnodes : PlainNodes cfg) (hcard : Fintype.card ι ≤ k.discoveryMaxPeers + 1)
    (h : AlarmInv cfg s) {i : ι} {now : Int} (htime : InTime s (.update i now))
    (hoff : (s.safe i).active = false)
    (hlast : ∀ te ∈ (s.monitored.net.nodes i).lastExpiry, te ≤ now) :
    ((ceellHealthUpdate k now (s.monitored.snapshot i) (s.monitored.health i)).2.foldl
      onHealthChange (s.safe i)).active = false := by
  rw [inactive_update_iff (h.ready hcard i) (h.initialized i)]
  constructor
  · -- nobody is missing from the snapshot
    intro id htracked hid
    obtain ⟨j, hne, rfl⟩ := (h.monitored.health i).others id htracked
    obtain ⟨t, ht⟩ := h.heard i j htracked
    refine absurd ((h.mem_snapshot_iff hnodes hne).mpr ⟨t, ht, fun te hte => ?_⟩) hid
    have hfresh := htime j t hne ht
    have hle := hlast te hte
    omega
  · refine Or.inr ⟨hoff, fun p hp hlost => ?_⟩
    obtain ⟨j, hne, _, hheard, _⟩ := h.of_snapshot hp
    exact absurd hlost (computeState_ne_lost (htime j _ hne hheard))

/-- **No false alarm**: in every run of a network that fits the tables in
which every update of a node finds that it has heard each node it ever
heard within the timeout, no node is ever in safe state. -/
theorem alarmNet_quiet (hdoc : lib.Documented) (hnodes : PlainNodes cfg)
    (hcard : Fintype.card ι ≤ k.discoveryMaxPeers + 1)
    (hr : (alarmMachine lib k cfg ν).ReachableUnder InTime s) (i : ι) :
    ceellSafeStateActive (s.safe i) = false := by
  have hboth : AlarmInv cfg s ∧ ∀ i, (s.safe i).active = false := by
    refine hr.induct (P := fun s => AlarmInv cfg s ∧ ∀ i, (s.safe i).active = false)
      ⟨alarmInv_init, fun _ => rfl⟩ ?_
    rintro u a u' ⟨hinv, hoff⟩ htime hs
    refine ⟨alarmInv_step hdoc hnodes hcard hinv htime.plain hs, ?_⟩
    cases a with
    | net a =>
      obtain ⟨_, _, rfl⟩ := alarmStep_net hs
      exact hoff
    | update i now =>
      obtain ⟨_, hm, hsafe, _⟩ := alarmStep_update hs
      rw [hsafe]
      exact (Function.forall_update_iff u.safe fun _ safe => safe.active = false).mpr
        ⟨quiet_update hnodes hcard hinv htime (hoff i) (monitoredStep_update hm).1,
          fun j _ => hoff j⟩
  exact hboth.2 i

/-- The brake of `monitoredRun` is CRITICAL, and there is no alarm. -/
theorem alarmNet_quiet_critical :
    ∃ s, (alarmMachine jsonReference {} twoNodes Unit).run (monitoredRun ++ [.update false 4600])
        = some s ∧
      ceellHealthGetState (s.monitored.health false) 3 = .critical ∧
      ceellSafeStateActive (s.safe false) = false := by
  have hbefore : ((alarmMachine jsonReference {} twoNodes Unit).run monitoredRun).map (fun s =>
      s.monitored.net.heard false true) = some (some 10) := by decide +kernel
  obtain ⟨u, hu, hheard⟩ := Option.map_eq_some_iff.mp hbefore
  have hend : ((alarmMachine jsonReference {} twoNodes Unit).run
      (monitoredRun ++ [.update false 4600])).map (fun s =>
        ceellHealthGetState (s.monitored.health false) 3) = some .critical := by decide +kernel
  obtain ⟨s, hs, hstate⟩ := Option.map_eq_some_iff.mp hend
  have hplain : ∀ name ∈ some "brake-status".toList, ServiceName (cstr name) := by
    rintro name ⟨⟩
    exact ⟨by decide, by decide, by decide⟩
  have hstart : (alarmMachine jsonReference {} twoNodes Unit).AllSteps InTime
      (alarmMachine jsonReference {} twoNodes Unit).init monitoredRun :=
    ⟨hplain, fun _ _ => ⟨trivial, fun _ _ => ⟨trivial, fun _ _ => ⟨trivial, fun _ _ => trivial⟩⟩⟩⟩
  have htime : InTime u (.update false 4600) := by
    intro j t hne ht
    cases j with
    | false => exact absurd rfl hne
    | true =>
      obtain rfl := Option.some.inj (hheard.symm.trans ht)
      decide
  exact ⟨s, hs, hstate, alarmNet_quiet jsonReference_documented plainNodes_twoNodes (by decide)
    ⟨_, hs, Machine.allSteps_append hu hstart ⟨htime, fun _ _ => trivial⟩⟩ false⟩

/-! ## Nodes that fail by falling silent -/

/-- A node that another one has found LOST is not heard by it any more, and
an update comes soon after an expiry. -/
def CrashStop (cfg : ι → CeellConfig) (s : AlarmNet k ι ν) : MonitoredAct ι ν → Prop
  | .net (.receive i j _ _) => (cfg j).nodeId ∈ trackedIds (s.monitored.health i) →
      ceellHealthGetState (s.monitored.health i) (cfg j).nodeId ≠ .lost
  | .net a => PlainNames s.monitored.net a
  | .update i now => ∃ te, (s.monitored.net.nodes i).lastExpiry = some te ∧
      now - te + (k.peerTimeoutMs : Int) < 2 ^ 31

omit [DecidableEq ι] [Fintype ι] in
theorem CrashStop.plain {a : MonitoredAct ι ν} (h : CrashStop cfg s a) : PlainAlarm s a := by
  cases a with
  | net a =>
    cases a with
    | receive i j now datagram => trivial
    | _ => exact h
  | update i now => trivial

/-- A datagram heard at `t` is too old for the last expiry, or was for the
last update. -/
def TooOld (k : Kconfig) (lastExpiry lastUpdate : Option Int) (t : Int) : Prop :=
  (∃ te ∈ lastExpiry, (k.peerTimeoutMs : Int) < te - t) ∨
    ∃ u ∈ lastUpdate, computeState k u t = .lost

structure CrashInv (cfg : ι → CeellConfig) (s : AlarmNet k ι ν) : Prop where
  alarm : AlarmInv cfg s
  lost : ∀ i j, (cfg j).nodeId ∈ trackedIds (s.monitored.health i) →
    ceellHealthGetState (s.monitored.health i) (cfg j).nodeId = .lost →
      ∀ t, s.monitored.net.heard i j = some t →
        TooOld k (s.monitored.net.nodes i).lastExpiry (s.lastUpdate i) t
  flag : ∀ i, (s.safe i).active = true ↔ SomeLost (s.monitored.health i)

/-- LOST is LOST for a later update. -/
theorem lost_mono (hinterval : 0 < k.discoveryIntervalMs) {u now t : Int} (hle : u ≤ now)
    (hb : now - t < 2 ^ 31) (hlost : computeState k u t = .lost) :
    computeState k now t = .lost := by
  have hsev := severity_mono (k := k) hinterval hb (show u - t ≤ now - t by omega)
  rw [hlost] at hsev
  cases hstate : computeState k now t with
  | lost => rfl
  | _ =>
    rw [hstate] at hsev
    simp [HealthState.severity] at hsev

omit [DecidableEq ι] [Fintype ι] in
/-- No update finds a LOST peer back. -/
theorem CrashInv.stays_lost (h : CrashInv cfg s) (hinterval : 0 < k.discoveryIntervalMs) {i : ι}
    {now : Int} (hact : CrashStop cfg s (.update i now)) (hlast : ∀ u ∈ s.lastUpdate i, u ≤ now)
    {p : Peer} (hp : p ∈ s.monitored.snapshot i)
    (hbefore : stateBefore (s.monitored.health i) p.nodeId = .lost) :
    computeState k now p.lastSeen = .lost := by
  obtain ⟨te, hte, hrecent⟩ := hact
  obtain ⟨j, _, hid, hheard, hfresh⟩ := h.alarm.of_snapshot hp
  have hage := hfresh te hte
  rcases stateBefore_cases (s.monitored.health i) p.nodeId with ⟨htracked, hstate⟩ | ⟨_, hnew, _⟩
  · rw [hbefore] at hstate
    rw [← hid] at htracked hstate
    rcases h.lost i j htracked hstate.symm _ hheard with ⟨te', hte', hold⟩ | ⟨u, hu, hlost⟩
    · have := hfresh te' hte'
      omega
    · exact lost_mono hinterval (hlast u hu) (by omega) hlost
  · rw [hnew] at hbefore
    cases hbefore

/-- The flag after an update. -/
theorem CrashInv.flag_update (h : CrashInv cfg s)
    (hcard : Fintype.card ι ≤ k.discoveryMaxPeers + 1) (hinterval : 0 < k.discoveryIntervalMs)
    {i : ι} {now : Int} (hact : CrashStop cfg s (.update i now))
    (hlast : ∀ u ∈ s.lastUpdate i, u ≤ now) :
    ((ceellHealthUpdate k now (s.monitored.snapshot i) (s.monitored.health i)).2.foldl
        onHealthChange (s.safe i)).active = true ↔
      SomeLost (ceellHealthUpdate k now (s.monitored.snapshot i) (s.monitored.health i)).1 := by
  have hready := h.alarm.ready hcard i
  have hstays : ∀ p ∈ s.monitored.snapshot i, stateBefore (s.monitored.health i) p.nodeId = .lost →
      computeState k now p.lastSeen = .lost :=
    fun p hp hbefore => h.stays_lost hinterval hact hlast hp hbefore
  rw [← not_iff_not, Bool.not_eq_true, inactive_update_iff hready (h.alarm.initialized i),
    someLost_update_iff hready]
  constructor
  · rintro ⟨hgone, ⟨front, p, back, heq, hbefore, hback, _⟩ | ⟨hoff, hnew⟩⟩
    · have hp : p ∈ s.monitored.snapshot i := by simp [heq]
      rw [hstays p hp hbefore] at hback
      cases hback
    · -- the flag was down, so nobody was LOST before, and nobody becomes LOST
      have hnone : ¬ SomeLost (s.monitored.health i) := by
        rw [← h.flag i, hoff]
        decide
      rintro (⟨q, hq, hlost⟩ | ⟨id, htracked, hid⟩)
      · exact hnone (someLost_of_stateBefore (hnew q hq hlost))
      · exact hnone (someLost_of_stateBefore (hgone id htracked hid))
  · intro hnone
    have hread : ∀ id ∈ trackedIds (s.monitored.health i),
        id ∈ (s.monitored.snapshot i).map (·.nodeId) := by
      intro id htracked
      by_contra hid
      exact hnone (Or.inr ⟨id, htracked, hid⟩)
    have hlive : ∀ q ∈ s.monitored.snapshot i, computeState k now q.lastSeen ≠ .lost :=
      fun q hq hlost => hnone (Or.inl ⟨q, hq, hlost⟩)
    have hbefore : ¬ SomeLost (s.monitored.health i) := by
      rintro ⟨id, htracked, hlost⟩
      obtain ⟨p, hp, rfl⟩ := List.mem_map.mp (hread id htracked)
      refine hlive p hp (hstays p hp ?_)
      rcases stateBefore_cases (s.monitored.health i) p.nodeId with ⟨_, hstate⟩ | ⟨hnot, _⟩
      · rw [hstate, hlost]
      · exact absurd htracked hnot
    refine ⟨fun id htracked hid => absurd (hread id htracked) hid, Or.inr ⟨?_, ?_⟩⟩
    · rw [← Bool.not_eq_true, h.flag i]
      exact hbefore
    · exact fun q hq hlost => absurd hlost (hlive q hq)

/-- Who is LOST after an update was heard too long ago. -/
theorem CrashInv.lost_update (h : CrashInv cfg s) (hnodes : PlainNodes cfg)
    (hcard : Fintype.card ι ≤ k.discoveryMaxPeers + 1) {i j : ι} {now : Int}
    (htracked : (cfg j).nodeId ∈ trackedIds (ceellHealthUpdate k now (s.monitored.snapshot i)
      (s.monitored.health i)).1)
    (hlost : ceellHealthGetState (ceellHealthUpdate k now (s.monitored.snapshot i)
      (s.monitored.health i)).1 (cfg j).nodeId = .lost) {t : Int}
    (ht : s.monitored.net.heard i j = some t) :
    TooOld k (s.monitored.net.nodes i).lastExpiry (some now) t := by
  have hready := h.alarm.ready hcard i
  by_cases hid : (cfg j).nodeId ∈ (s.monitored.snapshot i).map (·.nodeId)
  · obtain ⟨p, hp, hpid⟩ := List.mem_map.mp hid
    obtain ⟨j', _, hid', hheard, _⟩ := h.alarm.of_snapshot hp
    obtain rfl : j' = j := hnodes.distinct (hid'.trans hpid)
    obtain rfl := Option.some.inj (ht.symm.trans hheard)
    rw [← hpid, (hready.refreshed hp).2] at hlost
    exact Or.inr ⟨now, rfl, hlost⟩
  · have hne : j ≠ i := by
      have hold := (hready.tracked.mp htracked).resolve_left hid
      obtain ⟨j', hne, hid'⟩ := (h.alarm.monitored.health i).others _ hold
      obtain rfl : j' = j := hnodes.distinct hid'
      exact hne
    refine Or.inl (by_contra fun hnone => ?_)
    refine hid ((h.alarm.mem_snapshot_iff hnodes hne).mpr ⟨t, ht, fun te hte => ?_⟩)
    exact not_lt.mp fun hold => hnone ⟨te, hte, hold⟩

omit [Fintype ι] in
/-- A step of the network: what is too old stays so, and no LOST node is
heard. -/
theorem CrashInv.net (h : CrashInv cfg s) {net' : DiscoveryNet k ι ν} {a : DiscoveryNetAct ι ν}
    (hact : CrashStop cfg s (.net a))
    (hs : discoveryNetStep lib k cfg s.monitored.net a = some net') {i j : ι}
    (htracked : (cfg j).nodeId ∈ trackedIds (s.monitored.health i))
    (hlost : ceellHealthGetState (s.monitored.health i) (cfg j).nodeId = .lost) {t : Int}
    (ht : net'.heard i j = some t) : TooOld k (net'.nodes i).lastExpiry (s.lastUpdate i) t := by
  rcases heard_step hs i j with hsame | ⟨now, datagram, rfl, _⟩
  · rcases h.lost i j htracked hlost t (hsame.symm.trans ht) with ⟨te, hte, hold⟩ | hold
    · have hclock := (h.alarm.monitored.net.tables i).expiry_le te hte
      obtain ⟨te', hte', hle⟩ := expiry_step hs hte hclock
      exact Or.inl ⟨te', hte', by omega⟩
    · exact Or.inr hold
  · exact absurd hlost (hact htracked)

theorem crashInv_step (hdoc : lib.Documented) (hnodes : PlainNodes cfg)
    (hcard : Fintype.card ι ≤ k.discoveryMaxPeers + 1) (hinterval : 0 < k.discoveryIntervalMs)
    {a : MonitoredAct ι ν} (h : CrashInv cfg s) (hact : CrashStop cfg s a)
    (hs : alarmStep lib k cfg s a = some s') : CrashInv cfg s' := by
  have halarm := alarmInv_step hdoc hnodes hcard h.alarm hact.plain hs
  cases a with
  | net a =>
    obtain ⟨net', hnet, rfl⟩ := alarmStep_net hs
    exact
      { alarm := halarm
        lost := fun i j htracked hlost t ht => h.net hact hnet htracked hlost ht
        flag := h.flag }
  | update i now =>
    obtain ⟨hlast, hm, hsafe, hupdate⟩ := alarmStep_update hs
    obtain ⟨_, hmonitored⟩ := monitoredStep_update hm
    refine ⟨halarm, ?_, ?_⟩
    · rw [hmonitored, hupdate]
      intro i' j htracked hlost t ht
      by_cases hi : i' = i
      · subst hi
        dsimp only at htracked hlost
        rw [Function.update_self] at htracked hlost ⊢
        exact h.lost_update hnodes hcard htracked hlost ht
      · dsimp only at htracked hlost
        rw [Function.update_of_ne hi] at htracked hlost ⊢
        exact h.lost i' j htracked hlost t ht
    · rw [hmonitored, hsafe]
      intro i'
      by_cases hi : i' = i
      · subst hi
        dsimp only
        rw [Function.update_self, Function.update_self]
        exact h.flag_update hcard hinterval hact hlast
      · dsimp only
        rw [Function.update_of_ne hi, Function.update_of_ne hi]
        exact h.flag i'

omit [Fintype ι] in
theorem crashInv_init : CrashInv cfg (alarmMachine lib k cfg ν).init where
  alarm := alarmInv_init
  lost i j hj := by
    have hinit : AlarmInv cfg (alarmMachine lib k cfg ν).init := alarmInv_init
    obtain ⟨t, ht⟩ := hinit.heard i j hj
    cases ht
  flag i := by
    refine iff_of_false Bool.false_ne_true ?_
    rintro ⟨id, hid, _⟩
    have hnone : id ∈ trackedIds (ceellHealthRegisterCb (ceellHealthInit k)) := hid
    rw [trackedIds_init] at hnone
    exact absurd hnone List.not_mem_nil

/-- **The flag of a network that fails by stopping**: in every run in which
a node found LOST is not heard again, an update of node `i` leaves it in
safe state exactly if some node that it has come to track was not heard
within the timeout; and between the updates the flag says whether a tracked
node is LOST. -/
theorem alarmNet_crashStop (hdoc : lib.Documented) (hnodes : PlainNodes cfg)
    (hcard : Fintype.card ι ≤ k.discoveryMaxPeers + 1) (hinterval : 0 < k.discoveryIntervalMs)
    (htimeout : 4 * k.discoveryIntervalMs ≤ k.peerTimeoutMs)
    (hr : (alarmMachine lib k cfg ν).ReachableUnder (CrashStop cfg) s) (i : ι) :
    (ceellSafeStateActive (s.safe i) = true ↔ SomeLost (s.monitored.health i)) ∧
    ∀ now s', CrashStop cfg s (.update i now) → alarmStep lib k cfg s (.update i now) = some s' →
      (ceellSafeStateActive (s'.safe i) = true ↔
        ∃ j t, j ≠ i ∧ (cfg j).nodeId ∈ trackedIds (s'.monitored.health i) ∧
          s.monitored.net.heard i j = some t ∧ k.peerTimeoutMs ≤ now - t) := by
  have h : CrashInv cfg s := hr.induct crashInv_init fun _ _ _ h hact hs =>
    crashInv_step hdoc hnodes hcard hinterval h hact hs
  refine ⟨h.flag i, fun now s' hact hs => ?_⟩
  have h' := crashInv_step hdoc hnodes hcard hinterval h hact hs
  obtain ⟨_, hm, _, _⟩ := alarmStep_update hs
  obtain ⟨te, hte, hrecent⟩ := hact
  have hgrade : ∀ {j : ι}, j ≠ i →
      ceellHealthGetState (s'.monitored.health i) (cfg j).nodeId
        = grade k now (s.monitored.net.heard i j) := fun hne =>
    h.alarm.monitored.grade_update hnodes hcard hinterval htimeout hte hrecent hm hne
  have hheard : ∀ {j : ι}, (cfg j).nodeId ∈ trackedIds (s'.monitored.health i) →
      ∃ t, s.monitored.net.heard i j = some t := by
    obtain ⟨_, hmonitored⟩ := monitoredStep_update hm
    intro j hj
    have hj' := h'.alarm.heard i j hj
    rwa [hmonitored] at hj'
  rw [ceellSafeStateActive, h'.flag i]
  constructor
  · rintro ⟨id, htracked, hlost⟩
    obtain ⟨j, hne, rfl⟩ := (h'.alarm.monitored.health i).others id htracked
    obtain ⟨t, ht⟩ := hheard htracked
    refine ⟨j, t, hne, htracked, ht, ?_⟩
    rwa [hgrade hne, ht, grade_lost_iff hinterval htimeout] at hlost
  · rintro ⟨j, t, hne, htracked, ht, hold⟩
    refine ⟨_, htracked, ?_⟩
    rwa [hgrade hne, ht, grade_lost_iff hinterval htimeout]

/-- The brake is heard at 10 and then no more. -/
def silentBrake : List (MonitoredAct Bool Unit) :=
  [.net (.register true (some "brake-status".toList) (some ()) 0 5), .net (.transmit true),
   .net (.receive false true 10 brakeDatagram), .net (.expire false 1000), .update false 1000,
   .net (.expire false 6000)]

theorem alarmNet_crashStop_silentBrake :
    ∃ s s', (alarmMachine jsonReference {} twoNodes Unit).run silentBrake = some s ∧
      alarmStep jsonReference {} twoNodes s (.update false 6000) = some s' ∧
      ceellSafeStateActive (s.safe false) = false ∧
      ceellSafeStateActive (s'.safe false) = true := by
  have hend : ((alarmMachine jsonReference {} twoNodes Unit).run silentBrake).map (fun s =>
      (s.monitored.net.heard false true, (s.monitored.net.nodes false).lastExpiry,
        ceellSafeStateActive (s.safe false),
        (alarmStep jsonReference {} twoNodes s (.update false 6000)).map fun s' =>
          decide (3 ∈ trackedIds (s'.monitored.health false))))
        = some (some 10, some 6000, false, some true) := by decide +kernel
  obtain ⟨s, hs, hvalues⟩ := Option.map_eq_some_iff.mp hend
  obtain ⟨hheard, hvalues⟩ := Prod.mk.inj hvalues
  obtain ⟨hlast, hvalues⟩ := Prod.mk.inj hvalues
  obtain ⟨hoff, hstep⟩ := Prod.mk.inj hvalues
  obtain ⟨s', hs', htracked⟩ := Option.map_eq_some_iff.mp hstep
  have hall : (alarmMachine jsonReference {} twoNodes Unit).AllSteps (CrashStop twoNodes)
      (alarmMachine jsonReference {} twoNodes Unit).init silentBrake := by
    refine ⟨?_, fun s₁ h₁ => ⟨trivial, fun s₂ h₂ => ⟨?_, fun s₃ h₃ => ⟨trivial, fun s₄ h₄ =>
      ⟨?_, fun _ _ => ⟨trivial, fun _ _ => trivial⟩⟩⟩⟩⟩⟩
    · rintro name ⟨⟩
      exact ⟨by decide, by decide, by decide⟩
    · -- nothing is tracked before the first update
      obtain rfl := Option.some.inj h₁
      obtain rfl := Option.some.inj h₂
      intro htracked
      exact absurd htracked (by decide)
    · obtain ⟨net₄, hnet, rfl⟩ := alarmStep_net h₄
      obtain ⟨_, rfl⟩ := discoveryNetStep_expire hnet
      exact ⟨1000, by simp, by decide⟩
  have halarm := alarmNet_crashStop jsonReference_documented plainNodes_twoNodes (by decide)
    (by decide) (by decide) ⟨_, hs, hall⟩ false
  refine ⟨s, s', hs, hs', hoff, (halarm.2 6000 s' ⟨6000, hlast, by decide⟩ hs').mpr ?_⟩
  exact ⟨true, 10, by decide, of_decide_eq_true htracked, hheard, by decide⟩

end Alarm

end Ceell
