/-
Ceell.Core.MissedCount — the missed intervals that the health table
reports.

`ceell_health_update` computes the count of a peer where the peer changes
its state, and nowhere else, so an entry keeps the count with which it
entered its state, -1 where it was dropped. A run therefore carries how long
each peer had been silent when its entry entered its state.
`missedOk_iff_counted` says in which runs the table has the right counts all
the same: those in which a peer that stays in a state has missed as many
intervals as when it entered it.
-/
import Ceell.Core.HealthMonitor

namespace Ceell.Core

open Ceell.Lib Ceell.Lib.SlotArray Ceell.Network

/-! ## Runs -/

/-- The monitor, and what a run remembers of its past. -/
structure MonitorRun where
  monitor : HealthMonitor
  /-- The time and the snapshot of the last update. -/
  last : Option (Int × List Peer)
  /-- How long the peer had been silent at the update that gave its entry
  the state it is in; nothing where that update dropped it. -/
  since : NodeId → Option Int

inductive MonitorAct where
  | registerCb
  | update (now : Int) (snapshot : List Peer)

/-- An update in which an entry keeps its state leaves its past alone. -/
def sinceUpdate (k : Kconfig) (now : Int) (snapshot : List Peer) (s : MonitorRun) (id : NodeId) :
    Option Int :=
  match snapshot.find? fun p => p.nodeId = id with
  | some p =>
      if (healthOf s.monitor.table id).state = computeState k now p.lastSeen then s.since id
      else some (now - p.lastSeen)
  | none => if (healthOf s.monitor.table id).state = .lost then s.since id else none

def monitorStep (k : Kconfig) (s : MonitorRun) : MonitorAct → Option MonitorRun
  | .registerCb => some { s with monitor := ceellHealthRegisterCb s.monitor }
  | .update now snapshot =>
      if (snapshot.map (·.nodeId)).Nodup then
        some
          { monitor := (ceellHealthUpdate k now snapshot s.monitor).1
            last := some (now, snapshot)
            since := sinceUpdate k now snapshot s }
      else none

/-- Updates over snapshots with distinct ids, with or without a callback. -/
def monitorMachine (k : Kconfig) : Machine MonitorRun MonitorAct where
  init := ⟨ceellHealthInit k, none, fun _ => none⟩
  step := monitorStep k

/-- The heartbeat intervals missed in a time. -/
def missedIntervals (k : Kconfig) (elapsed : Int) : Int :=
  max 0 (elapsed / k.discoveryIntervalMs - 1)

/-- Every entry that `ceell_health_get_table` reports for a peer of the last
snapshot has the number of intervals the peer has missed. -/
def MissedOk (k : Kconfig) (s : MonitorRun) : Prop :=
  ∀ u ∈ s.last, ∀ maxCount, ∀ h ∈ ceellHealthGetTable maxCount s.monitor, ∀ p ∈ u.2,
    p.nodeId = h.nodeId →
      h.missedCount = if h.state = .healthy then 0 else missedIntervals k (u.1 - p.lastSeen)

/-- A peer that stays in DEGRADED, CRITICAL or LOST has missed as many
intervals as at the update that put it there, and was not dropped since; one
that enters such a state, no more than an `int` holds. -/
def PeerCounted (k : Kconfig) (now : Int) (s : MonitorRun) (p : Peer) : Prop :=
  computeState k now p.lastSeen ≠ .healthy →
    if (healthOf s.monitor.table p.nodeId).state = computeState k now p.lastSeen then
      ∃ e ∈ s.since p.nodeId, missedIntervals k e = missedIntervals k (now - p.lastSeen)
    else (now - p.lastSeen) / k.discoveryIntervalMs < 2 ^ 31

/-- An update counts right for every peer it serves. -/
def Counted (k : Kconfig) (s : MonitorRun) : MonitorAct → Prop
  | .registerCb => True
  | .update now snapshot => ∀ p ∈ servedPeers s.monitor snapshot, PeerCounted k now s p

instance (k : Kconfig) (now : Int) (s : MonitorRun) (p : Peer) :
    Decidable (PeerCounted k now s p) :=
  inferInstanceAs (Decidable (_ → _))

instance (k : Kconfig) (s : MonitorRun) : ∀ a, Decidable (Counted k s a)
  | .registerCb => .isTrue trivial
  | .update _ _ => inferInstanceAs (Decidable (∀ p ∈ _, _))

/-! ## One update -/

section Update

variable {k : Kconfig} {now lastSeen : Int} {hm : HealthMonitor} {snapshot : List Peer}
  {s s' : MonitorRun}

/-- Every entry in use has the count with which it entered its state. -/
def CountKept (k : Kconfig) (s : MonitorRun) : Prop :=
  ∀ id h, lookup PeerHealth.key s.monitor.table id = some h →
    h.missedCount =
      if h.state = .healthy then 0 else (s.since id).elim (-1) (missedIntervals k)

theorem elapsed_of_not_healthy (hne : computeState k now lastSeen ≠ .healthy) :
    (k.discoveryIntervalMs : Int) < now - lastSeen := by
  unfold computeState at hne
  by_contra h
  rw [if_pos (by omega)] at hne
  exact hne rfl

/-- The count stored with a new state is right as long as an `int` holds the
quotient. -/
theorem missedCount_eq_iff (hne : computeState k now lastSeen ≠ .healthy) :
    missedCount k now lastSeen (computeState k now lastSeen) = missedIntervals k (now - lastSeen) ↔
      (now - lastSeen) / k.discoveryIntervalMs < 2 ^ 31 := by
  have hlate := elapsed_of_not_healthy hne
  have helapsed : 0 ≤ now - lastSeen := by omega
  have hquot : 0 ≤ (now - lastSeen) / k.discoveryIntervalMs :=
    Int.ediv_nonneg helapsed (Int.natCast_nonneg _)
  rw [missedCount, if_neg hne, Int.tdiv_eq_ediv_of_nonneg helapsed, missedIntervals, toInt32]
  generalize (now - lastSeen) / k.discoveryIntervalMs = q at hquot ⊢
  dsimp only
  by_cases hq : q < 2 ^ 31
  · rw [Int.bmod_eq_of_le (by omega) (by omega)]
    refine iff_of_true ?_ hq
    split <;> omega
  · have hlt : q.bmod (2 ^ 32) < 2 ^ 31 := Int.bmod_lt (by decide)
    refine iff_of_false ?_ hq
    split <;> omega

theorem missedCount_refreshHealth (k : Kconfig) (now lastSeen : Int) (h : PeerHealth) :
    (refreshHealth k now lastSeen h).1.missedCount =
      if h.state = computeState k now lastSeen then h.missedCount
      else missedCount k now lastSeen (computeState k now lastSeen) := by
  unfold refreshHealth
  by_cases hs : h.state = computeState k now lastSeen
  · simp [hs]
  · simp [hs, Ne.symm hs]

/-- The entry of a peer as the update finds it. -/
theorem CountKept.healthOf (hkept : CountKept k s) (id : NodeId) :
    (healthOf s.monitor.table id).missedCount =
      if (healthOf s.monitor.table id).state = .healthy then 0
      else (s.since id).elim (-1) (missedIntervals k) := by
  unfold Core.healthOf
  cases hl : lookup PeerHealth.key s.monitor.table id with
  | none => rfl
  | some h => exact hkept id h hl

theorem missedIntervals_nonneg (k : Kconfig) (elapsed : Int) : 0 ≤ missedIntervals k elapsed :=
  Int.le_max_left _ _

/-- The count that a dropped entry keeps is never right. -/
theorem elim_since_eq_iff (o : Option Int) (elapsed : Int) :
    o.elim (-1) (missedIntervals k) = missedIntervals k elapsed ↔
      ∃ e ∈ o, missedIntervals k e = missedIntervals k elapsed := by
  cases o with
  | none =>
    have := missedIntervals_nonneg k elapsed
    simp only [Option.elim_none, Option.mem_def, reduceCtorEq, false_and, exists_false, iff_false]
    omega
  | some e => simp

/-- **A refreshed entry** has the right count exactly if the peer counts. -/
theorem missed_refreshed_iff (hkept : CountKept k s) (p : Peer) :
    (refreshHealth k now p.lastSeen (healthOf s.monitor.table p.nodeId)).1.missedCount =
        (if (refreshHealth k now p.lastSeen (healthOf s.monitor.table p.nodeId)).1.state = .healthy
          then 0 else missedIntervals k (now - p.lastSeen)) ↔
      PeerCounted k now s p := by
  rw [missedCount_refreshHealth, state_refreshHealth, PeerCounted]
  by_cases hhealthy : computeState k now p.lastSeen = .healthy
  · simp only [hhealthy, ne_eq, not_true_eq_false, false_imp_iff, iff_true, if_true]
    split
    · rename_i hstate
      rw [hkept.healthOf, if_pos hstate]
    · rfl
  · rw [if_neg hhealthy, ne_eq, imp_iff_right hhealthy]
    split
    · rename_i hstate
      rw [hkept.healthOf, if_neg (hstate ▸ hhealthy)]
      exact elim_since_eq_iff _ _
    · exact missedCount_eq_iff hhealthy

/-- What an update leaves for a peer of its snapshot. -/
theorem lookup_update (k : Kconfig) (now : Int) (hinit : hm.initialized = true)
    (hnd : (trackedIds hm).Nodup) (hsnap : (snapshot.map (·.nodeId)).Nodup) {p : Peer}
    (hp : p ∈ snapshot) :
    lookup PeerHealth.key (ceellHealthUpdate k now snapshot hm).1.table p.nodeId =
      if p ∈ servedPeers hm snapshot then
        some (refreshHealth k now p.lastSeen (healthOf hm.table p.nodeId)).1
      else none := by
  obtain ⟨hnd', hfits, hsame⟩ := ceellHealthUpdate_served k now hnd hsnap
  rw [← hsame]
  split
  · rename_i hserved
    exact (ceellHealthUpdate_spec k now hinit hnd hnd' hfits).1 p hserved
  · rename_i hserved
    rw [lookup_eq_none]
    intro htracked
    rcases (trackedIds_update k now hinit hnd hnd' hfits).mp htracked with hid | hid
    · obtain ⟨q, hq, hqid⟩ := List.mem_map.mp hid
      have hmem : q ∈ snapshot := (served_sublist _ _).subset hq
      obtain rfl : q = p := List.inj_on_of_nodup_map hsnap hmem hp hqid
      exact hserved hq
    · exact hserved (mem_served_of_tracked hp hid)

/-- What an update leaves for a peer that is tracked and passed by. -/
theorem lookup_update_dropped (k : Kconfig) (now : Int) (hinit : hm.initialized = true)
    (hnd : (trackedIds hm).Nodup) (hsnap : (snapshot.map (·.nodeId)).Nodup) {id : NodeId}
    (hid : id ∉ (servedPeers hm snapshot).map (·.nodeId)) :
    lookup PeerHealth.key (ceellHealthUpdate k now snapshot hm).1.table id =
      (lookup PeerHealth.key hm.table id).map fun h => (expireHealth (h, false)).1 := by
  obtain ⟨hnd', hfits, hsame⟩ := ceellHealthUpdate_served k now hnd hsnap
  rw [← hsame]
  exact (ceellHealthUpdate_spec k now hinit hnd hnd' hfits).2.1 id hid

theorem find?_snapshot (hsnap : (snapshot.map (·.nodeId)).Nodup) {p : Peer} (hp : p ∈ snapshot) :
    (snapshot.find? fun q => q.nodeId = p.nodeId) = some p := by
  cases hf : snapshot.find? fun q => q.nodeId = p.nodeId with
  | none => simpa using List.find?_eq_none.mp hf p hp
  | some q =>
    have hid : q.nodeId = p.nodeId := by simpa using List.find?_some hf
    rw [List.inj_on_of_nodup_map hsnap (List.mem_of_find?_eq_some hf) hp hid]

theorem sinceUpdate_of_mem (hsnap : (snapshot.map (·.nodeId)).Nodup) {p : Peer}
    (hp : p ∈ snapshot) :
    sinceUpdate k now snapshot s p.nodeId =
      if (healthOf s.monitor.table p.nodeId).state = computeState k now p.lastSeen then
        s.since p.nodeId
      else some (now - p.lastSeen) := by
  unfold sinceUpdate
  rw [find?_snapshot hsnap hp]

theorem sinceUpdate_of_not_mem {id : NodeId} (hid : id ∉ snapshot.map (·.nodeId)) :
    sinceUpdate k now snapshot s id =
      if (healthOf s.monitor.table id).state = .lost then s.since id else none := by
  have hnone : (snapshot.find? fun p => p.nodeId = id) = none := by
    rw [List.find?_eq_none]
    intro p hp hpid
    exact hid (List.mem_map.mpr ⟨p, hp, by simpa using hpid⟩)
  unfold sinceUpdate
  rw [hnone]

end Update

/-! ## The table of a run -/

section Runs

variable {k : Kconfig} {s s' : MonitorRun} {a : MonitorAct}

/-- What every step keeps that leaves the right counts. -/
structure MonitorInv (k : Kconfig) (s : MonitorRun) : Prop where
  initialized : s.monitor.initialized = true
  distinct : (trackedIds s.monitor).Nodup
  kept : CountKept k s

theorem mem_getTable {hm : HealthMonitor} {h : PeerHealth} :
    (∃ maxCount, h ∈ ceellHealthGetTable maxCount hm) ↔ h ∈ hm.table ∧ h.active = true := by
  constructor
  · rintro ⟨maxCount, hmem⟩
    unfold ceellHealthGetTable at hmem
    split at hmem
    · cases hmem
    · exact List.mem_filter.mp (List.mem_of_mem_take hmem)
  · intro hmem
    refine ⟨hm.table.length, ?_⟩
    have hpos : ¬ (hm.table.length : Int) ≤ 0 := by
      have := List.length_pos_of_mem hmem.1
      omega
    rw [ceellHealthGetTable, if_neg hpos, Int.toNat_natCast,
      List.take_of_length_le (List.length_filter_le _ _)]
    exact List.mem_filter.mpr hmem

/-- The table that is reported, read through the lookup. -/
theorem missedOk_iff (hnd : (trackedIds s.monitor).Nodup) :
    MissedOk k s ↔
      ∀ u ∈ s.last, ∀ p ∈ u.2, ∀ h, lookup PeerHealth.key s.monitor.table p.nodeId = some h →
        h.missedCount = if h.state = .healthy then 0 else missedIntervals k (u.1 - p.lastSeen) := by
  constructor
  · intro hok u hu p hp h hlook
    obtain ⟨hmem, hkey⟩ := lookup_some hlook
    obtain ⟨hact, hid⟩ := key_eq_some.mp hkey
    obtain ⟨maxCount, hrep⟩ := mem_getTable.mpr ⟨hmem, hact⟩
    exact hok u hu maxCount h hrep p hp hid.symm
  · intro hok u hu maxCount h hrep p hp hid
    obtain ⟨hmem, hact⟩ := mem_getTable.mp ⟨maxCount, hrep⟩
    exact hok u hu p hp h (lookup_of_mem hnd hmem (key_eq_some.mpr ⟨hact, hid.symm⟩))

theorem monitorStep_update {now : Int} {snapshot : List Peer}
    (hs : monitorStep k s (.update now snapshot) = some s') :
    (snapshot.map (·.nodeId)).Nodup ∧
      s' = ⟨(ceellHealthUpdate k now snapshot s.monitor).1, some (now, snapshot),
        sinceUpdate k now snapshot s⟩ := by
  simp only [monitorStep] at hs
  split at hs
  · rename_i hsnap
    exact ⟨hsnap, (Option.some.inj hs).symm⟩
  · cases hs

theorem monitorInv_init : MonitorInv k (monitorMachine k).init where
  initialized := rfl
  distinct := by
    rw [show trackedIds (monitorMachine k).init.monitor = [] by
      simp [trackedIds, keys, monitorMachine, ceellHealthInit, PeerHealth.key, PeerHealth.zero]]
    exact List.nodup_nil
  kept := by
    intro id h hlook
    obtain ⟨hmem, hkey⟩ := lookup_some hlook
    obtain rfl := List.eq_of_mem_replicate hmem
    cases hkey

/-- An update that leaves the right counts leaves with each entry the count
of the update that gave it its state. -/
theorem countKept_update {now : Int} {snapshot : List Peer} (hi : MonitorInv k s)
    (hs : monitorStep k s (.update now snapshot) = some s')
    (hok : ∀ p ∈ snapshot, ∀ h, lookup PeerHealth.key s'.monitor.table p.nodeId = some h →
      h.missedCount = if h.state = .healthy then 0 else missedIntervals k (now - p.lastSeen)) :
    CountKept k s' := by
  obtain ⟨hsnap, rfl⟩ := monitorStep_update hs
  intro id h hlook
  by_cases hid : id ∈ (servedPeers s.monitor snapshot).map (·.nodeId)
  · obtain ⟨p, hserved, rfl⟩ := List.mem_map.mp hid
    have hmem : p ∈ snapshot := (served_sublist _ _).subset hserved
    have hright := hok p hmem h hlook
    rw [lookup_update k now hi.initialized hi.distinct hsnap hmem, if_pos hserved] at hlook
    obtain rfl := Option.some.inj hlook
    dsimp only
    rw [sinceUpdate_of_mem hsnap hmem]
    by_cases hstate : (healthOf s.monitor.table p.nodeId).state = computeState k now p.lastSeen
    · -- the state stays, and with it the count
      rw [missedCount_refreshHealth, if_pos hstate, state_refreshHealth, if_pos hstate,
        hi.kept.healthOf, hstate]
    · rw [if_neg hstate]
      exact hright
  · rw [lookup_update_dropped k now hi.initialized hi.distinct hsnap hid] at hlook
    obtain ⟨e, he, rfl⟩ := Option.map_eq_some_iff.mp hlook
    have hact := (key_eq_some.mp (lookup_some he).2).1
    have hgone : id ∉ snapshot.map (·.nodeId) := by
      intro hmem
      obtain ⟨p, hp, rfl⟩ := List.mem_map.mp hmem
      have htracked : p.nodeId ∈ trackedIds s.monitor := lookup_isSome.mp (by rw [he]; rfl)
      exact hid (List.mem_map_of_mem (mem_served_of_tracked hp htracked))
    have hentry : Core.healthOf s.monitor.table id = e := by
      rw [Core.healthOf, he]
      rfl
    rw [state_expireHealth hact, if_neg (by decide)]
    dsimp only
    rw [sinceUpdate_of_not_mem hgone, hentry]
    have hkept := hi.kept id e he
    by_cases hlost : e.state = .lost
    · rw [hlost] at hkept
      simpa [expireHealth, hact, hlost] using hkept
    · simp [expireHealth, hact, hlost]

theorem monitorInv_step (hi : MonitorInv k s) (hs : monitorStep k s a = some s')
    (hok : MissedOk k s') : MonitorInv k s' := by
  cases a with
  | registerCb =>
    obtain rfl := Option.some.inj hs
    exact ⟨hi.initialized, hi.distinct, hi.kept⟩
  | update now snapshot =>
    obtain ⟨hsnap, heq⟩ := monitorStep_update hs
    obtain ⟨_, hnd, _, hinit, _⟩ := ceellHealthUpdate_keeps k now snapshot s.monitor hi.distinct
    have hnd' : (trackedIds s'.monitor).Nodup := by rw [heq]; exact hnd
    refine ⟨?_, hnd', countKept_update hi hs ?_⟩
    · rw [heq]
      exact hinit.trans hi.initialized
    · exact (missedOk_iff hnd').mp hok (now, snapshot) (by rw [heq]; rfl)

/-- One step keeps the counts right exactly if it counts. -/
theorem missedOk_step_iff (hi : MonitorInv k s) (hp : MissedOk k s)
    (hs : monitorStep k s a = some s') : MissedOk k s' ↔ Counted k s a := by
  cases a with
  | registerCb =>
    obtain rfl := Option.some.inj hs
    exact iff_of_true hp trivial
  | update now snapshot =>
    obtain ⟨hsnap, rfl⟩ := monitorStep_update hs
    obtain ⟨_, hnd, _⟩ := ceellHealthUpdate_keeps k now snapshot s.monitor hi.distinct
    rw [missedOk_iff hnd]
    simp only [Option.mem_some_iff, forall_eq', Counted]
    constructor
    · intro hok p hserved
      have hmem : p ∈ snapshot := (served_sublist _ _).subset hserved
      refine (missed_refreshed_iff hi.kept p).mp (hok p hmem _ ?_)
      rw [lookup_update k now hi.initialized hi.distinct hsnap hmem, if_pos hserved]
    · intro hcounted p hmem h hlook
      rw [lookup_update k now hi.initialized hi.distinct hsnap hmem] at hlook
      split at hlook
      · rename_i hserved
        obtain rfl := Option.some.inj hlook
        exact (missed_refreshed_iff hi.kept p).mpr (hcounted p hserved)
      · cases hlook

end Runs

/-- **Over every run** of updates: the counts that the table reports for the
peers of the last snapshot are right after each, exactly if every update
that leaves a served peer in the state it is in, HEALTHY apart, finds it
with as many missed intervals as the update that put it there, and none
puts a peer in such a state after 2^31 intervals. -/
theorem missedOk_iff_counted (k : Kconfig) (as : List MonitorAct) (t : MonitorRun)
    (hrun : (monitorMachine k).run as = some t) :
    (∀ u ∈ (monitorMachine k).visited (monitorMachine k).init as, MissedOk k u) ↔
      (monitorMachine k).AllSteps (Counted k) (monitorMachine k).init as :=
  Machine.forall_visited_iff_allSteps_of_kept (A := fun _ => True)
    (fun _ _ _ _ hi hs hok => monitorInv_step hi hs hok)
    (fun _ _ _ _ hi hp hs => missedOk_step_iff hi hp hs)
    as _ t (fun _ _ => trivial) monitorInv_init (fun _ h => by cases h) hrun

/-- Node 1, heard at 0, has missed one interval at 2500 ms and two at
3500 ms. -/
def agingPeer : List MonitorAct :=
  [.update 2500 [{ Peer.zero with nodeId := 1 }], .update 3500 [{ Peer.zero with nodeId := 1 }]]

/-- It stays DEGRADED, and the table says one. -/
theorem agingPeer_not_counted :
    ∃ s, (monitorMachine {}).run agingPeer = some s ∧
      ceellHealthGetTable 8 s.monitor = [⟨1, .degraded, 0, 1, true⟩] ∧
      missedIntervals {} (3500 - 0) = 2 ∧ ¬ MissedOk {} s := by
  have hend : ((monitorMachine {}).run agingPeer).map (fun s =>
      (ceellHealthGetTable 8 s.monitor, s.last))
      = some ([⟨1, .degraded, 0, 1, true⟩], some (3500, [{ Peer.zero with nodeId := 1 }])) := by
    decide +kernel
  obtain ⟨s, hs, hend⟩ := Option.map_eq_some_iff.mp hend
  obtain ⟨htable, hlast⟩ := Prod.mk.inj hend
  refine ⟨s, hs, htable, by decide, fun hok => ?_⟩
  have hcount := hok _ hlast 8 _ (by rw [htable]; exact List.mem_singleton_self _) _
    (List.mem_singleton_self _) rfl
  revert hcount
  decide

/-- Both become DEGRADED. Node 1 is heard and misses one interval again,
node 2 is dropped; then both are back. -/
def countedPeers : List MonitorAct :=
  [.registerCb, .update 900 [{ Peer.zero with nodeId := 1 }, { Peer.zero with nodeId := 2 }],
   .update 2500 [{ Peer.zero with nodeId := 1 }, { Peer.zero with nodeId := 2 }],
   .update 4900 [{ Peer.zero with nodeId := 1, lastSeen := 2400 }],
   .update 6000 [{ Peer.zero with nodeId := 2, lastSeen := 5950 },
     { Peer.zero with nodeId := 1, lastSeen := 5900 }]]

/-- Every update counts, so the table is right after each. -/
theorem missedOk_iff_counted_peers :
    (monitorMachine {}).AllSteps (Counted {}) (monitorMachine {}).init countedPeers ∧
      (∀ u ∈ (monitorMachine {}).visited (monitorMachine {}).init countedPeers, MissedOk {} u) ∧
      ((monitorMachine {}).visited (monitorMachine {}).init countedPeers).map
          (fun u => (ceellHealthGetTable 8 u.monitor).map fun h => (h.state, h.missedCount)) =
        [[], [(.healthy, 0), (.healthy, 0)], [(.degraded, 1), (.degraded, 1)],
          [(.degraded, 1), (.lost, -1)], [(.healthy, 0), (.healthy, 0)]] := by
  obtain ⟨t, ht⟩ : ∃ t, (monitorMachine {}).run countedPeers = some t :=
    Option.isSome_iff_exists.mp (by decide +kernel)
  have hall : (monitorMachine {}).AllSteps (Counted {}) (monitorMachine {}).init countedPeers := by
    decide +kernel
  exact ⟨hall, (missedOk_iff_counted {} countedPeers t ht).mpr hall, by decide +kernel⟩

end Ceell.Core
