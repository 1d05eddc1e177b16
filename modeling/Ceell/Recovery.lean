/-
Ceell.Recovery — what takes the node out of safe state, over whole runs.

Only one edge of one peer clears the flag, LOST to HEALTHY in a single
update, and it clears the flag whoever set it. Two things follow, each
settled as an exact condition on the updates of a run:

* `recoveredLeaves_iff_direct` — a node all of whose peers are HEALTHY has
  left safe state exactly if every edge to LOST was followed by a direct
  return to HEALTHY; a peer that is seen DEGRADED or CRITICAL on its way
  back clears nothing;
* `watchdogHolds_iff_noClear` — a safe state that the watchdog entered
  lasts until the watchdog is fed exactly if no update clears the flag.

Neither bounds the number of nodes. An update of more peers than the
health table has slots for is the update of the peers it serves
(`Core.ceellHealthUpdate_served`), so the conditions speak of those.
-/
import Ceell.Core.Watchdog
import Ceell.Main

namespace Ceell

open Ceell.Lib Ceell.Lib.SlotArray Ceell.Network Ceell.Core

/-! ## One update -/

/-- The peers of the discovery table that an update serves. -/
def NodeState.served {max : Nat} (s : NodeState max) : List Peer := servedPeers s.health s.snapshot

/-- The callbacks of an update at `now` end with a recovery: a served peer
goes from LOST to HEALTHY, and no callback after that reports a LOST peer. -/
def ClearsFlag (k : Kconfig) {max : Nat} (s : NodeState max) (now : Int) : Prop :=
  (∃ front p back, s.served = front ++ p :: back ∧
    stateBefore s.health p.nodeId = .lost ∧ computeState k now p.lastSeen = .healthy ∧
    ∀ q ∈ back, computeState k now q.lastSeen = .lost → stateBefore s.health q.nodeId = .lost) ∧
  ∀ id ∈ trackedIds s.health, id ∉ s.snapshot.map (·.nodeId) → stateBefore s.health id = .lost

section Update

variable {k : Kconfig} {me : Identity} {s s' : NodeState k.discoveryMaxPeers}

theorem mem_served_iff {id : NodeId} (htracked : id ∈ trackedIds s.health) :
    id ∈ s.served.map (·.nodeId) ↔ id ∈ s.snapshot.map (·.nodeId) := by
  constructor
  · exact fun h => ((served_sublist _ _).map _).subset h
  · intro h
    obtain ⟨p, hp, rfl⟩ := List.mem_map.mp h
    exact List.mem_map_of_mem (mem_served_of_tracked hp htracked)

/-- An update is ready for the peers it serves, and does what the update
of those does. -/
theorem NodeInv.ready_served (hi : NodeInv k me s) :
    UpdateReady s.health s.served ∧
    ∀ now, ceellHealthUpdate k now s.served s.health
      = ceellHealthUpdate k now s.snapshot s.health := by
  have h := fun now => ceellHealthUpdate_served k now hi.tracked_nodup (nodup_snapshot hi)
  exact ⟨⟨hi.health_init, hi.health_cb, hi.tracked_nodup, (h 0).1, (h 0).2.1⟩,
    fun now => (h now).2.2⟩

/-- The flag after any update. -/
theorem inactive_served_iff (now : Int) (hi : NodeInv k me s) :
    ((ceellHealthUpdate k now s.snapshot s.health).2.foldl onHealthChange s.safe).active = false ↔
      ClearsFlag k s now ∨
        (s.safe.active = false ∧
          (∀ q ∈ s.served, computeState k now q.lastSeen = .lost →
            stateBefore s.health q.nodeId = .lost) ∧
          ∀ id ∈ trackedIds s.health, id ∉ s.snapshot.map (·.nodeId) →
            stateBefore s.health id = .lost) := by
  obtain ⟨hr, hsame⟩ := hi.ready_served
  have hdrops : (∀ id ∈ trackedIds s.health, id ∉ s.served.map (·.nodeId) →
        stateBefore s.health id = .lost) ↔
      ∀ id ∈ trackedIds s.health, id ∉ s.snapshot.map (·.nodeId) →
        stateBefore s.health id = .lost :=
    forall₂_congr fun id hid => imp_congr_left (not_congr (mem_served_iff hid))
  rw [← hsame, inactive_update_iff hr hi.safe_init, hdrops, and_or_left]
  exact or_congr and_comm (by rw [and_comm, and_assoc])

/-! ## All peers back -/

/-- Every tracked peer is HEALTHY. -/
def AllHealthy (hm : HealthMonitor) : Prop :=
  ∀ id ∈ trackedIds hm, ceellHealthGetState hm id = .healthy

/-- A node whose tracked peers are all HEALTHY is not in safe state. -/
def RecoveredLeaves {max : Nat} (s : NodeState max) : Prop :=
  AllHealthy s.health → ceellSafeStateActive s.safe = false

instance (hm : HealthMonitor) : Decidable (AllHealthy hm) :=
  List.decidableBAll _ (trackedIds hm)

instance {max : Nat} (s : NodeState max) : Decidable (RecoveredLeaves s) :=
  inferInstanceAs (Decidable (_ → _))

/-- The node, and the edges that its updates have reported, oldest first. -/
structure ReportedNode (max : Nat) where
  node : NodeState max
  edges : List HealthCall

/-- The calls of `on_health_change` in a step. -/
def NodeState.edges (k : Kconfig) {max : Nat} (s : NodeState max) : NodeAct → List HealthCall
  | .discovery _ => []
  | .update now => (ceellHealthUpdate k now s.snapshot s.health).2

def reportedStep (k : Kconfig) (me : Identity) {max : Nat} (s : ReportedNode max) (a : NodeAct) :
    Option (ReportedNode max) :=
  (nodeStep k me s.node a).map fun n => ⟨n, s.edges ++ s.node.edges k a⟩

def reportedMachine (k : Kconfig) (me : Identity) :
    Machine (ReportedNode k.discoveryMaxPeers) NodeAct where
  init := ⟨(nodeMachine k me).init, []⟩
  step := reportedStep k me

/-- Every edge to LOST is followed by one that goes from LOST to HEALTHY. -/
def FollowedByReturn (edges : List HealthCall) : Prop :=
  ∀ front c back, edges = front ++ c :: back → c.newState = .lost →
    ∃ d ∈ back, d.oldState = .lost ∧ d.newState = .healthy

/-- When an update finds all tracked peers in the discovery table and every
peer it serves HEALTHY, one of them was LOST until then, or every edge to
LOST was followed by a direct return before. -/
def LastIsDirect (k : Kconfig) {max : Nat} (s : ReportedNode max) : NodeAct → Prop
  | .discovery _ => True
  | .update now =>
      (∀ id ∈ trackedIds s.node.health, id ∈ s.node.snapshot.map (·.nodeId)) →
        (∀ p ∈ s.node.served, computeState k now p.lastSeen = .healthy) →
          SomeLost s.node.health ∨ FollowedByReturn s.edges

/-- What holds of the node and its edges in every run. -/
structure ReportedInv (k : Kconfig) (me : Identity) (s : ReportedNode k.discoveryMaxPeers) :
    Prop where
  node : NodeInv k me s.node
  flag : s.node.safe.active = latch setsSafe clearsSafe false s.edges

theorem followedByReturn_iff {edges : List HealthCall} :
    FollowedByReturn edges ↔ latch setsSafe clearsSafe false edges = false := by
  rw [latch_down_eq_false_iff]
  simp only [setsSafe, clearsSafe, decide_eq_true_eq, decide_eq_false_iff_not]
  refine forall₃_congr fun front c back => imp_congr_right fun _ => imp_congr_right fun _ =>
    exists_congr fun d => and_congr_right fun _ => ?_
  constructor
  · intro h
    exact ⟨h, by rw [h.2]; decide⟩
  · exact And.left

/-- Who is HEALTHY after an update. -/
theorem allHealthy_update_iff {now : Int} {hm : HealthMonitor} {snapshot : List Peer}
    (hr : UpdateReady hm snapshot) :
    AllHealthy (ceellHealthUpdate k now snapshot hm).1 ↔
      (∀ id ∈ trackedIds hm, id ∈ snapshot.map (·.nodeId)) ∧
        ∀ p ∈ snapshot, computeState k now p.lastSeen = .healthy := by
  constructor
  · intro h
    constructor
    · intro id htracked
      by_contra hid
      have hlost : ceellHealthGetState (ceellHealthUpdate k now snapshot hm).1 id = .lost :=
        hr.dropped hid
      rw [h id (hr.tracked.mpr (Or.inr htracked))] at hlost
      cases hlost
    · intro p hp
      have hstate : ceellHealthGetState (ceellHealthUpdate k now snapshot hm).1 p.nodeId
          = computeState k now p.lastSeen := (hr.refreshed hp).2
      exact hstate.symm.trans (h _ (hr.refreshed hp).1)
  · rintro ⟨hall, hhealthy⟩ id htracked
    have hid : id ∈ snapshot.map (·.nodeId) := (hr.tracked.mp htracked).elim (fun h => h) (hall id)
    obtain ⟨p, hp, rfl⟩ := List.mem_map.mp hid
    exact (hr.refreshed hp).2.trans (hhealthy p hp)

/-- An update that finds every peer it serves HEALTHY leaves the flag down
exactly if it was down or one of the tracked peers was LOST. -/
theorem inactive_allHealthy_iff {now : Int} (hi : NodeInv k me s)
    (hall : ∀ id ∈ trackedIds s.health, id ∈ s.snapshot.map (·.nodeId))
    (hhealthy : ∀ p ∈ s.served, computeState k now p.lastSeen = .healthy) :
    ((ceellHealthUpdate k now s.snapshot s.health).2.foldl onHealthChange s.safe).active = false ↔
      (ceellSafeStateActive s.safe = true → SomeLost s.health) := by
  have hnone : ∀ q ∈ s.served, computeState k now q.lastSeen = .lost →
      stateBefore s.health q.nodeId = .lost := by
    intro q hq hlost
    rw [hhealthy q hq] at hlost
    cases hlost
  have hdrops : ∀ id ∈ trackedIds s.health, id ∉ s.snapshot.map (·.nodeId) →
      stateBefore s.health id = .lost := fun id hid hnot => absurd (hall id hid) hnot
  rw [inactive_served_iff now hi, ceellSafeStateActive]
  constructor
  · rintro (⟨⟨front, p, back, _, hlost, _⟩, _⟩ | ⟨hoff, _⟩) hon
    · exact someLost_of_stateBefore hlost
    · rw [hoff] at hon
      cases hon
  · intro h
    cases hact : s.safe.active with
    | false => exact Or.inr ⟨rfl, hnone, hdrops⟩
    | true =>
      -- the LOST peer is served, so it makes the edge that clears
      obtain ⟨id, htracked, hlost⟩ := h hact
      obtain ⟨p, hp, rfl⟩ := List.mem_map.mp ((mem_served_iff htracked).mpr (hall id htracked))
      obtain ⟨front, back, heq⟩ := List.append_of_mem hp
      have hbefore : stateBefore s.health p.nodeId = .lost := by
        rcases stateBefore_cases s.health p.nodeId with ⟨_, hst⟩ | ⟨hnew, _⟩
        · exact hst.trans hlost
        · exact absurd htracked hnew
      exact Or.inl ⟨⟨front, p, back, heq, hbefore, hhealthy p hp,
        fun q hq => hnone q (by simp [heq, hq])⟩, hdrops⟩

end Update

section Reported

variable {k : Kconfig} {me : Identity} {s s' : ReportedNode k.discoveryMaxPeers} {a : NodeAct}

theorem reportedInv_init : ReportedInv k me (reportedMachine k me).init :=
  ⟨nodeInv_init, rfl⟩

theorem reportedInv_step (hi : ReportedInv k me s) (hs : reportedStep k me s a = some s') :
    ReportedInv k me s' := by
  obtain ⟨n, hn, rfl⟩ := Option.map_eq_some_iff.mp hs
  refine ⟨nodeInv_step hi.node hn, ?_⟩
  cases a with
  | discovery a =>
    obtain ⟨d, _, rfl⟩ := Option.map_eq_some_iff.mp hn
    simpa [NodeState.edges] using hi.flag
  | update now =>
    obtain rfl := Option.some.inj hn
    rw [NodeState.edges, latch_append, ← hi.flag]
    exact (active_foldl_onHealthChange _ hi.node.safe_init).2

theorem recoveredLeaves_step_iff (hi : ReportedInv k me s) (hp : RecoveredLeaves s.node)
    (hs : reportedStep k me s a = some s') : RecoveredLeaves s'.node ↔ LastIsDirect k s a := by
  obtain ⟨n, hn, rfl⟩ := Option.map_eq_some_iff.mp hs
  cases a with
  | discovery a =>
    obtain ⟨d, _, rfl⟩ := Option.map_eq_some_iff.mp hn
    exact iff_of_true hp trivial
  | update now =>
    obtain rfl := Option.some.inj hn
    obtain ⟨hr, hsame⟩ := hi.node.ready_served
    have hhealthy : AllHealthy (ceellHealthUpdate k now s.node.snapshot s.node.health).1 ↔
        (∀ id ∈ trackedIds s.node.health, id ∈ s.node.snapshot.map (·.nodeId)) ∧
          ∀ p ∈ s.node.served, computeState k now p.lastSeen = .healthy := by
      rw [← hsame, allHealthy_update_iff hr]
      exact and_congr_left fun _ => forall₂_congr fun id hid => mem_served_iff hid
    unfold RecoveredLeaves LastIsDirect
    rw [hhealthy, and_imp]
    refine imp_congr_right fun hall => imp_congr_right fun hh => ?_
    refine (inactive_allHealthy_iff hi.node hall hh).trans ?_
    rw [followedByReturn_iff, ← hi.flag, ceellSafeStateActive, ← Bool.not_eq_true, or_comm,
      or_iff_not_imp_left, not_not]

end Reported

/-- **Over every run** of any number of nodes: whenever every tracked peer
is HEALTHY the node is not in safe state, exactly if each update that
finds them all back finds one of them LOST until then, or comes after a
direct return behind every edge to LOST. -/
theorem recoveredLeaves_iff_direct (k : Kconfig) (me : Identity) (as : List NodeAct)
    (t : ReportedNode k.discoveryMaxPeers) (hrun : (reportedMachine k me).run as = some t) :
    (∀ u ∈ (reportedMachine k me).visited (reportedMachine k me).init as,
        RecoveredLeaves u.node) ↔
      (reportedMachine k me).AllSteps (LastIsDirect k) (reportedMachine k me).init as :=
  Machine.forall_visited_iff_allSteps (A := fun _ => True)
    (fun _ _ _ _ hi hs => reportedInv_step hi hs)
    (fun _ _ _ _ hi hp hs => recoveredLeaves_step_iff hi hp hs)
    as _ t (fun _ _ => trivial) reportedInv_init (fun _ => rfl) hrun

/-- Node 1 is LOST at 5000, announces itself at 5500, is DEGRADED at 7000
and HEALTHY at 7200. -/
def slowReturn : List NodeAct :=
  [hello 0 1, .update 5000, hello 5500 1, .update 7000, hello 7100 1, .update 7200]

/-- The only peer is HEALTHY again, and the node stays in safe state. -/
theorem slowReturn_stuck :
    ∃ t, (reportedMachine {} ⟨7⟩).run slowReturn = some t ∧ AllHealthy t.node.health ∧
      ¬ RecoveredLeaves t.node := by
  obtain ⟨t, ht⟩ : ∃ t, (reportedMachine {} ⟨7⟩).run slowReturn = some t :=
    Option.isSome_iff_exists.mp (by decide)
  have hend : ((reportedMachine {} ⟨7⟩).run slowReturn).map (fun t =>
      (trackedIds t.node.health, ceellHealthGetState t.node.health 1,
        ceellSafeStateActive t.node.safe))
        = some ([1], .healthy, true) := by decide
  simp only [ht, Option.map_some, Option.some.injEq, Prod.mk.injEq] at hend
  obtain ⟨htracked, hstate, hon⟩ := hend
  have hall : AllHealthy t.node.health := by
    intro id hid
    rw [htracked, List.mem_singleton] at hid
    rw [hid, hstate]
  refine ⟨t, ht, hall, ?_⟩
  intro h
  rw [h hall] at hon
  cases hon

/-- Nodes 1 and 2 are LOST at 5000. At 7000 node 1 is back directly, while
node 2 is DEGRADED; at 7200 both are HEALTHY. -/
def directReturn : List NodeAct :=
  [hello 0 1, hello 0 2, .update 5000, hello 5500 2, hello 6900 1, .update 7000, hello 7100 2,
   .update 7200]

/-- The return of node 1 has cleared the flag when node 2 is back. -/
theorem recoveredLeaves_iff_directReturn :
    (reportedMachine {} ⟨7⟩).AllSteps (LastIsDirect {}) (reportedMachine {} ⟨7⟩).init
        directReturn ∧
      (∀ u ∈ (reportedMachine {} ⟨7⟩).visited (reportedMachine {} ⟨7⟩).init directReturn,
        RecoveredLeaves u.node) ∧
      ((reportedMachine {} ⟨7⟩).run directReturn).map
          (fun t => (ceellSafeStateActive t.node.safe, t.edges)) =
        some (false, [⟨1, .healthy, .lost⟩, ⟨2, .healthy, .lost⟩, ⟨1, .lost, .healthy⟩,
          ⟨2, .lost, .degraded⟩, ⟨2, .degraded, .healthy⟩]) := by
  obtain ⟨t, ht⟩ : ∃ t, (reportedMachine {} ⟨7⟩).run directReturn = some t :=
    Option.isSome_iff_exists.mp (by decide +kernel)
  have hleaves : ∀ u ∈ (reportedMachine {} ⟨7⟩).visited (reportedMachine {} ⟨7⟩).init
      directReturn, RecoveredLeaves u.node := by
    decide +kernel
  exact ⟨(recoveredLeaves_iff_direct {} ⟨7⟩ directReturn t ht).mp hleaves, hleaves,
    by decide +kernel⟩

/-! ## The watchdog -/

/-- The node with its watchdog. `fired` is history: a check has entered
safe state and the watchdog has not been fed since. -/
structure GuardedNode (max : Nat) where
  node : NodeState max
  wdt : Watchdog
  fired : Bool

inductive GuardedAct where
  | node (a : NodeAct)
  | check (now : Int)
  | feed (now : Int)

/-- A step of the node, a pass of the watchdog's loop, or a feed. -/
def guardedStep (k : Kconfig) (me : Identity) {max : Nat} (s : GuardedNode max) :
    GuardedAct → Option (GuardedNode max)
  | .node a => (nodeStep k me s.node a).map fun n => { s with node := n }
  | .check now =>
      some { s with
        node := { s.node with safe := wdtThreadFn now s.wdt s.node.safe }
        fired := s.fired || wdtExpired now s.wdt }
  | .feed now => some { s with wdt := ceellWatchdogFeed now s.wdt, fired := false }

/-- The node with the watchdog started at uptime `now`. -/
def guardedMachine (k : Kconfig) (me : Identity) (timeoutMs now : Int) :
    Machine (GuardedNode k.discoveryMaxPeers) GuardedAct where
  init := ⟨(nodeMachine k me).init, (ceellWatchdogInit timeoutMs now 0 .zero).1, false⟩
  step := guardedStep k me

/-- A safe state the watchdog entered lasts until it is fed. -/
def WatchdogHolds {max : Nat} (s : GuardedNode max) : Prop :=
  s.fired = true → ceellSafeStateActive s.node.safe = true

instance {max : Nat} (s : GuardedNode max) : Decidable (WatchdogHolds s) := by
  unfold WatchdogHolds; infer_instance

/-- Between a check that fired and the next feed no update clears the flag. -/
def NoClear (k : Kconfig) {max : Nat} (s : GuardedNode max) : GuardedAct → Prop
  | .node (.update now) => s.fired = true → ¬ ClearsFlag k s.node now
  | _ => True

section Guarded

variable {k : Kconfig} {me : Identity} {s s' : GuardedNode k.discoveryMaxPeers}

theorem nodeInv_guardedStep {a : GuardedAct} (hi : NodeInv k me s.node)
    (hs : guardedStep k me s a = some s') : NodeInv k me s'.node := by
  cases a with
  | node a =>
    obtain ⟨n, hn, rfl⟩ := Option.map_eq_some_iff.mp hs
    exact nodeInv_step hi hn
  | check now =>
    obtain rfl := Option.some.inj hs
    exact { hi with safe_init := initialized_wdtThreadFn.trans hi.safe_init }
  | feed now =>
    obtain rfl := Option.some.inj hs
    exact hi

/-- While the flag is up an update leaves it up exactly if it does not
clear it. -/
theorem active_served_iff (now : Int) (hi : NodeInv k me s.node)
    (hon : s.node.safe.active = true) :
    ((ceellHealthUpdate k now s.node.snapshot s.node.health).2.foldl onHealthChange
        s.node.safe).active = true ↔ ¬ ClearsFlag k s.node now := by
  rw [← Bool.not_eq_false, inactive_served_iff now hi, hon]
  simp

theorem watchdogHolds_step_iff {a : GuardedAct} (hi : NodeInv k me s.node) (hp : WatchdogHolds s)
    (hs : guardedStep k me s a = some s') : WatchdogHolds s' ↔ NoClear k s a := by
  match a with
  | .node (.discovery a) =>
    obtain ⟨n, hn, rfl⟩ := Option.map_eq_some_iff.mp hs
    obtain ⟨d, _, rfl⟩ := Option.map_eq_some_iff.mp hn
    exact iff_of_true hp trivial
  | .node (.update now) =>
    obtain rfl := Option.some.inj hs
    exact imp_congr_right fun hfired => active_served_iff now hi (hp hfired)
  | .check now =>
    obtain rfl := Option.some.inj hs
    refine iff_of_true ?_ trivial
    intro hfired
    have hactive := active_wdtThreadFn now s.wdt hi.safe_init
    rcases Bool.or_eq_true_iff.mp hfired with h | h
    · have hon : s.node.safe.active = true := hp h
      rw [hon, Bool.or_true] at hactive
      exact hactive
    · rw [h, Bool.true_or] at hactive
      exact hactive
  | .feed now =>
    obtain rfl := Option.some.inj hs
    exact iff_of_true (fun h => by cases h) trivial

end Guarded

/-- **Over every run** of checks, feeds, updates and discovery: from a check
that fires to the next feed the node is in safe state, exactly if no
update in between clears the flag. -/
theorem watchdogHolds_iff_noClear (k : Kconfig) (me : Identity) (timeoutMs start : Int)
    (as : List GuardedAct) (t : GuardedNode k.discoveryMaxPeers)
    (hrun : (guardedMachine k me timeoutMs start).run as = some t) :
    (∀ u ∈ (guardedMachine k me timeoutMs start).visited
        (guardedMachine k me timeoutMs start).init as, WatchdogHolds u) ↔
      (guardedMachine k me timeoutMs start).AllSteps (NoClear k)
        (guardedMachine k me timeoutMs start).init as :=
  Machine.forall_visited_iff_allSteps (A := fun _ => True) (I := fun s => NodeInv k me s.node)
    (fun _ _ _ _ hi hs => nodeInv_guardedStep hi hs)
    (fun _ _ _ _ hi hp hs => watchdogHolds_step_iff hi hp hs)
    as _ t (fun _ _ => trivial) nodeInv_init (fun h => by cases h) hrun

/-- Node 1 is LOST at 5000, the watchdog fires at 6000, and node 1 is back
at 6200. -/
def recoveryAfterCheck : List GuardedAct :=
  [.node (hello 0 1), .node (.update 5000), .check 6000, .node (hello 6100 1),
   .node (.update 6200)]

/-- The recovery of node 1 cancels the safe state of the watchdog, which
has not been fed since 0. -/
theorem recoveryAfterCheck_cancels :
    ∃ t, (guardedMachine {} ⟨7⟩ 5000 0).run recoveryAfterCheck = some t ∧
      wdtExpired 6200 t.wdt = true ∧ ¬ WatchdogHolds t := by
  obtain ⟨t, ht⟩ : ∃ t, (guardedMachine {} ⟨7⟩ 5000 0).run recoveryAfterCheck = some t :=
    Option.isSome_iff_exists.mp (by decide)
  have hend : ((guardedMachine {} ⟨7⟩ 5000 0).run recoveryAfterCheck).map (fun t =>
      (wdtExpired 6200 t.wdt, t.fired, ceellSafeStateActive t.node.safe))
        = some (true, true, false) := by decide
  simp only [ht, Option.map_some, Option.some.injEq, Prod.mk.injEq] at hend
  obtain ⟨hexpired, hfired, hoff⟩ := hend
  refine ⟨t, ht, hexpired, ?_⟩
  intro h
  rw [h hfired] at hoff
  cases hoff

/-- Nodes 1 and 2 are LOST at 5000. At 7000 node 2 is back, which clears the
flag, and node 1 is DEGRADED. The watchdog, fed at 6000, fires at 11500;
then node 1 is HEALTHY, which clears nothing. -/
def quietReturn : List GuardedAct :=
  [.node (hello 0 1), .node (hello 0 2), .node (.update 5000), .node (hello 5500 1),
   .feed 6000, .node (hello 6900 2), .node (.update 7000), .check 11500,
   .node (hello 11600 1), .node (hello 11600 2), .node (.update 11700), .feed 11800]

/-- No update clears the flag before the feed, so the node stays in safe
state, with both peers HEALTHY. -/
theorem watchdogHolds_iff_quietReturn :
    (guardedMachine {} ⟨7⟩ 5000 0).AllSteps (NoClear {}) (guardedMachine {} ⟨7⟩ 5000 0).init
        quietReturn ∧
      (∀ u ∈ (guardedMachine {} ⟨7⟩ 5000 0).visited (guardedMachine {} ⟨7⟩ 5000 0).init
        quietReturn, WatchdogHolds u) ∧
      ((guardedMachine {} ⟨7⟩ 5000 0).visited (guardedMachine {} ⟨7⟩ 5000 0).init
          quietReturn).map (fun u => (u.fired, ceellSafeStateActive u.node.safe)) =
        [(false, false), (false, false), (false, true), (false, true), (false, true),
          (false, true), (false, false), (true, true), (true, true), (true, true), (true, true),
          (false, true)] := by
  obtain ⟨t, ht⟩ : ∃ t, (guardedMachine {} ⟨7⟩ 5000 0).run quietReturn = some t :=
    Option.isSome_iff_exists.mp (by decide +kernel)
  have hholds : ∀ u ∈ (guardedMachine {} ⟨7⟩ 5000 0).visited (guardedMachine {} ⟨7⟩ 5000 0).init
      quietReturn, WatchdogHolds u := by
    decide +kernel
  exact ⟨(watchdogHolds_iff_noClear {} ⟨7⟩ 5000 0 quietReturn t ht).mp hholds, hholds,
    by decide +kernel⟩

end Ceell
