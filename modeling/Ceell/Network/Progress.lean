/-
Ceell.Network.Progress — that requests are answered: how long a request
waits, and that nothing stays behind when no more datagrams arrive.

A handler thread takes three steps for each request of its priority, and
none of them needs another thread. So its steps alone say which requests
are answered (`server_inTurn`), whatever the dispatcher and the threads of
the other priorities do. `server_quiesces` is about all threads together.
-/
import Ceell.Lib.Progress
import Ceell.Network.Server

namespace Ceell.Network

open Ceell.Lib Ceell.Core

variable {δ ν : Type} {decode : δ → Dispatch} {depth : Nat} {s s' t : ServerState δ}
  {as : List (ServerAct δ ν)}

/-! ## One handler thread -/

/-- The steps of the handler thread of a priority. -/
def ServerAct.isOf (p : MsgPriority) : ServerAct δ ν → Bool
  | .get q => q = p
  | .handle q _ => q = p
  | .respond q => q = p
  | _ => false

/-- The steps that the thread has taken for the request in hand. -/
def HandPc.steps : HandPc → Nat
  | .get => 0
  | .handle _ _ => 1
  | .respond _ _ => 2

/-- The steps that the thread has taken. -/
def threadSteps (p : MsgPriority) (s : ServerState δ) : Nat :=
  3 * (s.answered p).length + (s.hand p).steps

/-- Steps that leave the thread where it is. -/
theorem threadSteps_congr {p : MsgPriority} (hanswered : s'.answered p = s.answered p)
    (hhand : s'.hand p = s.hand p) : threadSteps p s' = threadSteps p s := by
  rw [threadSteps, threadSteps, hanswered, hhand]

theorem threadSteps_step (p : MsgPriority) {a : ServerAct δ ν}
    (hs : serverStep decode depth s a = some s') :
    threadSteps p s' = threadSteps p s + Machine.counts (ServerAct.isOf p) a := by
  cases a with
  | recv data src =>
    obtain ⟨_, rfl⟩ := step_recv hs
    exact threadSteps_congr rfl rfl
  | dispatch =>
    obtain ⟨_, _, _, _, hcases⟩ := step_dispatch hs
    rcases hcases with ⟨_, _, _, rfl⟩ | ⟨_, _, _, rfl⟩ | ⟨_, rfl⟩
    · exact threadSteps_congr rfl rfl
    · exact threadSteps_congr rfl rfl
    · exact threadSteps_congr rfl rfl
  | refuse =>
    obtain ⟨_, _, _, rfl⟩ := step_refuse hs
    exact threadSteps_congr rfl rfl
  | get q =>
    obtain ⟨i, item, rest, hhand, _, rfl⟩ := step_get hs
    by_cases hq : q = p
    · subst hq
      simp [threadSteps, Machine.counts, ServerAct.isOf, HandPc.steps, hhand]
    · simp [threadSteps, Machine.counts, ServerAct.isOf, hq, Ne.symm hq]
  | handle q w =>
    obtain ⟨i, item, hhand, rfl⟩ := step_handle hs
    by_cases hq : q = p
    · subst hq
      simp [threadSteps, Machine.counts, ServerAct.isOf, HandPc.steps, hhand]
    · simp [threadSteps, Machine.counts, ServerAct.isOf, hq, Ne.symm hq]
  | respond q =>
    obtain ⟨i, a, hhand, rfl⟩ := step_respond hs
    by_cases hq : q = p
    · subst hq
      simp [threadSteps, Machine.counts, ServerAct.isOf, HandPc.steps, hhand]
      omega
    · simp [threadSteps, Machine.counts, ServerAct.isOf, hq, Ne.symm hq]

theorem prefix_of_line_eq (p : MsgPriority) (h : s'.line = s.line) : s.line p <+: s'.line p :=
  ⟨[], by rw [h, List.append_nil]⟩

/-- A line grows at its end only. -/
theorem line_step (p : MsgPriority) {a : ServerAct δ ν}
    (hs : serverStep decode depth s a = some s') : s.line p <+: s'.line p := by
  cases a with
  | recv data src =>
    obtain ⟨_, rfl⟩ := step_recv hs
    exact List.prefix_rfl
  | dispatch =>
    obtain ⟨i, data, src, _, hcases⟩ := step_dispatch hs
    rcases hcases with ⟨req, _, _, rfl⟩ | ⟨_, _, _, rfl⟩ | ⟨_, rfl⟩
    · by_cases hp : p = msgPriorityOf req.priority
      · subst hp
        exact ⟨[i], by rw [line_put, Function.update_self]⟩
      · exact ⟨[], by rw [line_put, Function.update_of_ne hp, List.append_nil]⟩
    · exact List.prefix_rfl
    · exact List.prefix_rfl
  | refuse =>
    obtain ⟨_, _, _, rfl⟩ := step_refuse hs
    exact List.prefix_rfl
  | get q =>
    obtain ⟨_, _, _, hhand, hqueue, rfl⟩ := step_get hs
    exact prefix_of_line_eq p (line_get hhand hqueue)
  | handle q w =>
    obtain ⟨_, _, hhand, rfl⟩ := step_handle hs
    exact prefix_of_line_eq p (line_handle hhand)
  | respond q =>
    obtain ⟨_, _, hhand, rfl⟩ := step_respond hs
    exact prefix_of_line_eq p (line_respond hhand)

theorem line_run (hrun : (serverMachine decode depth ν).runFrom s as = some t) (p : MsgPriority) :
    s.line p <+: t.line p :=
  Machine.runFrom_induct (G := fun _ _ => True) (P := fun u => s.line p <+: u.line p)
    (fun _ _ _ h _ hs => h.trans (line_step p hs)) as s t List.prefix_rfl
    (Machine.allSteps_true s as) hrun

theorem HandPc.steps_le (pc : HandPc) : pc.steps ≤ 2 := by
  cases pc <;> simp [HandPc.steps]

/-- The requests that are answered are the first of the line. -/
theorem answered_iff (hi : ServerInv decode depth ν s) {p : MsgPriority} {k i : Nat}
    (hk : (s.line p)[k]? = some i) :
    i ∈ (s.answered p).map Prod.fst ↔ k < (s.answered p).length := by
  have hnodup : (s.line p).Nodup := (hi.order p).imp fun h => Nat.ne_of_lt h
  have hfront : ∀ {j : Nat}, j < (s.answered p).length →
      (s.line p)[j]? = ((s.answered p).map Prod.fst)[j]? := by
    intro j hj
    rw [ServerState.line, List.append_assoc, List.getElem?_append_left (by simpa using hj)]
  constructor
  · intro hmem
    obtain ⟨j, hj⟩ := List.mem_iff_getElem?.mp hmem
    have hlt : j < (s.answered p).length := by
      simpa using (List.getElem?_eq_some_iff.mp hj).1
    obtain ⟨hklt, _⟩ := List.getElem?_eq_some_iff.mp hk
    have hsame : k = j :=
      (List.getElem?_inj hklt hnodup).mp (hk.trans ((hfront hlt).trans hj).symm)
    omega
  · intro hlt
    rw [hfront hlt] at hk
    exact List.mem_of_getElem? hk

/-- A thread with requests in its line can take a step. -/
theorem threadStep_enabled (decode : δ → Dispatch) (depth : Nat) {p : MsgPriority}
    (hmore : (s.answered p).length < (s.line p).length) (w : World ν) :
    ∃ a ∈ [ServerAct.get p, .handle p w, .respond p], (serverStep decode depth s a).isSome := by
  cases hhand : s.hand p with
  | get =>
    cases hqueue : s.queue p with
    | nil => simp [ServerState.line, hhand, hqueue, HandPc.idx] at hmore
    | cons x rest => exact ⟨.get p, by simp, by simp [serverStep, hhand, hqueue]⟩
  | handle i item => exact ⟨.handle p w, by simp, by simp [serverStep, hhand]⟩
  | respond i a => exact ⟨.respond p, by simp, by simp [serverStep, hhand]⟩

/-- **A request is answered in its turn**: from any state on, and whatever
the other threads do, the `k`-th request of a line is answered exactly when
its thread has taken three steps for it and for each request in front of
it. Until then the thread can always take its next step, whatever its
handler finds. -/
theorem server_inTurn (hr : (serverMachine decode depth ν).Reachable s) {p : MsgPriority}
    {k i : Nat} (hk : (s.line p)[k]? = some i)
    (hrun : (serverMachine decode depth ν).runFrom s as = some t) :
    (i ∈ (t.answered p).map Prod.fst ↔
      3 * (k + 1) ≤ threadSteps p s + as.countP (ServerAct.isOf p)) ∧
    (i ∉ (t.answered p).map Prod.fst → ∀ w : World ν,
      ∃ a ∈ [ServerAct.get p, .handle p w, .respond p], (serverStep decode depth t a).isSome) := by
  have hinv := serverInv_reachable (hr.runFrom hrun)
  have hkt : (t.line p)[k]? = some i := by
    obtain ⟨rest, hrest⟩ := line_run hrun p
    obtain ⟨hlt, _⟩ := List.getElem?_eq_some_iff.mp hk
    rw [← hrest, List.getElem?_append_left hlt, hk]
  have hcount : threadSteps p t = threadSteps p s + as.countP (ServerAct.isOf p) :=
    Machine.runFrom_count (fun _ _ _ hs => threadSteps_step p hs) hrun
  have hanswered := answered_iff hinv hkt
  constructor
  · have hsteps := (t.hand p).steps_le
    rw [hanswered, ← hcount, threadSteps]
    omega
  · intro hnot w
    obtain ⟨hlt, _⟩ := List.getElem?_eq_some_iff.mp hkt
    rw [hanswered] at hnot
    exact threadStep_enabled decode depth (by omega) w

/-- Two CRITICAL requests, and a NORMAL one in front of them. -/
def threeRequests : List (ServerAct Dispatch Unit) :=
  let req (seq pri : Int) : Dispatch :=
    .request ⟨some "req".toList, seq, 7, some ['e'], some ['x'], pri, 0, 0⟩
  [.recv (req 1 1) ⟨1, 1⟩, .dispatch, .recv (req 2 0) ⟨1, 1⟩, .dispatch,
    .recv (req 3 0) ⟨1, 1⟩, .dispatch]

/-- Six steps of the CRITICAL thread, and the NORMAL one has not moved. -/
def criticalTurns : List (ServerAct Dispatch Unit) :=
  let w : World Unit := ⟨0, [], fun _ _ => .empty 0⟩
  [.get .critical, .handle .critical w, .respond .critical, .get .critical, .handle .critical w,
    .respond .critical]

theorem server_inTurn_critical :
    ∃ s t, (serverMachine id 2 Unit).run threeRequests = some s ∧
      (serverMachine id 2 Unit).runFrom s criticalTurns = some t ∧
      2 ∈ (t.answered .critical).map Prod.fst ∧ 0 ∉ (t.answered .normal).map Prod.fst := by
  have hstart : ((serverMachine id 2 Unit).run threeRequests).map (fun s =>
      ((s.line .critical)[1]?, threadSteps .critical s)) = some (some 2, 0) := by decide
  obtain ⟨s, hs, hvalues⟩ := Option.map_eq_some_iff.mp hstart
  obtain ⟨hline, hsteps⟩ := Prod.mk.inj hvalues
  have hend : ((serverMachine id 2 Unit).runFrom s criticalTurns).map (fun t =>
      (t.answered .normal).map Prod.fst) = some [] := by
    have hwhole : ((serverMachine id 2 Unit).run (threeRequests ++ criticalTurns)).map (fun t =>
        (t.answered .normal).map Prod.fst) = some [] := by decide
    rwa [Machine.run, Machine.runFrom_append, ← Machine.run, hs, Option.bind_some] at hwhole
  obtain ⟨t, ht, hnormal⟩ := Option.map_eq_some_iff.mp hend
  refine ⟨s, t, hs, ht, ?_, by simp [hnormal]⟩
  refine (server_inTurn ⟨threeRequests, hs⟩ hline ht).1.mpr ?_
  rw [hsteps]
  decide

/-! ## All threads -/

def ServerAct.isRecv : ServerAct δ ν → Bool
  | .recv _ _ => true
  | _ => false

/-- The steps that a datagram can still cost, the put counted with those of
the handler thread. -/
def DispPc.toDo : DispPc δ → Nat
  | .recv => 0
  | .got _ _ _ => 4
  | .refuse _ _ => 1

def HandPc.toDo : HandPc → Nat
  | .get => 0
  | .handle _ _ => 2
  | .respond _ _ => 1

/-- The most steps that the threads can take without another datagram. -/
def toDo (s : ServerState δ) : Nat :=
  s.disp.toDo + (MsgPriority.all.map fun p => 3 * (s.queue p).length + (s.hand p).toDo).sum

/-- One thread of three takes a step. -/
theorem sum_update_lt {f g : MsgPriority → Nat} {p : MsgPriority}
    (hother : ∀ q, q ≠ p → g q = f q) (hlt : g p < f p) :
    (MsgPriority.all.map g).sum < (MsgPriority.all.map f).sum := by
  have hc := hother .critical
  have hn := hother .normal
  have hb := hother .bulk
  cases p <;> simp_all [MsgPriority.all]

/-- Without a datagram to receive, every step leaves less to do. -/
theorem toDo_step {a : ServerAct δ ν} (hquiet : a.isRecv = false)
    (hs : serverStep decode depth s a = some s') : toDo s' < toDo s := by
  cases a with
  | recv data src => cases hquiet
  | dispatch =>
    obtain ⟨i, data, src, hdisp, hcases⟩ := step_dispatch hs
    rcases hcases with ⟨req, _, _, rfl⟩ | ⟨_, _, _, rfl⟩ | ⟨_, rfl⟩
    · simp only [toDo, hdisp, DispPc.toDo]
      cases msgPriorityOf req.priority <;>
        simp [MsgPriority.all, Function.update] <;> omega
    · simp [toDo, hdisp, DispPc.toDo]
    · simp [toDo, hdisp, DispPc.toDo]
  | refuse =>
    obtain ⟨_, _, hdisp, rfl⟩ := step_refuse hs
    simp [toDo, hdisp, DispPc.toDo]
  | get p =>
    obtain ⟨i, item, rest, hhand, hqueue, rfl⟩ := step_get hs
    refine Nat.add_lt_add_left (sum_update_lt (p := p) (fun q hq => by simp [hq]) ?_) _
    simp [hhand, hqueue, HandPc.toDo]
    omega
  | handle p w =>
    obtain ⟨i, item, hhand, rfl⟩ := step_handle hs
    refine Nat.add_lt_add_left (sum_update_lt (p := p) (fun q hq => by simp [hq]) ?_) _
    simp [hhand, HandPc.toDo]
  | respond p =>
    obtain ⟨i, a, hhand, rfl⟩ := step_respond hs
    refine Nat.add_lt_add_left (sum_update_lt (p := p) (fun q hq => by simp [hq]) ?_) _
    simp [hhand, HandPc.toDo]

theorem toDo_le (hi : ServerInv decode depth ν s) : toDo s ≤ 9 * depth + 10 := by
  have hdisp : s.disp.toDo ≤ 4 := by
    cases s.disp <;> simp [DispPc.toDo]
  have hthread : ∀ p, 3 * (s.queue p).length + (s.hand p).toDo ≤ 3 * depth + 2 := by
    intro p
    have hroom := hi.room p
    have hhand : (s.hand p).toDo ≤ 2 := by
      cases s.hand p <;> simp [HandPc.toDo]
    omega
  have hc := hthread .critical
  have hn := hthread .normal
  have hb := hthread .bulk
  simp only [toDo, MsgPriority.all, List.map_cons, List.map_nil, List.sum_cons, List.sum_nil]
  omega

/-- A handler thread at its `ceell_msgq_get` on an empty queue. -/
theorem idle_of_stuck (hstuck : ∀ a : ServerAct δ ν, a.isRecv = false →
    serverStep decode depth s a = none) (p : MsgPriority) :
    s.line p = (s.answered p).map Prod.fst := by
  have hnone : ¬ (s.answered p).length < (s.line p).length := by
    intro hmore
    obtain ⟨a, ha, hsome⟩ := threadStep_enabled decode depth hmore
      (⟨0, [], fun _ _ => .empty 0⟩ : World ν)
    have hquiet : a.isRecv = false := by
      simp only [List.mem_cons, List.not_mem_nil, or_false] at ha
      rcases ha with rfl | rfl | rfl <;> rfl
    rw [hstuck a hquiet] at hsome
    cases hsome
  rw [ServerState.line, List.append_assoc, List.length_append, List.length_map] at hnone
  have hrest : (s.hand p).idx ++ (s.queue p).map Prod.fst = [] :=
    List.eq_nil_of_length_eq_zero (by omega)
  rw [ServerState.line, List.append_assoc, hrest, List.append_nil]

theorem recv_of_stuck (hstuck : ∀ a : ServerAct δ ν, a.isRecv = false →
    serverStep decode depth s a = none) : s.disp = .recv := by
  cases hdisp : s.disp with
  | recv => rfl
  | got i data src =>
    have hnone := hstuck .dispatch rfl
    simp [serverStep, hdisp] at hnone
  | refuse i a =>
    have hnone := hstuck .refuse rfl
    simp [serverStep, hdisp] at hnone

/-- **Nothing stays behind**: when no more datagrams arrive, the threads
take at most `9 * depth + 10` steps in any order, and when none of them can
take another one, each datagram received has been answered, refused or
passed over, exactly once. -/
theorem server_quiesces (hr : (serverMachine decode depth ν).Reachable s)
    (hrun : (serverMachine decode depth ν).runFrom s as = some t)
    (hquiet : ∀ a ∈ as, a.isRecv = false) :
    as.length ≤ 9 * depth + 10 ∧
      ((∀ a : ServerAct δ ν, a.isRecv = false → serverStep decode depth t a = none) →
        (MsgPriority.all.flatMap (fun p => (t.answered p).map Prod.fst) ++
          t.refused.map Prod.fst ++ t.passed).Perm (List.range t.received.length)) := by
  have hlength := Machine.runFrom_length_le (q := fun a => a.isRecv = false) (v := toDo)
    (fun _ _ _ hq hs => toDo_step hq hs) hquiet hrun
  have hbound := toDo_le (serverInv_reachable hr)
  refine ⟨by omega, fun hstuck => ?_⟩
  have hplaces := (serverInv_reachable (hr.runFrom hrun)).places
  have hlines : t.line = fun p => (t.answered p).map Prod.fst :=
    funext fun p => idle_of_stuck hstuck p
  rwa [ServerState.places, recv_of_stuck hstuck, hlines, DispPc.idx, List.nil_append] at hplaces

/-- A request, and a datagram that is no request. -/
def twoReceived : List (ServerAct Dispatch Unit) :=
  [.recv (.request ⟨some "req".toList, 1, 7, some ['e'], some ['x'], 1, 0, 0⟩) ⟨1, 1⟩,
    .dispatch, .recv .ignored ⟨1, 1⟩]

def twoDatagrams : List (ServerAct Dispatch Unit) :=
  let w : World Unit := ⟨0, [], fun _ _ => .empty 0⟩
  [.dispatch, .get .normal, .handle .normal w, .respond .normal]

theorem server_quiesces_twoDatagrams :
    ∃ s t, (serverMachine id 1 Unit).run twoReceived = some s ∧
      (serverMachine id 1 Unit).runFrom s twoDatagrams = some t ∧
      (MsgPriority.all.flatMap (fun p => (t.answered p).map Prod.fst) ++
        t.refused.map Prod.fst ++ t.passed).Perm (List.range 2) := by
  refine ⟨_, _, rfl, rfl,
    (@server_quiesces Dispatch Unit id 1 _ _ twoDatagrams ⟨twoReceived, rfl⟩ rfl (by decide)).2 ?_⟩
  intro a ha
  cases a with
  | recv data src => cases ha
  | dispatch => rfl
  | refuse => rfl
  | get p => cases p <;> rfl
  | handle p w => cases p <;> rfl
  | respond p => cases p <;> rfl

end Ceell.Network
