/-
Ceell.Network.ServiceDiscovery — `ceell/network/service_discovery.c`: the
peer that offers a service.

A peer's services are one string with commas between the names.
`findPeer_spec` says which peer a lookup returns: an entry of the table
one of whose names is the one asked for.

`csvContainsLoop` and `findPeerLoop` are the two functions with the reads
they make; `findPeerLoop_eq` says that they stay inside the arrays and
answer the same. `findPeer_routes` is the result: a name is routed to the
first entry that has it among its tokens.
-/
import Ceell.Lib.TokenLoop
import Ceell.Network.Discovery

namespace Ceell.Network

open Ceell.Lib

/-- `csv_contains`: some token of the list is the name. -/
def csvContains (csv name : List Char) : Bool := (pieces ',' csv).any fun token => token == name

/-- `ceell_service_find_peer`: what it leaves in `ip_out` and returns. -/
def ceellServiceFindPeer (k : Kconfig) (t : PeerTable k.discoveryMaxPeers)
    (serviceName : Option (List Char)) (ipOut : Option (CharBuf 16)) : Option (CharBuf 16) × Int :=
  match serviceName, ipOut with
  | some serviceName, some ip =>
      let peers := ceellDiscoveryGetPeers t k.discoveryMaxPeers
      match peers.find? fun p => csvContains p.services.str (cstr serviceName) with
      | some p => (some (ip.copy p.ip.bytes).terminate, 0)
      | none => (some ip, -ENOENT)
  | _, _ => (ipOut, -EINVAL)

/-- A service is in the list a CSV text spells out. -/
theorem csvContains_intercalate {names : List (List Char)} (hcomma : ∀ x ∈ names, ',' ∉ x)
    (hne : ∀ x ∈ names, x ≠ []) (name : List Char) :
    csvContains ([','].intercalate names) name = true ↔ name ∈ names := by
  rw [csvContains, pieces_intercalate hcomma hne]
  simp

section FindPeer

variable {k : Kconfig} {t : PeerTable k.discoveryMaxPeers}

/-- **What a lookup returns**: success exactly if some peer offers the
service, and then the address of such a peer. -/
theorem findPeer_spec (hcount : t.peerCount ≤ k.discoveryMaxPeers) (name : List Char)
    (ip : CharBuf 16) :
    ((ceellServiceFindPeer k t (some name) (some ip)).2 = 0 ↔
      ∃ p ∈ t.entries, csvContains p.services.str (cstr name) = true) ∧
    ((ceellServiceFindPeer k t (some name) (some ip)).2 = 0 →
      ∃ p ∈ t.entries, csvContains p.services.str (cstr name) = true ∧
        (ceellServiceFindPeer k t (some name) (some ip)).1
          = some ((CharBuf.zero 16).copy p.ip.bytes)) := by
  simp only [ceellServiceFindPeer, getPeers_max hcount]
  cases hfind : t.entries.find? fun p => csvContains p.services.str (cstr name) with
  | none =>
    have hnone := List.find?_eq_none.mp hfind
    constructor
    · constructor
      · intro h
        exact absurd (show -ENOENT = 0 from h) (by decide)
      · rintro ⟨p, hp, hc⟩
        exact absurd hc (hnone p hp)
    · intro h
      exact absurd (show -ENOENT = 0 from h) (by decide)
  | some p =>
    have hp := List.mem_of_find?_eq_some hfind
    have hc : csvContains p.services.str (cstr name) = true := by simpa using List.find?_some hfind
    constructor
    · exact ⟨fun _ => ⟨p, hp, hc⟩, fun _ => rfl⟩
    · exact fun _ => ⟨p, hp, hc, congrArg some (CharBuf.terminate_copy ip p.ip.bytes)⟩

end FindPeer

/-! ## The loops and their reads -/

/-- `csv_contains` on the two arrays: `none` where a read leaves one of
them, or the loop is not over after `fuel` tests. -/
def csvContainsLoop (fuel : Nat) (csv name : List Char) : Option Bool := do
  let nameLen ← strlen name
  tokenLoop ',' (fun _ => true)
    (fun _ p tokenLen =>
      if tokenLen = nameLen then (memcmpEq p name nameLen).map fun eq => (eq, eq)
      else some (false, false))
    fuel false csv

/-- The loop of `ceell_service_find_peer`. -/
def findPeerLoop (fuel : Nat) (serviceName : List Char) :
    List Peer → CharBuf 16 → Option (CharBuf 16 × Int)
  | [], ip => some (ip, -ENOENT)
  | p :: peers, ip => do
      let found ← csvContainsLoop fuel p.services.bytes serviceName
      if found then some ((ip.copy p.ip.bytes).terminate, 0)
      else findPeerLoop fuel serviceName peers ip

/-- `ceell_service_find_peer` with the reads of its strings. -/
def serviceFindPeerLoop (k : Kconfig) (t : PeerTable k.discoveryMaxPeers) (fuel : Nat)
    (serviceName : Option (List Char)) (ipOut : Option (CharBuf 16)) :
    Option (Option (CharBuf 16) × Int) :=
  match serviceName, ipOut with
  | some serviceName, some ip =>
      (findPeerLoop fuel serviceName (ceellDiscoveryGetPeers t k.discoveryMaxPeers) ip).map
        fun r => (some r.1, r.2)
  | _, _ => some (ipOut, -EINVAL)

/-- The peer has the name among its tokens. -/
def Offers (name : List Char) (p : Peer) : Prop := name ∈ p.services.str.splitOn ','

/-- The first peer of a list that offers the name. -/
def FirstOffer (name : List Char) (peers : List Peer) (p : Peer) : Prop :=
  Offers name p ∧ ∃ front back, peers = front ++ p :: back ∧ ∀ q ∈ front, ¬ Offers name q

section Loops

variable {fuel : Nat} {name : List Char}

theorem csvContains_iff {csv : List Char} (hne : name ≠ []) :
    csvContains csv name = true ↔ name ∈ csv.splitOn ',' := by
  rw [csvContains, List.any_beq', List.contains_iff_mem, mem_pieces_iff hne]

/-- Whatever is behind the two terminators, the loop ends without reading
it, and finds the name as `csvContains` does. -/
theorem csvContainsLoop_eq {csv : List Char} (hcsv : nul ∉ csv) (hname : nul ∉ name)
    (rest after : List Char) (hfuel : csv.length < fuel) :
    csvContainsLoop fuel (csv ++ nul :: rest) (name ++ nul :: after)
      = some (csvContains csv name) := by
  have hbody : ∀ (s : Bool) (t rest : List Char), ',' ∉ t → nul ∉ t →
      (if t.length = name.length then
          (memcmpEq (t ++ rest) (name ++ nul :: after) name.length).map fun eq => (eq, eq)
        else some (false, false)) = some (t == name, t == name) := by
    intro _ t rest _ _
    by_cases hlen : t.length = name.length
    · rw [if_pos hlen, memcmpEq_append hlen, Option.map_some]
    · have hne : (t == name) = false := by
        rw [beq_eq_false_iff_ne]
        exact fun h => hlen (congrArg List.length h)
      rw [if_neg hlen, hne]
  simp only [csvContainsLoop, strlen_append_nul hname, Option.bind_eq_bind, Option.bind_some]
  rw [tokenLoop_eq (by decide) hbody hcsv rest hfuel, tokenFold_any]
  rfl

/-- On a table of terminated strings the loop answers what `find?` does. -/
theorem findPeerLoop_eq (hname : nul ∉ name) (after : List Char) (hfuel : 128 ≤ fuel)
    {peers : List Peer} (hpeers : ∀ p ∈ peers, p.Terminated) (ip : CharBuf 16) :
    findPeerLoop fuel (name ++ nul :: after) peers ip
      = some (match peers.find? fun p => csvContains p.services.str name with
        | some p => ((ip.copy p.ip.bytes).terminate, 0)
        | none => (ip, -ENOENT)) := by
  induction peers with
  | nil => rfl
  | cons p peers ih =>
    obtain ⟨hp, hpeers'⟩ := List.forall_mem_cons.mp hpeers
    obtain ⟨rest, hbytes⟩ := p.services.exists_bytes_eq hp.services
    have hlt := p.services.length_str_lt hp.services
    have hcontains : csvContainsLoop fuel p.services.bytes (name ++ nul :: after)
        = some (csvContains p.services.str name) := by
      rw [hbytes]
      exact csvContainsLoop_eq p.services.nul_notMem_str hname rest after (by omega)
    rw [findPeerLoop, hcontains, Option.bind_eq_bind, Option.bind_some]
    cases hfound : csvContains p.services.str name with
    | true => simp [hfound]
    | false => simp [hfound, ih hpeers']

/-- The function and its loops. -/
theorem serviceFindPeerLoop_eq {k : Kconfig} {t : PeerTable k.discoveryMaxPeers}
    (hcount : t.peerCount ≤ k.discoveryMaxPeers) (hterm : ∀ p ∈ t.entries, p.Terminated)
    (hname : nul ∉ name) (after : List Char) (hfuel : 128 ≤ fuel) (ip : CharBuf 16) :
    serviceFindPeerLoop k t fuel (some (name ++ nul :: after)) (some ip)
      = some (ceellServiceFindPeer k t (some (name ++ nul :: after)) (some ip)) := by
  simp only [serviceFindPeerLoop, ceellServiceFindPeer, cstr_append_nul hname, getPeers_max hcount,
    findPeerLoop_eq hname after hfuel hterm, Option.map_some]
  split <;> rfl

/-- Which peer the search stops at. -/
theorem find?_eq_some_iff_firstOffer (hne : name ≠ []) {peers : List Peer} {p : Peer} :
    (peers.find? fun p => csvContains p.services.str name) = some p ↔
      FirstOffer name peers p := by
  rw [List.find?_eq_some_iff_append]
  simp only [csvContains_iff hne, Bool.not_eq_true', ← Bool.not_eq_true, FirstOffer, Offers]

theorem find?_eq_none_iff_offers (hne : name ≠ []) {peers : List Peer} :
    (peers.find? fun p => csvContains p.services.str name) = none ↔
      ∀ p ∈ peers, ¬ Offers name p := by
  simp only [List.find?_eq_none, csvContains_iff hne, Offers]

/-- The address handed out is the one stored. -/
theorem str_copy_ip {p : Peer} (hp : p.Terminated) (ip : CharBuf 16) :
    ((ip.copy p.ip.bytes).terminate).str = p.ip.str := by
  rw [CharBuf.terminate_copy, CharBuf.str_copy_zero]
  exact List.take_of_length_le (Nat.le_of_lt_succ (p.ip.length_str_lt hp.ip))

end Loops

/-- **Service routing**: for every string of services and every name, the
search ends without a read behind a terminator and says whether the name
is a token of the string; so in every table that a run can reach a lookup
returns 0 with the address of the first entry that has the name among its
tokens, and `-ENOENT` exactly if none has. -/
theorem findPeer_routes {k : Kconfig} {me : Identity} {s : DiscoveryRun k.discoveryMaxPeers}
    (hr : (discoveryMachine k me).Reachable s) {name : List Char} (hname : nul ∉ name)
    (hne : name ≠ []) (after : List Char) :
    (∀ csv : List Char, nul ∉ csv → ∀ (rest : List Char) (fuel : Nat), csv.length < fuel →
      ∃ found, csvContainsLoop fuel (csv ++ nul :: rest) (name ++ nul :: after) = some found ∧
        (found = true ↔ name ∈ csv.splitOn ',')) ∧
    ∀ (ip : CharBuf 16) (fuel : Nat), 128 ≤ fuel →
      ∃ ip' ret, serviceFindPeerLoop k s.table fuel (some (name ++ nul :: after)) (some ip)
          = some (some ip', ret) ∧
        (ret = 0 ↔ ∃ p, FirstOffer name s.table.entries p) ∧
        (ret = 0 → ∀ p, FirstOffer name s.table.entries p → ip'.str = p.ip.str) ∧
        (ret = -ENOENT ↔ ∀ p ∈ s.table.entries, ¬ Offers name p) := by
  have hinv := inv_reachable hr
  constructor
  · intro csv hcsv rest fuel hfuel
    exact ⟨_, csvContainsLoop_eq hcsv hname rest after hfuel, csvContains_iff hne⟩
  · intro ip fuel hfuel
    rw [serviceFindPeerLoop_eq hinv.count_le hinv.terminated hname after hfuel]
    simp only [ceellServiceFindPeer, cstr_append_nul hname, getPeers_max hinv.count_le]
    cases hfind : s.table.entries.find? fun p => csvContains p.services.str name with
    | some p =>
      have hfirst := (find?_eq_some_iff_firstOffer hne).mp hfind
      have hmem := List.mem_of_find?_eq_some hfind
      refine ⟨_, _, rfl, iff_of_true rfl ⟨p, hfirst⟩, ?_, ?_⟩
      · intro _ q hq
        obtain rfl : p = q :=
          Option.some.inj (hfind.symm.trans ((find?_eq_some_iff_firstOffer hne).mpr hq))
        exact str_copy_ip (hinv.terminated p hmem) ip
      · refine iff_of_false (by decide) fun h => h p hmem hfirst.1
    | none =>
      have hall := (find?_eq_none_iff_offers hne).mp hfind
      have hno : ∀ p, ¬ FirstOffer name s.table.entries p := by
        rintro p ⟨hp, front, back, heq, _⟩
        exact hall p (heq ▸ List.mem_append_right _ List.mem_cons_self) hp
      refine ⟨_, _, rfl, iff_of_false (by decide) fun ⟨p, hp⟩ => hno p hp, ?_, iff_of_true rfl hall⟩
      exact fun h => absurd h (by decide)

/-- A peer with tokens that begin and end like the name and with empty ones,
and one that has the name. -/
def similarTokens : List DiscoveryAct :=
  [.announce 10 ⟨1, none, none, some "10.0.0.1".toList, some ",echo2,,my-echo,".toList⟩,
   .announce 20 ⟨2, none, none, some "10.0.0.2".toList, some "ota,echo".toList⟩]

theorem findPeer_routes_similar :
    ∃ s, (discoveryMachine {} ⟨7⟩).run similarTokens = some s ∧
      ∃ ip' ret, serviceFindPeerLoop {} s.table 128 (some ("echo".toList ++ [nul]))
          (some (.zero 16)) = some (some ip', ret) ∧ ret = 0 ∧ ip'.str = "10.0.0.2".toList := by
  obtain ⟨s, hs⟩ : ∃ s, (discoveryMachine {} ⟨7⟩).run similarTokens = some s :=
    Option.isSome_iff_exists.mp (by decide)
  have hfirst : ((discoveryMachine {} ⟨7⟩).run similarTokens).map (fun s =>
      (s.table.entries.find? fun p => csvContains p.services.str "echo".toList).map (·.ip.str))
      = some (some "10.0.0.2".toList) := by decide +kernel
  rw [hs, Option.map_some, Option.some.injEq, Option.map_eq_some_iff] at hfirst
  obtain ⟨p, hp, hip⟩ := hfirst
  have hname : nul ∉ "echo".toList := by decide
  obtain ⟨ip', ret, hrun, hret, haddr, _⟩ :=
    (findPeer_routes ⟨_, hs⟩ hname (by decide) []).2 (.zero 16) 128
      (Nat.le_refl _)
  have hoffer := (find?_eq_some_iff_firstOffer (by decide)).mp hp
  have hzero := hret.mpr ⟨p, hoffer⟩
  exact ⟨s, hs, ip', ret, hrun, hzero, (haddr hzero p hoffer).trans hip⟩

end Ceell.Network
