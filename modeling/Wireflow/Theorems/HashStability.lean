/-
# When the hash is stable

The hash decides whether a configuration is written again, so it should be a function
of the state. Two places let Go's map order into the message: the routes that
`transferToPeer` collects from annotations, and the order in which `Evaluate` emits the
decided flows.

`generate` is the assembly of a message from the built policies and a choice of orders
(`run_generate`). The message is the same for all orders exactly when no peer's routes
depend on theirs and each direction has at most one decided flow (`OrderFree`). One
half needs that SHA-256 does not map two of the messages in question to one digest,
which is a hypothesis.
-/

import Wireflow.Theorems.Footprints

namespace Wireflow.Controller

open Go (GoMap Order)
open Semantics Program List
open Wireflow.Api Wireflow.Infra

section Orders

variable {lib : SelectorLibrary} {current : LatticePeer} {snapshot : PeerStateSnapshot}
  {policies : List Policy}

/-! ## The message as a function of the orders -/

/-- The session with another time and other orders of all maps. -/
def Session.vary (session : Session) (time : ℕ) (orders : MapOrders) : Session :=
  { session with
    choices := fun n => { session.choices n with time := time, orders := orders } }

/-- The policies that `generate` builds; time and orders are its first two calls. -/
def builtPolicies (lib : SelectorLibrary) (snapshot : PeerStateSnapshot) (session : Session) :
    List Policy :=
  ((buildPolicies lib snapshot.policies).run serve
    { session with choices := fun n => session.choices (n + 2) }).1

/-- The message of `generate`, from its parts. -/
def assemble (lib : SelectorLibrary) (current : LatticePeer) (snapshot : PeerStateSnapshot)
    (policies : List Policy) (version : String) (time : ℕ) (orders : MapOrders) :
    Except GoError Message :=
  let me := currentPeer orders current snapshot
  let network := networkOf orders snapshot
  match getComputedPeers lib me network snapshot.policies with
  | .error err => .error err
  | .ok computedPeers =>
      match evaluate orders (some me) (some network) policies with
      | .error err => .error err
      | .ok computedRules =>
          .ok { eventType := .nodeUpdate, configVersion := version, timestamp := time
                current := me, network := network, policies := policies
                computedPeers := computedPeers, computedRules := computedRules }

/-- Lists of peers do not depend on time or map orders. -/
theorem run_buildPolicies_vary (lib : SelectorLibrary) (session session' : Session)
    (hworld : session.world = session'.world)
    (hfault : ∀ n, (session.choices n).fault = (session'.choices n).fault)
    (horder : ∀ n, (session.choices n).listOrder = (session'.choices n).listOrder)
    (sources : List LatticePolicy) :
    ((buildPolicies lib sources).run serve session).1 =
      ((buildPolicies lib sources).run serve session').1 := by
  have hbuild : (buildPolicies lib sources).Within
      (fun c => ∃ ns selector required, c = .listPeers ns selector required) fun _ => True :=
    within_buildPolicies (fun ns selector required => ⟨ns, selector, required, rfl⟩) sources
  refine run_congr (S := fun s t => s.world = t.world ∧
    ∀ n, (s.choices n).fault = (t.choices n).fault ∧
      (s.choices n).listOrder = (t.choices n).listOrder) hbuild (fun c s t hc hrel => ?_)
    ⟨hworld, fun n => ⟨hfault n, horder n⟩⟩
  obtain ⟨ns, selector, required, rfl⟩ := hc
  obtain ⟨hsame, hchoices⟩ := hrel
  obtain ⟨hfault0, horder0⟩ := hchoices 0
  refine ⟨?_, hsame, fun n => hchoices (n + 1)⟩
  simp only [serve, exec, Choice.read, hsame, hfault0, horder0]

/-- **`generate` assembles the built policies in the given orders.** -/
theorem run_generate (session : Session) (version : String) (time : ℕ) (orders : MapOrders) :
    ((generate lib current snapshot version).run serve (session.vary time orders)).1 =
      assemble lib current snapshot (builtPolicies lib snapshot session) version time orders := by
  let later : Session :=
    { session.vary time orders with
      choices := fun n => (session.vary time orders).choices (n + 2) }
  have hbuilt : ((buildPolicies lib snapshot.policies).run serve later).1 =
      builtPolicies lib snapshot session :=
    run_buildPolicies_vary lib later { session with choices := fun n => session.choices (n + 2) }
      rfl (fun _ => rfl) (fun _ => rfl) snapshot.policies
  rw [assemble, ← hbuilt]
  -- after the first two calls nothing but the built policies is asked for
  show (Program.run serve (match getComputedPeers lib (currentPeer orders current snapshot)
      (networkOf orders snapshot) snapshot.policies with
    | .error err => _
    | .ok computedPeers => _) later).1 = _
  cases getComputedPeers lib (currentPeer orders current snapshot) (networkOf orders snapshot)
    snapshot.policies with
  | error err => rfl
  | ok computedPeers =>
    rw [run_bind]
    rfl

/-! ## What the orders can change -/

/-- Whatever the order of its annotations, the peer is written the same. -/
def RoutesFixed (p : LatticePeer) : Prop :=
  ∀ order order', (transferToPeer p order).allowedIPs = (transferToPeer p order').allowedIPs

/-- The flows decided in one direction. -/
def flows (current : LatticePeer) (snapshot : PeerStateSnapshot) (policies : List Policy)
    (dir : Direction) : Decisions :=
  decisions (peerIPByName (networkOf {} snapshot).peers) current.metadata.name
    (rulesOf dir policies)

/-- No map order shows in the message. -/
structure OrderFree (current : LatticePeer) (snapshot : PeerStateSnapshot)
    (policies : List Policy) : Prop where
  ownRoutes : RoutesFixed current
  peerRoutes : snapshot.network.isSome → ∀ q ∈ snapshot.peers,
    q.status.allocatedAddress.isSome → RoutesFixed q
  oneFlow : ∀ dir, (flows current snapshot policies dir).pairs.length ≤ 1

theorem mapIdx_eq_map {α β : Type} {f : ℕ → α → β} {g : α → β} {l : List α}
    (h : ∀ i, ∀ a ∈ l, f i a = g a) : l.mapIdx f = l.map g := by
  refine ext_getElem (by simp) fun i hi hi' => ?_
  rw [getElem_mapIdx, getElem_map]
  exact h i _ (getElem_mem _)

/-- The peers of the network that have an address. -/
def addressed (snapshot : PeerStateSnapshot) : List LatticePeer :=
  snapshot.peers.filter fun p => p.status.allocatedAddress.isSome

variable {q : LatticePeer}

theorem mem_addressed :
    q ∈ addressed snapshot ↔ q ∈ snapshot.peers ∧ q.status.allocatedAddress.isSome :=
  mem_filter

/-- The addressed peers in ascending order of name. -/
def sortedAddressed (snapshot : PeerStateSnapshot) : List LatticePeer :=
  (addressed snapshot).insertionSort fun p q => p.metadata.name ≤ q.metadata.name

/-- Where an order does not show, the peers of the message are listed peer by peer. -/
theorem peers_networkOf {network : LatticeNetwork} (hnetwork : snapshot.network = some network)
    {orders : MapOrders} (order : Order)
    (h : ∀ i, ∀ q ∈ addressed snapshot,
      transferToPeer q (orders.routes i) = transferToPeer q order) :
    (networkOf orders snapshot).peers =
      (sortedAddressed snapshot).map fun q => transferToPeer q order := by
  have htransfer : transferPeers orders snapshot.peers =
      (addressed snapshot).map fun q => transferToPeer q order :=
    mapIdx_eq_map fun i q hq => h (i + 1) q hq
  rw [networkOf, hnetwork]
  rw [htransfer, sortedAddressed, sortByName]
  symm
  apply map_insertionSort
  intro p _ q _
  rfl

/-- A peer without the field that orders enter. -/
def withoutIPs (p : Infra.Peer) : Infra.Peer := { p with allowedIPs := "" }

theorem peerIPByName_withoutIPs (peers : List Infra.Peer) :
    peerIPByName (peers.map withoutIPs) = peerIPByName peers := by
  rw [peerIPByName, foldl_map]
  rfl

theorem sortByName_withoutIPs (peers : List Infra.Peer) :
    (sortByName peers).map withoutIPs = sortByName (peers.map withoutIPs) := by
  apply map_insertionSort
  intro p _ q _
  rfl

/-- Map orders do not enter the address table. -/
theorem peerIPByName_networkOf (orders : MapOrders) :
    peerIPByName (networkOf orders snapshot).peers =
      peerIPByName (networkOf {} snapshot).peers := by
  have hall : ∀ o : MapOrders, (transferPeers o snapshot.peers).map withoutIPs =
      (addressed snapshot).map fun q => withoutIPs (transferToPeer q Order.inPlace) := by
    intro o
    -- position by position, since each peer is transferred in an order of its own
    refine ext_getElem (by simp [transferPeers, addressed]) fun i hi hi' => ?_
    rw [getElem_map, getElem_map]
    simp only [transferPeers, getElem_mapIdx]
    rfl
  have hpeers : ∀ o : MapOrders, (networkOf o snapshot).peers.map withoutIPs =
      (networkOf {} snapshot).peers.map withoutIPs := by
    intro o
    unfold networkOf
    cases snapshot.network with
    | none => rfl
    | some network =>
      rw [sortByName_withoutIPs, sortByName_withoutIPs, hall, hall]
  rw [← peerIPByName_withoutIPs, hpeers, peerIPByName_withoutIPs]

/-! ## Order-free messages are the same -/

section

variable (h : OrderFree current snapshot policies)

include h

theorem networkOf_of_orderFree (orders : MapOrders) :
    networkOf orders snapshot = networkOf {} snapshot := by
  cases hnetwork : snapshot.network with
  | none => simp [networkOf, hnetwork]
  | some network =>
    have hfixed : ∀ o : MapOrders, ∀ i, ∀ q ∈ addressed snapshot,
        transferToPeer q (o.routes i) = transferToPeer q Order.inPlace := by
      intro o i q hq
      obtain ⟨hmem, haddress⟩ := mem_addressed.mp hq
      exact transferToPeer_congr (h.peerRoutes (by rw [hnetwork]; rfl) q hmem haddress _ _)
    have hpeers : (networkOf orders snapshot).peers = (networkOf {} snapshot).peers := by
      rw [peers_networkOf hnetwork _ (hfixed orders), peers_networkOf hnetwork _ (hfixed {})]
    unfold networkOf at hpeers ⊢
    rw [hnetwork] at hpeers ⊢
    dsimp only at hpeers ⊢
    rw [hpeers]

theorem currentPeer_of_orderFree (orders : MapOrders) :
    currentPeer orders current snapshot = currentPeer {} current snapshot := by
  unfold currentPeer
  rw [transferToPeer_congr (h.ownRoutes (orders.routes 0) (MapOrders.routes {} 0))]

theorem evaluate_of_orderFree (orders : MapOrders) :
    evaluate orders (some (currentPeer {} current snapshot)) (some (networkOf {} snapshot))
        policies =
      evaluate {} (some (currentPeer {} current snapshot)) (some (networkOf {} snapshot))
        policies := by
  have hchain : ∀ dir, evaluateChain orders (currentPeer {} current snapshot)
      (networkOf {} snapshot) policies dir =
      evaluateChain {} (currentPeer {} current snapshot) (networkOf {} snapshot) policies dir := by
    intro dir
    have hone : (decisions (peerIPByName (networkOf {} snapshot).peers)
        (currentPeer {} current snapshot).name (rulesOf dir policies)).pairs.length ≤ 1 :=
      h.oneFlow dir
    unfold evaluateChain chain GoMap.range
    rw [Order.visit_of_length_le_one _ hone, Order.visit_of_length_le_one _ hone]
  rw [evaluate, evaluate, hchain, hchain]

/-- Messages of one order-free state differ in version and time only. -/
theorem assemble_of_orderFree (version : String)
    (time : ℕ) (orders : MapOrders) :
    assemble lib current snapshot policies version time orders =
      (assemble lib current snapshot policies "" 0 {}).map (·.reissue version time) := by
  unfold assemble
  dsimp only
  rw [currentPeer_of_orderFree h orders, networkOf_of_orderFree h orders,
    evaluate_of_orderFree h orders]
  cases getComputedPeers lib (currentPeer {} current snapshot) (networkOf {} snapshot)
    snapshot.policies with
  | error err => rfl
  | ok computedPeers => rfl

end

/-! ## Messages that are the same are order-free -/

theorem exists_assemble (hvalid : ∀ policy ∈ snapshot.policies, ValidPolicy lib policy)
    (current : LatticePeer) (policies : List Policy) (version : String) (time : ℕ)
    (orders : MapOrders) :
    ∃ m, assemble lib current snapshot policies version time orders = .ok m ∧
      m.current = currentPeer orders current snapshot ∧ m.network = networkOf orders snapshot ∧
      evaluate orders (some m.current) (some m.network) policies = .ok m.computedRules := by
  obtain ⟨computedPeers, hcomputed⟩ := exists_getComputedPeers
    (currentPeer orders current snapshot) (networkOf orders snapshot) hvalid
  unfold assemble
  dsimp only
  rw [hcomputed]
  exact ⟨_, rfl, rfl, rfl, rfl⟩

section Necessary

variable (hvalid : ∀ policy ∈ snapshot.policies, ValidPolicy lib policy)
  (hsame : ∀ orders orders' m m', assemble lib current snapshot policies "" 0 orders = .ok m →
    assemble lib current snapshot policies "" 0 orders' = .ok m' → m.hashedJson = m'.hashedJson)

include hvalid hsame

theorem ownRoutes_of_same : RoutesFixed current := by
  intro order order'
  obtain ⟨m, hm, hcurrent, -⟩ := exists_assemble hvalid current policies "" 0
    { routes := fun _ => order }
  obtain ⟨m', hm', hcurrent', -⟩ := exists_assemble hvalid current policies "" 0
    { routes := fun _ => order' }
  obtain ⟨hjson, -⟩ := Message.parts_of_hashedJson (hsame _ _ m m' hm hm')
  rw [hcurrent, hcurrent'] at hjson
  have hips := Peer.allowedIPs_of_json hjson
  exact hips

theorem peerRoutes_of_same (hnetwork : snapshot.network.isSome) (hq : q ∈ snapshot.peers)
    (haddress : q.status.allocatedAddress.isSome) : RoutesFixed q := by
  intro order order'
  obtain ⟨network, hnetwork⟩ := Option.isSome_iff_exists.mp hnetwork
  obtain ⟨m, hm, -, hnet, -⟩ := exists_assemble hvalid current policies "" 0
    { routes := fun _ => order }
  obtain ⟨m', hm', -, hnet', -⟩ := exists_assemble hvalid current policies "" 0
    { routes := fun _ => order' }
  obtain ⟨-, hjson, -⟩ := Message.parts_of_hashedJson (hsame _ _ m m' hm hm')
  have hpeers := Network.peers_of_json hjson
  rw [hnet, hnet', peers_networkOf hnetwork order fun _ _ _ => rfl,
    peers_networkOf hnetwork order' fun _ _ _ => rfl, map_map, map_map,
    map_inj_left] at hpeers
  have hmem : q ∈ sortedAddressed snapshot :=
    (perm_insertionSort _ _).mem_iff.mpr (mem_addressed.mpr ⟨hq, haddress⟩)
  exact Peer.allowedIPs_of_json (hpeers q hmem)

/-- With two flows, emitting them the other way round shows. -/
theorem oneFlow_of_same (dir : Direction) :
    (flows current snapshot policies dir).pairs.length ≤ 1 := by
  by_contra hmany
  obtain ⟨e, e', rest, hpairs⟩ : ∃ e e' rest,
      (flows current snapshot policies dir).pairs = e :: e' :: rest := by
    match hl : (flows current snapshot policies dir).pairs with
    | [] => simp [hl] at hmany
    | [e] => simp [hl] at hmany
    | e :: e' :: rest => exact ⟨e, e', rest, rfl⟩
  -- the two keys differ
  have hkey : e.1 ≠ e'.1 := by
    have hnodup := GoMap.nodup_keys_pairs (flows current snapshot policies dir)
    rw [hpairs] at hnodup
    intro heq
    simp [heq] at hnodup
  -- whichever of the two is emitted first heads the chain
  have hhead : ∀ first second others, (first :: second :: others).Perm (e :: e' :: rest) →
      ∃ orders m, assemble lib current snapshot policies "" 0 orders = .ok m ∧
        ∃ tail, dir.chainOf m.computedRules = trafficRule dir first :: tail := by
    intro first second others hperm
    obtain ⟨order, horder⟩ := Order.exists_visit_eq (hpairs.symm ▸ hperm)
    obtain ⟨orders, rfl⟩ := exists_orders dir order
    obtain ⟨m, hm, hcurrent, hnet, hrules⟩ := exists_assemble hvalid current policies "" 0 orders
    have hchain : dir.chainOf m.computedRules =
        chain dir (flows current snapshot policies dir) (dir.order orders) := by
      rw [chainOf_evaluate hrules, hcurrent, hnet, evaluateChain, peerIPByName_networkOf]
      rfl
    rw [chain, GoMap.range, horder] at hchain
    exact ⟨orders, m, hm, _, hchain⟩
  obtain ⟨orders, m, hm, tail, hchain⟩ := hhead e e' rest (.refl _)
  obtain ⟨orders', m', hm', tail', hchain'⟩ := hhead e' e rest (.swap _ _ _)
  obtain ⟨-, -, hjson⟩ := Message.parts_of_hashedJson (hsame orders orders' m m' hm hm')
  have hlists : (dir.chainOf m.computedRules).map TrafficRule.json =
      (dir.chainOf m'.computedRules).map TrafficRule.json := by
    have hne : dir.chainOf m.computedRules ≠ [] := by simp [hchain]
    have hne' : dir.chainOf m'.computedRules ≠ [] := by simp [hchain']
    have hchains := FirewallRule.chains_of_json hjson
    cases dir with
    | ingress => exact hchains.1 hne hne'
    | egress => exact hchains.2 hne hne'
  rw [hchain, hchain', map_cons, map_cons, cons.injEq] at hlists
  obtain ⟨hpeer, hprotocol, hport⟩ := TrafficRule.flow_of_json (cons_ne_nil _ _)
    (cons_ne_nil _ _) hlists.1
  apply hkey
  rw [RuleDecisionKey.ext_iff]
  exact ⟨singleton_injective hpeer, hport, hprotocol⟩

theorem orderFree_of_same : OrderFree current snapshot policies where
  ownRoutes := ownRoutes_of_same hvalid hsame
  peerRoutes hnetwork _ hq haddress := peerRoutes_of_same hvalid hsame hnetwork hq haddress
  oneFlow := oneFlow_of_same hvalid hsame

end Necessary

/-! ## The theorem -/

/-- The message is one that `generate` returns, in some version, at some time and in some
order of all maps. -/
def Generated (lib : SelectorLibrary) (current : LatticePeer) (snapshot : PeerStateSnapshot)
    (session : Session) (m : Message) : Prop :=
  ∃ version time orders,
    ((generate lib current snapshot version).run serve (session.vary time orders)).1 = .ok m

/-- No two configurations of the state have the same digest. -/
def NoCollision (lib : SelectorLibrary) (current : LatticePeer) (snapshot : PeerStateSnapshot)
    (session : Session) : Prop :=
  Set.InjOn Go.Sha256.hexDigest
    {text | ∃ m, Generated lib current snapshot session m ∧ text = m.hashedJson.write []}

/-- In an order-free state all messages are hashed alike. -/
theorem hashedJson_eq_of_orderFree {session : Session}
    (h : OrderFree current snapshot (builtPolicies lib snapshot session)) {m m' : Message}
    (hm : Generated lib current snapshot session m)
    (hm' : Generated lib current snapshot session m') : m.hashedJson = m'.hashedJson := by
  obtain ⟨version, time, orders, hrun⟩ := hm
  obtain ⟨version', time', orders', hrun'⟩ := hm'
  rw [run_generate, assemble_of_orderFree h] at hrun hrun'
  cases hbase : assemble lib current snapshot (builtPolicies lib snapshot session) "" 0 {} with
  | error err =>
    rw [hbase] at hrun
    cases hrun
  | ok base =>
    rw [hbase] at hrun hrun'
    cases hrun
    cases hrun'
    exact (hashedJson_reissue base version time).trans (hashedJson_reissue base version' time').symm

end Orders

namespace Alone

def peer : LatticePeer := { metadata := { ns := "d", name := "a" } }

/-- A policy admitting two IP blocks. -/
def twoBlocks : LatticePolicy :=
  { metadata := { ns := "d", name := "blocks" }
    ingress := [{ fromPeers :=
      [{ ipBlock := some { cidr := "10.1.0.0/16" } },
       { ipBlock := some { cidr := "10.2.0.0/16" } }] }] }

/-- The peer with the given policies, in no network. -/
def snapshot (policies : List LatticePolicy) : PeerStateSnapshot :=
  { peer := peer, policies := policies }

def session : Session := { world := {} }

/-- The hash of the message with the two blocks. -/
def digest (orders : MapOrders) : Option String :=
  ((generate .matchLabelsOnly peer (snapshot [twoBlocks]) "v1").run serve
    (session.vary 0 orders)).1.toOption.map computeMessageHash

theorem orderFree : OrderFree peer (snapshot []) [] where
  ownRoutes _ _ := rfl
  peerRoutes h := by cases h
  oneFlow dir := by cases dir <;> decide

end Alone

end Wireflow.Controller
