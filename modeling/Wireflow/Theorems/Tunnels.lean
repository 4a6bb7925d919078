/-
# Who gets a tunnel

The peers a message lists as `ComputedPeers` are the ones an agent opens a tunnel to.
They are determined by the policies that select the current peer: every peer that
one of their rules names, whatever the action of the policy.

Each end of a pair is computed from the policies selecting that end. A tunnel needs
both ends, and nothing makes the two agree: a policy that lets `b` in at `a` gives
`a` the peer `b`, and gives `b` nothing. The two ends agree exactly when the policies
of the network name each in the other's place.
-/

import Wireflow.Theorems.Snapshot

namespace Wireflow.Controller

open Semantics Program
open Wireflow.Api Wireflow.Infra

/-! ## Members of a network -/

/-- A peer that has joined a network: it carries the network's label and has an address. -/
structure Joined (s : Store) (network : LatticeNetwork) (p : LatticePeer) : Prop where
  stored : PeerIn s network.metadata.ns p
  spec : p.spec.network = some network.metadata.name
  label : p.metadata.labels.lookup (networkLabelKey network.metadata.name) = some "true"
  address : p.status.allocatedAddress.isSome

/-- Some policy of the network that selects `p` names `q`. -/
def Connects (lib : SelectorLibrary) (s : Store) (network : LatticeNetwork)
    (p q : LatticePeer) : Prop :=
  ∃ policy, policy.metadata.ns = network.metadata.ns ∧
    s.policies.get policy.metadata.key = some policy ∧ policy.network = network.metadata.name ∧
    NamesPeer lib policy p.metadata.labels q.metadata.labels

/-- The message lists a peer of that name. -/
def Lists (m : Message) (name : String) : Prop := ∃ p ∈ m.computedPeers, p.name = name

/-- A peer that others see in a network: it carries the label and has an address. -/
structure Visible (s : Store) (network : LatticeNetwork) (q : LatticePeer) : Prop where
  stored : PeerIn s network.metadata.ns q
  label : q.metadata.labels.lookup (networkLabelKey network.metadata.name) = some "true"
  address : q.status.allocatedAddress.isSome

section Joined

variable {lib : SelectorLibrary} {s : Store} {network : LatticeNetwork} {p q : LatticePeer}

theorem Joined.joinedNetwork (hp : Joined s network p)
    (hnetwork : s.networks.get network.metadata.key = some network) :
    joinedNetwork s p = some network := by
  rw [Controller.joinedNetwork, hp.spec, hp.stored.1]
  exact hnetwork

/-- A policy of the peer's network is one of the network's policies. -/
theorem Joined.policyOf_iff (hp : Joined s network p) {policy : LatticePolicy} :
    PolicyOf s p policy ↔ policy.metadata.ns = network.metadata.ns ∧
      s.policies.get policy.metadata.key = some policy ∧
        policy.network = network.metadata.name := by
  rw [PolicyOf, hp.spec, hp.stored.1]
  rfl

theorem Joined.visible (h : Joined s network p) : Visible s network p :=
  ⟨h.stored, h.label, h.address⟩

variable {snapshot : PeerStateSnapshot} {orders : MapOrders} {m : Message}
  (hnetwork : s.networks.get network.metadata.key = some network)

include hnetwork

/-- Whom a message lists. -/
theorem Joined.lists_iff (hp : Joined s network p) (hshows : SnapshotShows lib s p snapshot)
    (hm : Assembled lib p snapshot orders m) {name : String} :
    Lists m name ↔ name ≠ p.metadata.name ∧ ValidSubjects lib s p ∧
      ∃ q, Visible s network q ∧ q.metadata.name = name ∧ Connects lib s network p q := by
  have hjoined := hp.joinedNetwork hnetwork
  have hcurrent : m.current.name = p.metadata.name ∧ m.current.labels = p.metadata.labels := by
    rw [hm.current]
    exact ⟨rfl, hshows.labels⟩
  rw [Lists, mem_getComputedPeers hm.computedPeers, hcurrent.1, hcurrent.2, hm.network]
  refine and_congr_right fun _ => ?_
  constructor
  · rintro ⟨policy, hpolicy, x, hx, rfl, hnames⟩
    obtain ⟨hvalid, -, hof, -⟩ := (hshows.policies policy).mp hpolicy
    obtain ⟨q, hq, haddress, order, rfl⟩ := exists_of_mem_networkOf hx
    obtain ⟨network', hnetwork', hin, hlabel⟩ := (hshows.peers q).mp hq
    cases hjoined.symm.trans hnetwork'
    obtain ⟨hns, hget, hnet⟩ := hp.policyOf_iff.mp hof
    exact ⟨hvalid, q, ⟨hp.stored.1 ▸ hin, hlabel, haddress⟩, rfl, policy, hns, hget, hnet, hnames⟩
  · rintro ⟨hvalid, q, hq, rfl, policy, hns, hget, hnet, hnames⟩
    have hpolicy : policy ∈ snapshot.policies := by
      rw [hshows.policies, hjoined]
      exact ⟨hvalid, fun _ => rfl, hp.policyOf_iff.mpr ⟨hns, hget, hnet⟩, hnames.1⟩
    have hmember : q ∈ snapshot.peers :=
      (hshows.peers q).mpr ⟨network, hjoined, hp.stored.1 ▸ hq.stored, hq.label⟩
    have hsome : snapshot.network.isSome := by
      rw [hshows.network, hjoined]
      rfl
    obtain ⟨order, hx⟩ := exists_mem_networkOf orders hsome hmember hq.address
    exact ⟨policy, hpolicy, _, hx, rfl, hnames⟩

/-- A member is listed exactly when a policy connects to it. -/
theorem lists_iff_connects (hp : Joined s network p) (hq : Joined s network q)
    (hne : p.metadata.name ≠ q.metadata.name) (hsnapshot : SnapshotOf lib s p snapshot)
    (hvalid : ValidPolicies lib s p) (hm : Assembled lib p snapshot orders m) :
    Lists m q.metadata.name ↔ Connects lib s network p q := by
  have hsubjects : ValidSubjects lib s p := fun policy hpolicy => (hvalid policy hpolicy).1
  have hshows : SnapshotShows lib s p snapshot :=
    { hsnapshot with
      policies := fun policy => (hsnapshot.policies policy).trans (and_iff_right hsubjects).symm }
  rw [hp.lists_iff hnetwork hshows hm]
  constructor
  · rintro ⟨-, -, q', hq', hname, hconnects⟩
    -- names are unique in a namespace, so the peer found is `q`
    obtain rfl := hq'.stored.eq_of_name hq.stored hname
    exact hconnects
  · exact fun hconnects => ⟨hne.symm, hsubjects, q, hq.visible, rfl, hconnects⟩

end Joined

/-! ## Both ends -/

/-- **Tunnels are mutual exactly when the policies are.** For two members of a network,
each message lists the other peer or neither does, if and only if the policies connect
the two in both directions or in none. -/
theorem tunnels_mutual_iff (lib : SelectorLibrary) (network : LatticeNetwork)
    (p q : LatticePeer) (session session' : Session)
    (hstore : session'.world.store = session.world.store)
    (hsession : session.Faultless) (hsession' : session'.Faultless)
    (hnetwork : session.world.store.networks.get network.metadata.key = some network)
    (hp : Joined session.world.store network p) (hq : Joined session.world.store network q)
    (hne : p.metadata.name ≠ q.metadata.name)
    (huid : DistinctUIDs session.world.store network.metadata.ns)
    (hvalid : ValidPolicies lib session.world.store p) :
    ∃ m m', ((buildMessage lib p p.metadata.ns).run serve session).1 = .ok m ∧
      ((buildMessage lib q q.metadata.ns).run serve session').1 = .ok m' ∧
      ((Lists m q.metadata.name ↔ Lists m' p.metadata.name) ↔
        (Connects lib session.world.store network p q ↔
          Connects lib session.world.store network q p)) := by
  -- the policies of the network are the same seen from either end
  have hvalid' : ValidPolicies lib session'.world.store q := by
    intro policy hpolicy
    rw [hstore, hq.policyOf_iff] at hpolicy
    exact hvalid policy (hp.policyOf_iff.mpr hpolicy)
  have huid' : DistinctUIDs session'.world.store q.metadata.ns := by
    rw [hstore, hq.stored.1]
    exact huid
  rw [← hp.stored.1] at huid
  obtain ⟨m, snapshot, orders, hm, hsnapshot, hassembled, -⟩ :=
    exists_message session hsession huid hvalid
  obtain ⟨m', snapshot', orders', hm', hsnapshot', hassembled', -⟩ :=
    exists_message session' hsession' huid' hvalid'
  rw [hstore] at hsnapshot' hvalid'
  refine ⟨m, m', hm, hm', ?_⟩
  rw [lists_iff_connects hnetwork hp hq hne hsnapshot hvalid hassembled,
    lists_iff_connects hnetwork hq hp hne.symm hsnapshot' hvalid' hassembled']

/-! ### Two peers and one policy -/

namespace Pair

/-- A member of the network `n`, labelled with its own name. -/
def member (name address : String) : LatticePeer :=
  { metadata :=
      { ns := "d"
        name := name
        uid := name
        labels := Go.GoMap.ofPairs [(networkLabelKey "n", "true"), ("app", name)] }
    spec := { network := some "n" }
    status := { phase := .ready, activeNetwork := some "n", allocatedAddress := some address } }

def web : LatticePeer := member "web" "10.0.0.2"

def db : LatticePeer := member "db" "10.0.0.3"

def peers : Table LatticePeer := Table.ofList [web, db]

def network : LatticeNetwork := { metadata := { ns := "d", name := "n" } }

/-- Select the peers labelled with a name. -/
def labelled (name : String) : LabelSelector :=
  { matchLabels := Go.GoMap.ofPairs [("app", name)] }

/-- A policy for `db` with one ingress rule, from `web`. -/
def fromWeb (action : String) : LatticePolicy :=
  { metadata := { ns := "d", name := "from-web" }
    network := "n"
    peerSelector := labelled "db"
    ingress := [{ fromPeers := [{ peerSelector := some (labelled "web") }] }]
    action := action }

variable (policy : LatticePolicy)

def session : Session :=
  { world := { store :=
      { peers := peers
        networks := Table.ofList [network]
        policies := Table.ofList [policy] } } }

/-- The names a peer's message lists. -/
def listed (p : LatticePeer) : Option (List String) :=
  ((buildMessage .matchLabelsOnly p p.metadata.ns).run serve (session policy)).1.toOption.map
    fun m => m.computedPeers.map (·.name)

theorem valid : ValidPolicy .matchLabelsOnly policy := by
  refine ⟨⟨_, rfl⟩, fun selection _ => ?_⟩
  cases selection.peerSelector with
  | none | some selector => exact ⟨_, rfl⟩

theorem distinctUIDs :
    DistinctUIDs (session policy).world.store network.metadata.ns := by
  have hall : ∀ e ∈ peers.objects.pairs, e.2.metadata.uid = e.2.metadata.name := by
    decide +kernel
  have hname : ∀ q, PeerIn (session policy).world.store "d" q → q.metadata.uid = q.metadata.name :=
    fun q hq => hq.of_pairs (P := fun q => q.metadata.uid = q.metadata.name) hall
  intro p q hp hq huid
  rw [← hname p hp, ← hname q hq, huid]

end Pair

open Pair in
/-- One policy lets `web` in at `db`: `db` lists `web`, and `web` does not list `db`. -/
theorem one_sided_tunnel :
    listed (fromWeb "ALLOW") db = some ["web"] ∧ listed (fromWeb "ALLOW") web = some [] := by
  decide +kernel

open Pair in
theorem tunnels_mutual_pair :
    ∃ m m', ((buildMessage .matchLabelsOnly web "d").run serve (session (fromWeb ""))).1 = .ok m ∧
      ((buildMessage .matchLabelsOnly db "d").run serve (session (fromWeb ""))).1 = .ok m' ∧
      ((Lists m "db" ↔ Lists m' "web") ↔
        (Connects .matchLabelsOnly (session (fromWeb "")).world.store network web db ↔
          Connects .matchLabelsOnly (session (fromWeb "")).world.store network db web)) :=
  tunnels_mutual_iff .matchLabelsOnly network web db (session (fromWeb "")) (session (fromWeb ""))
    rfl (fun _ => rfl) (fun _ => rfl) rfl
    ⟨⟨rfl, rfl⟩, rfl, by decide +kernel, rfl⟩ ⟨⟨rfl, rfl⟩, rfl, by decide +kernel, rfl⟩ (by decide)
    (distinctUIDs _) (fun policy _ => valid policy)

/-! ## Every policy counts -/

/-- **Who is listed.** Whatever the snapshot and the answers, a generated message lists
exactly the other peers of the network that some policy selecting the current peer
names. The action of the policy plays no part. -/
theorem lists_iff_named (lib : SelectorLibrary) (current : LatticePeer)
    (snapshot : PeerStateSnapshot) (version : String) (session : Session) (m : Message)
    (hm : ((generate lib current snapshot version).run serve session).1 = .ok m)
    (name : String) :
    Lists m name ↔ name ≠ current.metadata.name ∧ ∃ policy ∈ snapshot.policies,
      ∃ q ∈ m.network.peers, q.name = name ∧ NamesPeer lib policy snapshot.labels q.labels := by
  obtain ⟨orders, hassembled⟩ := run_within (generate_assembled snapshot version) session m hm
  have hlists := mem_getComputedPeers hassembled.computedPeers name
  rw [hassembled.current] at hlists
  exact hlists

open Pair in
/-- The only policy denies, and the peer it names is listed all the same. -/
theorem deny_policy_adds_tunnel :
    effectiveAction (fromWeb "DENY") = "DENY" ∧ listed (fromWeb "DENY") db = some ["web"] := by
  decide +kernel

namespace Pair

/-- What `db` sees of the pair. -/
def snapshot : PeerStateSnapshot :=
  { peer := db
    network := some network
    policies := [fromWeb "DENY"]
    peers := [web, db]
    labels := db.metadata.labels }

end Pair

open Pair in
theorem lists_iff_named_pair :
    ∃ m, ((generate .matchLabelsOnly db snapshot "v1").run serve (session (fromWeb "DENY"))).1 =
        .ok m ∧
      (Lists m "web" ↔ "web" ≠ "db" ∧ ∃ policy ∈ snapshot.policies, ∃ q ∈ m.network.peers,
        q.name = "web" ∧ NamesPeer .matchLabelsOnly policy db.metadata.labels q.labels) := by
  cases hm : ((generate .matchLabelsOnly db snapshot "v1").run serve
    (session (fromWeb "DENY"))).1 with
  | error err =>
    have hok : ((generate .matchLabelsOnly db snapshot "v1").run serve
        (session (fromWeb "DENY"))).1.toOption.isSome := by
      decide +kernel
    rw [hm] at hok
    cases hok
  | ok m =>
    exact ⟨m, rfl, lists_iff_named .matchLabelsOnly db snapshot "v1" _ m hm "web"⟩

end Wireflow.Controller
