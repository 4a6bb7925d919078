/-
# Messages built from one state

What a message says when no read fails and all of them see the same store: which
peers and policies the snapshot holds, which names the built rules carry, and how
the message is put together. The store is arbitrary, and so are the orders in which
lists are returned and maps are ranged over.

`SnapshotOf`, `Assembled` and `BuiltFrom` are the three parts. Results about whole
messages use these and never look at the calls again.
-/

import Wireflow.Theorems.Footprints

namespace Wireflow.Controller

open Go (GoMap Order)
open Semantics Program List
open Wireflow.Api Wireflow.Infra

variable {lib : SelectorLibrary} {s : Store} {current : LatticePeer}

/-! ## Reads of one store -/

/-- No call of the session fails. -/
def Session.Faultless (session : Session) : Prop := ∀ n, (session.choices n).fault = none

/-- The answers of reads that are served from the store `s`. -/
def ServedFrom (s : Store) : (c : Call) → c.Res → Prop
  | .getNetwork key, r => r = found networkResource key (s.networks.get key)
  | .listPeers ns selector required, r => ∃ order, r = .ok ((s.peers.list ns order).filter
      fun p => selector p.metadata.labels && carries p.metadata.labels required)
  | .listPolicies ns, r => ∃ order, r = .ok (s.policies.list ns order)
  | _, _ => True

theorem servedFrom_exec {choice : Choice} (hchoice : choice.fault = none) (c : Call) (w : World) :
    ServedFrom w.store c (exec c choice w).1 := by
  cases c with
  | getNetwork key => exact Choice.read_of_faultless hchoice _
  | listPeers ns selector required | listPolicies ns =>
    exact ⟨_, Choice.read_of_faultless hchoice _⟩
  | _ => trivial

/-- A program that only reads, run without failures, gets its answers from the store
it started with. -/
theorem run_servedFrom {α : Type} {p : Prog α} {Q : α → Prop} {session : Session}
    (hp : p.Within Call.Reads fun _ => True)
    (hy : p.Yields (ServedFrom session.world.store) Q) (hsession : session.Faultless) :
    Q (p.run serve session).1 := by
  -- the store never changes, and the remaining choices are still faultless
  refine run_yields (I := fun t => t.world.store = session.world.store ∧ t.Faultless) hp hy
    (fun c t hc ht => ?_) ⟨rfl, hsession⟩
  obtain ⟨hstore, hfault⟩ := ht
  have hanswer := servedFrom_exec (hfault 0) c t.world
  rw [hstore] at hanswer
  obtain ⟨n, hn⟩ := exec_of_reads hc (t.choices 0) t.world
  refine ⟨hanswer, ?_, fun m => hfault (m + 1)⟩
  rw [serve, hn]
  exact hstore

/-- The peer is stored in the namespace. -/
def PeerIn (s : Store) (ns : String) (q : LatticePeer) : Prop :=
  q.metadata.ns = ns ∧ s.peers.get q.metadata.key = some q

variable {q : LatticePeer}

theorem mem_listed {ns : String} {order : Order} {selector : Selector}
    {required : List (String × String)} :
    q ∈ ((s.peers.list ns order).filter fun p =>
        selector p.metadata.labels && carries p.metadata.labels required) ↔
      PeerIn s ns q ∧ selector q.metadata.labels = true ∧
        carries q.metadata.labels required = true := by
  rw [mem_filter, Bool.and_eq_true]
  exact and_congr_left fun _ => Table.mem_list

theorem PeerIn.eq_of_name {ns : String} {p q : LatticePeer} (hp : PeerIn s ns p)
    (hq : PeerIn s ns q) (hname : p.metadata.name = q.metadata.name) : p = q := by
  have hp' : p ∈ s.peers.list ns Order.inPlace := Table.mem_list.mpr hp
  exact Table.eq_of_mem_list hp' (Table.mem_list.mpr hq) hname

/-! ## The snapshot -/

/-- The network a peer is told to join, if it exists. -/
def joinedNetwork (s : Store) (current : LatticePeer) : Option LatticeNetwork :=
  current.spec.network.bind fun name => s.networks.get ⟨current.metadata.ns, name⟩

theorem key_of_joinedNetwork {network : LatticeNetwork}
    (h : joinedNetwork s current = some network) :
    network.metadata.ns = current.metadata.ns ∧
      current.spec.network = some network.metadata.name := by
  obtain ⟨name, hname, hget⟩ := Option.bind_eq_some_iff.mp h
  have hkey := Table.key_of_get hget
  obtain ⟨hns, hname'⟩ := NamespacedName.mk.inj hkey
  exact ⟨hns, hname.trans (congrArg some hname'.symm)⟩

/-- The policy is one of the peer's network. -/
def PolicyOf (s : Store) (current : LatticePeer) (policy : LatticePolicy) : Prop :=
  policy.metadata.ns = current.metadata.ns ∧ s.policies.get policy.metadata.key = some policy ∧
    policy.network = current.spec.network.getD ""

/-- The snapshot shows the store: peers with the label of the joined network, and the
policies that apply. When there is a network to join that does not exist, policies
are not looked at. -/
structure SnapshotOf (lib : SelectorLibrary) (s : Store) (current : LatticePeer)
    (snapshot : PeerStateSnapshot) : Prop where
  labels : snapshot.labels = current.metadata.labels
  network : snapshot.network = joinedNetwork s current
  peers : ∀ q, q ∈ snapshot.peers ↔ ∃ network, joinedNetwork s current = some network ∧
    PeerIn s current.metadata.ns q ∧
    q.metadata.labels.lookup (networkLabelKey network.metadata.name) = some "true"
  policies : ∀ policy, policy ∈ snapshot.policies ↔
    (current.spec.network.isSome → (joinedNetwork s current).isSome) ∧
    PolicyOf s current policy ∧ Selects lib (some policy.peerSelector) current.metadata.labels

variable {policies : List LatticePolicy}

theorem exists_matchPolicies
    (hvalid : ∀ policy ∈ policies, policy.network = current.spec.network.getD "" →
      ValidSelector lib (some policy.peerSelector)) :
    ∃ matched, matchPolicies lib current policies = .ok matched ∧ ∀ policy, policy ∈ matched ↔
      policy ∈ policies ∧ policy.network = current.spec.network.getD "" ∧
        Selects lib (some policy.peerSelector) current.metadata.labels := by
  induction policies with
  | nil => exact ⟨[], rfl, fun policy => by simp⟩
  | cons head rest ih =>
    obtain ⟨matched, hmatched, hmem⟩ := ih fun policy hpolicy =>
      hvalid policy (mem_cons_of_mem _ hpolicy)
    rw [matchPolicies]
    -- a policy of another network is skipped before its selector is built
    by_cases hnetwork : head.network = current.spec.network.getD ""
    · obtain ⟨sel, hsel⟩ := hvalid head mem_cons_self hnetwork
      have hselects := selects_iff hsel current.metadata.labels
      refine ⟨if sel current.metadata.labels then head :: matched else matched, ?_,
        fun policy => ?_⟩
      · rw [if_neg (not_not.mpr hnetwork), hsel, hmatched]
        rfl
      · by_cases hhit : sel current.metadata.labels = true
        · rw [if_pos hhit, mem_cons, mem_cons, hmem, or_and_right]
          refine or_congr_left ⟨?_, And.left⟩
          rintro rfl
          exact ⟨rfl, hnetwork, hselects.mpr hhit⟩
        · rw [if_neg hhit, mem_cons, hmem, or_and_right]
          refine (or_iff_right ?_).symm
          rintro ⟨rfl, -, hsel'⟩
          exact hhit (hselects.mp hsel')
    · refine ⟨matched, ?_, fun policy => ?_⟩
      · rw [if_pos hnetwork, hmatched]
      · rw [mem_cons, hmem, or_and_right]
        refine (or_iff_right ?_).symm
        rintro ⟨rfl, hnetwork', -⟩
        exact hnetwork hnetwork'

/-- The selectors deciding which peers the policies of the network apply to are valid. -/
def ValidSubjects (lib : SelectorLibrary) (s : Store) (current : LatticePeer) : Prop :=
  ∀ policy, PolicyOf s current policy → ValidSelector lib (some policy.peerSelector)

/-- One policy of the network with an invalid selector fails the whole. -/
theorem matchPolicies_error {policy : LatticePolicy} (hpolicy : policy ∈ policies)
    (hnetwork : policy.network = current.spec.network.getD "")
    (hinvalid : ¬ValidSelector lib (some policy.peerSelector)) :
    ∃ err, matchPolicies lib current policies = .error err := by
  induction policies with
  | nil => cases hpolicy
  | cons head rest ih =>
    rw [matchPolicies]
    rcases mem_cons.mp hpolicy with rfl | hrest
    · rw [if_neg (not_not.mpr hnetwork)]
      cases hsel : lib.labelSelectorAsSelector (some policy.peerSelector) with
      | error err => exact ⟨_, rfl⟩
      | ok sel => exact absurd ⟨sel, hsel⟩ hinvalid
    · obtain ⟨err, herr⟩ := ih hrest
      split_ifs
      · exact ⟨err, herr⟩
      · cases lib.labelSelectorAsSelector (some head.peerSelector) with
        | error err => exact ⟨_, rfl⟩
        | ok sel =>
          rw [herr]
          exact ⟨err, rfl⟩

/-- The same for all policies: a malformed selector in any of the network keeps all of them out. -/
structure SnapshotShows (lib : SelectorLibrary) (s : Store) (current : LatticePeer)
    (snapshot : PeerStateSnapshot) : Prop where
  labels : snapshot.labels = current.metadata.labels
  network : snapshot.network = joinedNetwork s current
  peers : ∀ q, q ∈ snapshot.peers ↔ ∃ network, joinedNetwork s current = some network ∧
    PeerIn s current.metadata.ns q ∧
    q.metadata.labels.lookup (networkLabelKey network.metadata.name) = some "true"
  policies : ∀ policy, policy ∈ snapshot.policies ↔ ValidSubjects lib s current ∧
    (current.spec.network.isSome → (joinedNetwork s current).isSome) ∧
    PolicyOf s current policy ∧ Selects lib (some policy.peerSelector) current.metadata.labels

variable {snapshot : PeerStateSnapshot}

/-- One malformed selector in a policy of the network and none is found. -/
theorem yields_addPolicies (hpeer : snapshot.peer = current) (hnone : snapshot.policies = []) :
    (addPolicies lib snapshot).Yields (ServedFrom s) fun result =>
      ∃ policies, result = { snapshot with policies := policies } ∧ ∀ policy, policy ∈ policies ↔
        ValidSubjects lib s current ∧ PolicyOf s current policy ∧
          Selects lib (some policy.peerSelector) current.metadata.labels := by
  subst hpeer
  refine yields_bind (yields_bind (yields_perform _) fun r hr => ?_) fun _ h => h
  obtain ⟨order, rfl⟩ := hr
  have hlisted : ∀ policy, policy ∈ s.policies.list snapshot.peer.metadata.ns order ∧
      policy.network = snapshot.peer.spec.network.getD "" ↔ PolicyOf s snapshot.peer policy := by
    intro policy
    rw [Table.mem_list, and_assoc]
    rfl
  by_cases hvalid : ValidSubjects lib s snapshot.peer
  · obtain ⟨matched, hmatched, hmem⟩ := exists_matchPolicies fun policy hpolicy hnetwork =>
      hvalid policy ((hlisted policy).mp ⟨hpolicy, hnetwork⟩)
    refine yields_ret ?_
    rw [hmatched]
    refine yields_ret ⟨matched, rfl, fun policy => ?_⟩
    rw [hmem, ← hlisted, and_assoc, and_iff_right hvalid]
  · have hinvalid := hvalid
    unfold ValidSubjects at hinvalid
    push Not at hinvalid
    obtain ⟨policy, hpolicy, hselector⟩ := hinvalid
    obtain ⟨hmem, hnetwork⟩ := (hlisted policy).mpr hpolicy
    obtain ⟨err, herr⟩ := matchPolicies_error hmem hnetwork hselector
    refine yields_ret ?_
    rw [herr]
    exact yields_ret ⟨[], by rw [← hnone], fun policy => by simp [hvalid]⟩

/-- **The snapshot shows the store.** -/
theorem yields_shows (lib : SelectorLibrary) (s : Store) (current : LatticePeer) :
    (getPeerStateSnapshot lib current current.metadata.ns).Yields (ServedFrom s)
      (SnapshotShows lib s current) := by
  unfold getPeerStateSnapshot
  cases hspec : current.spec.network with
  | none =>
    have hjoined : joinedNetwork s current = none := by rw [joinedNetwork, hspec]; rfl
    refine (yields_addPolicies rfl rfl).mono fun snapshot hsnapshot => ?_
    obtain ⟨policies, rfl, hmem⟩ := hsnapshot
    exact
      { labels := rfl
        network := hjoined.symm
        peers := fun q => by simp [hjoined]
        policies := fun policy => by simp [hmem, hspec] }
  | some name =>
    refine yields_bind (yields_perform _) fun r hr => ?_
    have hjoined : joinedNetwork s current = s.networks.get ⟨current.metadata.ns, name⟩ := by
      rw [joinedNetwork, hspec]
      rfl
    rw [ServedFrom] at hr
    cases hget : s.networks.get ⟨current.metadata.ns, name⟩ with
    | none =>
      -- the network is not there, and the snapshot ends without peers and policies
      rw [hget] at hr hjoined
      subst hr
      exact yields_ret
        { labels := rfl
          network := hjoined.symm
          peers := fun q => by simp [hjoined]
          policies := fun policy => by simp [hjoined, hspec] }
    | some network =>
      rw [hget] at hr hjoined
      subst hr
      refine yields_bind (yields_perform _) fun r hr => ?_
      obtain ⟨order, rfl⟩ := hr
      refine (yields_addPolicies rfl rfl).mono fun snapshot hsnapshot => ?_
      obtain ⟨policies, rfl, hmem⟩ := hsnapshot
      obtain ⟨hns, -⟩ := key_of_joinedNetwork hjoined
      exact
        { labels := rfl
          network := hjoined.symm
          peers := fun q => by
            rw [mem_listed, hns]
            simp [hjoined, everything, carries]
          policies := fun policy => by simp [hmem, hjoined] }

/-- What holds of all stored peers holds of those in a namespace. -/
theorem PeerIn.of_pairs {P : LatticePeer → Prop} (hall : ∀ e ∈ s.peers.objects.pairs, P e.2)
    {ns : String} (hq : PeerIn s ns q) : P q :=
  hall (q.metadata.key, q) (GoMap.mem_pairs.mpr hq.2)

/-! ## The rules of a policy -/

/-- Peers of the namespace with the same UID are the same peer. -/
def DistinctUIDs (s : Store) (ns : String) : Prop :=
  ∀ p q, PeerIn s ns p → PeerIn s ns q → p.metadata.uid = q.metadata.uid →
    p.metadata.name = q.metadata.name

/-- The selection finds a peer of that name in the policy's network. -/
def FindsName (lib : SelectorLibrary) (s : Store) (src : LatticePolicy)
    (selection : PeerSelection) (name : String) : Prop :=
  ∃ q, PeerIn s src.metadata.ns q ∧ selection.peerSelector.isSome ∧
    Selects lib selection.peerSelector q.metadata.labels ∧
    carries q.metadata.labels (networkRequirement src.network) = true ∧ q.metadata.name = name

/-- The names collected so far belong to peers of the namespace, each under its UID. -/
def NamesByUID (s : Store) (ns : String) (found : GoMap String String) : Prop :=
  ∀ uid name, found.lookup uid = some name →
    ∃ q, PeerIn s ns q ∧ q.metadata.uid = uid ∧ q.metadata.name = name

/-- The name has been collected. -/
def Collected (found : GoMap String String) (name : String) : Prop :=
  ∃ uid, found.lookup uid = some name

variable {src : LatticePolicy}

section Names

variable {ns : String}

variable {found : GoMap String String}

/-- One more peer: with distinct UIDs no collected name is overwritten by another. -/
theorem collected_insert (huid : DistinctUIDs s ns) (hfound : NamesByUID s ns found)
    (hq : PeerIn s ns q) :
    NamesByUID s ns (found.insert q.metadata.uid q.metadata.name) ∧
      ∀ name, Collected (found.insert q.metadata.uid q.metadata.name) name ↔
        Collected found name ∨ q.metadata.name = name := by
  refine ⟨fun uid name hlookup => ?_, fun name => ⟨?_, ?_⟩⟩
  · by_cases hkey : uid = q.metadata.uid
    · subst hkey
      rw [AList.lookup_insert, Option.some_inj] at hlookup
      exact ⟨q, hq, rfl, hlookup⟩
    · rw [AList.lookup_insert_ne hkey] at hlookup
      exact hfound uid name hlookup
  · rintro ⟨uid, hlookup⟩
    by_cases hkey : uid = q.metadata.uid
    · subst hkey
      rw [AList.lookup_insert, Option.some_inj] at hlookup
      exact .inr hlookup
    · rw [AList.lookup_insert_ne hkey] at hlookup
      exact .inl ⟨uid, hlookup⟩
  · rintro (⟨uid, hlookup⟩ | rfl)
    · refine ⟨uid, ?_⟩
      by_cases hkey : uid = q.metadata.uid
      · -- the entry is replaced by one with the same name
        obtain ⟨p, hp, hpuid, rfl⟩ := hfound uid name hlookup
        rw [huid p q hp hq (hpuid.trans hkey), hkey]
        exact AList.lookup_insert _
      · rw [AList.lookup_insert_ne hkey, hlookup]
    · exact ⟨_, AList.lookup_insert _⟩

theorem collected_addNames (huid : DistinctUIDs s ns) {nodes : List LatticePeer}
    (hnodes : ∀ q ∈ nodes, PeerIn s ns q) (hfound : NamesByUID s ns found) :
    NamesByUID s ns (addNames found nodes) ∧ ∀ name, Collected (addNames found nodes) name ↔
      Collected found name ∨ ∃ q ∈ nodes, q.metadata.name = name := by
  induction nodes generalizing found with
  | nil => exact ⟨hfound, fun name => by simp [addNames]⟩
  | cons q rest ih =>
    obtain ⟨hnext, hmem⟩ := collected_insert huid hfound (hnodes q mem_cons_self)
    obtain ⟨hall, hmem'⟩ := ih (fun p hp => hnodes p (mem_cons_of_mem _ hp)) hnext
    refine ⟨hall, fun name => (hmem' name).trans ?_⟩
    rw [hmem, exists_mem_cons_iff, or_assoc]

/-- The selectors of a list of selections are valid. -/
def ValidSelections (lib : SelectorLibrary) (selections : List PeerSelection) : Prop :=
  ∀ selection ∈ selections, ValidSelector lib selection.peerSelector

theorem yields_collectNames (huid : DistinctUIDs s src.metadata.ns)
    {selections : List PeerSelection} (hvalid : ValidSelections lib selections)
    (hfound : NamesByUID s src.metadata.ns found) :
    (collectNames lib src.metadata.ns src.network selections found).Yields (ServedFrom s) fun r =>
      ∃ found', r = .ok found' ∧ ∀ name, Collected found' name ↔
        Collected found name ∨ ∃ selection ∈ selections, FindsName lib s src selection name := by
  induction selections generalizing found with
  | nil => exact yields_ret ⟨found, rfl, fun name => by simp⟩
  | cons selection rest ih =>
    have hrest : ValidSelections lib rest :=
      fun sel hsel => hvalid sel (mem_cons_of_mem _ hsel)
    unfold collectNames
    cases hselector : selection.peerSelector with
    | none =>
      refine (ih hrest hfound).mono fun r hr => ?_
      obtain ⟨found', rfl, hmem⟩ := hr
      refine ⟨found', rfl, fun name => ?_⟩
      rw [hmem, exists_mem_cons_iff]
      -- a selection without a peer selector finds no name
      refine or_congr_right (or_iff_right fun hfinds => ?_).symm
      obtain ⟨q, -, hsome, -⟩ := hfinds
      rw [hselector] at hsome
      cases hsome
    | some peerSelector =>
      obtain ⟨sel, hsel⟩ := hvalid selection mem_cons_self
      have hselects := selects_iff hsel
      rw [hselector] at hsel
      dsimp only
      rw [hsel]
      refine yields_bind (yields_perform _) fun r hr => ?_
      obtain ⟨order, rfl⟩ := hr
      obtain ⟨hnext, hmem⟩ := collected_addNames huid (fun q hq => (mem_listed.mp hq).1) hfound
      refine (ih hrest hnext).mono fun r hr => ?_
      obtain ⟨found', rfl, hmem'⟩ := hr
      refine ⟨found', rfl, fun name => ?_⟩
      rw [hmem', hmem, exists_mem_cons_iff, or_assoc]
      refine or_congr_right (or_congr_left ⟨?_, ?_⟩)
      · rintro ⟨q, hq, hname⟩
        obtain ⟨hin, hhit, hcarries⟩ := mem_listed.mp hq
        exact ⟨q, hin, by rw [hselector]; rfl, (hselects _).mpr hhit, hcarries, hname⟩
      · rintro ⟨q, hin, -, hhit, hcarries, hname⟩
        exact ⟨q, mem_listed.mpr ⟨hin, (hselects _).mp hhit, hcarries⟩, hname⟩

theorem yields_getPeerNamesByLabels (huid : DistinctUIDs s src.metadata.ns)
    {selections : List PeerSelection} (hvalid : ValidSelections lib selections) :
    (getPeerNamesByLabels lib src.metadata.ns src.network selections).Yields (ServedFrom s) fun r =>
      ∃ names, r = .ok names ∧ ∀ name, name ∈ names ↔
        ∃ selection ∈ selections, FindsName lib s src selection name := by
  have hempty : NamesByUID s src.metadata.ns ∅ := fun uid name h => by simp at h
  refine yields_bind (yields_collectNames huid hvalid hempty) fun r hr => ?_
  obtain ⟨found, rfl, hmem⟩ := hr
  refine yields_ret ⟨_, rfl, fun name => ?_⟩
  have hcollected : name ∈ found.pairs.map Prod.snd ↔ Collected found name := by
    simp only [mem_map, Prod.exists, Collected, GoMap.mem_pairs]
    exact ⟨fun ⟨uid, _, hlookup, hname⟩ => ⟨uid, hname ▸ hlookup⟩,
      fun ⟨uid, hlookup⟩ => ⟨uid, name, hlookup, rfl⟩⟩
  rw [Go.Strings.mem_sortStrings, hcollected, hmem]
  simp [Collected]

end Names

/-- The rules built from a list of selections and ports, all of one policy: the names
are those the selections find, the CIDRs are those of their IP blocks. -/
structure RulesOf (lib : SelectorLibrary) (s : Store) (src : LatticePolicy)
    (selections : List PeerSelection) (rules : List Rule) : Prop where
  names : ∀ name, (∃ rule ∈ rules, name ∈ rule.peerNames) ↔
    ∃ selection ∈ selections, FindsName lib s src selection name
  cidrs : ∀ rule ∈ rules, ∀ cidr ∈ rule.cidrs,
    ∃ selection ∈ selections, ∃ block, selection.ipBlock = some block ∧ block.cidr = cidr

theorem RulesOf.append {selections selections' : List PeerSelection} {rules rules' : List Rule}
    (h : RulesOf lib s src selections rules) (h' : RulesOf lib s src selections' rules') :
    RulesOf lib s src (selections ++ selections') (rules ++ rules') where
  names name := by
    simp only [mem_append, or_and_right, exists_or, h.names, h'.names]
  cidrs rule hrule cidr hcidr := by
    rcases mem_append.mp hrule with hrule | hrule
    · obtain ⟨selection, hselection, hblock⟩ := h.cidrs rule hrule cidr hcidr
      exact ⟨selection, mem_append_left _ hselection, hblock⟩
    · obtain ⟨selection, hselection, hblock⟩ := h'.cidrs rule hrule cidr hcidr
      exact ⟨selection, mem_append_right _ hselection, hblock⟩

theorem exists_block_of_mem_extractCIDRs {selections : List PeerSelection} {cidr : String}
    (h : cidr ∈ extractCIDRs selections) :
    ∃ selection ∈ selections, ∃ block, selection.ipBlock = some block ∧ block.cidr = cidr := by
  obtain ⟨selection, hselection, hcidr⟩ := mem_filterMap.mp h
  refine ⟨selection, hselection, ?_⟩
  cases hblock : selection.ipBlock with
  | none => simp [hblock] at hcidr
  | some block =>
    rw [hblock] at hcidr
    dsimp only at hcidr
    split_ifs at hcidr
    exact ⟨block, rfl, Option.some.inj hcidr⟩

/-- Whatever the ports, there is a rule, and all of them carry the names and CIDRs. -/
theorem rulesOf_rulesForPorts {selections : List PeerSelection} {names : List String}
    {ports : List NetworkPolicyPort} {action : String}
    (hnames : ∀ name, name ∈ names ↔ ∃ selection ∈ selections, FindsName lib s src selection name) :
    RulesOf lib s src selections
      (rulesForPorts names (extractCIDRs selections) ports action) := by
  have hall : ∀ rule ∈ rulesForPorts names (extractCIDRs selections) ports action,
      rule.peerNames = names ∧ rule.cidrs = extractCIDRs selections := by
    intro rule hrule
    rw [rulesForPorts] at hrule
    split_ifs at hrule
    · rw [mem_singleton] at hrule
      exact hrule ▸ ⟨rfl, rfl⟩
    · obtain ⟨port, -, rfl⟩ := mem_map.mp hrule
      exact ⟨rfl, rfl⟩
  have hsome : ∃ rule, rule ∈ rulesForPorts names (extractCIDRs selections) ports action := by
    cases ports with
    | nil => exact ⟨_, mem_singleton_self _⟩
    | cons port rest => exact ⟨_, mem_cons_self⟩
  constructor
  · intro name
    rw [← hnames]
    constructor
    · rintro ⟨rule, hrule, hname⟩
      exact (hall rule hrule).1 ▸ hname
    · intro hname
      obtain ⟨rule, hrule⟩ := hsome
      exact ⟨rule, hrule, (hall rule hrule).1.symm ▸ hname⟩
  · intro rule hrule cidr hcidr
    rw [(hall rule hrule).2] at hcidr
    exact exists_block_of_mem_extractCIDRs hcidr

theorem yields_buildRules (huid : DistinctUIDs s src.metadata.ns) (action : String)
    {raw : List (List PeerSelection × List NetworkPolicyPort)}
    (hvalid : ValidSelections lib (raw.flatMap Prod.fst)) :
    (buildRules lib src action raw).Yields (ServedFrom s)
      (RulesOf lib s src (raw.flatMap Prod.fst)) := by
  induction raw with
  | nil => exact yields_ret ⟨fun name => by simp, nofun⟩
  | cons entry rest ih =>
    obtain ⟨selections, ports⟩ := entry
    have hfirst : ValidSelections lib selections := fun selection hselection =>
      hvalid selection (mem_append_left _ hselection)
    have hrest : ValidSelections lib (rest.flatMap Prod.fst) := fun selection hselection =>
      hvalid selection (mem_append_right _ hselection)
    refine yields_bind (yields_getPeerNamesByLabels huid hfirst) fun r hr => ?_
    obtain ⟨names, rfl, hnames⟩ := hr
    refine yields_bind (ih hrest) fun rules hrules => ?_
    exact yields_ret ((rulesOf_rulesForPorts hnames).append hrules)

/-- The selections of one direction of a policy. -/
def Direction.selections : Direction → LatticePolicy → List PeerSelection
  | .ingress, policy => policy.ingress.flatMap (·.fromPeers)
  | .egress, policy => policy.egress.flatMap (·.toPeers)

theorem mem_selectionsOf {policy : LatticePolicy} {selection : PeerSelection} :
    selection ∈ selectionsOf policy ↔ ∃ dir : Direction, selection ∈ dir.selections policy := by
  rw [selectionsOf, mem_append]
  constructor
  · rintro (h | h)
    · exact ⟨.egress, h⟩
    · exact ⟨.ingress, h⟩
  · rintro ⟨dir, h⟩
    cases dir with
    | ingress => exact .inr h
    | egress => exact .inl h

/-- The built policy says what the raw one says. -/
def BuiltFrom (lib : SelectorLibrary) (s : Store) (src : LatticePolicy) (policy : Policy) : Prop :=
  ∀ dir : Direction, RulesOf lib s src (dir.selections src) (dir.rules policy)

theorem yields_buildPolicy (huid : DistinctUIDs s src.metadata.ns) (hvalid : ValidPolicy lib src) :
    (buildPolicy lib src).Yields (ServedFrom s) (BuiltFrom lib s src) := by
  have hdir : ∀ dir : Direction, ValidSelections lib (dir.selections src) :=
    fun dir selection hselection => hvalid.2 selection (mem_selectionsOf.mpr ⟨dir, hselection⟩)
  have hingress : (src.ingress.map fun r => (r.fromPeers, r.ports)).flatMap Prod.fst =
      Direction.ingress.selections src := by
    rw [flatMap_map]
    rfl
  have hegress : (src.egress.map fun r => (r.toPeers, r.ports)).flatMap Prod.fst =
      Direction.egress.selections src := by
    rw [flatMap_map]
    rfl
  refine yields_bind (yields_buildRules huid _ (hingress ▸ hdir .ingress)) fun ingress hin => ?_
  refine yields_bind (yields_buildRules huid _ (hegress ▸ hdir .egress)) fun egress hout => ?_
  rw [hingress] at hin
  rw [hegress] at hout
  refine yields_ret fun dir => ?_
  cases dir with
  | ingress => exact hin
  | egress => exact hout

theorem yields_buildPolicies (huid : ∀ src ∈ policies, DistinctUIDs s src.metadata.ns)
    (hvalid : ∀ src ∈ policies, ValidPolicy lib src) :
    (buildPolicies lib policies).Yields (ServedFrom s)
      (List.Forall₂ (BuiltFrom lib s) policies) := by
  induction policies with
  | nil => exact yields_ret .nil
  | cons src rest ih =>
    refine yields_bind (yields_buildPolicy (huid src mem_cons_self)
      (hvalid src mem_cons_self)) fun policy hpolicy => ?_
    refine yields_bind (ih (fun src hsrc => huid src (mem_cons_of_mem _ hsrc))
      fun src hsrc => hvalid src (mem_cons_of_mem _ hsrc)) fun built hbuilt => ?_
    exact yields_ret (.cons hpolicy hbuilt)

/-! ## The message -/

/-- With valid policies a message is generated, and its policies are the built ones. -/
theorem yields_generate (huid : ∀ src ∈ snapshot.policies, DistinctUIDs s src.metadata.ns)
    (hvalid : ∀ src ∈ snapshot.policies, ValidPolicy lib src) (version : String) :
    (generate lib current snapshot version).Yields (ServedFrom s) fun r =>
      ∃ m, r = .ok m ∧ List.Forall₂ (BuiltFrom lib s) snapshot.policies m.policies := by
  refine yields_bind (yields_perform _) fun timestamp _ =>
    yields_bind (yields_perform _) fun orders _ => ?_
  obtain ⟨computedPeers, hcomputed⟩ := exists_getComputedPeers
    (currentPeer orders current snapshot) (networkOf orders snapshot) hvalid
  dsimp only
  rw [hcomputed]
  refine yields_bind (yields_buildPolicies huid hvalid) fun policies hpolicies => ?_
  exact yields_ret ⟨_, rfl, hpolicies⟩

/-- A peer of the message is a peer of the snapshot that has an address. -/
theorem exists_of_mem_networkOf {orders : MapOrders} {p : Infra.Peer}
    (h : p ∈ (networkOf orders snapshot).peers) :
    ∃ q ∈ snapshot.peers, q.status.allocatedAddress.isSome ∧
      ∃ order, p = transferToPeer q order := by
  unfold networkOf at h
  cases hnetwork : snapshot.network with
  | none =>
    rw [hnetwork] at h
    cases h
  | some network =>
    rw [hnetwork] at h
    rw [mem_sortByName, transferPeers, mem_mapIdx] at h
    obtain ⟨i, hi, rfl⟩ := h
    have hmem := getElem_mem hi
    rw [mem_filter] at hmem
    exact ⟨_, hmem.1, hmem.2, _, rfl⟩

/-- And conversely, once the peer has a network. -/
theorem exists_mem_networkOf (orders : MapOrders) (hnetwork : snapshot.network.isSome)
    (hq : q ∈ snapshot.peers) (haddress : q.status.allocatedAddress.isSome) :
    ∃ order, transferToPeer q order ∈ (networkOf orders snapshot).peers := by
  obtain ⟨network, hnetwork⟩ := Option.isSome_iff_exists.mp hnetwork
  have hmem : q ∈ snapshot.peers.filter fun p => p.status.allocatedAddress.isSome :=
    mem_filter.mpr ⟨hq, haddress⟩
  obtain ⟨i, hi, hget⟩ := getElem_of_mem hmem
  refine ⟨orders.routes (i + 1), ?_⟩
  unfold networkOf
  rw [hnetwork]
  rw [mem_sortByName, transferPeers, mem_mapIdx]
  exact ⟨i, hi, by rw [hget]⟩

/-- The policies of the peer's network are valid. -/
def ValidPolicies (lib : SelectorLibrary) (s : Store) (current : LatticePeer) : Prop :=
  ∀ policy, PolicyOf s current policy → ValidPolicy lib policy

/-- **A message built from one state.** -/
theorem exists_message (session : Session) (hsession : session.Faultless)
    (huid : DistinctUIDs session.world.store current.metadata.ns)
    (hvalid : ValidPolicies lib session.world.store current) :
    ∃ m snapshot orders,
      ((buildMessage lib current current.metadata.ns).run serve session).1 = .ok m ∧
      SnapshotOf lib session.world.store current snapshot ∧
      Assembled lib current snapshot orders m ∧
      List.Forall₂ (BuiltFrom lib session.world.store) snapshot.policies m.policies := by
  have hy : (buildMessage lib current current.metadata.ns).Yields
      (ServedFrom session.world.store) fun r => ∃ m snapshot orders, r = .ok m ∧
        SnapshotOf lib session.world.store current snapshot ∧
        Assembled lib current snapshot orders m ∧
        List.Forall₂ (BuiltFrom lib session.world.store) snapshot.policies m.policies := by
    refine yields_bind (yields_shows ..) fun snapshot hshows => ?_
    have hsnapshot : SnapshotOf lib session.world.store current snapshot :=
      { hshows with
        policies := fun policy =>
          (hshows.policies policy).trans (and_iff_right fun q hq => (hvalid q hq).1) }
    refine yields_bind (yields_perform _) fun version _ => ?_
    have hpolicyOf : ∀ src ∈ snapshot.policies, PolicyOf session.world.store current src :=
      fun src hsrc => ((hsnapshot.policies src).mp hsrc).2.1
    have huids : ∀ src ∈ snapshot.policies, DistinctUIDs session.world.store src.metadata.ns :=
      fun src hsrc => (hpolicyOf src hsrc).1.symm ▸ huid
    have hvalids : ∀ src ∈ snapshot.policies, ValidPolicy lib src :=
      fun src hsrc => hvalid src (hpolicyOf src hsrc)
    -- the first follows the answers, the second holds whatever they are
    refine ((yields_generate huids hvalids version).and
      (generate_assembled snapshot version).yields).mono fun r hr => ?_
    obtain ⟨⟨m, rfl, hpolicies⟩, hassembled⟩ := hr
    obtain ⟨orders, horders⟩ := hassembled m rfl
    exact ⟨m, snapshot, orders, rfl, hsnapshot, horders, hpolicies⟩
  exact run_servedFrom (reads_buildMessage _ _) hy hsession

end Wireflow.Controller
