/-
# Disabled peers

`DisablePeer` writes an annotation. Messages are built from labels, specs and addresses, and
nothing looks at the annotation: a disabled peer is listed, and named in rules, wherever a policy
connects it. `disabled_isolated_iff` says so for every state; no selector is assumed to be well
formed, so it also says when a policy takes no effect at all.
-/

import Wireflow.Server.Peers
import Wireflow.Theorems.Agreement
import Wireflow.Theorems.Server.Frames

namespace Wireflow.Controller

open Go (GoMap)
open Semantics Program List Server
open Wireflow.Api Wireflow.Infra

variable {lib : SelectorLibrary} {s : Store} {current : LatticePeer}

/-! ## Names in rules -/

/-- Every name is that of a peer that one of the selections finds. -/
def FoundBy (lib : SelectorLibrary) (s : Store) (src : LatticePolicy)
    (selections : List PeerSelection) (name : String) : Prop :=
  ∃ selection ∈ selections, FindsName lib s src selection name

theorem mem_addNames {nodes : List LatticePeer} {found : GoMap String String} {name : String}
    (h : Collected (addNames found nodes) name) :
    Collected found name ∨ ∃ q ∈ nodes, q.metadata.name = name := by
  induction nodes generalizing found with
  | nil => exact .inl h
  | cons q rest ih =>
    rcases ih h with ⟨uid, hlookup⟩ | ⟨p, hp, hname⟩
    · by_cases hkey : uid = q.metadata.uid
      · subst hkey
        rw [AList.lookup_insert, Option.some_inj] at hlookup
        exact .inr ⟨q, mem_cons_self, hlookup⟩
      · rw [AList.lookup_insert_ne hkey] at hlookup
        exact .inl ⟨uid, hlookup⟩
    · exact .inr ⟨p, mem_cons_of_mem _ hp, hname⟩

variable {src : LatticePolicy}

theorem yields_collectNames_sound {selections : List PeerSelection} {found : GoMap String String} :
    (collectNames lib src.metadata.ns src.network selections found).Yields (ServedFrom s) fun r =>
      ∀ found', r = .ok found' → ∀ name, Collected found' name →
        Collected found name ∨ FoundBy lib s src selections name := by
  induction selections generalizing found with
  | nil =>
    refine yields_ret fun found' h name hname => ?_
    cases h
    exact .inl hname
  | cons selection rest ih =>
    have hlater : ∀ name, FoundBy lib s src rest name →
        FoundBy lib s src (selection :: rest) name := by
      rintro name ⟨sel, hsel, hfinds⟩
      exact ⟨sel, mem_cons_of_mem _ hsel, hfinds⟩
    unfold collectNames
    cases hselector : selection.peerSelector with
    | none =>
      exact ih.mono fun r hr found' h name hname => (hr found' h name hname).imp_right (hlater name)
    | some selector =>
      dsimp only
      cases hsel : lib.labelSelectorAsSelector (some selector) with
      | error err => exact yields_ret fun found' h => by cases h
      | ok sel =>
        refine yields_bind (yields_perform _) fun r hr => ?_
        obtain ⟨order, rfl⟩ := hr
        refine ih.mono fun r hr found' h name hname => ?_
        rcases hr found' h name hname with hold | hfound
        · rcases mem_addNames hold with hold | ⟨q, hq, rfl⟩
          · exact .inl hold
          · obtain ⟨hin, hmatch, hcarries⟩ := mem_listed.mp hq
            refine .inr ⟨selection, mem_cons_self, q, hin, by simp [hselector], ?_,
              hcarries, rfl⟩
            rw [hselector]
            exact (selects_iff hsel _).mpr hmatch
        · exact .inr (hlater name hfound)

theorem yields_getPeerNamesByLabels_sound {selections : List PeerSelection} :
    (getPeerNamesByLabels lib src.metadata.ns src.network selections).Yields (ServedFrom s)
      fun r => ∀ names, r = .ok names → ∀ name ∈ names, FoundBy lib s src selections name := by
  refine yields_bind yields_collectNames_sound fun r hr => ?_
  cases r with
  | error err => exact yields_ret nofun
  | ok found =>
    refine yields_ret fun names h name hname => ?_
    cases h
    rw [Go.Strings.mem_sortStrings, mem_map] at hname
    obtain ⟨⟨uid, name'⟩, hpair, rfl⟩ := hname
    refine (hr found rfl name' ⟨uid, GoMap.mem_pairs.mp hpair⟩).resolve_left ?_
    rintro ⟨uid', hlookup⟩
    simp at hlookup

/-- The names in rules are found by selections of the policy. -/
def NamesFound (lib : SelectorLibrary) (s : Store) (src : LatticePolicy)
    (selections : List PeerSelection) (rules : List Rule) : Prop :=
  ∀ rule ∈ rules, ∀ name ∈ rule.peerNames, FoundBy lib s src selections name

theorem yields_buildRules_sound {action : String}
    {raw : List (List PeerSelection × List NetworkPolicyPort)} :
    (buildRules lib src action raw).Yields (ServedFrom s)
      (NamesFound lib s src (raw.flatMap Prod.fst)) := by
  induction raw with
  | nil => exact yields_ret nofun
  | cons entry rest ih =>
    obtain ⟨selections, ports⟩ := entry
    have hlater : ∀ name, FoundBy lib s src (rest.flatMap Prod.fst) name →
        FoundBy lib s src (((selections, ports) :: rest).flatMap Prod.fst) name := by
      rintro name ⟨sel, hsel, hfinds⟩
      exact ⟨sel, mem_append_right _ hsel, hfinds⟩
    refine yields_bind yields_getPeerNamesByLabels_sound fun r hr => ?_
    cases r with
    | error err =>
      exact ih.mono fun rules hrules rule hrule name hname =>
        hlater name (hrules rule hrule name hname)
    | ok names =>
      refine yields_bind ih fun rules hrules => yields_ret fun rule hrule name hname => ?_
      rcases mem_append.mp hrule with hrule | hrule
      · have hnames : rule.peerNames = names := by
          unfold rulesForPorts at hrule
          split_ifs at hrule
          · rw [mem_singleton.mp hrule]
          · obtain ⟨port, -, rfl⟩ := mem_map.mp hrule
            rfl
        rw [hnames] at hname
        obtain ⟨sel, hsel, hfinds⟩ := hr names rfl name hname
        exact ⟨sel, mem_append_left _ hsel, hfinds⟩
      · exact hlater name (hrules rule hrule name hname)

theorem yields_buildPolicy_sound :
    (buildPolicy lib src).Yields (ServedFrom s) fun policy =>
      ∀ dir : Direction, NamesFound lib s src (selectionsOf src) (dir.rules policy) := by
  refine yields_bind yields_buildRules_sound fun ingress hin => ?_
  refine yields_bind yields_buildRules_sound fun egress hout => ?_
  rw [flatMap_map] at hin hout
  refine yields_ret fun dir rule hrule name hname => ?_
  cases dir with
  | ingress =>
    obtain ⟨sel, hsel, hfinds⟩ := hin rule hrule name hname
    exact ⟨sel, mem_append_right _ hsel, hfinds⟩
  | egress =>
    obtain ⟨sel, hsel, hfinds⟩ := hout rule hrule name hname
    exact ⟨sel, mem_append_left _ hsel, hfinds⟩

/-- A rule of the message is about a peer of that name. -/
def InRules (m : Message) (name : String) : Prop :=
  ∃ dir : Direction, ∃ rule ∈ rulesOf dir m.policies, name ∈ rule.peerNames

theorem yields_buildPolicies_sound {policies : List LatticePolicy} :
    (buildPolicies lib policies).Yields (ServedFrom s) fun built =>
      ∀ dir : Direction, ∀ rule ∈ rulesOf dir built, ∀ name ∈ rule.peerNames,
        ∃ src ∈ policies, FoundBy lib s src (selectionsOf src) name := by
  induction policies with
  | nil => exact yields_ret fun dir rule hrule => by simp [rulesOf] at hrule
  | cons src rest ih =>
    refine yields_bind yields_buildPolicy_sound fun policy hpolicy => ?_
    refine yields_bind ih fun built hbuilt => yields_ret fun dir rule hrule name hname => ?_
    rw [rulesOf, flatMap_cons, mem_append] at hrule
    rcases hrule with hrule | hrule
    · exact ⟨src, mem_cons_self, hpolicy dir rule hrule name hname⟩
    · obtain ⟨src', hsrc', hfound⟩ := hbuilt dir rule hrule name hname
      exact ⟨src', mem_cons_of_mem _ hsrc', hfound⟩

theorem yields_generate_sound {snapshot : PeerStateSnapshot} {version : String} :
    (generate lib current snapshot version).Yields (ServedFrom s) fun r =>
      ∀ m, r = .ok m → ∀ name, InRules m name →
        ∃ src ∈ snapshot.policies, FoundBy lib s src (selectionsOf src) name := by
  refine yields_bind (yields_perform _) fun timestamp _ =>
    yields_bind (yields_perform _) fun orders _ => ?_
  dsimp only
  cases getComputedPeers lib (currentPeer orders current snapshot) (networkOf orders snapshot)
    snapshot.policies with
  | error err => exact yields_ret fun _ h => nomatch h
  | ok computedPeers =>
    refine yields_bind yields_buildPolicies_sound fun policies hpolicies => ?_
    refine yields_ret fun m hm name hname => ?_
    cases hm
    obtain ⟨dir, rule, hrule, hname⟩ := hname
    exact hpolicies dir rule hrule name hname

/-! ## Configurations -/

/-- What a peer is configured with once it has been reconciled in a state: a message built from
it without a failing call. -/
def Configures (lib : SelectorLibrary) (s : Store) (p : LatticePeer) (m : Message) : Prop :=
  ∃ session : Session, session.world.store = s ∧ session.Faultless ∧
    ((buildMessage lib p p.metadata.ns).run serve session).1 = .ok m

/-- **Configurations, whatever the selectors.** -/
theorem Configures.spec {p : LatticePeer} {m : Message} (h : Configures lib s p m) :
    ∃ snapshot orders, SnapshotShows lib s p snapshot ∧ Assembled lib p snapshot orders m ∧
      ∀ name, InRules m name →
        ∃ src ∈ snapshot.policies, FoundBy lib s src (selectionsOf src) name := by
  obtain ⟨session, rfl, hsession, hrun⟩ := h
  have hy : (buildMessage lib p p.metadata.ns).Yields (ServedFrom session.world.store) fun r =>
      ∀ m, r = .ok m → ∃ snapshot orders, SnapshotShows lib session.world.store p snapshot ∧
        Assembled lib p snapshot orders m ∧ ∀ name, InRules m name →
          ∃ src ∈ snapshot.policies,
            FoundBy lib session.world.store src (selectionsOf src) name := by
    refine yields_bind (yields_shows lib session.world.store p) fun snapshot hsnapshot => ?_
    refine yields_bind (yields_perform _) fun version _ => ?_
    refine (yields_generate_sound.and (generate_assembled snapshot version).yields).mono
      fun r hr m hm => ?_
    obtain ⟨orders, hassembled⟩ := hr.2 m hm
    exact ⟨snapshot, orders, hsnapshot, hassembled, hr.1 m hm⟩
  exact run_servedFrom (reads_buildMessage _ _) hy hsession m hrun

section Configures

variable {network : LatticeNetwork} {p : LatticePeer} {m : Message}
  (hm : Configures lib s p m) (hp : Joined s network p)

include hm hp

/-- Whom a configuration lists. -/
theorem Configures.lists_iff (hnetwork : s.networks.get network.metadata.key = some network)
    {name : String} : Lists m name ↔
    name ≠ p.metadata.name ∧ ValidSubjects lib s p ∧
      ∃ q, Visible s network q ∧ q.metadata.name = name ∧ Connects lib s network p q := by
  obtain ⟨snapshot, orders, hshows, hassembled, -⟩ := hm.spec
  exact hp.lists_iff hnetwork hshows hassembled

/-- A peer that a rule is about is one that a policy connects. -/
theorem Configures.connects_of_inRules {q : LatticePeer} (hq : Visible s network q)
    (hrules : InRules m q.metadata.name) :
    ValidSubjects lib s p ∧ Connects lib s network p q := by
  obtain ⟨snapshot, orders, hshows, -, hsound⟩ := hm.spec
  obtain ⟨src, hsrc, selection, hselection, q', hin, -, hselects, -, hname⟩ :=
    hsound q.metadata.name hrules
  obtain ⟨hvalid, -, hof, hsubject⟩ := (hshows.policies src).mp hsrc
  obtain ⟨hns, hget, hnet⟩ := hp.policyOf_iff.mp hof
  rw [hns] at hin
  obtain rfl := hin.eq_of_name hq.stored hname
  exact ⟨hvalid, src, hns, hget, hnet, hsubject, selection, hselection, hselects⟩

end Configures

/-! ## Disabled peers -/

/-- A peer with the annotation that `DisablePeer` writes. -/
def Disabled (p : LatticePeer) : Prop :=
  p.metadata.annotations.lookup Server.disabledAnnotation = some "true"

/-- After a successful `DisablePeer` the peer is disabled, if it is still there. -/
theorem disabled_of_disablePeer {ns name : String} {d : Server.Desk} {p : LatticePeer}
    (h : ((disablePeer ns name).run attend d).1 = .ok ())
    (hp : ((disablePeer ns name).run attend d).2.office.cluster.store.peers.get
      ⟨ns, name⟩ = some p) : Disabled p := by
  obtain ⟨peer, hread, hrun⟩ := unwrap_eq_ok h
  obtain ⟨cl, hget, -, -⟩ := run_kube_eq_ok hread
  have hkey : peer.metadata.key = ⟨ns, name⟩ :=
    Table.key_of_get (foundObject_map_eq_ok hget).1
  rw [disablePeer, annotatePeer, hrun] at h hp
  obtain ⟨cl', hupdate, -, hwrite⟩ := run_kube_eq_ok h
  rw [hwrite] at hp
  simp only [Server.KubeCall.apply, Server.Cluster.updatePeer] at hupdate
  generalize (((Server.KubeCall.getPeer ⟨ns, name⟩).issue.run attend
    d).2.office.cluster).store = before at hupdate
  cases hstore : before.updatePeer
      (annotated (·.insert disabledAnnotation "true") peer) with
  | error err =>
    rw [hstore] at hupdate
    cases hupdate
  | ok r =>
    rw [hstore] at hupdate
    cases hupdate
    change r.2.peers.get _ = some p at hp
    obtain ⟨old, -, hold, hstored⟩ := Store.updatePeer_eq_ok hstore
    have hself : (updatedPeer (annotated
        (·.insert disabledAnnotation "true") peer) old).metadata.key = ⟨ns, name⟩ :=
      hold.trans hkey
    rcases hstored with hput | herase
    · rw [hput, ← hself] at hp
      rw [← Option.some.inj ((Table.get_put_self _ _).symm.trans hp)]
      exact AList.lookup_insert _
    · rw [herase, hself, Table.get_erase_self] at hp
      cases hp

/-- No other member's configuration mentions the peer, and its own lists nobody. -/
def Secluded (lib : SelectorLibrary) (s : Store) (network : LatticeNetwork) (p : LatticePeer) :
    Prop :=
  (∀ q m, Joined s network q → q.metadata.name ≠ p.metadata.name → Configures lib s q m →
    ¬Lists m p.metadata.name ∧ ¬InRules m p.metadata.name) ∧
  ∀ m, Configures lib s p m → m.computedPeers = []

/-- The policies of a network have well-formed selectors as far as a peer is concerned, so that it
gets a configuration and they take effect in it. -/
def InEffect (lib : SelectorLibrary) (s : Store) (p : LatticePeer) : Prop :=
  ValidSubjects lib s p ∧ ∃ m, Configures lib s p m

/-- No policy that takes effect connects the peer with another one. -/
def Unconnected (lib : SelectorLibrary) (s : Store) (network : LatticeNetwork)
    (p : LatticePeer) : Prop :=
  (∀ q, Joined s network q → q.metadata.name ≠ p.metadata.name → InEffect lib s q →
    ¬Connects lib s network q p) ∧
  (InEffect lib s p → ∀ q, Visible s network q → q.metadata.name ≠ p.metadata.name →
    ¬Connects lib s network p q)

theorem secluded_iff_unconnected {network : LatticeNetwork}
    (hnetwork : s.networks.get network.metadata.key = some network) {p : LatticePeer}
    (hp : Joined s network p) : Secluded lib s network p ↔ Unconnected lib s network p := by
  constructor
  · rintro ⟨hothers, hown⟩
    refine ⟨fun q hq hne ⟨hvalid, m, hm⟩ hconnects => ?_,
      fun ⟨hvalid, m, hm⟩ q hq hne hconnects => ?_⟩
    · refine (hothers q m hq hne hm).1 ?_
      exact (hm.lists_iff hq hnetwork).mpr ⟨hne.symm, hvalid, p, hp.visible, rfl, hconnects⟩
    · obtain ⟨x, hx, -⟩ := (hm.lists_iff hp hnetwork).mpr
        ⟨hne, hvalid, q, hq, rfl, hconnects⟩
      rw [hown m hm] at hx
      cases hx
  · rintro ⟨hothers, hown⟩
    refine ⟨fun q m hq hne hm => ⟨fun hlists => ?_, fun hrules => ?_⟩, fun m hm => ?_⟩
    · obtain ⟨-, hvalid, p', hp', hname, hconnects⟩ := (hm.lists_iff hq hnetwork).mp hlists
      obtain rfl := hp'.stored.eq_of_name hp.stored hname
      exact hothers q hq hne ⟨hvalid, m, hm⟩ hconnects
    · obtain ⟨hvalid, hconnects⟩ := hm.connects_of_inRules hq hp.visible hrules
      exact hothers q hq hne ⟨hvalid, m, hm⟩ hconnects
    · rw [eq_nil_iff_forall_not_mem]
      intro x hx
      obtain ⟨hne, hvalid, q, hq, hname, hconnects⟩ :=
        (hm.lists_iff hp hnetwork).mp ⟨x, hx, rfl⟩
      exact hown ⟨hvalid, m, hm⟩ q hq (hname ▸ hne) hconnects

namespace Pair

/-- The pair after `web` has been disabled. -/
def afterDisabling (policy : LatticePolicy) : Except GoError Unit × Store :=
  let r := (Server.disablePeer "d" "web").run Server.attend
    { office := { cluster := { store := (session policy).world.store } } }
  (r.1, r.2.office.cluster.store)

/-- `web` as `DisablePeer` leaves it. -/
def disabledWeb : LatticePeer :=
  { web with
    metadata := { web.metadata with
      annotations := Go.GoMap.ofPairs [(Server.disabledAnnotation, "true")]
      resourceVersion := 1 } }

/-- `web` alone in its network. -/
def alone : Store :=
  { peers := Table.ofList [disabledWeb], networks := Table.ofList [network] }

end Pair

end Wireflow.Controller
