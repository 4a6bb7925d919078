/-
# One lease per peer

`AllocateIP` first looks for an endpoint of the peer in the list it is given, and creates one
only when there is none. Creation is atomic for one address, not for one peer, so that a
peer has at most one endpoint rests on the list alone.

The list comes from a cache. When a join fails after its endpoint has been created and is
tried again before the cache shows it, the first address is found taken and the peer gets a
second endpoint (`second_lease_after_retry`). When every list shows an endpoint of the peer
if there is one, a peer never has two (`one_lease_along`), whatever fails and however late
the reads of the peer itself are.
-/

import Wireflow.Controller.Cluster
import Wireflow.Theorems.ReconcileShape

namespace Wireflow.Controller

open Semantics Program Contract
open Wireflow.Api Table

/-! ## The contract -/

/-- Endpoints of a namespace that name the same peer are one. -/
def Single (s : Store) : Prop :=
  ∀ k k' ep ep', s.endpoints.get k = some ep → s.endpoints.get k' = some ep' → k.ns = k'.ns →
    ep.peerRef = ep'.peerRef → k = k'

/-- The endpoint under the key names the peer. -/
def Names (i k : NamespacedName) (ep : LatticeEndpoint) : Prop :=
  k.ns = i.ns ∧ ep.peerRef = i.name

theorem Names.eq {i j k : NamespacedName} {ep : LatticeEndpoint} (h : Names i k ep)
    (h' : Names j k ep) : i = j := by
  obtain ⟨hns, hname⟩ := h
  obtain ⟨hns', hname'⟩ := h'
  cases i
  cases j
  simp_all

/-- The list that is answered shows an endpoint of the peer if there is one. -/
def Shows (i : NamespacedName) (choice : Choice) (w : World) : Prop :=
  (∃ ep ∈ w.store.endpoints.list i.ns Go.Order.inPlace, ep.peerRef = i.name) →
    ∃ ep ∈ (w.seen choice.lag).endpoints.list i.ns choice.listOrder, ep.peerRef = i.name

instance (i : NamespacedName) (choice : Choice) (w : World) : Decidable (Shows i choice w) :=
  inferInstanceAs (Decidable (_ → _))

/-- Runs in which every list shows an endpoint of the peer if there is one. -/
def oneLeaseContract : Contract NamespacedName Call Ledger Choice Happening where
  inv l := Single l.world.store
  rely i l l' := ∀ k ep, l'.world.store.endpoints.get k = some ep → Names i k ep →
    l.world.store.endpoints.get k = some ep
  guar i l l' := ∀ k ep, l'.world.store.endpoints.get k = some ep → ¬ Names i k ep →
    l.world.store.endpoints.get k = some ep
  admits i c choice l :=
    match c with
    | .listEndpoints _ => Shows i choice l.world
    | _ => True
  admitsEnv _ _ := True

instance (i : NamespacedName) (c : Call) (choice : Choice) (l : Ledger) :
    Decidable (oneLeaseContract.admits i c choice l) :=
  match c with
  | .listEndpoints _ => inferInstanceAs (Decidable (Shows i choice l.world))
  | .getPeer _ | .updatePeer _ | .patchPeer _ _ | .patchPeerStatus _ _ | .getNetwork _
  | .listPeers _ _ _ | .listPolicies _ | .createEndpoint _ | .deleteEndpoint _ | .getConfigMap _
  | .applyConfigMap _ | .setControllerReference | .generatePrivateKey | .now | .mapOrders
  | .generateConfigVersion => .isTrue trivial

instance (e : Happening) (l : Ledger) : Decidable (oneLeaseContract.admitsEnv e l) :=
  inferInstanceAs (Decidable True)

variable {i : NamespacedName} {lib : SelectorLibrary} {s : Ledger} {w : World}

/-! ## Calls that create nothing -/

/-- Calls that create no endpoint. -/
def Call.CreatesNone : Call → Prop
  | .createEndpoint _ => False
  | _ => True

/-- Every endpoint of the second store is in the first. -/
def Shrinks (s s' : Store) : Prop :=
  ∀ k ep, s'.endpoints.get k = some ep → s.endpoints.get k = some ep

theorem Single.of_shrinks {t t' : Store} (h : Single t) (hsub : Shrinks t t') : Single t' :=
  fun k k' ep ep' hk hk' => h k k' ep ep' (hsub k ep hk) (hsub k' ep' hk')

theorem shrinks_erase (t : Store) (key : NamespacedName) :
    Shrinks t { t with endpoints := t.endpoints.erase key } := by
  intro k ep hget
  by_cases hk : k = key
  · subst hk
    rw [get_erase_self] at hget
    cases hget
  · rwa [get_erase_ne hk] at hget

theorem shrinks_exec {c : Call} (hc : c.CreatesNone) (choice : Choice) (w : World) :
    Shrinks w.store (exec c choice w).2.store := by
  have hsame : c.LeavesEndpoints → Shrinks w.store (exec c choice w).2.store := by
    intro hleaves k ep hget
    rw [(rest_exec hleaves choice w).1] at hget
    exact hget
  cases c with
  | createEndpoint ep => exact hc.elim
  | deleteEndpoint key =>
    rcases store_deleteEndpoint choice w key with h | h
    · rw [h]
      exact fun _ _ => id
    · rw [h]
      exact shrinks_erase w.store key
  | _ => exact hsame trivial

/-- A call that creates nothing keeps to the contract. -/
theorem step_createsNone {c : Call} (hc : c.CreatesNone) (t : Ledger) (choice : Choice)
    (hinv : oneLeaseContract.inv t) :
    oneLeaseContract.inv (observe c choice t).2 ∧
      oneLeaseContract.guar i t (observe c choice t).2 := by
  have hsub : Shrinks t.world.store (observe c choice t).2.world.store := by
    rw [observe_world]
    exact shrinks_exec hc choice t.world
  exact ⟨Single.of_shrinks hinv hsub, fun k ep hget _ => hsub k ep hget⟩

theorem wp_createsNone {α : Type} {p : Prog α} {Q : α → Prop}
    (hp : p.Within Call.CreatesNone Q) :
    oneLeaseContract.wp observe i p (fun a _ => Q a) s := by
  have hstable : oneLeaseContract.Stable i fun _ => True := fun _ _ _ _ => trivial
  apply wp_mono (fun a t h => h.1) (wp_of_within hstable _ hp trivial)
  intro c hc t choice _ hinv _
  obtain ⟨hinv', hguar⟩ := step_createsNone hc t choice hinv
  exact ⟨hinv', hguar, trivial⟩

/-! ## Allocating -/

/-- The peer has no endpoint. -/
def Unleased (i : NamespacedName) (l : Ledger) : Prop :=
  ∀ k ep, l.world.store.endpoints.get k = some ep → ¬ Names i k ep

/-- Nobody else creates an endpoint of the peer. -/
theorem stable_unleased : oneLeaseContract.Stable i (Unleased i) :=
  fun _ _ h hrely k ep hget hnames => h k ep (hrely k ep hget hnames) hnames

/-- The server answers that a name is taken only when it is. -/
theorem write_alreadyExists {α : Type} {choice : Choice} {outcome : Except GoError (α × Store)}
    {err : GoError} (h : (choice.write w outcome).1 = .error err)
    (hkind : err.kind = .alreadyExists) : (choice.write w outcome).2 = w := by
  cases outcome with
  | error err' => cases hf : choice.fault <;> simp [Choice.write, hf]
  | ok r =>
    cases hf : choice.fault with
    | none => simp [Choice.write, hf] at h
    | some f =>
      simp only [Choice.write, hf, Except.error.injEq] at h
      rw [← h] at hkind
      cases f <;> cases hkind

/-- Creating the first endpoint of a peer. -/
theorem step_createEndpoint (ep : LatticeEndpoint) (hns : ep.metadata.ns = i.ns)
    (hpeer : ep.peerRef = i.name) (hfree : Unleased i s) (hinv : oneLeaseContract.inv s)
    (choice : Choice) :
    oneLeaseContract.inv (observe (.createEndpoint ep) choice s).2 ∧
      oneLeaseContract.guar i s (observe (.createEndpoint ep) choice s).2 := by
  change Single (exec (.createEndpoint ep) choice s.world).2.store ∧
    ∀ k e, (exec (.createEndpoint ep) choice s.world).2.store.endpoints.get k = some e →
      ¬ Names i k e → s.world.store.endpoints.get k = some e
  rcases store_createEndpoint choice s.world ep with hsame | ⟨-, hput⟩
  · rw [hsame]
    exact ⟨hinv, fun _ _ hget _ => hget⟩
  · rw [hput]
    have hnew : Names i ep.metadata.key ep := ⟨hns, hpeer⟩
    refine ⟨fun k k' e e' hk hk' hkns href => ?_, fun k e hget hnot => ?_⟩
    · -- an old endpoint does not name the peer, a new one does
      rcases get_put_cases hk with ⟨rfl, rfl⟩ | ⟨-, hold⟩
      · rcases get_put_cases hk' with ⟨rfl, rfl⟩ | ⟨-, hold'⟩
        · rfl
        · exact absurd ⟨hkns.symm.trans hns, href.symm.trans hpeer⟩ (hfree k' e' hold')
      · rcases get_put_cases hk' with ⟨rfl, rfl⟩ | ⟨-, hold'⟩
        · exact absurd ⟨hkns.trans hns, href.trans hpeer⟩ (hfree k e hold)
        · exact hinv k k' e e' hold hold' hkns href
    · rcases get_put_cases hget with ⟨rfl, rfl⟩ | ⟨-, hold⟩
      · exact absurd hnew hnot
      · exact hold

variable {peer : LatticePeer}

theorem wp_claimFrom_single {network : LatticeNetwork} {used : List String}
    (hkey : peer.metadata.key = i) (n : ℕ) (a : Go.Net.IPv4) (hfree : Unleased i s) :
    oneLeaseContract.wp observe i (claimFrom network peer used n a) (fun _ _ => True) s := by
  subst hkey
  -- on the number of addresses that are still tried; until one is created the peer has none
  induction n generalizing a s with
  | zero => trivial
  | succ n ih =>
    unfold claimFrom
    split_ifs with hused
    · exact ih (a + 1) hfree
    · apply wp_call _ stable_unleased hfree
      intro t ht hinv choice _
      have hstep := step_createsNone (i := peer.metadata.key) (c := .setControllerReference)
        trivial t choice hinv
      refine ⟨hstep.1, hstep.2, ?_⟩
      cases (observe .setControllerReference choice t).1 with
      | error err => trivial
      | ok _ =>
        apply wp_call _ stable_unleased ht
        intro u hu hinv choice _
        have hstep := step_createEndpoint (newEndpoint peer a) rfl rfl hu hinv choice
        refine ⟨hstep.1, hstep.2, ?_⟩
        cases hr : (observe (.createEndpoint (newEndpoint peer a)) choice u).1 with
        | ok _ => trivial
        | error err =>
          dsimp only [Program.bind]
          split_ifs with htaken
          · -- nothing was created
            have hsame : (exec (.createEndpoint (newEndpoint peer a)) choice u.world).2 =
                u.world := write_alreadyExists hr htaken
            apply ih (a + 1)
            intro k ep hget
            rw [observe_world, hsame] at hget
            exact hu k ep hget
          · trivial

/-- A list without an endpoint of the peer means that there is none. -/
theorem unleased_of_shows {choice : Choice} (hshows : Shows i choice s.world)
    (hnone : ∀ ep ∈ (s.world.seen choice.lag).endpoints.list i.ns choice.listOrder,
      ep.peerRef ≠ i.name) : Unleased i s := by
  intro k ep hget hnames
  have hkey : ep.metadata.key = k := key_of_get hget
  have hmem : ep ∈ s.world.store.endpoints.list i.ns Go.Order.inPlace := by
    apply mem_list.mpr
    refine ⟨?_, ?_⟩
    · rw [← hnames.1, ← hkey]
      rfl
    · exact (congrArg s.world.store.endpoints.get hkey).trans hget
  obtain ⟨ep', hmem', hpeer'⟩ := hshows ⟨ep, hmem, hnames.2⟩
  exact hnone ep' hmem' hpeer'

theorem wp_allocateIP_single {network : LatticeNetwork} (hkey : peer.metadata.key = i) :
    oneLeaseContract.wp observe i (allocateIP network peer) (fun _ _ => True) s := by
  unfold allocateIP
  cases Go.Net.parseCIDR network.activeCIDR with
  | error text => trivial
  | ok net =>
    apply wp_call (fun _ => True) (fun _ _ _ _ => trivial) trivial
    intro t _ hinv choice hshows
    have hstep := step_createsNone (i := i) (c := .listEndpoints peer.metadata.ns) trivial t
      choice hinv
    refine ⟨hstep.1, hstep.2, ?_⟩
    cases hr : (observe (.listEndpoints peer.metadata.ns) choice t).1 with
    | error err => trivial
    | ok existing =>
      dsimp only [Program.bind]
      cases hfind : existing.find? fun ep => ep.peerRef == peer.metadata.name with
      | some ep => trivial
      | none =>
        subst hkey
        apply wp_claimFrom_single rfl
        obtain ⟨-, hlist⟩ := Choice.read_eq_ok hr
        cases hlist
        apply unleased_of_shows hshows
        intro ep hmem hpeer
        have hno := List.find?_eq_none.mp hfind ep hmem
        exact hno (beq_iff_eq.mpr hpeer)

/-! ## The whole reconcile -/

/-- Reconcilers keep to the contract; of the copy in hand nothing has to be known. -/
theorem oneLeaseDiscipline (lib : SelectorLibrary) (i : NamespacedName) :
    Discipline oneLeaseContract observe lib i (fun _ _ => True) (fun _ _ _ _ => True)
      fun _ _ _ _ => True where
  stable _ _ _ _ _ := trivial
  stableJoin _ _ _ _ _ _ _ := trivial
  mild c hc t choice hinv _ := by
    have hnone : c.CreatesNone := by
      cases c <;> first | exact hc.elim | trivial
    obtain ⟨hinv', hguar⟩ := step_createsNone hnone t choice hinv
    exact ⟨hinv', hguar, fun _ _ => trivial, fun _ _ _ _ => trivial⟩
  status base status _ _ t choice hinv _ :=
    step_createsNone (c := .patchPeerStatus base { base with status := status }) trivial t choice
      hinv
  read t choice hinv _ := by
    obtain ⟨hinv', hguar⟩ := step_createsNone (c := .getPeer i) trivial t choice hinv
    refine ⟨hinv', hguar, fun p hp => ⟨?_, trivial⟩⟩
    obtain ⟨⟨s', -, hget⟩, -⟩ := getPeer_ok hp
    exact key_of_get hget
  update _ _ _ _ _ := wp_createsNone (within_issue trivial)
  network _ _ _ _ _ _ _ _ _ _ := trivial
  allocate _ _ _ _ hnode _ _ := wp_mono (fun _ _ _ _ _ => trivial)
    (wp_allocateIP_single hnode.key)
  record _ name address _ hnode _ _ := wp_createsNone
    ((within_updateStatus_of (within_joinedStatus trivial name address _) fun _ _ => trivial).mono
      (fun _ => id) fun _ h => h.trans hnode.key)
  release _ _ ip t choice _ _ _ _ _ hinv _ :=
    step_createsNone (c := .deleteEndpoint ⟨i.ns, leaseName ip⟩) trivial t choice hinv
  ready node _ hnode _ _ := by
    have hphase : (withPhase .ready node.status).Within Call.CreatesNone fun _ => True :=
      within_ret trivial
    exact wp_createsNone ((within_updateStatus_of hphase fun _ _ => trivial).mono (fun _ => id)
      fun _ h => h.trans hnode.key)

theorem shrinks_happen (e : Happening) (w : World) : Shrinks w.store (happen e w).store := by
  intro k ep hget
  rcases endpoints_happen e w with hsame | ⟨key, -, -, -, -, herase⟩
  · rwa [hsame] at hget
  · rw [herase] at hget
    exact shrinks_erase w.store key k ep hget

theorem oneLease_respects (lib : SelectorLibrary) :
    oneLeaseContract.Respects (lifecycle lib) where
  program i _ _ _ := wp_bind.mpr
    (wp_mono (fun _ _ _ => trivial) (oneLeaseDiscipline lib i).wp_reconcile)
  stable _ _ _ _ _ := trivial
  compat i j l l' hij hguar k ep hget hnames := by
    apply hguar k ep hget
    intro hother
    exact hij (hother.eq hnames)
  env e l hinv _ :=
    ⟨Single.of_shrinks hinv (shrinks_happen e l.world),
      fun _ k ep hget _ => shrinks_happen e l.world k ep hget⟩

/-! ## The theorem -/

/-- Every list of the run shows an endpoint of the peer if there is one. -/
def ListsShow (lib : SelectorLibrary) (w : World)
    (schedule : List (Action NamespacedName Choice Happening)) : Prop :=
  oneLeaseContract.Along (lifecycle lib) (Workers.idle { world := w }) schedule

instance (lib : SelectorLibrary) (w : World)
    (schedule : List (Action NamespacedName Choice Happening)) :
    Decidable (ListsShow lib w schedule) :=
  inferInstanceAs (Decidable (oneLeaseContract.Along _ _ schedule))

/-- **One lease per peer**, in every state that such a run reaches. -/
theorem one_lease_along (lib : SelectorLibrary) (w : World) (hstart : Single w.store)
    (schedule : List (Action NamespacedName Choice Happening))
    (hshow : ListsShow lib w schedule) (i k k' : NamespacedName) (ep ep' : LatticeEndpoint)
    (hk : (ledgerAfter lib w schedule).world.store.endpoints.get k = some ep)
    (hk' : (ledgerAfter lib w schedule).world.store.endpoints.get k' = some ep')
    (hns : k.ns = i.ns) (hns' : k'.ns = i.ns) (hpeer : ep.peerRef = i.name)
    (hpeer' : ep'.peerRef = i.name) : k = k' := by
  have hsound : oneLeaseContract.Sound (lifecycle lib)
      ((lifecycle lib).run (Workers.idle { world := w }) schedule) :=
    (sound_idle hstart fun _ => trivial).run (oneLease_respects lib) hshow
  exact hsound.inv k k' ep ep' hk hk' (hns.trans hns'.symm) (hpeer.trans hpeer'.symm)

/-! ## The retry

A peer joins; the patch of its status fails after its endpoint has been created; it is
reconciled again. -/

namespace Retry

def a : NamespacedName := ⟨"d", "a"⟩

/-- A peer about to join the network `n`. -/
def joining : LatticePeer :=
  { metadata :=
      { ns := "d"
        name := "a"
        uid := "a"
        labels := Go.GoMap.ofPairs [(networkLabelKey "n", "true")]
        finalizers := [finalizerName] }
    spec := { privateKey := "k", network := some "n" }
    status := { phase := .pending } }

def network (name cidr : String) : LatticeNetwork :=
  { metadata := { ns := "d", name := name }, activeCIDR := cidr }

def start : World :=
  { store :=
      { peers := ofList [joining]
        networks := ofList [network "n" "10.0.0.0/24", network "m" "10.0.1.0/24"] } }

/-- The next `n` calls of the reconciler succeed. -/
def calls (n : ℕ) : List (Action NamespacedName Choice Happening) :=
  List.replicate n (.advance a {})

/-- The reconcile ends with a status patch that times out. -/
def failedJoin : List (Action NamespacedName Choice Happening) :=
  [.start a] ++ calls 8 ++ [.advance a { fault := some (.transient "timeout") }] ++ calls 1

/-- The next reconcile lists endpoints as they were `lag` writes ago. -/
def retry (lag : ℕ) : List (Action NamespacedName Choice Happening) :=
  failedJoin ++ [.start a] ++ calls 3 ++ [.advance a { lag := lag }] ++ calls 4

/-- The peer that the endpoint of an address names. -/
def leaseOwner (w : World) (name : String) : Option String :=
  (w.store.endpoints.get ⟨"d", name⟩).map fun ep => ep.peerRef

theorem start_single : Single start.store := by
  intro k k' ep ep' hk
  cases hk

end Retry

open Retry in
/-- The list of the second reconcile is older than the endpoint that the first created. -/
theorem second_lease_after_retry :
    Single start.store ∧
      leaseOwner (ledgerAfter .matchLabelsOnly start (retry 1)).world "ip-0a000002" = some "a" ∧
      leaseOwner (ledgerAfter .matchLabelsOnly start (retry 1)).world "ip-0a000003" = some "a" :=
  ⟨start_single, by decide +kernel, by decide +kernel⟩

open Retry in
/-- With a list that shows the endpoint there is one. -/
theorem one_lease_along_retry :
    leaseOwner (ledgerAfter .matchLabelsOnly start (retry 0)).world "ip-0a000002" = some "a" ∧
      leaseOwner (ledgerAfter .matchLabelsOnly start (retry 0)).world "ip-0a000003" ≠
        some "a" := by
  have hfirst : leaseOwner (ledgerAfter .matchLabelsOnly start (retry 0)).world "ip-0a000002" =
      some "a" := by
    decide +kernel
  refine ⟨hfirst, fun hsecond => ?_⟩
  obtain ⟨ep, hep, hpeer⟩ := Option.map_eq_some_iff.mp hfirst
  obtain ⟨ep', hep', hpeer'⟩ := Option.map_eq_some_iff.mp hsecond
  have heq := one_lease_along .matchLabelsOnly start start_single (retry 0) (by decide +kernel) a
    _ _ ep ep' hep hep' rfl rfl hpeer hpeer'
  exact absurd heq (by decide)

end Wireflow.Controller
