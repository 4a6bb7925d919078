/-
# Which changes reach a peer

A peer's message depends on the labels, addresses and annotations of the other peers
of its network. When one of those changes, some watch should make the peer reconcile.

None of these fields bumps the generation of a `LatticePeer`, and its own watch
enqueues only the changed peer itself. What is left is the watch on endpoints, which
drops creations. So a change of others reaches a peer exactly when an endpoint of its
namespace is deleted or has its spec changed in the same step (`enqueued_iff`), and a
peer that joins reaches nobody.
-/

import Wireflow.Controller.Watches
import Wireflow.Theorems.Tunnels

namespace Wireflow.Controller

open Semantics Program
open Wireflow.Api Wireflow.Infra Table

/-! ## Events of a step -/

/-- The event is what a watch delivers when a table changes from `t` to `t'`. -/
def Event.Between {α : Type} [HasMeta α] (t t' : Table α) : Event α → Prop
  | .create obj => t.get (HasMeta.metadata obj).key = none ∧
      t'.get (HasMeta.metadata obj).key = some obj
  | .update old new => (HasMeta.metadata old).key = (HasMeta.metadata new).key ∧
      t.get (HasMeta.metadata old).key = some old ∧
      t'.get (HasMeta.metadata new).key = some new ∧ old ≠ new
  | .delete obj => t.get (HasMeta.metadata obj).key = some obj ∧
      t'.get (HasMeta.metadata obj).key = none
  | .generic _ => False

/-- The event is delivered when the store changes from `s` to `s'`. -/
def WatchEvent.Between (s s' : Store) : WatchEvent → Prop
  | .peer e => e.Between s.peers s'.peers
  | .network e => e.Between s.networks s'.networks
  | .endpoint e => e.Between s.endpoints s'.endpoints
  | .configMap e => e.Between s.configMaps s'.configMaps
  | .policy e => e.Between s.policies s'.policies

/-- Some event of the step makes the peer reconcile. The session answers the reads of
the map functions. -/
def Enqueued (lib : SelectorLibrary) (s s' : Store) (session : Session) (key : NamespacedName) :
    Prop :=
  ∃ e : WatchEvent, e.Between s s' ∧ key ∈ ((requests lib e).run serve session).1

/-- The key under which an event's object is stored. -/
def Event.key {α : Type} [HasMeta α] : Event α → NamespacedName
  | .create obj => (HasMeta.metadata obj).key
  | .update _ new => (HasMeta.metadata new).key
  | .delete obj => (HasMeta.metadata obj).key
  | .generic obj => (HasMeta.metadata obj).key

/-- Where a table does not change, there is no event. -/
theorem Event.Between.changed {α : Type} [HasMeta α] {t t' : Table α} {e : Event α}
    (h : e.Between t t') : t'.get e.key ≠ t.get e.key := by
  intro hsame
  cases e with
  | create obj =>
    obtain ⟨hnone, hsome⟩ := h
    rw [Event.key, hnone, hsome] at hsame
    cases hsame
  | update old new =>
    obtain ⟨hkey, hold, hnew, hne⟩ := h
    rw [Event.key, hnew, ← hkey, hold, Option.some_inj] at hsame
    exact hne hsame.symm
  | delete obj =>
    obtain ⟨hsome, hnone⟩ := h
    rw [Event.key, hnone, hsome] at hsame
    cases hsame
  | generic obj => exact h

/-! ## Changes of other peers -/

/-- A step in which nothing of the peer's own changes, nor networks and policies: other
peers, endpoints, and the configurations of other peers. -/
structure OthersChange (key : NamespacedName) (s s' : Store) : Prop where
  self : s'.peers.get key = s.peers.get key
  networks : s'.networks = s.networks
  policies : s'.policies = s.policies
  configMaps : ∀ k : NamespacedName, k.ns = key.ns →
    Go.Strings.trimSuffix k.name "-config" = key.name → s'.configMaps.get k = s.configMaps.get k

/-- An endpoint of the namespace is deleted or has its spec changed. -/
def EndpointChanges (ns : String) (s s' : Store) : Prop :=
  ∃ k : NamespacedName, k.ns = ns ∧ ∃ ep, s.endpoints.get k = some ep ∧
    (s'.endpoints.get k = none ∨
      ∃ ep', s'.endpoints.get k = some ep' ∧ ep.metadata.generation ≠ ep'.metadata.generation)

section Enqueued

variable {lib : SelectorLibrary} {s s' : Store} {key : NamespacedName} {session : Session}

/-- What every map function returns for the objects of an event, the watch returns. -/
theorem yields_enqueue {α : Type} [HasMeta α] {A : (c : Call) → c.Res → Prop}
    {M : List NamespacedName → Prop} (happend : ∀ r r', M r → M r' → M (r ++ r'))
    {map : α → Prog (List NamespacedName)} {t t' : Table α} {e : Event α} (he : e.Between t t')
    (hmap : ∀ obj, (HasMeta.metadata obj).key = e.key → (map obj).Yields A M) :
    (enqueueRequestsFromMapFunc map e).Yields A M := by
  cases e with
  | create obj | delete obj | generic obj => exact hmap obj rfl
  | update old new =>
    refine yields_bind (hmap old he.1) fun r hr => ?_
    refine yields_bind (hmap new rfl) fun r' hr' => ?_
    exact yields_ret (happend r r' hr hr')

/-! ### The watch on endpoints -/

/-- A passing event on an endpoint wakes every peer of its namespace. -/
theorem mem_requests_endpoint (hsession : session.Faultless) {e : Event LatticeEndpoint}
    (he : e.Between s.endpoints s'.endpoints)
    (hpasses : (onlyUpdatePredicate.and Funcs.generationChangedPredicate).passes e = true) :
    key ∈ ((requests lib (.endpoint e)).run serve session).1 ↔
      key.ns = e.key.ns ∧ (session.world.store.peers.get key).isSome := by
  have hreads : (requests lib (.endpoint e)).Within Call.Reads fun _ => True := by
    rw [requests, watch, if_pos hpasses]
    cases e with
    | create obj | delete obj | generic obj =>
      exact within_bind (within_issue trivial) fun _ _ => within_pure _
    | update old new =>
      exact within_bind (within_bind (within_issue trivial) fun _ _ => within_pure _) fun _ _ =>
        within_bind (within_bind (within_issue trivial) fun _ _ => within_pure _) fun _ _ =>
          within_pure _
  refine run_servedFrom (Q := fun r => key ∈ r ↔ _) hreads ?_ hsession
  rw [requests, watch, if_pos hpasses]
  refine yields_enqueue (fun r r' hr hr' => ?_) he fun ep hep => ?_
  · rw [List.mem_append, hr, hr', or_self]
  · refine yields_bind (yields_perform _) fun r hr => ?_
    obtain ⟨order, rfl⟩ := hr
    refine yields_ret ?_
    have hns : ep.metadata.ns = e.key.ns := congrArg NamespacedName.ns hep
    rw [requestsFor, List.mem_map]
    constructor
    · rintro ⟨q, hq, rfl⟩
      obtain ⟨hin, -⟩ := mem_listed.mp hq
      exact ⟨hin.1.trans hns, by rw [hin.2]; rfl⟩
    · rintro ⟨hkey, hstored⟩
      obtain ⟨q, hq⟩ := Option.isSome_iff_exists.mp hstored
      obtain rfl : q.metadata.key = key := key_of_get hq
      exact ⟨q, mem_listed.mpr ⟨⟨hkey.trans hns.symm, hq⟩, rfl, rfl⟩, rfl⟩

/-- The endpoint events that pass are deletions and changes of the spec. -/
theorem exists_passing_iff {ns : String} :
    (∃ e : Event LatticeEndpoint, e.Between s.endpoints s'.endpoints ∧
      (onlyUpdatePredicate.and Funcs.generationChangedPredicate).passes e = true ∧
      ns = e.key.ns) ↔ EndpointChanges ns s s' := by
  constructor
  · rintro ⟨e, he, hpasses, rfl⟩
    cases e with
    | create ep =>
      -- `onlyUpdatePredicate` drops it
      cases hpasses
    | update old new =>
      obtain ⟨hkey, hold, hnew, -⟩ := he
      have hgen : old.metadata.generation ≠ new.metadata.generation := bne_iff_ne.mp hpasses
      rw [hkey] at hold
      exact ⟨_, rfl, old, hold, .inr ⟨new, hnew, hgen⟩⟩
    | delete ep => exact ⟨_, rfl, ep, he.1, .inl he.2⟩
    | generic ep => exact he.elim
  · rintro ⟨k, rfl, ep, hep, hnone | ⟨ep', hep', hgen⟩⟩
    · obtain rfl : ep.metadata.key = k := key_of_get hep
      exact ⟨.delete ep, ⟨hep, hnone⟩, rfl, rfl⟩
    · obtain rfl : ep.metadata.key = k := key_of_get hep
      have hkey : ep'.metadata.key = ep.metadata.key := key_of_get hep'
      refine ⟨.update ep ep', ⟨hkey.symm, hep, hkey.symm ▸ hep', ?_⟩, bne_iff_ne.mpr hgen, ?_⟩
      · rintro rfl
        exact hgen rfl
      · exact congrArg NamespacedName.ns hkey.symm

/-! ### The other watches -/

/-- A lookup of a peer answers with that peer. -/
def KeyedAnswer : (c : Call) → c.Res → Prop
  | .getPeer key, r => ∀ p, r = .ok p → p.metadata.key = key
  | _, _ => True

theorem keyedAnswer_serve (c : Call) (session : Session) :
    KeyedAnswer c (serve c session).1 := by
  cases c with
  | getPeer key =>
    intro p hp
    obtain ⟨⟨_, -, hget⟩, -⟩ := getPeer_ok hp
    exact key_of_get hget
  | _ => trivial

/-- A configuration map wakes the peer it is named after, and no other. -/
theorem eq_of_mem_requests_configMap {e : Event ConfigMap}
    (he : e.Between s.configMaps s'.configMaps)
    (h : key ∈ ((requests lib (.configMap e)).run serve session).1) :
    key = ⟨e.key.ns, Go.Strings.trimSuffix e.key.name "-config"⟩ := by
  have hy : (requests lib (.configMap e)).Yields KeyedAnswer fun r =>
      ∀ q ∈ r, q = ⟨e.key.ns, Go.Strings.trimSuffix e.key.name "-config"⟩ := by
    rw [requests, watch]
    split_ifs
    · refine yields_enqueue (fun r r' hr hr' q hq => ?_) he fun cm hcm => ?_
      · exact (List.mem_append.mp hq).elim (hr q) (hr' q)
      refine yields_bind (yields_perform _) fun r hr => ?_
      cases r with
      | error err => exact yields_ret nofun
      | ok node =>
        refine yields_ret fun q hq => ?_
        rw [List.mem_singleton.mp hq, hr node rfl]
        rw [← hcm]
        rfl
    · exact yields_ret nofun
  exact run_yields (I := fun _ => True) (within_true _) hy
    (fun c t _ _ => ⟨keyedAnswer_serve c t, trivial⟩) trivial key h

/-- **Who is woken by others.** -/
theorem enqueued_iff (hothers : OthersChange key s s') (hsession : session.Faultless)
    (hstore : session.world.store = s') (hkey : (s'.peers.get key).isSome) :
    Enqueued lib s s' session key ↔ EndpointChanges key.ns s s' := by
  rw [← exists_passing_iff]
  constructor
  · rintro ⟨e, he, hmem⟩
    cases e with
    | peer e =>
      -- the changed peer is another one
      rw [requests, pure_eq_ret, run_ret] at hmem
      split_ifs at hmem
      · have hkey' : key = e.key := by
          cases e <;> exact List.mem_singleton.mp hmem
        exact absurd (hkey' ▸ hothers.self) (Event.Between.changed he)
      · cases hmem
    | network e => exact absurd (by rw [hothers.networks]) (Event.Between.changed he)
    | policy e => exact absurd (by rw [hothers.policies]) (Event.Between.changed he)
    | configMap e =>
      have hname := eq_of_mem_requests_configMap he hmem
      refine absurd (hothers.configMaps e.key ?_ ?_) (Event.Between.changed he)
      · rw [hname]
      · rw [hname]
    | endpoint e =>
      by_cases hpasses : (onlyUpdatePredicate.and Funcs.generationChangedPredicate).passes e = true
      · exact ⟨e, he, hpasses, ((mem_requests_endpoint hsession he hpasses).mp hmem).1⟩
      · rw [requests, watch, if_neg hpasses] at hmem
        cases hmem
  · rintro ⟨e, he, hpasses, hns⟩
    refine ⟨.endpoint e, he, (mem_requests_endpoint hsession he hpasses).mpr ⟨hns, ?_⟩⟩
    rw [hstore]
    exact hkey

end Enqueued

/-! ## Propagation -/

/-- What a reconcile of the peer would publish, in a given store. -/
def messageIn (lib : SelectorLibrary) (s : Store) (choices : ℕ → Choice) (peer : LatticePeer) :
    Except GoError Message :=
  ((buildMessage lib peer peer.metadata.ns).run serve
    { world := { store := s }, choices := choices }).1

/-- **No missed propagation, exactly when endpoints move too.** In a step of other peers,
a changed message wakes the peer if and only if a changed message comes with the deletion
or a changed spec of an endpoint in the namespace. -/
theorem propagation_iff (lib : SelectorLibrary) (s s' : Store) (peer : LatticePeer)
    (choices : ℕ → Choice) (session : Session) (hsession : session.Faultless)
    (hstore : session.world.store = s') (hpeer : s'.peers.get peer.metadata.key = some peer)
    (hothers : OthersChange peer.metadata.key s s') :
    (messageIn lib s choices peer ≠ messageIn lib s' choices peer →
      Enqueued lib s s' session peer.metadata.key) ↔
    (messageIn lib s choices peer ≠ messageIn lib s' choices peer →
      EndpointChanges peer.metadata.ns s s') := by
  have hkey : (s'.peers.get peer.metadata.key).isSome := by
    rw [hpeer]
    rfl
  rw [enqueued_iff hothers hsession hstore hkey]
  exact Iff.rfl

namespace Arrival

open Pair

/-- The network while `db` is joining: labelled, with its endpoint created, and its
address recorded or not yet. -/
def store (address : Option String) : Store :=
  { peers := ofList
      [web, { db with status := { db.status with allocatedAddress := address } }]
    networks := ofList [network]
    endpoints := ofList
      [{ metadata := { ns := "d", name := "ip-0a000003" }
         address := "10.0.0.3"
         peerRef := "db" }] }

def before : Store := store none

def after : Store := store (some "10.0.0.3")

/-- The peers of the network that `web` is told about. -/
def seen (s : Store) : Option (List String) :=
  (messageIn .matchLabelsOnly s (fun _ => {}) web).toOption.map fun m =>
    m.network.peers.map (·.name)

theorem othersChange : OthersChange web.metadata.key before after where
  self := rfl
  networks := rfl
  policies := rfl
  configMaps _ _ _ := rfl

end Arrival

open Arrival Pair in
/-- When `db` gets its address, the message for `web` changes and nothing wakes `web`. -/
theorem arrival_not_propagated :
    OthersChange web.metadata.key before after ∧
      seen before = some ["web"] ∧ seen after = some ["db", "web"] ∧
      ¬ Enqueued .matchLabelsOnly before after { world := { store := after } }
        web.metadata.key := by
  refine ⟨othersChange, by decide +kernel, by decide +kernel, ?_⟩
  rw [enqueued_iff othersChange (fun _ => rfl) rfl rfl]
  rintro ⟨k, -, ep, hep, hnone | ⟨ep', hep', hgen⟩⟩
  · rw [show after.endpoints = before.endpoints from rfl, hep] at hnone
    cases hnone
  · rw [show after.endpoints = before.endpoints from rfl, hep] at hep'
    cases hep'
    exact hgen rfl

open Arrival Pair in
theorem propagation_iff_arrival :
    (messageIn .matchLabelsOnly before (fun _ => {}) web ≠
        messageIn .matchLabelsOnly after (fun _ => {}) web →
      Enqueued .matchLabelsOnly before after { world := { store := after } } web.metadata.key) ↔
    (messageIn .matchLabelsOnly before (fun _ => {}) web ≠
        messageIn .matchLabelsOnly after (fun _ => {}) web →
      EndpointChanges "d" before after) :=
  propagation_iff .matchLabelsOnly before after web (fun _ => {}) { world := { store := after } }
    (fun _ => rfl) rfl rfl othersChange

end Wireflow.Controller
