/-
# What a reconcile publishes

`lastReconcile` builds a message and writes it to the peer's configuration map. It
compares the hash of the message with the one in the status, never with what is
stored. So a configuration edited from outside stays as it is while the status still
carries the hash of what had been written (`config_healed_iff`).
-/

import Wireflow.Theorems.Footprints

namespace Wireflow.Controller

open Go (GoMap)
open Semantics Program
open Wireflow.Api Wireflow.Infra

/-- The text under `config.json` of a configuration map. -/
def storedConfig (s : Store) (key : NamespacedName) : Option String :=
  (s.configMaps.get key).bind fun cm => cm.data.lookup "config.json"

/-- The stored configuration is the message, up to version and timestamp. -/
def HoldsConfig (s : Store) (peer : LatticePeer) (m : Message) : Prop :=
  ∃ version time, storedConfig s (configKey peer) = some (m.reissue version time).string

section Publish

variable {peer : LatticePeer} {m : Message} {session session' : Session} {r : Result}

theorem configMaps_serve {c : Call} (hc : c.Reports peer) (session : Session) :
    (serve c session).2.world.store.configMaps = session.world.store.configMaps := by
  cases c with
  | now => rfl
  | patchPeerStatus base modified =>
    rw [serve]
    rcases patchPeerStatus_cases base modified (session.choices 0) session.world with
      hsame | ⟨current, -, -, hcases⟩
    · rw [hsame]
    · rcases hcases _ rfl with hcommit | hheld
      · rw [hcommit]
        rfl
      · rw [hheld]
        rfl
  | _ => exact hc.elim

/-- A configuration that was applied is stored. -/
theorem storedConfig_of_applied
    (h : (serve (.applyConfigMap (desiredConfigMap peer m)) session).1 = .ok ()) :
    storedConfig (serve (.applyConfigMap (desiredConfigMap peer m)) session).2.world.store
      (configKey peer) = some m.string := by
  obtain ⟨stored, happly, hkey, hstored⟩ :=
    Store.applyConfigMap_eq_ok session.world.store (desiredConfigMap peer m)
  obtain ⟨s, hok, hcommit⟩ := write_ok h
  rw [happly] at hok
  cases hok
  have hget : (session.world.store.configMaps.put stored).get (configKey peer) = some stored := by
    rw [show configKey peer = stored.metadata.key from hkey.symm]
    exact Table.get_put_self _ stored
  rw [storedConfig, show (serve (.applyConfigMap (desiredConfigMap peer m)) session).2.world = _
    from hcommit]
  dsimp only [World.commit]
  rw [hget, Option.bind_some, hstored]
  exact AList.lookup_insert _

/-- A write that succeeds has stored the message. -/
theorem storedConfig_of_written {what : String}
    (h : (writeConfig peer m what).run serve session = (.ok r, session')) :
    storedConfig session'.world.store (configKey peer) = some m.string := by
  rw [writeConfig, run_bind] at h
  cases hanswer : ((Client.applyConfigMap (desiredConfigMap peer m)).run serve session).1 with
  | error err =>
    rw [hanswer] at h
    have hfails := congrArg Prod.fst h
    dsimp only at hfails
    rw [configFailed, run_bind] at hfails
    cases hfails
  | ok done =>
    rw [hanswer] at h
    -- the status patch that follows does not touch it
    have hkeep : session'.world.store.configMaps =
        ((Client.applyConfigMap (desiredConfigMap peer m)).run serve
          session).2.world.store.configMaps := by
      rw [← show _ = session' from congrArg Prod.snd h]
      exact run_invariant (reports_configWritten _)
        (fun c t hc ht => (configMaps_serve hc t).trans ht) rfl
    rw [storedConfig, hkeep]
    exact storedConfig_of_applied hanswer

/-- What a lookup of a configuration map says about the store. -/
theorem getConfigMap_cases (key : NamespacedName) (session : Session) :
    (∃ cm, ((Client.getConfigMap key).run serve session).1 = .ok cm ∧
      session.world.store.configMaps.get key = some cm) ∨
    (∃ err, ((Client.getConfigMap key).run serve session).1 = .error err ∧ err.kind = .notFound ∧
      session.world.store.configMaps.get key = none) ∨
    ∃ err, ((Client.getConfigMap key).run serve session).1 = .error err ∧ err.kind ≠ .notFound := by
  show (∃ cm, (session.choices 0).read _ = .ok cm ∧ _) ∨
    (∃ err, (session.choices 0).read _ = .error err ∧ _) ∨
    ∃ err, (session.choices 0).read _ = .error err ∧ _
  unfold Choice.read
  cases (session.choices 0).fault with
  | some f =>
    refine .inr (.inr ⟨f.error, rfl, ?_⟩)
    cases f <;> simp [Fault.error]
  | none =>
    cases hget : session.world.store.configMaps.get key with
    | some cm => exact .inl ⟨cm, rfl, rfl⟩
    | none => exact .inr (.inl ⟨_, rfl, rfl, rfl⟩)

/-- **What a successful `publish` has done**: nothing, because the map is there and the
status has the hash; or it has written the message. -/
theorem publish_cases (h : (publish peer m).run serve session = (.ok r, session')) :
    (session.world.store.configMaps.get (configKey peer) ≠ none ∧
      peer.status.currentHash = computeMessageHash m ∧
      session'.world.store = session.world.store) ∨
    ((session.world.store.configMaps.get (configKey peer) = none ∨
        peer.status.currentHash ≠ computeMessageHash m) ∧
      storedConfig session'.world.store (configKey peer) = some m.string) := by
  rw [publish, run_bind] at h
  cases hset : (Client.setControllerReference.run serve session).1 with
  | error err =>
    rw [hset] at h
    cases h
  | ok done =>
    rw [hset] at h
    rw [run_bind] at h
    -- the two calls so far leave the session's store as it is
    rcases getConfigMap_cases (configKey peer) (Client.setControllerReference.run serve session).2
      with ⟨cm, hget, hstored⟩ | ⟨err, hget, hkind, hstored⟩ | ⟨err, hget, hkind⟩
    · rw [hget] at h
      split_ifs at h with hhash
      · refine .inl ⟨?_, hhash, ?_⟩
        · rw [show session.world.store.configMaps.get _ = some cm from hstored]
          exact Option.some_ne_none cm
        · cases h
          rfl
      · exact .inr ⟨.inr hhash, storedConfig_of_written h⟩
    · rw [hget] at h
      dsimp only at h
      rw [if_neg (not_not.mpr hkind)] at h
      exact .inr ⟨.inl hstored, storedConfig_of_written h⟩
    · rw [hget] at h
      dsimp only at h
      rw [if_pos hkind] at h
      cases h

end Publish

/-- Building a message leaves the store as it is. -/
theorem store_run_buildMessage (lib : SelectorLibrary) (peer : LatticePeer) (ns : String)
    (session : Session) :
    ((buildMessage lib peer ns).run serve session).2.world.store = session.world.store := by
  refine run_invariant (I := fun t : Session => t.world.store = session.world.store)
    (reads_buildMessage peer ns) (fun c t hc ht => ?_) rfl
  obtain ⟨n, hn⟩ := exec_of_reads hc (t.choices 0) t.world
  rw [serve, hn]
  exact ht

/-- **Self-healing, up to the status hash.** When `lastReconcile` succeeds, the stored
configuration is the generated one exactly when there was none, or the status had another
hash, or it was the generated one already. -/
theorem config_healed_iff (lib : SelectorLibrary) (peer : LatticePeer) (req : NamespacedName)
    (session built final : Session) (m : Message) (r : Result)
    (hbuild : (buildMessage lib peer req.ns).run serve session = (.ok m, built))
    (hrun : (lastReconcile lib peer req).run serve session = (.ok r, final)) :
    HoldsConfig final.world.store peer m ↔
      session.world.store.configMaps.get (configKey peer) = none ∨
        peer.status.currentHash ≠ computeMessageHash m ∨
        HoldsConfig session.world.store peer m := by
  have hstore : built.world.store = session.world.store := by
    rw [← store_run_buildMessage lib peer req.ns session, hbuild]
  rw [lastReconcile, run_bind, hbuild] at hrun
  rcases publish_cases hrun with ⟨hsome, hhash, hsame⟩ | ⟨hwhy, hwritten⟩
  · rw [hstore] at hsome hsame
    rw [hsame]
    constructor
    · intro hholds
      exact .inr (.inr hholds)
    · rintro (hnone | hdiffers | hholds)
      · exact absurd hnone hsome
      · exact absurd hhash hdiffers
      · exact hholds
  · rw [hstore] at hwhy
    constructor
    · intro _
      exact hwhy.imp_right .inl
    · intro _
      exact ⟨m.configVersion, m.timestamp, hwritten⟩

theorem exists_of_isSome {ε α σ : Type} {x : Except ε α × σ} (h : x.1.toOption.isSome) :
    ∃ a s, x = (.ok a, s) := by
  obtain ⟨answer, s⟩ := x
  cases answer with
  | error err => cases h
  | ok a => exact ⟨a, s, rfl⟩

namespace Tampered

def bare : LatticePeer := { metadata := { ns := "d", name := "a" } }

/-- The hash of what is generated for the peer. -/
def hash : String :=
  (((buildMessage .matchLabelsOnly bare "d").run serve { world := {} }).1.toOption.map
    computeMessageHash).getD ""

/-- The peer after its configuration was written. -/
def peer : LatticePeer := { bare with status := { currentHash := hash } }

/-- Its configuration was edited from outside since. -/
def session : Session :=
  { world := { store :=
      { peers := Table.ofList [peer]
        configMaps := Table.ofList
          [{ metadata := { ns := "d", name := "a-config" }
             data := GoMap.ofPairs [("config.json", "tampered")] }] } } }

def built : Except GoError Message × Session :=
  (buildMessage .matchLabelsOnly peer "d").run serve session

def reconciled : Outcome × Session :=
  (lastReconcile .matchLabelsOnly peer peer.metadata.key).run serve session

theorem built_isSome : built.1.toOption.isSome := by decide +kernel

theorem reconciled_isSome : reconciled.1.toOption.isSome := by decide +kernel

end Tampered

open Tampered in
/-- The edited configuration survives a successful reconcile. -/
theorem tampered_config_stays :
    ∃ m built' r final, built = (.ok m, built') ∧ reconciled = (.ok r, final) ∧
      ¬ HoldsConfig final.world.store peer m := by
  obtain ⟨m, built', hbuilt⟩ := exists_of_isSome built_isSome
  obtain ⟨r, final, hfinal⟩ := exists_of_isSome reconciled_isSome
  refine ⟨m, built', r, final, hbuilt, hfinal, ?_⟩
  have hstored : storedConfig reconciled.2.world.store (configKey peer) = some "tampered" := by
    decide +kernel
  rw [hfinal] at hstored
  rintro ⟨version, time, hholds⟩
  rw [hstored, Option.some_inj] at hholds
  have hhead := Message.string_head (m.reissue version time)
  rw [← hholds] at hhead
  revert hhead
  decide

open Tampered in
theorem config_healed_tampered :
    ∃ m built' r final, built = (.ok m, built') ∧ reconciled = (.ok r, final) ∧
      (HoldsConfig final.world.store peer m ↔
        session.world.store.configMaps.get (configKey peer) = none ∨
          peer.status.currentHash ≠ computeMessageHash m ∨
          HoldsConfig session.world.store peer m) := by
  obtain ⟨m, built', hbuilt⟩ := exists_of_isSome built_isSome
  obtain ⟨r, final, hfinal⟩ := exists_of_isSome reconciled_isSome
  exact ⟨m, built', r, final, hbuilt, hfinal, config_healed_iff .matchLabelsOnly peer
    peer.metadata.key session built' final m r hbuilt hfinal⟩

end Wireflow.Controller
