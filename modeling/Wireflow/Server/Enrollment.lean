/-
# Enrollment of nodes

A node registers with an enrollment token. `checkToken` looks the token up and counts the use;
the peer is then created, or applied again, in the namespace of the token. Later the node asks
for its network map with the token that `Register` returned.

Neither the usage limit nor the expiry of the token is looked at. The token controller
(`reconcileToken`) marks tokens that have expired, copies the token to the status, and counts
the peers that are bound in the spec.
-/

import Wireflow.Controller.Cluster
import Wireflow.Server.Client

namespace Wireflow.Server

open Semantics
open Wireflow.Api
open Wireflow.Controller (Call Choice WireGuardKey exec reconcile)

/-- How WireGuard keys are read: a private key determines the pair. -/
structure KeyReader where
  parseKey : String → Except GoError WireGuardKey

/-- `PeerDto`, as far as registration reads it. -/
structure PeerDto where
  appId : String := ""
  platform : String := ""
  interfaceName : String := ""
  token : String := ""

/-- What a node is told when it has registered. -/
structure Registration where
  appId : String
  address : Option String
  privateKey : String
  publicKey : String
  peerId : ℕ
  networkId : String
  token : String := ""

/-! ## Tokens -/

/-- The last element that satisfies a test, as a loop that overwrites its result leaves it. -/
def lastSuch {α : Type} (test : α → Bool) (items : List α) : Option α :=
  items.foldl (fun found t => if test t then some t else found) none

def tokenMissing : GoError := { text := "token not exists" }

def tokenEmpty : GoError := { text := "token is empty" }

def listFailed (err : GoError) : GoError := { text := "get token failed: " ++ err.text }

/-- Older tokens have the value in their spec only. -/
def orBySpec (tokenStr : String) (byStatus : List LatticeEnrollmentToken) :
    ServerProg (Except GoError (List LatticeEnrollmentToken)) :=
  if byStatus.isEmpty then (ServerCall.listTokens .specToken tokenStr).issue
  else pure (.ok byStatus)

/-- The token that is taken from a list. -/
def pickToken (test : LatticeEnrollmentToken → Bool) (items : List LatticeEnrollmentToken) :
    Except GoError LatticeEnrollmentToken :=
  match lastSuch test items with
  | none => .error tokenMissing
  | some token => .ok token

/-- The first part of `checkToken`: which token is meant. -/
def findToken (tokenStr : String) : ServerProg (Except GoError LatticeEnrollmentToken) :=
  if tokenStr = "" then pure (.error tokenEmpty)
  else do
    match ← (ServerCall.listTokens .statusToken tokenStr).issue with
    | .error err => pure (.error (listFailed err))
    | .ok byStatus =>
        match ← orBySpec tokenStr byStatus with
        | .error err => pure (.error (listFailed err))
        | .ok items =>
            pure (pickToken (fun t => t.status.token = tokenStr || t.spec.token = tokenStr) items)

variable (token : LatticeEnrollmentToken)

/-- The token with one more use. -/
def countedUse : LatticeEnrollmentToken :=
  { token with status := { token.status with usedCount := token.status.usedCount + 1 } }

/-- One attempt to count a use, on the copy in the cache. -/
def countUse (key : NamespacedName) : ServerProg (Except GoError Unit) := do
  match ← (ServerCall.getToken key).issue with
  | .error err => pure (.error err)
  | .ok latestToken => (ServerCall.updateTokenStatus (countedUse latestToken)).issue

/-- `retry.RetryOnConflict`, with the attempts that are left after the first. -/
def retryOnConflict (attempt : ServerProg (Except GoError Unit)) :
    ℕ → ServerProg (Except GoError Unit)
  | 0 => attempt
  | n + 1 => do
      match ← attempt with
      | .ok _ => pure (.ok ())
      | .error err =>
          if err.kind = .conflict then retryOnConflict attempt n else pure (.error err)

/-- `checkToken`. With `retry.DefaultRetry` there are five attempts. -/
def checkToken (tokenStr : String) : ServerProg (Except GoError LatticeEnrollmentToken) := do
  match ← findToken tokenStr with
  | .error err => pure (.error err)
  | .ok token =>
      match ← retryOnConflict (countUse token.metadata.key) 4 with
      | .error err => pure (.error err)
      | .ok _ => pure (.ok token)

/-! ## Peers -/

def defaultNet : String := "lattice-default-net"

/-- The peer that registration applies. -/
def newPeer (ns : String) (e : PeerDto) (key : WireGuardKey) : LatticePeer :=
  { metadata :=
      { ns := ns
        name := e.appId
        labels := Go.GoMap.ofPairs [(PeerField.managedByLabel, "lattice-controller")] }
    spec :=
      { network := some defaultNet
        appId := e.appId
        platform := e.platform
        interfaceName := e.interfaceName
        privateKey := key.privateKey
        publicKey := key.publicKey
        peerId := Nat.repr key.peerId } }

variable (keys : KeyReader)

/-- The key of a peer: its own, or a new one if there is no such peer. A peer that could not be
read has the empty text for a key. -/
def registrationKey (key : NamespacedName) :
    ServerProg (Except GoError WireGuardKey) := do
  match ← (ServerCall.getPeer key).issue with
  | .ok node => pure (keys.parseKey node.spec.privateKey)
  | .error err =>
      if err.kind = .notFound then ServerCall.generatePrivateKey.issue
      else pure (keys.parseKey "")

/-- `Client.Register`. -/
def registerPeer (ns : String) (e : PeerDto) :
    ServerProg (Except GoError Registration) := do
  match ← registrationKey keys ⟨ns, e.appId⟩ with
  | .error err => pure (.error err)
  | .ok key =>
      match ← (ServerCall.applyPeer (newPeer ns e key)).issue with
      | .error err => pure (.error err)
      | .ok node =>
          pure (.ok
            { appId := node.spec.appId
              address := node.status.allocatedAddress
              privateKey := node.spec.privateKey
              publicKey := node.spec.publicKey
              peerId := key.peerId
              networkId := ns })

/-- The token that `Register` hands back. -/
def actualToken : String :=
  if token.status.token = "" then token.spec.token else token.status.token

/-- `peerService.Register`, with the token that was found. -/
def registerWith (e : PeerDto) :
    ServerProg (Except GoError (LatticeEnrollmentToken × Registration)) := do
  match ← checkToken e.token with
  | .error err => pure (.error err)
  | .ok token =>
      match ← registerPeer keys token.metadata.ns e with
      | .error err => pure (.error err)
      | .ok node => pure (.ok (token, { node with token := actualToken token }))

/-- `peerService.Register`. -/
def register (e : PeerDto) : ServerProg (Except GoError Registration) := do
  let r ← registerWith keys e
  pure (r.map Prod.snd)

/-! ## The network map -/

/-- The first part of `GetNetworkMap`: which token is meant. -/
def findMapToken (tokenStr : String) : ServerProg (Except GoError LatticeEnrollmentToken) :=
  if tokenStr = "" then pure (.error tokenEmpty)
  else do
    match ← (ServerCall.listTokens .specToken tokenStr).issue with
    | .error err => pure (.error (listFailed err))
    | .ok items => pure (pickToken (fun t => t.status.token = tokenStr) items)

/-- `GetNetworkMap`, up to decoding the text of the configuration; none stands for a
configuration that has not been written yet. -/
def getNetworkMap (tokenStr name : String) : ServerProg (Except GoError (Option String)) := do
  match ← findMapToken tokenStr with
  | .error err => pure (.error err)
  | .ok token =>
      match ← (ServerCall.getPeer ⟨token.metadata.ns, name⟩).issue with
      | .error err => pure (.error err)
      | .ok node =>
          let config : NamespacedName := ⟨node.metadata.ns, node.metadata.name ++ "-config"⟩
          match ← (ServerCall.getConfigMap config).issue with
          | .error err => if err.kind = .notFound then pure (.ok none) else pure (.error err)
          | .ok nodeConfig => pure (.ok (some (Labels.get nodeConfig.data "config.json")))

/-! ## The token controller -/

/-- `TokenReconciler.updateStatus`. A conflict is not an error. -/
def updateTokenStatus
    (updateFunc : LatticeEnrollmentToken → LatticeEnrollmentTokenStatus) :
    ServerProg (Except GoError Bool) :=
  if updateFunc token = token.status then pure (.ok false)
  else do
    match ← (ServerCall.patchTokenStatus token
        { token with status := updateFunc token }).issue with
    | .error err => if err.kind = .conflict then pure (.ok false) else pure (.error err)
    | .ok _ => pure (.ok true)

/-- A status update that ends the reconcile if it took place. -/
def updateOr
    (updateFunc : LatticeEnrollmentToken → LatticeEnrollmentTokenStatus) (due : Bool)
    (next : ServerProg (Except GoError Unit)) : ServerProg (Except GoError Unit) :=
  if due then do
    match ← updateTokenStatus token updateFunc with
    | .error err => pure (.error err)
    | .ok true => pure (.ok ())
    | .ok false => next
  else next

def markExpired : LatticeEnrollmentTokenStatus :=
  { token.status with phase := .expired, isExpired := true }

def publishToken : LatticeEnrollmentTokenStatus :=
  { token.status with token := token.spec.token }

/-- The bound peers that the status does not list yet are added and counted. The names in the
status are collected before the loop, so a name that is bound twice is counted twice. -/
def countBound : LatticeEnrollmentTokenStatus :=
  let fresh := token.spec.boundPeers.filter fun peer => peer ∉ token.status.boundPeers
  { token.status with
    boundPeers := token.status.boundPeers ++ fresh
    usedCount := token.status.usedCount + fresh.length }

/-- `TokenReconciler.Reconcile`, without the delay until the token expires. -/
def reconcileToken (req : NamespacedName) : ServerProg (Except GoError Unit) := do
  match ← (ServerCall.getToken req).issue with
  | .error err => if err.kind = .notFound then pure (.ok ()) else pure (.error err)
  | .ok token =>
      if token.status.phase = .expired then pure (.ok ())
      else do
        let now ← ServerCall.now.issue
        updateOr token markExpired (token.spec.expiry ≤ now) <|
          updateOr token publishToken (token.status.token = "") <|
            updateOr token countBound (token.spec.boundPeers ≠ token.status.boundPeers) <|
              pure (.ok ())

/-!
## Concurrent enrollment

Any number of callers register with whatever tokens they like, each as often as it likes, while
the token controller reconciles tokens. A `Roll` notes when the call of each caller began, who
has counted a use of which token, and who was admitted by which token.
-/

variable {ι : Type}

/-- Callers of `Register`, and the reconcilers of the tokens. -/
abbrev Party (ι : Type) := ι ⊕ NamespacedName

/-- An admission: when the call began, and the token that was accepted. -/
abbrev Admission := Option (ℕ × NamespacedName)

structure Roll (ι : Type) where
  site : Site
  /-- When the current or last call of a caller began. -/
  begun : ι → ℕ := fun _ => 0
  /-- Uses that were counted, oldest first. -/
  counted : List (ι × NamespacedName) := []
  admitted : List (ι × NamespacedName × ℕ) := []

/-- `Register`, preceded by a look at the clock. -/
def enroll (e : PeerDto) : ServerProg Admission := do
  let start ← ServerCall.now.issue
  match ← registerWith keys e with
  | .error _ => pure none
  | .ok (token, _) => pure (some (start, token.metadata.key))

/-- One reconcile of a token. -/
def tidyToken (key : NamespacedName) : ServerProg Admission := do
  let _ ← reconcileToken key
  pure none

/-- The uses that an answer adds. -/
def usesCounted (i : ι) : (c : ServerCall) → c.Res → List (ι × NamespacedName)
  | .updateTokenStatus obj, .ok _ => [(i, obj.metadata.key)]
  | _, _ => []

/-- Callers look at the clock only when they begin. -/
def beginning [DecidableEq ι] (r : Roll ι) (i : ι) : (c : ServerCall) → c.Res → ι → ℕ
  | .now, time => Function.update r.begun i time
  | _, _ => r.begun

/-- Answer a call and keep the roll. -/
def enter [DecidableEq ι] : (c : Note (Party ι) ServerCall Admission) → Choice → Roll ι →
    Note.Res ServerCall.Res c × Roll ι
  | .call (.inl i) c, ch, r =>
      ((execServer c ch r.site).1,
        { r with
          site := (execServer c ch r.site).2
          begun := beginning r i c (execServer c ch r.site).1
          counted := r.counted ++ usesCounted i c (execServer c ch r.site).1 })
  | .call (.inr _) c, ch, r =>
      ((execServer c ch r.site).1, { r with site := (execServer c ch r.site).2 })
  | .done (.inl i) (some (start, key)), _, r =>
      ((), { r with admitted := r.admitted ++ [(i, key, start)] })
  | .done (.inl _) none, _, r => ((), r)
  | .done (.inr _) _, _, r => ((), r)

/-- Everybody at work. -/
def enrollment [DecidableEq ι] (dto : ι → PeerDto) :
    Workers (Party ι) (Note (Party ι) ServerCall Admission) (Note.Res ServerCall.Res) (Roll ι)
      Choice Empty where
  program
    | .inl i => (enroll keys (dto i)).journal (.inl i)
    | .inr key => (tidyToken key).journal (.inr key)
  exec := enter
  disturb e := nomatch e

/-- The roll after a schedule that starts with nobody at work. -/
def rollAfter [DecidableEq ι] (dto : ι → PeerDto) (site : Site)
    (schedule : List (Action (Party ι) Choice Empty)) : Roll ι :=
  ((enrollment keys dto).run (Workers.idle { site := site }) schedule).shared

/-!
## Nodes that register again

Callers register under the name of a peer that exists, any number of them and each as often as it
likes, while the reconciler of the peer works. The server looks the peer up in a cache of its own,
which may be older than what the reconciler has seen: it may show the peer as it was earlier, and
it may not show the peer at all.
-/

/-- Calls of the server, and calls of the reconciler. -/
abbrev JointCall := ServerCall ⊕ Call

abbrev JointCall.Res : JointCall → Type := Sum.elim ServerCall.Res Call.Res

/-- What the server may see: its cache has `older` stores besides those that the reconciler may
see. -/
def Site.behind (older : List Store) (site : Site) : Site :=
  { site with world := { site.world with past := site.world.past ++ older } }

/-- Answer a call of either. -/
def execJoint (older : List Store) : (c : JointCall) → Choice → Site → JointCall.Res c × Site
  | .inl (.getPeer key), ch, site => ((execServer (.getPeer key) ch (site.behind older)).1, site)
  | .inl c, ch, site => execServer c ch site
  | .inr c, ch, site =>
      ((exec c ch site.world).1, { site with world := (exec c ch site.world).2 })

/-- The callers, by number, and the reconciler of the peer. -/
abbrev Joint := ℕ ⊕ Unit

/-- Everybody at work. -/
def reregistration (lib : SelectorLibrary) (key : NamespacedName)
    (dto : ℕ → PeerDto) (older : List Store) :
    Workers Joint JointCall JointCall.Res Site Choice Empty where
  program
    | .inl i => (do let _ ← registerPeer keys key.ns (dto i); pure () : ServerProg Unit).inl
    | .inr _ => (do let _ ← reconcile lib key; pure () : Controller.Prog Unit).inr
  exec := execJoint older
  disturb e := nomatch e

/-- The site after a schedule. At the start the reconciler has seen the current store, and the
server may still see the earlier ones. -/
def siteAfter (lib : SelectorLibrary) (key : NamespacedName)
    (dto : ℕ → PeerDto) (site : Site) (schedule : List (Action Joint Choice Empty)) : Site :=
  ((reregistration keys lib key dto site.world.past).run
    (Workers.idle { site with world := { site.world with past := [] } }) schedule).shared

/-! ### Keys -/

/-- A key as `GeneratePrivateKey` makes it: its text is read as the key. -/
def KeyReader.Genuine (k : WireGuardKey) : Prop :=
  keys.parseKey k.privateKey = .ok k

/-- What is known of `ParseKey`. -/
structure KeyReader.Lawful (keys : KeyReader) : Prop where
  empty : ∀ k, keys.parseKey "" ≠ .ok k
  /-- A key that was read is written so that it is read again. -/
  genuine : ∀ text k, keys.parseKey text = .ok k → keys.Genuine k
  publicKey : ∀ text k, keys.parseKey text = .ok k → k.publicKey ≠ ""

/-- All keys that are generated in a schedule are genuine. -/
def KeyReader.GenuineAlong (schedule : List (Action Joint Choice Empty)) :
    Prop :=
  ∀ who choice, .advance who choice ∈ schedule → keys.Genuine choice.key

end Wireflow.Server
