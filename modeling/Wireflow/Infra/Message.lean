/-
# The message pushed to an agent

`infra.Message` and the records inside it, with the fields that the generator
fills, and their JSON form under the field tags of the source. A field the
generator never sets keeps its zero value: with `omitempty` it disappears, and
without it the zero is written out, which is why a peer carries `port`,
`groupName`, `version` and `lastUpdatedAt`.

`computeMessageHash` digests the message without its version and timestamp, so
that two messages differing only there have one hash.
-/

import Wireflow.Api.Types
import Wireflow.Go.Json
import Wireflow.Go.Sha256

namespace Wireflow.Infra

open Go (Json)
open Wireflow.Api (Labels)

/-- `EventType`, in the order of its `iota`. -/
inductive EventType
  | joinNetwork
  | leaveNetwork
  | nodeUpdate
  | nodeAdd
  | nodeRemove
  | ipChange
  | keyChanged
  | networkChanged
  | policyChanged
  | none

structure Peer where
  name : String := ""
  interfaceName : String := ""
  platform : String := ""
  appId : String := ""
  address : Option String := none
  publicKey : String := ""
  peerId : ℕ := 0
  allowedIPs : String := ""
  labels : Labels := ∅

structure Network where
  networkId : String := ""
  networkName : String := ""
  peers : List Peer := []

structure Rule where
  peerNames : List String := []
  cidrs : List String := []
  protocol : String := ""
  port : Int := 0
  action : String := ""
  deriving DecidableEq, Repr

structure Policy where
  policyName : String := ""
  action : String := ""
  ingress : List Rule := []
  egress : List Rule := []
  deriving DecidableEq, Repr

structure TrafficRule where
  chainName : String
  peers : List String := []
  protocol : String := ""
  port : Int := 0
  action : String := ""
  deriving DecidableEq, Repr

structure FirewallRule where
  platform : String := ""
  ingress : List TrafficRule := []
  egress : List TrafficRule := []
  deriving DecidableEq, Repr

structure Message where
  eventType : EventType := .joinNetwork
  configVersion : String := ""
  timestamp : ℕ := 0
  current : Peer := {}
  network : Network := {}
  policies : List Policy := []
  computedPeers : List Peer := []
  computedRules : FirewallRule := {}

/-! ## JSON -/

/-- A string field tagged `omitempty`. -/
def stringField (key value : String) : List (String × Json) :=
  if value = "" then [] else [(key, .str value)]

/-- An integer field tagged `omitempty`. -/
def intField (key : String) (value : Int) : List (String × Json) :=
  if value = 0 then [] else [(key, .num value)]

/-- A slice field tagged `omitempty`. -/
def listField (key : String) (values : List Json) : List (String × Json) :=
  if values.isEmpty then [] else [(key, .arr values)]

/-- A slice that is nil rather than empty, and so written as `null`. -/
def nilableList (values : List Json) : Json :=
  if values.isEmpty then .null else .arr values

/-- A `map[string]string` field tagged `omitempty`; the encoder sorts the keys. -/
def labelsField (key : String) (labels : Labels) : List (String × Json) :=
  let pairs := labels.pairs.insertionSort fun a b => a.1 ≤ b.1
  if pairs.isEmpty then [] else [(key, .obj (pairs.map fun (k, v) => (k, .str v)))]

def EventType.json (e : EventType) : Json := .num e.ctorIdx

def Peer.json (p : Peer) : Json :=
  .obj <|
    stringField "name" p.name ++ stringField "interfaceName" p.interfaceName ++
    stringField "platform" p.platform ++ stringField "appId" p.appId ++
    (p.address.map fun a => ("address", Json.str a)).toList ++
    stringField "publicKey" p.publicKey ++ intField "peerId" p.peerId ++
    stringField "allowedIps" p.allowedIPs ++
    [("port", .num 0), ("groupName", .str ""), ("version", .num 0), ("lastUpdatedAt", .str "")] ++
    labelsField "labels" p.labels

def Network.json (n : Network) : Json :=
  .obj [("address", .str ""), ("allowedIps", .null), ("port", .num 0),
    ("NetworkId", .str n.networkId), ("networkName", .str n.networkName),
    ("peers", .arr (n.peers.map Peer.json))]

def Rule.json (r : Rule) : Json :=
  .obj <|
    ("peerNames", .arr (r.peerNames.map .str)) :: listField "cidrs" (r.cidrs.map .str) ++
    [("protocol", .str r.protocol), ("port", .num r.port)] ++ stringField "action" r.action

def Policy.json (p : Policy) : Json :=
  .obj <|
    ("policyName", .str p.policyName) :: stringField "action" p.action ++
    [("ingress", nilableList (p.ingress.map Rule.json)),
      ("egress", nilableList (p.egress.map Rule.json))]

def TrafficRule.json (r : TrafficRule) : Json :=
  .obj <|
    ("chainName", .str r.chainName) :: listField "peers" (r.peers.map .str) ++
    stringField "protocol" r.protocol ++ intField "port" r.port ++ stringField "action" r.action

def FirewallRule.json (r : FirewallRule) : Json :=
  .obj <|
    [("platform", .str r.platform), ("policyName", .str "")] ++
    listField "ingress" (r.ingress.map TrafficRule.json) ++
    listField "egress" (r.egress.map TrafficRule.json)

variable (m : Message)

/-- The fields after the version and the timestamp. -/
def Message.contents : List (String × Json) :=
  [("changes", .null), ("peer", m.current.json), ("network", m.network.json)] ++
    listField "policies" (m.policies.map Policy.json) ++
    listField "computedpeers" (m.computedPeers.map Peer.json) ++
    [("computedrules", m.computedRules.json)]

def Message.json (m : Message) : Json :=
  .obj <| ("eventType", m.eventType.json) :: ("configVersion", .str m.configVersion) ::
    ("timestamp", .num m.timestamp) :: m.contents

/-- `Message.String`. -/
def Message.string : String := m.json.marshal

/-- A message is written as an object. -/
theorem Message.string_head : m.string.toList.head? = some '{' := by
  rw [Message.string, Message.json, Json.marshal, String.toList_ofList]
  rfl

/-! ## What the JSON form determines -/

section Lookup

variable {key k value : String} {json : Json}

theorem lookup_single : [(k, json)].lookup key = if key = k then some json else none := by
  by_cases hkey : key = k
  · simp [hkey]
  · simp [List.lookup_cons, beq_eq_false_iff_ne.mpr hkey, hkey]

/-- A field that may be left out. -/
theorem lookup_optional {c : Prop} [Decidable c] : (if c then [] else [(k, json)]).lookup key =
    if key = k ∧ ¬ c then some json else none := by
  by_cases hc : c
  · simp [hc]
  · rw [if_neg hc, lookup_single]
    simp [hc]

theorem lookup_stringField : (stringField k value).lookup key =
    if key = k ∧ value ≠ "" then some (.str value) else none :=
  lookup_optional

theorem lookup_intField {n : Int} : (intField k n).lookup key =
    if key = k ∧ n ≠ 0 then some (.num n) else none :=
  lookup_optional

theorem lookup_listField {values : List Json} : (listField k values).lookup key =
    if key = k ∧ values ≠ [] then some (.arr values) else none := by
  rw [listField, lookup_optional]
  simp only [List.isEmpty_iff, ne_eq]

/-- A field of an object. -/
def field (key : String) : Json → Option Json
  | .obj fields => fields.lookup key
  | _ => none

theorem str_of_optional {v v' : String}
    (h : (if v ≠ "" then some (Json.str v) else none) = if v' ≠ "" then some (.str v') else none) :
    v = v' := by
  split_ifs at h <;> simp_all

end Lookup

/-- The JSON form of a peer shows its `AllowedIPs`. -/
theorem Peer.allowedIPs_of_json {p p' : Peer} (h : p.json = p'.json) :
    p.allowedIPs = p'.allowedIPs := by
  have hfield : ∀ q : Peer, field "allowedIps" q.json =
      if q.allowedIPs ≠ "" then some (.str q.allowedIPs) else none := by
    intro q
    have haddress : ((q.address.map fun a => ("address", Json.str a)).toList).lookup "allowedIps" =
        none := by
      cases q.address <;> rfl
    have hother : (labelsField "labels" q.labels).lookup "allowedIps" = none := by
      rw [labelsField, lookup_optional, if_neg fun hkey => absurd hkey.1 (by decide)]
    simp [field, Peer.json, List.lookup_append, lookup_stringField, lookup_intField, haddress,
      hother, List.lookup_cons]
  have hsame := congrArg (field "allowedIps") h
  rw [hfield, hfield] at hsame
  exact str_of_optional hsame

theorem Network.peers_of_json {n n' : Network} (h : n.json = n'.json) :
    n.peers.map Peer.json = n'.peers.map Peer.json := by
  simpa [field, Network.json, List.lookup_cons] using congrArg (field "peers") h

/-- The JSON form of a rule shows whom it is about. -/
theorem TrafficRule.flow_of_json {r r' : TrafficRule} (hpeers : r.peers ≠ [])
    (hpeers' : r'.peers ≠ []) (h : r.json = r'.json) :
    r.peers = r'.peers ∧ r.protocol = r'.protocol ∧ r.port = r'.port := by
  have hpeersField : ∀ q : TrafficRule, q.peers ≠ [] →
      field "peers" q.json = some (.arr (q.peers.map .str)) := by
    intro q hq
    simp [field, TrafficRule.json, List.lookup_append, lookup_listField, List.lookup_cons, hq]
  have hprotocolField : ∀ q : TrafficRule, field "protocol" q.json =
      if q.protocol ≠ "" then some (.str q.protocol) else none := by
    intro q
    simp [field, TrafficRule.json, List.lookup_append, lookup_listField, lookup_stringField,
      lookup_intField, List.lookup_cons]
  have hportField : ∀ q : TrafficRule, field "port" q.json =
      if q.port ≠ 0 then some (.num q.port) else none := by
    intro q
    simp [field, TrafficRule.json, List.lookup_append, lookup_listField, lookup_stringField,
      lookup_intField, List.lookup_cons]
  refine ⟨?_, ?_, ?_⟩
  · have hsame := congrArg (field "peers") h
    rw [hpeersField r hpeers, hpeersField r' hpeers', Option.some_inj, Json.arr.injEq] at hsame
    exact List.map_injective_iff.mpr (fun _ _ => Json.str.inj) hsame
  · have hsame := congrArg (field "protocol") h
    rw [hprotocolField, hprotocolField] at hsame
    exact str_of_optional hsame
  · have hsame := congrArg (field "port") h
    rw [hportField, hportField] at hsame
    split_ifs at hsame <;> simp_all

/-- The JSON form of the rules shows both chains, unless they are empty. -/
theorem FirewallRule.chains_of_json {r r' : FirewallRule} (h : r.json = r'.json) :
    (r.ingress ≠ [] → r'.ingress ≠ [] →
      r.ingress.map TrafficRule.json = r'.ingress.map TrafficRule.json) ∧
    (r.egress ≠ [] → r'.egress ≠ [] →
      r.egress.map TrafficRule.json = r'.egress.map TrafficRule.json) := by
  constructor
  · intro hne hne'
    simpa [field, FirewallRule.json, List.lookup_append, lookup_listField, List.lookup_cons, hne,
      hne'] using congrArg (field "ingress") h
  · intro hne hne'
    simpa [field, FirewallRule.json, List.lookup_append, lookup_listField, List.lookup_cons, hne,
      hne'] using congrArg (field "egress") h

/-! ## The hash -/

/-- The message as hashed: version and timestamp are shadowed by absent fields. -/
def Message.hashedJson : Json := .obj <| ("eventType", m.eventType.json) :: m.contents

/-- `computeMessageHash`. -/
def computeMessageHash : String := Go.Sha256.hexDigest (m.hashedJson.write [])

/-- The same message issued under another version and time. -/
def Message.reissue (version : String) (timestamp : ℕ) : Message :=
  { m with configVersion := version, timestamp := timestamp }

/-- What is hashed shows the current peer, the network and the rules. -/
theorem Message.parts_of_hashedJson {m m' : Message} (h : m.hashedJson = m'.hashedJson) :
    m.current.json = m'.current.json ∧ m.network.json = m'.network.json ∧
      m.computedRules.json = m'.computedRules.json := by
  refine ⟨?_, ?_, ?_⟩
  · simpa [field, Message.hashedJson, Message.contents, List.lookup_cons]
      using congrArg (field "peer") h
  · simpa [field, Message.hashedJson, Message.contents, List.lookup_cons]
      using congrArg (field "network") h
  · simpa [field, Message.hashedJson, Message.contents, List.lookup_cons, List.lookup_append,
      lookup_listField] using congrArg (field "computedrules") h

/-- Version and timestamp do not enter the hash. -/
theorem hashedJson_reissue (version : String) (timestamp : ℕ) :
    (m.reissue version timestamp).hashedJson = m.hashedJson := rfl

end Wireflow.Infra
