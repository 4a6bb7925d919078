/-
# Label keys, addresses, and the agent's view of a peer

The helpers of `utils.go`. `transferToPeer` turns a `LatticePeer` into the record
pushed to agents. Its `AllowedIPs` end with the routes found in annotations, in
the order in which Go happens to range over the annotation map; that order is an
argument here.
-/

import Wireflow.Infra.Message

namespace Wireflow.Controller

open Go (Order)
open Go.Strings
open Wireflow.Api

/-- `LabelShadow`: such peers belong to the peering controllers. -/
def labelShadow : String := "alattice.io/shadow"

def annotationShadowAllowedIPs : String := "alattice.io/shadow-allowed-ips"

/-- `AnnotationPeeringRoutePrefix`. -/
def annotationPeeringRoute : String := "alattice.io/peering-route-"

/-- What every network label starts with. -/
def networkLabelStart : String := "alattice.io/network-"

/-- `safeKeyName`. Object names are ASCII, so bytes are characters. -/
def safeKeyName (start name : String) : String :=
  if start.toList.length + name.toList.length ≤ 63 then start ++ name
  else
    -- cut so that start, text, dash and eight digits make 63 characters
    let hash := String.ofList ((Go.Sha256.hexDigest name.toList).toList.take 8)
    start ++ String.ofList (name.toList.take (63 - start.toList.length - 9)) ++ "-" ++ hash

/-- `networkLabelKey`: the label that puts a peer into a network. -/
def networkLabelKey (networkName : String) : String :=
  "alattice.io/" ++ safeKeyName "network-" networkName

/-- Every network label starts alike, also when the name had to be shortened. -/
theorem hasPrefix_networkLabelKey (networkName : String) :
    hasPrefix (networkLabelKey networkName) networkLabelStart = true := by
  have hstart : networkLabelStart.toList = "alattice.io/".toList ++ "network-".toList := by decide
  rw [hasPrefix, List.isPrefixOf_iff_prefix, hstart, networkLabelKey, safeKeyName]
  split_ifs
  · simp only [String.toList_append]
    exact ⟨_, by rw [List.append_assoc]⟩
  · simp only [String.toList_append, List.append_assoc]
    exact ⟨_, by rw [List.append_assoc]⟩

/-- The shadow label is not a network label. -/
theorem networkLabelKey_ne_labelShadow (networkName : String) :
    networkLabelKey networkName ≠ labelShadow := by
  intro h
  have hno : hasPrefix labelShadow networkLabelStart = false := by decide
  rw [← h, hasPrefix_networkLabelKey] at hno
  cases hno

/-- `cleanIP`: an address without its CIDR suffix. -/
def cleanIP (ip : Option String) : String :=
  match ip with
  | none => ""
  | some a => if containsChar a '/' then beforeChar a '/' else a

/-- The value `strconv.ParseUint(s, 10, 64)` returns next to its error: zero for a
text that is no number, the largest number for one that is too large. -/
def parseUint (s : String) : ℕ :=
  match s.toList, Go.Net.decimal? s.toList with
  | _ :: _, some n => min n (2 ^ 64 - 1)
  | _, _ => 0

/-- Append to a comma-separated list that may still be empty. -/
def appendIPs (ips extra : String) : String := if ips = "" then extra else ips ++ "," ++ extra

/-- The routes a gateway's annotations carry, in the order the map is ranged over. -/
def extraRoutes (annotations : Labels) (order : Order) : List String :=
  (annotations.range order).filterMap fun (k, v) =>
    if hasPrefix k annotationPeeringRoute && v != "" then some v else none

/-- The part of `AllowedIPs` that no map order enters. -/
def fixedIPs (peer : LatticePeer) : String :=
  let own := match peer.status.allocatedAddress with
    | some a => a ++ "/32"
    | none => ""
  let shadowCIDR := peer.metadata.annotations.get annotationShadowAllowedIPs
  if shadowCIDR = "" then own else appendIPs own shadowCIDR

/-- `transferToPeer`. -/
def transferToPeer (peer : LatticePeer) (order : Order) : Infra.Peer :=
  let routes := extraRoutes peer.metadata.annotations order
  { peerId := if peer.spec.peerId = "" then 0 else parseUint peer.spec.peerId
    name := peer.metadata.name
    appId := peer.spec.appId
    platform := peer.spec.platform
    interfaceName := peer.spec.interfaceName
    address := peer.status.allocatedAddress
    publicKey := peer.spec.publicKey
    labels := peer.metadata.labels
    allowedIPs :=
      if routes.isEmpty then fixedIPs peer else appendIPs (fixedIPs peer) (joinComma routes) }

/-- The order of the annotations enters through `AllowedIPs` only. -/
theorem transferToPeer_congr {peer : LatticePeer} {order order' : Order}
    (h : (transferToPeer peer order).allowedIPs = (transferToPeer peer order').allowedIPs) :
    transferToPeer peer order = transferToPeer peer order' := by
  simp only [transferToPeer] at h ⊢
  rw [h]

/-- `setCondition`: replace the condition of the same type, keeping its transition
time unless status or reason changed; append a new type. -/
def setCondition (conditions : List Condition) (c : Condition) : List Condition :=
  match conditions with
  | [] => [c]
  | existing :: rest =>
      if existing.type = c.type then
        (if existing.status = c.status ∧ existing.reason = c.reason then
          { c with lastTransitionTime := existing.lastTransitionTime }
        else c) :: rest
      else existing :: setCondition rest c

end Wireflow.Controller
