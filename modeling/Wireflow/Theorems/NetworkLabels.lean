/-
# Network labels are read as they are written

`ensurePeerSpec` puts one network label on a member. The other components find it exactly if the
name of the network has at most 55 characters; a longer name is shortened by the writer only.

The key of a long name is made of its front and eight digits of its hash. A short name may spell
out just that, and two networks then share a label (`label_keys_iff`, `label_key_shared`).
-/

import Wireflow.Controller.NetworkReconciler

namespace Wireflow.Controller

open Go (GoMap Order)
open Go.Strings String
open Wireflow.Api

variable {name : String} {labels : Labels} {node : LatticePeer}

/-- The labels `ensurePeerSpec` gives to a member of a network. -/
def memberLabels (name : String) (labels : Labels) : Labels :=
  (removeNetworkLabels labels).insert (networkLabelKey name) "true"

/-- Every label that some component asks for has the key of the writer, and the request that a
member is mapped to is for its network. -/
structure ReadAsWritten (name : String) : Prop where
  counted : (findNodesByLabels name).lookup (networkLabelKey name) = some "true"
  mapped : ∀ (node : LatticePeer) (labels : Labels) (order : Order),
    node.spec.network = some name → node.metadata.labels = memberLabels name labels →
    ∀ r ∈ mapNodeForNetworks node order, r = ⟨node.metadata.ns, name⟩
  shadowed : (remoteGatewayShadowLabels name).lookup (networkLabelKey name) = some "true"
  gateway : (findGatewayForCluster name).lookup (networkLabelKey name) = some "true"
  allowed : ∀ ns, (allowAllPolicy ns name).peerSelector.matchLabels.lookup (networkLabelKey name) =
    some "true"
  informed : (gatewayInfoLabels name).lookup (networkLabelKey name) = some "true"

/-- The first 32 bits of the hash of a name. -/
def shortHash (name : String) : String :=
  String.ofList ((Go.Sha256.hexDigest name.toList).toList.take 8)

/-- What is written of a long name. -/
def shortened (name : String) : String :=
  String.ofList (name.toList.take 46) ++ "-" ++ shortHash name

theorem length_shortened_le (name : String) : (shortened name).toList.length ≤ 55 := by
  have hdash : "-".toList.length = 1 := by decide
  simp only [shortened, shortHash, toList_append, toList_ofList, List.length_append,
    List.length_take, hdash]
  omega

theorem safeKeyName_network (name : String) : safeKeyName "network-" name =
    "network-" ++ if name.toList.length ≤ 55 then name else shortened name := by
  have hlength : "network-".toList.length = 8 := by decide
  rw [safeKeyName, hlength]
  by_cases h : name.toList.length ≤ 55
  · rw [if_pos (by omega), if_pos h]
  · rw [if_neg (by omega), if_neg h]
    simp only [shortened, shortHash, append_assoc]

theorem networkLabelKey_eq (name : String) : networkLabelKey name =
    networkLabelStart ++ if name.toList.length ≤ 55 then name else shortened name := by
  have hstart : networkLabelStart = "alattice.io/" ++ "network-" := by decide
  rw [networkLabelKey, safeKeyName_network, hstart, append_assoc]

/-- A name is written out if it is short. -/
theorem networkLabelKey_eq_iff :
    networkLabelKey name = networkLabelStart ++ name ↔ name.toList.length ≤ 55 := by
  rw [networkLabelKey_eq, append_right_inj]
  constructor
  · intro h
    split_ifs at h with hshort
    · exact hshort
    · rw [← h]
      exact length_shortened_le name
  · exact fun h => if_pos h

/-- The only network label of a member is the one it was given. -/
theorem eq_of_lookup_memberLabels {key value : String}
    (hstart : hasPrefix key networkLabelStart = true)
    (h : (memberLabels name labels).lookup key = some value) : key = networkLabelKey name := by
  by_contra hne
  rw [memberLabels, AList.lookup_insert_ne hne, removeNetworkLabels, GoMap.lookup_deleteWhere,
    hstart] at h
  cases h

/-- A member is mapped to the network of its spec, and to what its label looks like. -/
theorem eq_or_eq_of_mem_mapNodeForNetworks {order : Order} {r : NamespacedName}
    (hspec : node.spec.network = some name)
    (hlabels : node.metadata.labels = memberLabels name labels)
    (hr : r ∈ mapNodeForNetworks node order) : r = ⟨node.metadata.ns, name⟩ ∨
      r = ⟨node.metadata.ns, trimStart (networkLabelKey name) networkLabelStart⟩ := by
  simp only [mapNodeForNetworks, hspec, hlabels, Option.toList_some, List.map_cons,
    List.singleton_append, List.mem_cons, List.mem_map, List.mem_filterMap, Prod.exists] at hr
  obtain rfl | ⟨found, ⟨key, value, hmem, hfound⟩, rfl⟩ := hr
  · exact .inl rfl
  · split_ifs at hfound with htest
    rw [Bool.and_eq_true] at htest
    cases hfound
    rw [eq_of_lookup_memberLabels htest.1 (GoMap.mem_range.mp hmem)]
    exact .inr rfl

/-- **Labels.** All components agree about a network exactly if its name is not too long to be
written out. -/
theorem labels_read_iff (name : String) : ReadAsWritten name ↔ name.toList.length ≤ 55 := by
  rw [← networkLabelKey_eq_iff]
  constructor
  · intro h
    by_contra hne
    have hcounted := h.counted
    rw [findNodesByLabels, GoMap.ofPairs, List.foldl_cons, List.foldl_nil,
      AList.lookup_insert_ne hne] at hcounted
    cases hcounted
  · intro h
    have hlast : ∀ m : Labels,
        (m.insert (networkLabelStart ++ name) "true").lookup (networkLabelKey name) =
          some "true" := by
      intro m
      rw [h, AList.lookup_insert]
    refine ⟨hlast _, fun node labels order hspec hlabels r hr => ?_, hlast _, hlast _,
      fun _ => hlast _, hlast _⟩
    rcases eq_or_eq_of_mem_mapNodeForNetworks hspec hlabels hr with rfl | rfl
    · rfl
    · rw [h, trimStart_append]

/-- A name of 56 letters. -/
def longName : String := String.ofList (List.replicate 56 'n')

/-- The label of a long name has another key than the one its peers are counted by, and it is
mapped to a network that does not exist. -/
theorem long_name_not_read :
    (findNodesByLabels longName).lookup (networkLabelKey longName) = none ∧
    trimStart (networkLabelKey longName) networkLabelStart ≠ longName := by
  decide +kernel

/-! ## Two networks with one label -/

/-- The name spells out what is written of a long one. -/
def Shortens (long name : String) : Prop := 55 < long.toList.length ∧ name = shortened long

/-- What is written of two long names differs if their hashes do. -/
theorem shortHash_of_shortened {a b : String} (ha : 55 < a.toList.length)
    (hb : 55 < b.toList.length) (h : shortened a = shortened b) : shortHash a = shortHash b := by
  have hlist := congrArg toList h
  simp only [shortened, toList_append, toList_ofList, List.append_assoc] at hlist
  have hfront : (a.toList.take 46).length = (b.toList.take 46).length := by
    rw [List.length_take, List.length_take]
    omega
  exact toList_injective (List.append_cancel_left (List.append_inj hlist hfront).2)

/-- **Keys.** Of names with different hashes the keys are different exactly if neither name spells
out what is written of the other one; and all keys have names of 1 to 63 characters. -/
theorem label_keys_iff (a b : String) (hhash : shortHash a ≠ shortHash b) :
    (networkLabelKey a ≠ networkLabelKey b ↔ ¬Shortens a b ∧ ¬Shortens b a) ∧
    ∀ name, 1 ≤ (safeKeyName "network-" name).toList.length ∧
      (safeKeyName "network-" name).toList.length ≤ 63 := by
  constructor
  · rw [networkLabelKey_eq, networkLabelKey_eq, ne_eq, append_right_inj, ← not_or,
      not_iff_not]
    have hboth : 55 < a.toList.length → 55 < b.toList.length → shortened a ≠ shortened b :=
      fun ha hb h => hhash (shortHash_of_shortened ha hb h)
    have hshort := length_shortened_le
    -- the keys can agree only if one of the names is long and the other one is not
    split_ifs with ha hb hb <;> grind [Shortens]
  · intro name
    have hlength : "network-".toList.length = 8 := by decide
    rw [safeKeyName_network, toList_append, List.length_append, hlength]
    split_ifs with hshort
    · omega
    · have := length_shortened_le name
      omega

/-- Whether Kubernetes accepts a name: labels of letters, digits and dashes with dots between. -/
def isObjectName (name : String) : Bool :=
  name.toList.length ≤ 253 && (name.toList.splitOn '.').all fun label =>
    !label.isEmpty && label.all (fun c => c.isLower || c.isDigit || c == '-') &&
      label.head? != some '-' && label.getLast? != some '-'

/-- A network with a name of 55 characters has the label of one with a longer name. -/
theorem label_key_shared :
    isObjectName longName ∧ isObjectName (shortened longName) ∧
    shortHash longName ≠ shortHash (shortened longName) ∧
    networkLabelKey longName = networkLabelKey (shortened longName) := by
  decide +kernel

theorem label_keys_letters : networkLabelKey "a" ≠ networkLabelKey "b" :=
  (label_keys_iff "a" "b" (by decide +kernel)).1.mpr
    ⟨fun h => absurd h.1 (by decide), fun h => absurd h.1 (by decide)⟩

end Wireflow.Controller
