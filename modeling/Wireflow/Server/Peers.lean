/-
# Peers, peerings and tokens of a workspace

The services that act on custom resources directly. `updatePeer` works in whatever namespace the
request names, the others in the namespace of the workspace that the caller has chosen. Peerings
belong to no namespace; they are deleted by name.
-/

import Wireflow.Server.Policies
import Wireflow.Server.Workspaces

namespace Wireflow.Server

open Wireflow.Api

/-! ## Peers -/

def displayNameAnnotation : String := "lattice.io/display-name"

def disabledAnnotation : String := "lattice.io/disabled"

/-- `strings.ToLower`, for the ASCII texts that occur here. -/
def toLower (text : String) : String := String.ofList (text.toList.map Char.toLower)

/-- What a request may change about a peer. -/
structure PeerUpdate where
  ns : String
  name : String
  displayName : String := ""
  labels : Labels := ∅

/-- Set one label, or remove it if the value is empty. -/
def editLabel (labels : Labels) (edit : String × String) : Labels :=
  if edit.2 = "" then labels.erase edit.1 else labels.insert edit.1 edit.2

/-- The peer with the labels and the display name of a request. -/
def relabelled (dto : PeerUpdate) (peer : LatticePeer) : LatticePeer :=
  { peer with
    metadata := { peer.metadata with
      labels := dto.labels.pairs.foldl editLabel peer.metadata.labels
      annotations := editLabel peer.metadata.annotations
        ( displayNameAnnotation, dto.displayName) } }

/-- `UpdatePeer`. -/
def updatePeer (dto : PeerUpdate) : OfficeProg (Except GoError Unit) :=
  (KubeCall.getPeer ⟨dto.ns, dto.name⟩).issue.unwrap fun peer =>
    (KubeCall.updatePeer (relabelled dto peer)).issue

/-- The peer with other annotations. -/
def annotated (change : Labels → Labels) (peer : LatticePeer) : LatticePeer :=
  { peer with
    metadata := { peer.metadata with annotations := change peer.metadata.annotations } }

/-- Read a peer, change its annotations, and write it back. -/
def annotatePeer (change : Labels → Labels) (ns name : String) : OfficeProg (Except GoError Unit) :=
  (KubeCall.getPeer ⟨ns, name⟩).issue.unwrap fun peer =>
    (KubeCall.updatePeer (annotated change peer)).issue

/-- `DisablePeer`. -/
def disablePeer (ns name : String) : OfficeProg (Except GoError Unit) :=
  annotatePeer (·.insert disabledAnnotation "true") ns name

/-- `EnablePeer`. -/
def enablePeer (ns name : String) : OfficeProg (Except GoError Unit) :=
  annotatePeer (·.erase disabledAnnotation) ns name

/-- Remove the configuration of a deleted peer, as far as that is possible. -/
def cleanUpConfig (key : NamespacedName) : OfficeProg Unit :=
  (KubeCall.getConfigMap key).issue >>= fun
    | .error _ => .ret ()
    | .ok _ => (KubeCall.deleteConfigMap key).issue >>= fun _ => .ret ()

/-- `DeletePeer`. -/
def deletePeer (ns name : String) : OfficeProg (Except GoError Unit) :=
  (KubeCall.getPeer ⟨ns, name⟩).issue.unwrap fun _ =>
    (KubeCall.deletePeer ⟨ns, name⟩).issue.unwrap fun _ =>
      cleanUpConfig ⟨ns, name ++ "-config"⟩ >>= fun _ => succeed ()

/-! ## Peerings -/

structure PeeringDto where
  name : String := ""
  namespaceB : String
  networkB : String := ""
  peeringMode : String := ""

/-- `defaultNetwork`. -/
def defaultNetwork (ns : String) : OfficeProg (Except GoError String) :=
  (KubeCall.listNetworks ns).issue.unwrap fun networks =>
    if networks.any fun n => n.metadata.name = defaultNetName then succeed defaultNetName
    else succeed ((networks.head?.map fun n => n.metadata.name).getD defaultNetName)

/-- The name of a peering that was given none. -/
def peeringName (nsA nsB : String) : String :=
  toLower (String.ofList ((nsA ++ "-to-" ++ nsB).toList.map fun c => if c = '_' then '-' else c))

/-- A text, unless it is empty. -/
def orDefault (text default : String) : String := if text = "" then default else text

/-- `Create` of a peering between the namespace of the caller's workspace and another one. -/
def createPeering (wsId : String) (dto : PeeringDto) : OfficeProg (Except GoError Unit) :=
  (DbCall.getWorkspace wsId).issue.unwrap fun ws =>
    ((defaultNetwork ws.ns).mapError (·.wrap "local network: ")).unwrap fun netA =>
      let name := orDefault dto.name (peeringName ws.ns dto.namespaceB)
      (KubeCall.createPeering name
        { namespaceA := ws.ns
          networkA := netA
          namespaceB := dto.namespaceB
          networkB := orDefault dto.networkB defaultNetName
          mode := orDefault dto.peeringMode "gateway" }).issue.mapError fun err =>
            if err.kind = .alreadyExists then
              newError ("peering \"" ++ name ++ "\" already exists")
            else err

/-- `Delete` of a peering. -/
def deletePeering (name : String) : OfficeProg (Except GoError Unit) :=
  (KubeCall.getPeering name).issue.unwrap fun _ => (KubeCall.deletePeering name).issue

/-! ## Tokens -/

/-- The token that is created for a workspace: five uses within a week. -/
def newToken (ns token : String) (time : ℕ) : LatticeEnrollmentToken where
  metadata :=
    { ns := ns
      name := toLower token
      labels := managedLabels }
  spec := { token := token, usageLimit := 5, expiry := time + 168 * 60 * 60 }

/-- `CreateToken`. An error of the read other than `NotFound` is passed over. -/
def createToken (ns token : String) : OfficeProg (Except GoError Unit) :=
  (KubeCall.getToken ⟨ns, token⟩).issue >>= fun
    | .ok _ => succeed ()
    | .error err =>
        if err.kind = .notFound then
          OfficeCall.now.issue >>= fun time => (KubeCall.createToken (newToken ns token time)).issue
        else succeed ()

def workspaceMissing : GoError := newError "workspaceId missing in context"

/-- `Create` of a token, which also puts a policy in force. -/
def generateToken (codec : PolicyCodec) (wsId : String) : OfficeProg (Except GoError String) :=
  if wsId = "" then fail workspaceMissing
  else (DbCall.getWorkspace wsId).issue.unwrap fun ws =>
    OfficeCall.generateToken.issue.unwrap fun token =>
      (createToken ws.ns token).unwrap fun _ =>
        (applyDirect codec wsId "" "" { name := "default-deny", action := "Deny" }).unwrap
          fun _ => succeed token

/-- `Delete` of a token. -/
def deleteToken (wsId token : String) : OfficeProg (Except GoError Unit) :=
  if wsId = "" then fail workspaceMissing
  else (DbCall.getWorkspace wsId).issue.unwrap fun ws =>
    (KubeCall.deleteToken ⟨ws.ns, token⟩).issue >>= fun
      | .ok _ => succeed ()
      | .error err => if err.kind = .notFound then succeed () else fail err

end Wireflow.Server
