/-
# Address allocation

`AllocateIP` and `ReleaseIP`. A lease is a `LatticeEndpoint` whose *name* is
determined by the address, so that two peers cannot both create the lease of one
address; the name is also all that `ReleaseIP` goes by.
-/

import Wireflow.Controller.Client

namespace Wireflow.Controller

open Go.Net
open Wireflow.Api

/-- `ipToHex`: eight hexadecimal digits, or nothing for an address that is not IPv4. -/
def ipToHex (ip : IP) : String :=
  match ip.to4 with
  | some a => encodeHex (octets a)
  | none => ""

/-- `ipToUint32`. -/
def ipToUint32 (ip : IP) : IPv4 := ip.to4.getD 0

/-- The name of the endpoint that holds an address. -/
def leaseName (ip : IP) : String := "ip-" ++ ipToHex ip

/-- The endpoint `AllocateIP` tries to create for an address. -/
def newEndpoint (peer : LatticePeer) (a : IPv4) : LatticeEndpoint :=
  { metadata :=
      { ns := peer.metadata.ns
        name := leaseName (.v4 a)
        controllerRef := some peer.metadata.uid }
    address := ipv4String a
    peerRef := peer.metadata.name }

/-- The loop of `AllocateIP`, with `n` addresses from `a` on left to try. -/
def claimFrom (network : LatticeNetwork) (peer : LatticePeer) (used : List String) :
    ℕ → IPv4 → Prog (Except GoError String)
  | 0, _ =>
      pure (.error { text := "no available IP addresses in network " ++ network.metadata.name })
  | n + 1, a =>
      if leaseName (.v4 a) ∈ used then claimFrom network peer used n (a + 1)
      else do
        match ← Client.setControllerReference with
        | .error err => pure (.error err)
        | .ok _ =>
            match ← Client.createEndpoint (newEndpoint peer a) with
            | .ok _ => pure (.ok (ipv4String a))
            | .error err =>
                -- another request claimed this address concurrently; try the next one
                if err.kind = .alreadyExists then claimFrom network peer used n (a + 1)
                else pure (.error err)

/-- The first address tried: the base plus two, past the network address and the gateway. -/
def startAddr (net : IPNet) : IPv4 := ipToUint32 net.base + 2

/-- The last address tried: the broadcast address minus one. -/
def endAddr (net : IPNet) : IPv4 :=
  ipToUint32 net.base + BitVec.ofNat 32 (2 ^ (net.bits - net.ones)) - 2

/-- `AllocateIP`. A peer that already has an endpoint is given its address again. The
loop runs over the 32-bit counters from start to end; it is empty when the start is
past the end. -/
def allocateIP (network : LatticeNetwork) (peer : LatticePeer) : Prog (Except GoError String) :=
  match parseCIDR network.activeCIDR with
  | .error text => pure (.error { text := "invalid network CIDR: " ++ text })
  | .ok net => do
      match ← Client.listEndpoints peer.metadata.ns with
      | .error err => pure (.error err)
      | .ok existing =>
          match existing.find? fun ep => ep.peerRef == peer.metadata.name with
          | some ep => pure (.ok ep.address)
          | none =>
              -- the counter of the source would start over only after 255.255.255.255, which
              -- is the last address tried for 0.0.0.0/32 alone
              claimFrom network peer (existing.map (·.metadata.name))
                ((endAddr net).toNat + 1 - (startAddr net).toNat) (startAddr net)

/-- `ReleaseIP`: delete the endpoint named after the address, whoever it belongs to. -/
def releaseIP (ns allocatedAddress : String) : Prog (Except GoError Unit) :=
  if allocatedAddress = "" then pure (.ok ())
  else
    match parseIP allocatedAddress with
    | none => pure (.ok ())
    | some ip => do
        match ← Client.deleteEndpoint ⟨ns, leaseName ip⟩ with
        | .ok _ => pure (.ok ())
        | .error err => if err.kind = .notFound then pure (.ok ()) else pure (.error err)

end Wireflow.Controller
