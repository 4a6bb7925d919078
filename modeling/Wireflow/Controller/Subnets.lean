/-
# Subnet allocation

`AllocateSubnet` cuts subnets of a fixed size from a pool. An allocation is named after its
first address, so that of several callers one wins a subnet. The search for a free subnet
tests the first address of each candidate against the names in a list that may be old.

The loop of `FindFirstFree` ends when a free subnet is found or the candidate leaves the pool.
In a pool that covers all addresses it may never end; `search` then answers `none`.
-/

import Wireflow.Controller.Ipam
import Wireflow.Controller.NetworkClient
import Wireflow.Go.Prefix
import Wireflow.Semantics.RelyGuarantee

namespace Wireflow.Controller

open Go.Net
open Go.Strings
open Semantics
open Wireflow.Api

/-- What `nextSubnet` adds: `1 << (32 - uint32(maskBits))` in 32 bits. -/
def subnetStep (maskBits : ℤ) : IPv4 :=
  let count := ((32 - maskBits) % 2 ^ 32).toNat
  -- a shift by 32 or more leaves nothing
  if count < 32 then BitVec.ofNat 32 (2 ^ count) else 0

/-- `nextSubnet`. -/
def nextSubnet (ip : IP) (maskBits : ℤ) : IP := .v4 (ipToUint32 ip + subnetStep maskBits)

def noSubnet : GoError := { text := "no available subnet in pool" }

/-- The loop of `FindFirstFree`, for at most the given number of candidates. -/
def search (pool : IPNet) (used : List String) (maskBits : ℤ) :
    ℕ → IP → Option (Except GoError IP)
  | 0, _ => none
  | n + 1, curr =>
      if pool.contains curr then
        if ipToHex curr ∈ used then search pool used maskBits n (nextSubnet curr maskBits)
        else some (.ok curr)
      else some (.error noSubnet)

/-- After the first candidate all are four-byte addresses, so that with one more than there
are of those the loop has come back to where it was before. -/
def searchBound : ℕ := 2 ^ 32 + 2

/-- `FindFirstFree`. -/
def findFirstFree (pool : LatticeGlobalIPPool) : NetworkProg (Option (Except GoError IP)) :=
  match parseCIDR pool.cidr with
  | .error text => pure (some (.error { text := "invalid pool CIDR: " ++ text }))
  | .ok net => do
      match ← NetworkCall.listAllocations.issue with
      | .error err => pure (some (.error err))
      | .ok items =>
          let used := items.map fun a => trimStart a.metadata.name "subnet-"
          pure (search net used pool.subnetMask searchBound net.base)

/-- The name of the allocation that starts at an address. -/
def subnetName (ip : IP) : String := "subnet-" ++ ipToHex ip

/-- The allocation `AllocateSubnet` tries to create. -/
def newAllocation (networkName : String) (pool : LatticeGlobalIPPool) (ip : IP) :
    LatticeSubnetAllocation :=
  { metadata := { name := subnetName ip, controllerRef := some pool.metadata.uid }
    networkName := networkName
    cidr := prefixText ip pool.subnetMask }

/-- The attempts of `AllocateSubnet` that are left. -/
def allocateAttempts (networkName : String) (pool : LatticeGlobalIPPool) :
    ℕ → NetworkProg (Option (Except GoError String))
  | 0 => pure (some (.error noSubnet))
  | n + 1 => do
      match ← findFirstFree pool with
      | none => pure none
      | some (.error err) => pure (some (.error err))
      | some (.ok ip) =>
          match ← NetworkCall.setControllerReference.issue with
          | .error err => pure (some (.error err))
          | .ok _ =>
              match ← (NetworkCall.createAllocation (newAllocation networkName pool ip)).issue with
              | .ok _ => pure (some (.ok (prefixText ip pool.subnetMask)))
              | .error err =>
                  -- another request claimed this subnet; look for the next one
                  if err.kind = .alreadyExists then allocateAttempts networkName pool n
                  else pure (some (.error err))

/-- `AllocateSubnet`, with `none` for a call that never returns. -/
def allocateSubnet (networkName : String) (pool : LatticeGlobalIPPool) :
    NetworkProg (Option (Except GoError String)) :=
  allocateAttempts networkName pool 10

/-!
## Concurrent subnet allocation

Any number of callers run `AllocateSubnet` on one pool, while allocations may be deleted at any
time. The `history` lists, oldest first, which subnets were created by whom, which calls
returned what, and the deletions.
-/

variable {ι : Type}

/-- What is recorded of a run. -/
inductive SubnetEvent (ι : Type)
  | created (i : ι) (cidr : String)
  | returned (i : ι) (cidr : String)
  | deleted (key : NamespacedName)
  deriving DecidableEq

/-- The caller an event is about. -/
def SubnetEvent.caller : SubnetEvent ι → Option ι
  | .created i _ => some i
  | .returned i _ => some i
  | .deleted _ => none

structure Audit (ι : Type) where
  world : World
  history : List (SubnetEvent ι) := []

/-- The result of a call to `AllocateSubnet`. -/
abbrev SubnetResult := Option (Except GoError String)

/-- What the answer to a call adds to the history. -/
def creation (i : ι) : (c : NetworkCall) → c.Res → List (SubnetEvent ι)
  | .createAllocation alloc, .ok _ => [.created i alloc.cidr]
  | _, _ => []

/-- What a return adds to the history. -/
def completion (i : ι) : SubnetResult → List (SubnetEvent ι)
  | some (.ok cidr) => [.returned i cidr]
  | _ => []

/-- Answer a call and keep the history. -/
def audit : (c : Note ι NetworkCall SubnetResult) → Choice → Audit ι →
    Note.Res NetworkCall.Res c × Audit ι
  | .call i c, ch, a =>
      ((execNetwork c ch a.world).1,
        { world := (execNetwork c ch a.world).2
          history := a.history ++ creation i c (execNetwork c ch a.world).1 })
  | .done i r, _, a => ((), { a with history := a.history ++ completion i r })

/-- Somebody deletes an allocation. -/
def removeAllocation (key : NamespacedName) (a : Audit ι) : Audit ι :=
  match a.world.store.allocations.get key with
  | none => a
  | some _ =>
      { world := a.world.commit { a.world.store with
          allocations := a.world.store.allocations.erase key }
        history := a.history ++ [.deleted key] }

/-- Callers of `AllocateSubnet` on one pool, each for some network. -/
def subnetCallers (names : ι → String) (pool : LatticeGlobalIPPool) :
    Workers ι (Note ι NetworkCall SubnetResult) (Note.Res NetworkCall.Res) (Audit ι) Choice
      NamespacedName where
  program i := (allocateSubnet (names i) pool).journal i
  exec := audit
  disturb := removeAllocation

/-- The state after a schedule that starts with no call in progress. -/
def auditAfter [DecidableEq ι] (names : ι → String) (pool : LatticeGlobalIPPool) (w : World)
    (schedule : List (Action ι Choice NamespacedName)) : Audit ι :=
  ((subnetCallers names pool).run (Workers.idle { world := w }) schedule).shared

/-!
## A pool that is edited

Calls of `AllocateSubnet` one after another, with exact lists, while the range and the prefix
length of the pool may be edited and allocations may be deleted between two calls. Requests of
a call may fail.
-/

/-- Take the next choice, with an exact read. -/
def serveExact (c : NetworkCall) (s : Session) : c.Res × Session :=
  ((execNetwork c { s.choices 0 with lag := 0 } s.world).1,
    { world := (execNetwork c { s.choices 0 with lag := 0 } s.world).2
      choices := fun n => s.choices (n + 1) })

structure PoolState where
  pool : LatticeGlobalIPPool
  world : World := {}

inductive PoolStep
  | allocate (networkName : String) (choices : ℕ → Choice)
  | edit (cidr : String) (subnetMask : ℤ)
  | remove (key : NamespacedName)

namespace PoolState

/-- The allocations that exist. -/
def live (s : PoolState) : Table LatticeSubnetAllocation := s.world.store.allocations

def step (s : PoolState) : PoolStep → PoolState
  | .allocate networkName choices =>
      { s with
        world := ((allocateSubnet networkName s.pool).run serveExact
          { world := s.world, choices := choices }).2.world }
  | .edit cidr subnetMask =>
      { s with pool := { s.pool with cidr := cidr, subnetMask := subnetMask } }
  | .remove key =>
      { s with
        world := s.world.commit { s.world.store with allocations := s.live.erase key } }

/-- A property of all states of a run. -/
def Throughout (P : PoolState → Prop) : PoolState → List PoolStep → Prop
  | s, [] => P s
  | s, e :: rest => P s ∧ Throughout P (s.step e) rest

/-- A property of all steps of a run. -/
def EveryStep (Q : PoolState → PoolState → Prop) : PoolState → List PoolStep → Prop
  | _, [] => True
  | s, e :: rest => Q s (s.step e) ∧ EveryStep Q (s.step e) rest

end PoolState

end Wireflow.Controller
