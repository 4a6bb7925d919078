/-
# The configurator of a probe

`wgConfigurator` remembers which keys it has registered. A key that is registered again is not
written to the device, whatever has become of it there; the flag is set before the device is
asked and cleared before an entry is removed.

The device holds for each key the addresses it accepts from that peer; an address belongs to one
peer, and writing it for another key takes it away. There is a provisioner; without one nothing is
written at all.
-/

import Mathlib.Data.Int.Notation
import Mathlib.Data.List.Basic

namespace Wireflow.Agent

/-- A call of the configurator. `SetEndpoint` writes an entry with the `AllowedIPs` that the probe
has of its peer by then. -/
inductive ConfiguratorCall (P : Type)
  | registerPeer (publicKey : String) (allowedIPs : List P)
  | setEndpoint (publicKey endpoint : String) (persistentKeepalive : ℤ) (allowedIPs : List P)
  | removePeer (publicKey : String)

/-- `wgConfigurator` and the device behind it. -/
structure Configurator (P : Type) where
  peers : String → Bool := fun _ => false
  device : String → Option (List P) := fun _ => none

namespace Configurator

variable {P : Type} [DecidableEq P]

/-- The device after an entry was written. -/
def write (publicKey : String) (allowedIPs : List P) (device : String → Option (List P)) :
    String → Option (List P) := fun key =>
  if key = publicKey then some allowedIPs else (device key).map (·.filter (· ∉ allowedIPs))

/-- Whether a call returns nil, given whether the device does what it is asked to, and what is
left. -/
def call (c : Configurator P) : ConfiguratorCall P → Bool → Bool × Configurator P
  | .registerPeer publicKey allowedIPs, works =>
      if c.peers publicKey then (true, c)
      else
        (works,
          { peers := Function.update c.peers publicKey true
            device := if works then write publicKey allowedIPs c.device else c.device })
  | .setEndpoint publicKey _ _ allowedIPs, works =>
      (works, { c with device := if works then write publicKey allowedIPs c.device else c.device })
  | .removePeer publicKey, works =>
      (works,
        { peers := Function.update c.peers publicKey false
          device := if works then Function.update c.device publicKey none else c.device })

end Configurator

end Wireflow.Agent
