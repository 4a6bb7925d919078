/-
# Commands to the WireGuard device

`SetPeer` is what the provisioner sends to the device to add, change or remove a peer: a text in
the configuration protocol of WireGuard (`SetPeer.string`). The device reads it line by line, as
`key=value`, up to the first empty line; `public_key` opens the section of a peer, and the
settings that follow, up to the next `public_key`, are about that peer (`request`).
-/

import Wireflow.Agent.Node
import Wireflow.Go.Prefix
import Wireflow.Go.Text

namespace Wireflow.Agent

open Go.Net Go.Strings Go.Text

/-! ## Writing -/

/-- `SetPeer`. The private key in it is not written. -/
structure SetPeer where
  publicKey : String := ""
  presharedKey : String := ""
  endpoint : String := ""
  allowedIPs : String := ""
  persistentKeepalived : ℤ := 0
  remove : Bool := false

/-- `hex.EncodeToString` of a key. -/
def Key.hex (key : Key) : String := encodeHex (toBytes key.toNat 32)

/-- A line of the protocol: a key and its value. -/
abbrev Setting := String × String

namespace SetPeer

/-- `keyf`: a key in hexadecimal, or nothing if it cannot be read. -/
def keyf (codec : KeyCodec) (value : String) : String :=
  if value = "" then ""
  else
    match codec.parseKey value with
    | none => ""
    | some key => key.hex

/-- `printf`: empty values are left out. -/
def printf (key value : String) : List Setting := if value = "" then [] else [(key, value)]

/-- The items of `AllowedIPs`, trimmed, without empty ones. -/
def allowedItems (p : SetPeer) : List String :=
  ((splitOn ',' p.allowedIPs.toList).map fun cidr => trimSpace (String.ofList cidr)).filter
    (· ≠ "")

/-- The settings in the order in which they are written. -/
def settings (codec : KeyCodec) (p : SetPeer) : List Setting :=
  printf "public_key" (keyf codec p.publicKey) ++
  printf "preshared_key" (keyf codec p.presharedKey) ++
  printf "replace_allowed_ips" "true" ++
  printf "persistent_keepalive_interval" (intText p.persistentKeepalived) ++
  p.allowedItems.flatMap (printf "allowed_ip") ++
  printf "endpoint" p.endpoint ++
  (if p.remove then printf "remove" "true" else [])

/-- `SetPeer.String`. -/
def string (codec : KeyCodec) (p : SetPeer) : String :=
  String.join ((p.settings codec).map fun s => s.1 ++ "=" ++ s.2 ++ "\n")

end SetPeer

/-! ## Reading -/

/-- What a request says about one peer. -/
structure PeerSection where
  publicKey : Key
  settings : List Setting

namespace PeerSection

/-- The values of a setting, in order. -/
def values (name : String) (s : PeerSection) : List String :=
  (s.settings.filter (·.1 = name)).map Prod.snd

def allowedIPs (s : PeerSection) : List String := s.values "allowed_ip"

/-- The endpoint; of several the last, and empty if there is none. -/
def endpoint (s : PeerSection) : String := ((s.values "endpoint").getLast?).getD ""

def removed (s : PeerSection) : Bool := (s.values "remove").contains "true"

end PeerSection

/-- A request: settings of the device itself, then peers. -/
structure Request where
  device : List Setting := []
  peers : List PeerSection := []

/-- `FromHex`. -/
def Key.fromHex (text : String) : Option Key :=
  match decodeHex text.toList with
  | none => none
  | some bytes => if bytes.length = 32 then some (BitVec.ofNat 256 (ofBytes bytes)) else none

/-- A line has to be a setting. -/
def readLine (line : List Char) : Option Setting :=
  (cut '=' line).map fun s => (String.ofList s.1, String.ofList s.2)

/-- The lines up to the first empty one. -/
def readSettings (text : String) : Option (List Setting) :=
  ((scanLines text.toList).takeWhile (· ≠ [])).mapM readLine

/-- Settings in sections: what precedes the first `public_key` is about the device. -/
def readSections : List Setting → Option Request
  | [] => some {}
  | s :: rest => do
      let r ← readSections rest
      if s.1 = "public_key" then
        let key ← Key.fromHex s.2
        pure { peers := ⟨key, r.device⟩ :: r.peers }
      else pure { r with device := s :: r.device }

/-- The request that a text is, if it is one. -/
def request (text : String) : Option Request := (readSettings text).bind readSections

end Wireflow.Agent
