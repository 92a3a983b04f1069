import TpnWorker.Lib.Ini
import TpnWorker.Net.Ip
import TpnWorker.Service.LeaseManager

/-! What a client reads of an answer to a WireGuard lease request: `wg-quick` reads the text form, and the JSON form has the
    same settings in two objects. -/

namespace TpnWorker

/-- What a client needs to open its tunnel. -/
structure Tunnel where
  address : Ipv4Addr
  privateKey : Key
  dns : String
  serverKey : Key
  presharedKey : Key
  endpoint : String

/-! ### Reading an answer -/

def readKey (text : String) : Option Key :=
  match Base64.decode text with
  | none => none
  | some bytes => if h : bytes.length = 32 then some ⟨bytes, h⟩ else none

def setting? (settings : List Ini.Setting) (key : String) : Option String := (settings.lookup key.toList).map String.ofList

/-- A tunnel by the settings of the interface and of its peer. -/
def Tunnel.read (iface peer : List Ini.Setting) : Option Tunnel := do
  let address ← (setting? iface "Address").bind Ipv4Addr.parse
  let privateKey ← (setting? iface "PrivateKey").bind readKey
  let dns ← setting? iface "DNS"
  let serverKey ← (setting? peer "PublicKey").bind readKey
  let presharedKey ← (setting? peer "PresharedKey").bind readKey
  let endpoint ← setting? peer "Endpoint"
  some ⟨address, privateKey, dns, serverKey, presharedKey, endpoint⟩

namespace Tunnel

/-- The config of a client with this tunnel. -/
def peerConfig (t : Tunnel) (peerId : ℕ) : PeerConfig :=
  ⟨peerId, encodeKey t.privateKey, t.address.display, encodeKey t.serverKey, encodeKey t.presharedKey, t.endpoint, t.dns⟩

/-- The two texts that the settings of the worker give are on one line each, without white space at their ends. -/
structure Tidy (t : Tunnel) : Prop where
  dns : Ini.Tidy isWhiteSpace t.dns.toList
  endpoint : Ini.Tidy isWhiteSpace t.endpoint.toList

def ifaceSettings (t : Tunnel) : List Ini.Setting :=
  [("Address".toList, t.address.display.toList), ("PrivateKey".toList, (encodeKey t.privateKey).toList),
    ("ListenPort".toList, "51820".toList), ("DNS".toList, t.dns.toList)]

def peerSettings (t : Tunnel) : List Ini.Setting :=
  [("PublicKey".toList, (encodeKey t.serverKey).toList), ("PresharedKey".toList, (encodeKey t.presharedKey).toList),
    ("AllowedIPs".toList, "0.0.0.0/0, ::/0".toList), ("Endpoint".toList, t.endpoint.toList)]

def groups (t : Tunnel) : List Ini.Group := [⟨"Interface".toList, t.ifaceSettings⟩, ⟨"Peer".toList, t.peerSettings⟩]

variable {t : Tunnel} {peerId : ℕ}

end Tunnel

end TpnWorker
