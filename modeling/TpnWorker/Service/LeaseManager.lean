import TpnWorker.Db.Socks5
import TpnWorker.Wireguard.PeerManager

/-! Leases of both kinds (`src/service/lease_manager.rs`): a new allocation, or the extension of a lease that the
    caller names by its reference and its expiry. A call runs to completion; the clock values, the drawn
    values and the outcomes of the calls that can fail are its arguments. -/

namespace TpnWorker

/-- Result of a lease allocation or extension. -/
structure LeaseResult where
  configText : Option String
  configJson : Option Json
  leaseRef : String
  leaseExpiresAt : Int

/-- The two lease tables, the `peers` map and the interface. -/
structure Stores extends WgState where
  socks : Socks5Table

/-- What a worker has for as long as it runs. -/
structure Worker where
  api : WgApi
  config : AppConfig
  wgServer : Option WireGuardServer

structure LeaseRequest where
  leaseType : String
  leaseSeconds : Int
  priority : Bool
  format : String
  extendRef : Option String
  extendExpiresAt : Option Int

/-- What one call meets: the clock of the new expiry and of the extension's UPDATE, the outcomes of the UPDATE
    and of the SELECT after it, and what an allocation meets. -/
structure LeaseEnv where
  nowMs : Int
  updateMs : Int
  nowStr : String
  update : Except String Unit
  read : Except String Unit
  allocate : AllocateEnv
  cleanupMs : Int
  socks : Socks5Env

/-- What a call at `nowMs` meets that succeeds and draws the secret of 32 bytes `b`. -/
def LeaseEnv.sample (nowMs : Int) (b : UInt8) : LeaseEnv :=
  ⟨nowMs, nowMs, "", .ok (), .ok (), ⟨nowMs, "", .replicate b, .replicate 7, .ok (), .ok (), .ok ()⟩, nowMs,
    ⟨nowMs, nowMs, 0⟩⟩

/-- `now + lease_seconds * 1000` in 64-bit arithmetic. -/
def newExpiresAt (nowMs leaseSeconds : Int) : Int := Wrap.i64 (nowMs + Wrap.i64 (leaseSeconds * 1000))

/-- `FromStr` of an i32. -/
def parseI32 (text : String) : Option Int := Decimal.parseSigned (-2147483648) 2147483647 text

def formatPeerConfig (cfg : PeerConfig) (format : String) : Option String × Option Json :=
  if format = "text" then (some cfg.toText, none) else (none, some cfg.toJson)

def formatSocks5Config (sock : Socks5Config) (format : String) : Option String × Option Json :=
  if format = "text" then
    (some s!"socks5://{sock.username}:{sock.password}@{sock.ipAddress}:{Decimal.display sock.port}", none)
  else
    (none, some (.obj [("username", .str sock.username), ("password", .str sock.password),
      ("ip_address", .str sock.ipAddress), ("port", .num sock.port)]))

def peerResult (cfg : PeerConfig) (format : String) (peerId expiresAt : Int) : LeaseResult :=
  let (configText, configJson) := formatPeerConfig cfg format
  ⟨configText, configJson, Decimal.display peerId, expiresAt⟩

def socks5Result (sock : Socks5Config) (format leaseRef : String) (expiresAt : Int) : LeaseResult :=
  let (configText, configJson) := formatSocks5Config sock format
  ⟨configText, configJson, leaseRef, expiresAt⟩

def serverNotAvailable : AppError := .internal "WireGuard server not available"

theorem eq_ok_of_mem_toOption {ε α β : Type} {x : Except ε α × β} {a : α} (h : a ∈ x.1.toOption) : x = (.ok a, x.2) := by
  obtain ⟨_ | b, y⟩ := x
  · cases h
  · cases h
    rfl

/-! ### Extensions -/

/-- The extension of a WireGuard lease: the row is updated before the server and its map are consulted. -/
def extendWireguard (W : Worker) (s : Stores) (req : LeaseRequest) (ref : String) (expected : Int) (env : LeaseEnv) :
    Except AppError LeaseResult × Stores :=
  match parseI32 ref with
  | none => (.error (.validation "Invalid extend_ref for wireguard: must be numeric"), s)
  | some peerId =>
    match env.update with
    | .error e => (.error (.db e), s)
    | .ok () =>
      match extendWireguardLease s.table peerId expected (newExpiresAt env.nowMs req.leaseSeconds) env.updateMs
          env.nowStr with
      | (.error e, table) => (.error e, { s with table })
      | (.ok lease, table) =>
        match W.wgServer with
        | none => (.error serverNotAvailable, { s with table })
        | some srv =>
          match getClientConfig srv s.peers (Wrap.asU16 peerId) with
          | .error e => (.error e, { s with table })
          | .ok cfg => (.ok (peerResult cfg req.format peerId lease.expiresAt), { s with table })

/-- The extension of a SOCKS5 lease, followed by a SELECT of its row. -/
def extendSocks5 (s : Stores) (req : LeaseRequest) (ref : String) (expected : Int) (env : LeaseEnv) :
    Except AppError LeaseResult × Stores :=
  match env.update with
  | .error e => (.error (.db e), s)
  | .ok () =>
    match extendSocks5Lease s.socks ref expected (newExpiresAt env.nowMs req.leaseSeconds) env.updateMs with
    | (.error e, socks) => (.error e, { s with socks })
    | (.ok lease, socks) =>
      match env.read with
      | .error e => (.error (.db e), { s with socks })
      | .ok () =>
        match readSocks5ConfigByUsername socks ref with
        | none => (.error (.internal s!"SOCKS5 config not found for {ref} after extension"), { s with socks })
        | some sock => (.ok (socks5Result sock req.format ref lease.expiresAt), { s with socks })

/-! ### Allocations -/

/-- The answer of a worker without a WireGuard container. -/
def mockResult (peerId expiresAt : Int) : LeaseResult where
  configText := some <| "[Interface]\nAddress = 10.0.0.2/32\nPrivateKey = mock\nDNS = 1.1.1.1\n\n[Peer]\n" ++
    "PublicKey = mock\nPresharedKey = mock\nAllowedIPs = 0.0.0.0/0, ::/0\nEndpoint = 127.0.0.1:51820"
  configJson := some (.obj
    [("interface", .obj [("Address", .str "10.0.0.2/32"), ("PrivateKey", .str "mock"), ("DNS", .str "1.1.1.1")]),
      ("peer", .obj [("PublicKey", .str "mock"), ("PresharedKey", .str "mock"), ("AllowedIPs", .str "0.0.0.0/0, ::/0"),
        ("Endpoint", .str "127.0.0.1:51820")])])
  leaseRef := Decimal.display peerId
  leaseExpiresAt := expiresAt

/-- Allocate a new WireGuard lease. -/
def allocateWireguard (W : Worker) (s : Stores) (req : LeaseRequest) (env : LeaseEnv) :
    Except AppError LeaseResult × Stores :=
  let range := PeerRange.ofConfig W.config
  let expiresAt := newExpiresAt env.nowMs req.leaseSeconds
  if W.config.ciMockWgContainer then
    match registerWireguardLease s.table range.startId range.endId expiresAt env.allocate.purgeMs env.allocate.nowStr with
    | (.error e, table) => (.error e, { s with table })
    | (.ok lease, table) => (.ok (mockResult lease.peerId expiresAt), { s with table })
  else
    match W.wgServer with
    | none => (.error serverNotAvailable, s)
    | some srv =>
      match allocatePeer W.api srv s.toWgState range.startId range.endId expiresAt env.allocate with
      | (.error e, wg) => (.error e, { s with toWgState := wg })
      | (.ok allocation, wg) =>
        (.ok (peerResult allocation.peerConfig req.format allocation.peerId allocation.expiresAt), { s with toWgState := wg })

/-- Allocate a new SOCKS5 lease; an exclusive one only if a slot is available, after a cleanup if need be. -/
def allocateSocks5 (W : Worker) (s : Stores) (req : LeaseRequest) (env : LeaseEnv) :
    Except AppError LeaseResult × Stores :=
  let expiresAt := newExpiresAt env.nowMs req.leaseSeconds
  let slots := W.config.prioritySlots
  let socks :=
    if !req.priority && countAvailableSocks s.socks slots = 0 then (cleanupExpiredSocks5Configs s.socks env.cleanupMs).2
    else s.socks
  if !req.priority && countAvailableSocks socks slots = 0 then
    (.error (.leaseUnavailable "No available SOCKS5 slots after cleanup"), { s with socks })
  else
    match getSocks5Config socks expiresAt req.priority slots env.socks with
    | (.error e, socks) => (.error e, { s with socks })
    | (.ok sock, socks) => (.ok (socks5Result sock req.format sock.username expiresAt), { s with socks })

/-- Get a worker VPN config: new allocation or extension. -/
def getWorkerConfig (W : Worker) (s : Stores) (req : LeaseRequest) (env : LeaseEnv) :
    Except AppError LeaseResult × Stores :=
  match req.extendRef with
  | some ref =>
    match req.extendExpiresAt with
    | none => (.error (.validation "extend_expires_at is required when extend_ref is provided"), s)
    | some expected =>
      if req.leaseType = "wireguard" then extendWireguard W s req ref expected env
      else if req.leaseType = "socks5" then extendSocks5 s req ref expected env
      else (.error (.validation s!"Unsupported type for lease extension: {req.leaseType}"), s)
  | none =>
    if req.leaseType = "wireguard" then allocateWireguard W s req env
    else if req.leaseType = "socks5" then allocateSocks5 W s req env
    else (.error (.validation s!"Invalid type: {req.leaseType}. Must be one of 'wireguard', 'socks5'"), s)

/-! ### Extensions that succeed -/

section Extension
variable {W : Worker} {s s' : Stores} {req : LeaseRequest} {ref : String} {expected : Int} {env : LeaseEnv}
  {result : LeaseResult}

/-- The row that the reference names had the expected expiry and has the new one, and so has the answer. -/
theorem extendWireguard_eq_ok (h : extendWireguard W s req ref expected env = (.ok result, s')) :
    ∃ peerId r, parseI32 ref = some peerId ∧ s.table.get? peerId = some r ∧ r.expiresAt = expected ∧
      env.updateMs < r.expiresAt ∧ result.leaseRef = Decimal.display peerId ∧
      result.leaseExpiresAt = newExpiresAt env.nowMs req.leaseSeconds ∧
      s'.table.get? peerId =
        some { r with expiresAt := newExpiresAt env.nowMs req.leaseSeconds, updatedAt := env.nowStr } := by
  simp only [extendWireguard] at h
  split at h
  · cases h
  · next peerId hparse =>
    split at h
    · cases h
    · split at h
      · cases h
      · next lease table hext =>
        obtain ⟨r, hr, hexp, hlt, rfl, hget⟩ := extendWireguardLease_ok hext
        have hrow := (hget peerId).trans (if_pos rfl)
        split at h
        · cases h
        · split at h
          · cases h
          · cases h
            exact ⟨peerId, r, hparse, hr, hexp, hlt, rfl, rfl, hrow⟩

theorem extendSocks5_eq_ok (h : extendSocks5 s req ref expected env = (.ok result, s')) :
    ∃ r r', readSocks5ConfigByUsername s.socks ref = some r ∧ r.expiresAt = expected ∧ env.updateMs < r.expiresAt ∧
      result.leaseRef = ref ∧ result.leaseExpiresAt = newExpiresAt env.nowMs req.leaseSeconds ∧
      readSocks5ConfigByUsername s'.socks ref = some r' ∧ r'.expiresAt = newExpiresAt env.nowMs req.leaseSeconds := by
  simp only [extendSocks5] at h
  split at h
  · cases h
  · split at h
    · cases h
    · next lease socks hext =>
      obtain ⟨r, hr, hexp, hlt, rfl, rfl⟩ := extendSocks5Lease_ok hext
      have hmatch : socks5ExtensionMatches ref expected env.updateMs r = true :=
        decide_eq_true ⟨(Socks5Table.read_eq_some_iff.mp hr).2, hexp, hlt⟩
      split at h
      · cases h
      · split at h
        · cases h
        · cases h
          refine ⟨r, _, hr, hexp, hlt, rfl, rfl, Socks5Table.read_updateWhere_of hr, ?_⟩
          rw [if_pos hmatch]
          rfl

end Extension

end TpnWorker
