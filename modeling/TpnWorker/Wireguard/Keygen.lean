import TpnWorker.Lib.Base64
import TpnWorker.Lib.Ipv4
import TpnWorker.Error

/-! WireGuard keys (`src/wireguard/keygen.rs`) and the parts of the key and interface crates that the worker
    relies on. -/

namespace TpnWorker

/-- A key of the WireGuard API: 32 bytes. -/
structure Key where
  bytes : List UInt8
  size : bytes.length = 32
deriving DecidableEq

/-- What the worker takes from crates outside the repository: the x25519 public key of a secret, whether a
    text is accepted as an allowed address (`IpAddrMask::from_str`), and the texts of decoding errors. -/
structure WgApi where
  x25519 : Key → Key
  addrMask : String → Except String Unit
  base64Error : String → String
  keyError : List UInt8 → String

/-- The interface crate accepts the dotted text of an address, alone or with the prefix length 32. -/
structure WgApi.AcceptsAddresses (api : WgApi) : Prop where
  host : ∀ a : Ipv4Addr, api.addrMask a.display = .ok ()
  subnet : ∀ a : Ipv4Addr, api.addrMask (a.display ++ "/32") = .ok ()

/-- The key of 32 equal bytes. -/
def Key.replicate (b : UInt8) : Key := ⟨List.replicate 32 b, rfl⟩

/-- The x25519 public keys of the secrets of 32 ones, twos and threes. -/
def knownPublicKey (secret : Key) : Key :=
  if secret = .replicate 1 then
    ⟨[164, 224, 146, 146, 182, 81, 194, 120, 185, 119, 44, 86, 159, 95, 169, 187, 19, 217, 6, 180, 106, 182, 140,
      157, 249, 220, 43, 68, 9, 248, 162, 9], rfl⟩
  else if secret = .replicate 2 then
    ⟨[206, 141, 58, 209, 204, 182, 51, 236, 123, 112, 193, 120, 20, 165, 199, 110, 205, 2, 150, 133, 5, 13, 52,
      71, 69, 186, 5, 135, 14, 88, 125, 89], rfl⟩
  else if secret = .replicate 3 then
    ⟨[93, 254, 221, 59, 107, 212, 127, 111, 162, 142, 225, 93, 150, 157, 91, 176, 234, 83, 119, 77, 72, 139, 218,
      249, 223, 28, 110, 1, 36, 179, 239, 34], rfl⟩
  else secret

/-- The crates on the inputs of a run that draws those secrets and uses well-formed addresses. -/
def WgApi.known : WgApi := ⟨knownPublicKey, fun _ => .ok (), fun _ => "", fun _ => ""⟩

theorem WgApi.known_acceptsAddresses : WgApi.known.AcceptsAddresses := ⟨fun _ => rfl, fun _ => rfl⟩

/-- A key pair in base64. -/
structure WgKeyPair where
  privateKey : String
  publicKey : String
deriving DecidableEq, Repr

/-- The base64 text of a key. -/
def encodeKey (k : Key) : String := Base64.encode k.bytes

/-- The key that a base64 text stands for, with the two errors that a caller reports. -/
def decodeKey (api : WgApi) (invalid conversion : String) (text : String) : Except AppError Key :=
  match Base64.decode text with
  | none => .error (.internal s!"{invalid}: {api.base64Error text}")
  | some bytes =>
    if h : bytes.length = 32 then .ok ⟨bytes, h⟩ else .error (.internal s!"{conversion}: {api.keyError bytes}")

/-- The key pair of the secret that the random generator drew. -/
def generateKeypair (api : WgApi) (secret : Key) : WgKeyPair :=
  ⟨encodeKey secret, encodeKey (api.x25519 secret)⟩

/-- The text of the preshared key that the random generator drew. -/
def generatePresharedKey (psk : Key) : String := encodeKey psk

/-- The public key of a base64 private key. -/
def publicKeyFromPrivate (api : WgApi) (privateKey : String) : Except String String :=
  match Base64.decode privateKey with
  | none => .error (api.base64Error privateKey)
  | some bytes =>
    if h : bytes.length = 32 then .ok (encodeKey (api.x25519 ⟨bytes, h⟩)) else .error "Invalid private key length"

@[simp] theorem decodeKey_encodeKey (api : WgApi) (invalid conversion : String) (k : Key) :
    decodeKey api invalid conversion (encodeKey k) = .ok k := by
  simp [decodeKey, encodeKey, Base64.decode_encode, k.size]

theorem decodeKey_eq_ok_iff {api : WgApi} {invalid conversion text : String} {key : Key} :
    decodeKey api invalid conversion text = .ok key ↔ Base64.decode text = some key.bytes := by
  rw [decodeKey]
  split
  · next hnone => simp [hnone]
  · next bytes hbytes =>
    rw [hbytes, Option.some_inj]
    split
    · next hsize =>
      rw [Except.ok.injEq]
      exact ⟨fun h => h ▸ rfl, fun h => by cases key; cases h; rfl⟩
    · next hsize =>
      refine iff_of_false (fun h => by cases h) fun h => hsize ?_
      rw [h, key.size]

@[simp] theorem publicKeyFromPrivate_encodeKey (api : WgApi) (secret : Key) :
    publicKeyFromPrivate api (encodeKey secret) = .ok (encodeKey (api.x25519 secret)) := by
  simp [publicKeyFromPrivate, encodeKey, Base64.decode_encode, secret.size]

theorem encodeKey_injective {k k' : Key} (h : encodeKey k = encodeKey k') : k = k' := by
  have hd := Base64.decode_encode k.bytes
  rw [← encodeKey, h, encodeKey, Base64.decode_encode] at hd
  cases k
  cases k'
  cases hd
  rfl

theorem encodeKey_ne_empty (k : Key) : encodeKey k ≠ "" := by
  intro h
  have hd := Base64.decode_encode k.bytes
  rw [← encodeKey, h] at hd
  have hnil : k.bytes = [] := (Option.some.inj hd).symm
  have := k.size
  rw [hnil] at this
  cases this

end TpnWorker
