import TpnWorker.Lib.Ipv6
import TpnWorker.Lib.Session
import TpnWorker.Lib.Utf8
import TpnWorker.Net.Ip
import TpnWorker.Proxy.Credentials

/-! The handshake of the SOCKS5 proxy (`src/proxy/socks5.rs`), up to the connection to the target, and the bytes of a
    conforming client. No write fails, and nothing times out. -/

namespace TpnWorker
open Session

/-- How the handling of a connection fails: the stream ends early, or with a message. -/
inductive ConnectionError where
  | unexpectedEof
  | bail (message : String)
deriving DecidableEq

abbrev Connection (α : Type) := Session ConnectionError UInt8 α

def readU8 : Connection UInt8 := Session.read .unexpectedEof

def readExact (n : ℕ) : Connection (List.Vector UInt8 n) := Session.readExact .unexpectedEof n

def writeAll (bytes : List UInt8) : Connection Unit := Session.write bytes

def bail {α : Type} (message : String) : Connection α := throw (.bail message)

/-- A number of two bytes, the high one first. -/
def readU16 : Connection UInt16 := do
  let hi ← readU8
  let lo ← readU8
  pure (UInt16.ofNat (hi.toNat * 256 + lo.toNat))

def socks5Version : UInt8 := 0x05
def authUsernamePassword : UInt8 := 0x02
def authNoAcceptable : UInt8 := 0xFF
def cmdConnect : UInt8 := 0x01
def atypIpv4 : UInt8 := 0x01
def atypDomain : UInt8 := 0x03
def atypIpv6 : UInt8 := 0x04
def repCommandNotSupported : UInt8 := 0x07
def repAddressTypeNotSupported : UInt8 := 0x08
def authSubnegVersion : UInt8 := 0x01
def authSuccess : UInt8 := 0x00
def authFailure : UInt8 := 0x01

/-- Send a reply with BND.ADDR = 0.0.0.0:0. -/
def sendReply (reply : UInt8) : Connection Unit := writeAll [socks5Version, reply, 0, atypIpv4, 0, 0, 0, 0, 0, 0]

/-- `host:port` -/
def targetText (host : String) (port : UInt16) : String := host ++ ":" ++ String.ofList (Decimal.digits port.toNat)

/-- 1. Greeting -/
def greeting : Connection Unit := do
  let version ← readU8
  if version ≠ socks5Version then bail s!"Invalid SOCKS version: {version}"
  else do
    let nmethods ← readU8
    let methods ← readExact nmethods.toNat
    if authUsernamePassword ∉ methods.val then do
      writeAll [socks5Version, authNoAcceptable]
      bail "Client does not support username/password auth"
    else writeAll [socks5Version, authUsernamePassword]

/-- 2. Authentication (RFC 1929) -/
def authentication (credentials : Credentials) : Connection Unit := do
  let authVersion ← readU8
  if authVersion ≠ authSubnegVersion then bail s!"Invalid auth sub-negotiation version: {authVersion}"
  else do
    let ulen ← readU8
    let username ← readExact ulen.toNat
    let plen ← readU8
    let password ← readExact plen.toNat
    if ¬authenticate credentials (Utf8.lossy username.val) (Utf8.lossy password.val) then do
      writeAll [authSubnegVersion, authFailure]
      bail s!"Authentication failed for user: {Utf8.lossy username.val}"
    else writeAll [authSubnegVersion, authSuccess]

/-- Parse the target address. -/
def targetAddr (atyp : UInt8) : Connection String :=
  if atyp = atypIpv4 then do
    let addr ← readExact 4
    let port ← readU16
    let ip : Ipv4Addr := ⟨addr.get 0, addr.get 1, addr.get 2, addr.get 3⟩
    pure (targetText ip.display port)
  else if atyp = atypDomain then do
    let len ← readU8
    let domain ← readExact len.toNat
    let port ← readU16
    pure (targetText (Utf8.lossy domain.val) port)
  else if atyp = atypIpv6 then do
    let addr ← readExact 16
    let port ← readU16
    let ip : Ipv6Addr := ⟨addr.val, addr.property⟩
    pure (targetText ("[" ++ ip.display ++ "]") port)
  else do
    sendReply repAddressTypeNotSupported
    bail s!"Unsupported address type: {atyp}"

/-- 3. Request -/
def request : Connection String := do
  let ver ← readU8
  if ver ≠ socks5Version then bail s!"Invalid SOCKS version in request: {ver}"
  else do
    let cmd ← readU8
    let _rsv ← readU8
    let atyp ← readU8
    if cmd ≠ cmdConnect then do
      sendReply repCommandNotSupported
      bail s!"Unsupported command: {cmd}"
    else targetAddr atyp

def login (credentials : Credentials) : Connection Unit := do
  greeting
  authentication credentials

/-- Greeting, authentication and request; the result is the address to connect to. -/
def handshake (credentials : Credentials) : Connection String := do
  login credentials
  request

/-! ### The bytes of a client -/

/-- A field that its length in one byte precedes. -/
structure ShortField where
  bytes : List UInt8
  length_le : bytes.length ≤ 255
deriving DecidableEq

def ShortField.encode (f : ShortField) : List UInt8 := UInt8.ofNat f.bytes.length :: f.bytes

theorem ShortField.toNat_length (f : ShortField) : (UInt8.ofNat f.bytes.length).toNat = f.bytes.length :=
  UInt8.toNat_ofNat_of_lt (Nat.lt_succ_of_le f.length_le)

/-- A field ends where its length says. -/
theorem ShortField.encode_append_inj {f g : ShortField} {a b : List UInt8} (h : f.encode ++ a = g.encode ++ b) :
    f = g ∧ a = b := by
  obtain ⟨hlength, h⟩ := List.cons.inj h
  have hlen : f.bytes.length = g.bytes.length := by rw [← f.toNat_length, ← g.toNat_length, hlength]
  obtain ⟨hbytes, hrest⟩ := List.append_inj h hlen
  cases f
  cases g
  cases hbytes
  exact ⟨rfl, hrest⟩

/-- The text that the field stands for. -/
def ShortField.text (f : ShortField) : String := Utf8.lossy f.bytes

/-- The three forms of a target address. -/
inductive TargetHost where
  | ipv4 (addr : Ipv4Addr)
  | domain (name : ShortField)
  | ipv6 (addr : Ipv6Addr)
deriving DecidableEq

namespace TargetHost

def atyp : TargetHost → UInt8
  | ipv4 _ => atypIpv4
  | domain _ => atypDomain
  | ipv6 _ => atypIpv6

/-- The type of the address and the address. -/
def encode : TargetHost → List UInt8
  | ipv4 addr => atypIpv4 :: addr.octets
  | domain name => atypDomain :: name.encode
  | ipv6 addr => atypIpv6 :: addr.octets

def text : TargetHost → String
  | ipv4 addr => addr.display
  | domain name => name.text
  | ipv6 addr => "[" ++ addr.display ++ "]"

end TargetHost

/-- What a client asks for. -/
structure Destination where
  host : TargetHost
  port : UInt16
deriving DecidableEq

namespace Destination

def encode (d : Destination) : List UInt8 :=
  d.host.encode ++ [UInt8.ofNat (d.port.toNat / 256), UInt8.ofNat (d.port.toNat % 256)]

def text (d : Destination) : String := targetText d.host.text d.port

/-- A target text ends with the port, after its last colon. -/
theorem targetText_inj {host host' : String} {port port' : UInt16} (h : targetText host port = targetText host' port') :
    host = host' ∧ port = port' := by
  have hlist : ∀ (host : String) (port : UInt16), (targetText host port).toList.reverse =
      (Decimal.digits port.toNat).reverse ++ ':' :: host.toList.reverse := by
    intro host port
    simp [targetText]
  have hcolon : ∀ port : UInt16, ':' ∉ (Decimal.digits port.toNat).reverse := by
    intro port hmem
    have hdigit := Nat.isDigit_of_mem_toDigits (by decide) (by decide) (List.mem_reverse.mp hmem)
    exact absurd hdigit (by decide)
  have hrev := congrArg (fun text => text.toList.reverse) h
  simp only [hlist] at hrev
  obtain ⟨hport, hhost⟩ := List.append_sep_inj (hcolon port) (hcolon port') hrev
  have hread := Decimal.readDigits_digits port.toNat
  rw [List.reverse_inj.mp hport, Decimal.readDigits_digits] at hread
  exact ⟨String.toList_inj.mp (List.reverse_inj.mp hhost), UInt16.toNat_inj.mp (Option.some.inj hread).symm⟩

/-- A numeric address can be read off the text. -/
theorem text_inj {d d' : Destination} (hd : d.host.atyp ≠ atypDomain) (hd' : d'.host.atyp ≠ atypDomain)
    (h : d.text = d'.text) : d = d' := by
  obtain ⟨host, port⟩ := d
  obtain ⟨host', port'⟩ := d'
  obtain ⟨hhost, rfl⟩ := targetText_inj h
  have hbracket : ∀ (v4 : Ipv4Addr) (v6 : Ipv6Addr), v4.display ≠ "[" ++ v6.display ++ "]" := by
    intro v4 v6 heq
    obtain ⟨c, cs, hcs, hc⟩ := (display_head : ∃ c cs, v4.display.toList = c :: cs ∧ _)
    rw [heq, String.append_assoc, String.toList_append] at hcs
    cases (List.cons.inj hcs).1
    exact absurd hc (by decide)
  cases host with
  | domain name => exact absurd rfl hd
  | ipv4 addr =>
    cases host' with
    | domain name => exact absurd rfl hd'
    | ipv4 addr' => rw [Ipv4Addr.display_injective hhost]
    | ipv6 addr' => exact absurd hhost (hbracket addr addr')
  | ipv6 addr =>
    cases host' with
    | domain name => exact absurd rfl hd'
    | ipv4 addr' => exact absurd hhost.symm (hbracket addr' addr)
    | ipv6 addr' =>
      have hdisplay : addr.display = addr'.display := by
        simpa [TargetHost.text, String.append_assoc, String.append_right_inj, String.append_left_inj] using hhost
      rw [Ipv6Addr.display_injective hdisplay]

end Destination

/-- A client that offers its methods, password authentication among them, and presents a username and a password. -/
structure SocksClient where
  methods : ShortField
  username : ShortField
  password : ShortField
  offers : authUsernamePassword ∈ methods.bytes

namespace SocksClient

/-- The greeting and the authentication. -/
def encode (c : SocksClient) : List UInt8 :=
  socks5Version :: c.methods.encode ++ authSubnegVersion :: c.username.encode ++ c.password.encode

/-- The greeting and the authentication of a client end where its lengths say. -/
theorem encode_append_inj {c d : SocksClient} {a b : List UInt8} (h : c.encode ++ a = d.encode ++ b) : c = d ∧ a = b := by
  have hassoc : ∀ (c : SocksClient) (a : List UInt8), c.encode ++ a =
      socks5Version :: (c.methods.encode ++ authSubnegVersion :: (c.username.encode ++ (c.password.encode ++ a))) := by
    intro c a
    simp [encode]
  rw [hassoc, hassoc] at h
  obtain ⟨hmethods, h⟩ := ShortField.encode_append_inj (List.cons.inj h).2
  obtain ⟨husername, h⟩ := ShortField.encode_append_inj (List.cons.inj h).2
  obtain ⟨hpassword, hrest⟩ := ShortField.encode_append_inj h
  cases c
  cases d
  cases hmethods
  cases husername
  cases hpassword
  exact ⟨rfl, hrest⟩

def Authenticated (c : SocksClient) (credentials : Credentials) : Prop :=
  authenticate credentials c.username.text c.password.text = true

end SocksClient

/-- The request for a destination, with any reserved byte. -/
def requestBytes (rsv : UInt8) (d : Destination) : List UInt8 := socks5Version :: cmdConnect :: rsv :: d.encode

/-! ### What the handshake accepts -/

section Accepts
variable {α : Type} {credentials : Credentials}

theorem bail_rejects (message : String) : Rejects (bail message : Connection α) := rejects_throw _

/-- A length byte and as many bytes are a field. -/
theorem accepts_field {f : UInt8 → List UInt8 → Connection α} {R : List UInt8 → α → List UInt8 → List UInt8 → Prop}
    (hf : ∀ n l, Accepts (f n l) (R l)) :
    Accepts (readU8 >>= fun n => readExact n.toNat >>= fun l => f n l.val) fun a r w =>
      ∃ (field : ShortField) (r' : List UInt8), r = field.encode ++ r' ∧ R field.bytes a r' w := by
  refine Accepts.congr (.read_bind fun n => .readExact_bind fun l => hf n l.val) fun a r w => ?_
  constructor
  · rintro ⟨n, _, rfl, ⟨l, hl⟩, r, rfl, hR⟩
    have hlt := n.toNat_lt
    have hn : UInt8.ofNat l.length = n := by rw [hl, UInt8.ofNat_toNat]
    exact ⟨⟨l, by omega⟩, r, by simp [ShortField.encode, hn], hR⟩
  · rintro ⟨field, r, rfl, hR⟩
    exact ⟨_, _, rfl, ⟨field.bytes, field.toNat_length.symm⟩, r, rfl, hR⟩

theorem accepts_greeting : Accepts greeting fun _ r w => ∃ methods : ShortField,
    authUsernamePassword ∈ methods.bytes ∧ r = socks5Version :: methods.encode ∧
      w = [socks5Version, authUsernamePassword] := by
  have hmethods : ∀ n : UInt8, ∀ methods : List UInt8, Accepts (if authUsernamePassword ∉ methods then do
      writeAll [socks5Version, authNoAcceptable]
      bail "Client does not support username/password auth"
    else writeAll [socks5Version, authUsernamePassword]) _ := fun n methods =>
    .unless (.write_bind (bail_rejects _)) (accepts_write _)
  refine Accepts.congr (.read_bind fun version => .unless (bail_rejects _) (accepts_field hmethods)) fun _ r w => ?_
  constructor
  · rintro ⟨version, _, rfl, hversion, methods, _, rfl, hmem, rfl, rfl⟩
    rw [not_not.mp hversion, List.append_nil]
    exact ⟨methods, not_not.mp hmem, rfl, rfl⟩
  · rintro ⟨methods, hmem, rfl, rfl⟩
    exact ⟨_, _, rfl, not_not.mpr rfl, methods, [], (List.append_nil _).symm, not_not.mpr hmem, rfl, rfl⟩

theorem accepts_authentication : Accepts (authentication credentials) fun _ r w => ∃ username password : ShortField,
    authenticate credentials username.text password.text = true ∧
      r = authSubnegVersion :: username.encode ++ password.encode ∧ w = [authSubnegVersion, authSuccess] := by
  have hcheck : ∀ username password : List UInt8,
      Accepts (if ¬authenticate credentials (Utf8.lossy username) (Utf8.lossy password) then do
        writeAll [authSubnegVersion, authFailure]
        bail s!"Authentication failed for user: {Utf8.lossy username}"
      else writeAll [authSubnegVersion, authSuccess]) _ := fun username password =>
    .unless (.write_bind (bail_rejects _)) (accepts_write _)
  refine Accepts.congr (.read_bind fun version => .unless (bail_rejects _)
    (accepts_field fun _ username => accepts_field fun _ password => hcheck username password)) fun _ r w => ?_
  constructor
  · rintro ⟨version, _, rfl, hversion, username, _, rfl, password, _, rfl, hauth, rfl, rfl⟩
    rw [not_not.mp hversion, List.append_nil]
    exact ⟨username, password, not_not.mp hauth, rfl, rfl⟩
  · rintro ⟨username, password, hauth, rfl, rfl⟩
    refine ⟨_, _, rfl, not_not.mpr rfl, username, _, rfl, password, [], ?_, not_not.mpr hauth, rfl, rfl⟩
    rw [List.append_nil]

theorem port_eq_iff {port : UInt16} {hi lo : UInt8} : port = UInt16.ofNat (hi.toNat * 256 + lo.toNat) ↔
    hi = UInt8.ofNat (port.toNat / 256) ∧ lo = UInt8.ofNat (port.toNat % 256) := by
  have hhi := hi.toNat_lt
  have hlo := lo.toNat_lt
  have hport := port.toNat_lt
  rw [← UInt16.toNat_inj, ← UInt8.toNat_inj, ← UInt8.toNat_inj, UInt16.toNat_ofNat', UInt8.toNat_ofNat',
    UInt8.toNat_ofNat']
  omega

theorem accepts_port {text : UInt16 → String} : Accepts (do let port ← readU16; pure (text port)) fun target r w =>
    ∃ port : UInt16, target = text port ∧ r = [UInt8.ofNat (port.toNat / 256), UInt8.ofNat (port.toNat % 256)] ∧
      w = [] := by
  refine Accepts.congr (.bind (.read_bind fun hi => .read_bind fun lo => accepts_pure _) fun port => accepts_pure _)
    fun target r w => ?_
  constructor
  · rintro ⟨port, _, _, _, _, ⟨hi, _, rfl, lo, _, rfl, hport, rfl, rfl⟩, ⟨rfl, rfl, rfl⟩, rfl, rfl⟩
    obtain ⟨rfl, rfl⟩ := port_eq_iff.mp hport
    exact ⟨port, rfl, rfl, rfl⟩
  · rintro ⟨port, rfl, rfl, rfl⟩
    exact ⟨port, _, [], [], [], ⟨_, _, rfl, _, _, rfl, port_eq_iff.mpr ⟨rfl, rfl⟩, rfl, rfl⟩, ⟨rfl, rfl, rfl⟩, rfl, rfl⟩

theorem accepts_ipv4 : Accepts (targetAddr atypIpv4) fun target r w => ∃ (addr : Ipv4Addr) (port : UInt16),
    target = Destination.text ⟨.ipv4 addr, port⟩ ∧ atypIpv4 :: r = Destination.encode ⟨.ipv4 addr, port⟩ ∧ w = [] := by
  rw [targetAddr, if_pos rfl]
  refine Accepts.congr (.readExact_bind fun addr => accepts_port) fun target r w => ?_
  constructor
  · rintro ⟨⟨addr, haddr⟩, _, rfl, port, rfl, rfl, rfl⟩
    obtain ⟨a, b, c, d, rfl⟩ := List.length_eq_four.mp haddr
    exact ⟨⟨a, b, c, d⟩, port, rfl, rfl, rfl⟩
  · rintro ⟨addr, port, rfl, hr, rfl⟩
    obtain rfl := (List.cons.inj hr).2
    exact ⟨⟨addr.octets, rfl⟩, _, rfl, port, rfl, rfl, rfl⟩

theorem accepts_domain : Accepts (targetAddr atypDomain) fun target r w => ∃ (name : ShortField) (port : UInt16),
    target = Destination.text ⟨.domain name, port⟩ ∧ atypDomain :: r = Destination.encode ⟨.domain name, port⟩ ∧
      w = [] := by
  rw [targetAddr, if_neg (by decide), if_pos rfl]
  have hname : ∀ (_ : UInt8) (name : List UInt8), Accepts (do
      let port ← readU16
      pure (targetText (Utf8.lossy name) port)) _ := fun _ name => accepts_port
  refine Accepts.congr (accepts_field hname) fun target r w => ?_
  constructor
  · rintro ⟨name, _, rfl, port, rfl, rfl, rfl⟩
    exact ⟨name, port, rfl, rfl, rfl⟩
  · rintro ⟨name, port, rfl, hr, rfl⟩
    obtain rfl := (List.cons.inj hr).2
    exact ⟨name, _, rfl, port, rfl, rfl, rfl⟩

theorem accepts_ipv6 : Accepts (targetAddr atypIpv6) fun target r w => ∃ (addr : Ipv6Addr) (port : UInt16),
    target = Destination.text ⟨.ipv6 addr, port⟩ ∧ atypIpv6 :: r = Destination.encode ⟨.ipv6 addr, port⟩ ∧ w = [] := by
  rw [targetAddr, if_neg (by decide), if_neg (by decide), if_pos rfl]
  refine Accepts.congr (.readExact_bind fun addr => accepts_port) fun target r w => ?_
  constructor
  · rintro ⟨⟨addr, haddr⟩, _, rfl, port, rfl, rfl, rfl⟩
    exact ⟨⟨addr, haddr⟩, port, rfl, rfl, rfl⟩
  · rintro ⟨addr, port, rfl, hr, rfl⟩
    obtain rfl := (List.cons.inj hr).2
    exact ⟨⟨addr.octets, addr.size⟩, _, rfl, port, rfl, rfl, rfl⟩

/-- The address type chooses one of the three forms, or none. -/
theorem accepts_targetAddr (atyp : UInt8) : Accepts (targetAddr atyp) fun target r w =>
    ∃ d : Destination, target = d.text ∧ atyp :: r = d.encode ∧ w = [] := by
  by_cases h₁ : atyp = atypIpv4
  · subst h₁
    refine accepts_ipv4.congr fun target r w => ⟨fun ⟨addr, port, h⟩ => ⟨_, h⟩, ?_⟩
    rintro ⟨⟨_ | _ | _, port⟩, htext, hr, hw⟩
    · exact ⟨_, _, htext, hr, hw⟩
    · cases (List.cons.inj hr).1
    · cases (List.cons.inj hr).1
  by_cases h₂ : atyp = atypDomain
  · subst h₂
    refine accepts_domain.congr fun target r w => ⟨fun ⟨name, port, h⟩ => ⟨_, h⟩, ?_⟩
    rintro ⟨⟨_ | _ | _, port⟩, htext, hr, hw⟩
    · cases (List.cons.inj hr).1
    · exact ⟨_, _, htext, hr, hw⟩
    · cases (List.cons.inj hr).1
  by_cases h₃ : atyp = atypIpv6
  · subst h₃
    refine accepts_ipv6.congr fun target r w => ⟨fun ⟨addr, port, h⟩ => ⟨_, h⟩, ?_⟩
    rintro ⟨⟨_ | _ | _, port⟩, htext, hr, hw⟩
    · cases (List.cons.inj hr).1
    · cases (List.cons.inj hr).1
    · exact ⟨_, _, htext, hr, hw⟩
  have hnone : Rejects (targetAddr atyp) := by
    rw [targetAddr, if_neg h₁, if_neg h₂, if_neg h₃]
    exact .write_bind (bail_rejects _)
  refine hnone.accepts.congr fun target r w => iff_of_false id ?_
  rintro ⟨⟨_ | _ | _, port⟩, -, hr, -⟩
  · exact h₁ (List.cons.inj hr).1
  · exact h₂ (List.cons.inj hr).1
  · exact h₃ (List.cons.inj hr).1

theorem accepts_request : Accepts request fun target r w => ∃ (rsv : UInt8) (d : Destination),
    target = d.text ∧ r = requestBytes rsv d ∧ w = [] := by
  refine Accepts.congr (.read_bind fun ver => .unless (bail_rejects _) (.read_bind fun cmd => .read_bind fun rsv =>
    .read_bind fun atyp => .unless (.write_bind (bail_rejects _)) (accepts_targetAddr atyp))) fun target r w => ?_
  constructor
  · rintro ⟨ver, _, rfl, hver, cmd, _, rfl, rsv, _, rfl, atyp, _, rfl, hcmd, d, rfl, hd, rfl⟩
    rw [not_not.mp hver, not_not.mp hcmd, hd]
    exact ⟨rsv, d, rfl, rfl, rfl⟩
  · rintro ⟨rsv, d, rfl, rfl, rfl⟩
    obtain ⟨atyp, tail, hd⟩ : ∃ atyp tail, d.encode = atyp :: tail := by
      obtain ⟨_ | _ | _, port⟩ := d <;> exact ⟨_, _, rfl⟩
    rw [requestBytes, hd]
    exact ⟨_, _, rfl, not_not.mpr rfl, _, _, rfl, rsv, _, rfl, atyp, tail, rfl, not_not.mpr rfl, d, rfl, hd.symm, rfl⟩

theorem accepts_login : Accepts (login credentials) fun _ r w => ∃ client : SocksClient,
    client.Authenticated credentials ∧ r = client.encode ∧
      w = [socks5Version, authUsernamePassword, authSubnegVersion, authSuccess] := by
  refine Accepts.congr (.bind accepts_greeting fun _ => accepts_authentication) fun _ r w => ?_
  constructor
  · rintro ⟨-, _, _, _, _, ⟨methods, hmem, rfl, rfl⟩, ⟨username, password, hauth, rfl, rfl⟩, rfl, rfl⟩
    exact ⟨⟨methods, username, password, hmem⟩, hauth, by simp [SocksClient.encode], rfl⟩
  · rintro ⟨⟨methods, username, password, hmem⟩, hauth, rfl, rfl⟩
    exact ⟨(), _, _, _, _, ⟨methods, hmem, rfl, rfl⟩, ⟨username, password, hauth, rfl, rfl⟩,
      by simp [SocksClient.encode], rfl⟩

/-- A client passes if the store accepts its pair. -/
theorem login_encode_iff {client : SocksClient} {rest sent : List UInt8} :
    (∃ t, login credentials ⟨client.encode ++ rest, sent⟩ = .ok () t) ↔ client.Authenticated credentials := by
  constructor
  · rintro ⟨t, h⟩
    obtain ⟨_, _, ⟨client', hauth, rfl, -⟩, hunread, -⟩ := (accepts_login _ _ _).mp h
    obtain ⟨rfl, -⟩ := SocksClient.encode_append_inj hunread
    exact hauth
  · exact fun hauth => ⟨⟨rest, _⟩, (accepts_login _ _ _).mpr ⟨_, _, ⟨client, hauth, rfl, rfl⟩, rfl, rfl⟩⟩

end Accepts

end TpnWorker
