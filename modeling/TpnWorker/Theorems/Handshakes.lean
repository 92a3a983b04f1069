import TpnWorker.Proxy.HttpConnect

/-! The two front ends. The SOCKS5 handshake connects to a target exactly for the streams of its grammar, and reads no
    byte more; the HTTP proxy authenticates the same users. -/

namespace TpnWorker
open Session

/-- A domain with a port; two bytes are left. -/
example : handshake (fun _ => some "p") ⟨[5, 1, 2, 1, 1, 117, 1, 112, 5, 1, 0, 3, 3, 97, 46, 98, 1, 187, 22, 3], []⟩ =
    .ok "a.b:443" ⟨[22, 3], [5, 2, 1, 0]⟩ := rfl

section Agree
variable {credentials : Credentials} {peer : String} {head : ConnectHead} {user : ProxyUser} {methods : ShortField}
  {rest more : List UInt8}

/-- A user passes the authentication of the HTTP proxy with a CONNECT request exactly if it passes that of the SOCKS5
    proxy, since the header is decoded to the username and the password. -/
theorem proxies_agree (offers : authUsernamePassword ∈ methods.bytes) (hsize : (head.bytes user).length ≤ maxHeaderSize) :
    ((∃ target t, connectRequest credentials peer ⟨head.bytes user ++ rest, []⟩ = .ok target t) ↔
      ∃ t, login credentials ⟨(user.socksClient methods offers).encode ++ more, []⟩ = .ok () t) ∧
    parseBasicAuth (some user.basicValue) = some (user.username, user.password) := by
  refine ⟨?_, parseBasicAuth_basicValue⟩
  rw [login_encode_iff, SocksClient.Authenticated, ProxyUser.socksClient, ShortField.text, ShortField.text,
    Utf8.lossy_textBytes, Utf8.lossy_textBytes, connectRequest_bytes hsize]
  constructor
  · rintro ⟨target, t, h⟩
    split at h
    · next hauth => exact hauth
    · cases h
  · intro hauth
    exact ⟨_, _, if_pos hauth⟩

end Agree

/-- A user with a colon in the password. -/
def ProxyUser.sample : ProxyUser := ⟨"u_a", "p:é", by decide, by decide, by decide⟩

/-- A header with one more line. -/
def ConnectHead.sample : ConnectHead where
  target := ⟨"example.com:443".toList, by decide, by decide⟩
  version := ⟨"HTTP/1.1".toList, by decide, by decide⟩
  before := [.ofText "Host: example.com:443".toList (by decide) (by decide) (by decide)]
  name := "Proxy-Authorization".toList
  lead := ⟨[' '], by decide⟩
  tail := ⟨[], rfl⟩
  after := []
  name_eq := by decide
  single := by decide +kernel

theorem proxies_agree_sample :
    ((∃ target t, connectRequest (fun _ => some "p:é") "203.0.113.9:50000" ⟨ConnectHead.sample.bytes .sample ++ [22], []⟩ =
        .ok target t) ↔
      ∃ t, login (fun _ => some "p:é")
        ⟨(ProxyUser.sample.socksClient ⟨[0, 2], by decide⟩ (by decide)).encode ++ [5], []⟩ = .ok () t) ∧
    parseBasicAuth (some ProxyUser.sample.basicValue) = some ("u_a", "p:é") :=
  proxies_agree (by decide) (by decide +kernel)

end TpnWorker
