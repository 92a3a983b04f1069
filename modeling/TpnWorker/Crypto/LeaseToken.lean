import TpnWorker.Lib.Base64

/-! Lease tokens (`src/crypto/lease_token.rs`): the HMAC of the lease reference under the worker's secret. The
    HMAC itself is an argument. -/

namespace TpnWorker

/-- HMAC-SHA256 of a key and a message. -/
abbrev Hmac := List UInt8 → List UInt8 → List UInt8

/-- Sign a lease reference. -/
def signLeaseToken (hmac : Hmac) (leaseRef secret : String) : String :=
  Base64.encodeUrlNoPad (hmac (textBytes secret) (textBytes leaseRef))

/-- Verify a lease token, by a comparison of the bytes. -/
def verifyLeaseToken (hmac : Hmac) (leaseRef token secret : String) : Bool :=
  decide (textBytes (signLeaseToken hmac leaseRef secret) = textBytes token)

/-- The one token that verifies for a reference is its signature. -/
theorem verifyLeaseToken_iff {hmac : Hmac} {leaseRef token secret : String} :
    verifyLeaseToken hmac leaseRef token secret = true ↔ token = signLeaseToken hmac leaseRef secret := by
  rw [verifyLeaseToken, decide_eq_true_iff, textBytes_inj]
  exact eq_comm

end TpnWorker
