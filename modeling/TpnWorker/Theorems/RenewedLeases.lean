import TpnWorker.Api.Lease
import TpnWorker.Lib.Simulation
import TpnWorker.Lib.Utf8
import TpnWorker.Theorems.ExpiryArithmetic
import TpnWorker.Theorems.LeaseTokens
import TpnWorker.Theorems.Renewals

/-! Renewals over the endpoint. A client sends the headers of its last response back with each request, and what it does
    simulates the renewals behind the endpoint: the headers are read as they were written, and the token verifies. So a
    lease is renewed for as long as it has not expired, and every response has the body of the first one. In between the
    worker does other work, one operation at a time. -/

namespace TpnWorker
open Keyed Transition

/-- The two types of leases. -/
inductive LeaseKind where
  | wireguard
  | socks5
deriving DecidableEq

def LeaseKind.text : LeaseKind → String
  | wireguard => "wireguard"
  | socks5 => "socks5"

/-- Two references name the same lease. -/
def LeaseKind.Same : LeaseKind → String → String → Prop
  | wireguard => SamePeer
  | socks5 => Eq

/-- A worker with its lease endpoint. -/
structure LeaseService extends Registrar where
  hmac : Hmac
  minutesToSeconds : String → Int

def LeaseService.endpoint (S : LeaseService) : Endpoint := ⟨S.worker, S.hmac, S.minutesToSeconds⟩

/-- The parameters of a renewal: the headers of the last response. -/
def renewalParams (kind : LeaseKind) (format : String) (seconds : Int) (response : LeaseResponse) : LeaseParams :=
  ⟨some (Decimal.display seconds), none, some format, some kind.text, none, response.leaseRef, some response.leaseExpires,
    some response.leaseToken⟩

/-- A worker with a client that has its last response. -/
structure LeaseClient where
  node : Background
  response : LeaseResponse

inductive LeaseClientAct where
  | background (a : BackgroundAct)
  | renew (caller : String) (allowedPoolIps : List String) (seconds : Int) (env : LeaseEnv)

namespace LeaseClient

/-- The expiry that the client was told. -/
def expiresAt (s : LeaseClient) : Int := (parseI64 s.response.leaseExpires).getD 0

/-- The reference that the client was told. -/
def ref (s : LeaseClient) : String := s.response.leaseRef.getD ""

/-- One operation of the worker, or one renewal that is granted. -/
def step (S : LeaseService) (kind : LeaseKind) (format : String) (s : LeaseClient) : LeaseClientAct → Option LeaseClient
  | .background a => (s.node.step S.toRegistrar a).map fun node => { s with node }
  | .renew caller allowedPoolIps seconds env =>
    match leaseNew S.endpoint s.node.toStores caller allowedPoolIps (renewalParams kind format seconds s.response) env with
    | (.ok response, stores) => some ⟨{ s.node with toStores := stores }, response⟩
    | (.error _, _) => none

/-- The request for a renewal is one that the endpoint can serve: an admitted caller, a duration, and an extension in time. -/
structure Serves (S : LeaseService) (s : LeaseClient) (caller : String) (allowedPoolIps : List String) (seconds : Int)
    (env : LeaseEnv) : Prop where
  admitted : accessControl S.config.toAppConfig caller allowedPoolIps = .ok ()
  positive : 0 < seconds
  fits : seconds ≤ 9223372036854775807
  update : env.update = .ok ()
  read : env.read = .ok ()
  inTime : env.updateMs < s.expiresAt

/-- The lease has not expired at any clock reading of the step, the step is no extension of it by someone else, and it draws
    no key that is in use for it. -/
def InTime (S : LeaseService) (kind : LeaseKind) (key : Key) (s : LeaseClient) : LeaseClientAct → Prop
  | .background a => (∀ now ∈ a.readings, now < s.expiresAt) ∧
      (∀ req env ref, a = .request req env → req.leaseType = kind.text → req.extendRef = some ref → ¬kind.Same ref s.ref) ∧
      (kind = .wireguard → ∀ env ∈ a.leases, S.api.x25519 env.allocate.secret ≠ key)
  | .renew caller allowedPoolIps seconds env => s.Serves S caller allowedPoolIps seconds env

end LeaseClient

/-! ### Headers -/

section Headers
variable {E : Endpoint} {R : Registrar} {W : Worker} {s s' : Stores} {req : LeaseRequest} {env : LeaseEnv}
  {result result' : LeaseResult} {kind : LeaseKind} {format caller : String} {seconds : Int} {allowedPoolIps : List String}

/-- The headers carry the reference and the expiry. -/
structure LeaseResult.Sent (result : LeaseResult) : Prop where
  ref : headerValue result.leaseRef = some result.leaseRef
  expires : parseI64 (Decimal.display result.leaseExpiresAt) = some result.leaseExpiresAt

theorem parseI64_newExpiresAt (nowMs seconds : Int) :
    parseI64 (Decimal.display (newExpiresAt nowMs seconds)) = some (newExpiresAt nowMs seconds) := by
  refine Decimal.parseSigned_display ?_ ?_ <;> simp only [newExpiresAt, Wrap.i64] <;> omega

theorem headerValue_of_visible {text : String} (h : ∀ c ∈ text.toList, 32 ≤ c.toNat ∧ c.toNat < 127) : headerValue text = some text := by
  refine if_pos (List.all_eq_true.mpr fun b hb => ?_)
  rw [← text.ofList_toList, Utf8.textBytes_ofList, List.mem_flatMap] at hb
  obtain ⟨c, hc, hb⟩ := hb
  obtain ⟨hlow, hhigh⟩ := h c hc
  have hencode : String.utf8EncodeChar c = [UInt8.ofNat c.toNat] := if_pos (by
    show c.toNat ≤ 127
    omega)
  rw [hencode, List.mem_singleton] at hb
  subst hb
  have hbyte : (UInt8.ofNat c.toNat).toNat = c.toNat := UInt8.toNat_ofNat_of_lt (hhigh.trans (by decide))
  refine decide_eq_true (Or.inl ⟨?_, ?_⟩)
  · rw [UInt8.le_iff_toNat_le, hbyte]
    exact hlow
  · rw [UInt8.lt_iff_toNat_lt, hbyte]
    exact hhigh

/-- The text of a number can stand in a header. -/
theorem headerValue_display (id : Int) : headerValue (Decimal.display id) = some (Decimal.display id) := by
  have hdigits : ∀ n, ∀ c ∈ Decimal.digits n, 32 ≤ c.toNat ∧ c.toNat < 127 := by
    intro n c hc
    have hdigit := Char.isDigit_iff_toNat.mp (Nat.isDigit_of_mem_toDigits (by decide) (by decide) hc)
    exact ⟨le_trans (by decide) hdigit.1, lt_of_le_of_lt hdigit.2 (by decide)⟩
  refine headerValue_of_visible ?_
  cases id with
  | ofNat n =>
    rw [Decimal.display, String.toList_ofList]
    exact hdigits n
  | negSucc n =>
    rw [Decimal.display, String.toList_ofList]
    refine List.forall_mem_cons.mpr ⟨by decide, hdigits _⟩

/-- An answer to a renewal can be sent in headers. -/
theorem sent_of_renewal (H : result.Sent)
    (h : getWorkerConfig W s (renewal kind.text format seconds result) env = (.ok result', s')) : result'.Sent := by
  cases kind with
  | wireguard =>
    have hextend : extendWireguard W s (renewal "wireguard" format seconds result) result.leaseRef result.leaseExpiresAt env =
        (.ok result', s') := h
    obtain ⟨peerId, r, -, -, -, -, href, hexp, -⟩ := extendWireguard_eq_ok hextend
    exact ⟨by rw [href, headerValue_display], by rw [hexp, parseI64_newExpiresAt]⟩
  | socks5 =>
    have hextend : extendSocks5 s (renewal "socks5" format seconds result) result.leaseRef result.leaseExpiresAt env =
        (.ok result', s') := h
    obtain ⟨r, r', -, -, -, href, hexp, -⟩ := extendSocks5_eq_ok hextend
    exact ⟨by rw [href, H.ref], by rw [hexp, parseI64_newExpiresAt]⟩

/-- A renewal that the endpoint can serve reaches the lease manager as the client means it. -/
theorem leaseNew_renewal (E : Endpoint) (s : Stores) (kind : LeaseKind) (req : LeaseRequest) (env : LeaseEnv)
    (H : result.Sent) (hformat : format = "json" ∨ format = "text")
    (hadmitted : accessControl E.worker.config caller allowedPoolIps = .ok ()) (hpos : 0 < seconds)
    (hfits : seconds ≤ 9223372036854775807) :
    leaseNew E s caller allowedPoolIps (renewalParams kind format seconds (leaseResponse E req result)) env =
      Prod.map (Except.map (leaseResponse E (renewal kind.text format seconds result))) id
        (getWorkerConfig E.worker s (renewal kind.text format seconds result) env) := by
  let params := renewalParams kind format seconds (leaseResponse E req result)
  have hseconds : leaseSeconds E params = seconds := by
    have hparse : parseI64 (Decimal.display seconds) = some seconds := Decimal.parseSigned_display (by omega) hfits
    show (parseI64 (Decimal.display seconds)).getD 0 = seconds
    rw [hparse]
    rfl
  have href : params.extendRef = some result.leaseRef := H.ref
  have hvalid : validate E params = .ok (renewal kind.text format seconds result) := by
    have hkind : ¬(kind.text ≠ "wireguard" ∧ kind.text ≠ "socks5") := by
      cases kind <;> simp [LeaseKind.text]
    have hexpires : params.extendExpiresAt.bind parseI64 = some result.leaseExpiresAt := H.expires
    simp only [validate, hseconds]
    split
    · next hle => omega
    · split
      · next hunknown => exact absurd hformat (not_or.mpr hunknown)
      · split
        · next hunknown => exact absurd hunknown hkind
        · split
          · next hmissing => cases hmissing.2
          · rw [href, hexpires]
            rfl
  have htoken : checkToken E params = .ok () := by
    have hverify : verifyLeaseToken E.hmac result.leaseRef (params.leaseToken.getD "") E.worker.config.leaseTokenSecret = true :=
      verifyLeaseToken_iff.mpr rfl
    simp only [checkToken, href, hverify, if_true]
  show leaseNew E s caller allowedPoolIps params env = _
  simp only [leaseNew, leaseResult, hadmitted, hvalid, htoken]
  cases getWorkerConfig E.worker s (renewal kind.text format seconds result) env with
  | mk answer s' => cases answer <;> rfl

end Headers

/-! ### The client simulates the renewals -/

/-- The client has the response for the result behind the endpoint. -/
structure LeaseClient.Follows (S : LeaseService) (format : String) (s : LeaseClient) (t : Tenancy) : Prop where
  node : s.node = t.node
  sent : t.result.Sent
  response : ∃ req : LeaseRequest, req.format = format ∧ s.response = leaseResponse S.endpoint req t.result

section Simulation
variable {S : LeaseService} {kind : LeaseKind} {format : String} {key : Key} {s u : LeaseClient} {t : Tenancy}
  {a : LeaseClientAct}

namespace LeaseClient.Follows

theorem expiresAt_eq (H : s.Follows S format t) : s.expiresAt = t.result.leaseExpiresAt := by
  obtain ⟨req, -, hresponse⟩ := H.response
  have hexpires : s.response.leaseExpires = Decimal.display t.result.leaseExpiresAt := by rw [hresponse]; rfl
  rw [LeaseClient.expiresAt, hexpires, H.sent.expires]
  rfl

theorem ref_eq (H : s.Follows S format t) : s.ref = t.result.leaseRef := by
  obtain ⟨req, -, hresponse⟩ := H.response
  have href : s.response.leaseRef = headerValue t.result.leaseRef := by rw [hresponse]; rfl
  rw [LeaseClient.ref, href, H.sent.ref]
  rfl

/-- A step of the client is a step behind the endpoint. -/
theorem step (H : s.Follows S format t) (hformat : format = "json" ∨ format = "text") (htime : s.InTime S kind key a)
    (h : s.step S kind format a = some u) :
    ∃ b u', t.InTime kind.text kind.Same b ∧ (kind = .wireguard → b.DrawsOthers S.toRegistrar key) ∧
      t.step S.toRegistrar kind.text format b = some u' ∧ u.Follows S format u' := by
  cases a with
  | background a =>
    obtain ⟨hreadings, hothers, hdraws⟩ := htime
    rw [H.expiresAt_eq] at hreadings
    rw [H.ref_eq] at hothers
    obtain ⟨node, hnode, rfl⟩ := Option.map_eq_some_iff.mp h
    rw [H.node] at hnode
    refine ⟨.background a, { t with node }, ⟨hreadings, hothers⟩, hdraws, ?_, ⟨rfl, H.sent, H.response⟩⟩
    rw [Tenancy.step, hnode]
    rfl
  | renew caller allowedPoolIps seconds env =>
    obtain ⟨hadmitted, hpos, hfits, hupdate, hread, hlive⟩ := htime
    rw [H.expiresAt_eq] at hlive
    obtain ⟨req, -, hresponse⟩ := H.response
    have hserved := leaseNew_renewal S.endpoint t.node.toStores kind req env H.sent
      hformat hadmitted hpos hfits
    rw [← hresponse] at hserved
    simp only [LeaseClient.step, H.node, hserved] at h
    cases hrequest : getWorkerConfig S.worker t.node.toStores (renewal kind.text format seconds t.result) env with
    | mk answer stores =>
      have hrequest' : getWorkerConfig S.endpoint.worker t.node.toStores (renewal kind.text format seconds t.result) env =
          (answer, stores) := hrequest
      rw [hrequest'] at h
      cases answer with
      | error e => cases h
      | ok result =>
        cases h
        refine ⟨.renew seconds env, ⟨{ t.node with toStores := stores }, result⟩, ⟨hupdate, hread, hlive⟩, fun _ => trivial, ?_,
          rfl, sent_of_renewal H.sent hrequest, _, rfl, rfl⟩
        simp only [Tenancy.step, hrequest]

end LeaseClient.Follows

/-- A run of the client is a run behind the endpoint. -/
theorem LeaseClient.Follows.run {s₀ : LeaseClient} {t₀ : Tenancy} (H : s₀.Follows S format t₀)
    (hformat : format = "json" ∨ format = "text")
    (hr : Reach (LeaseClient.step S kind format) (LeaseClient.InTime S kind key) s₀ s) :
    ∃ t, Reach (Tenancy.step S.toRegistrar kind.text format)
      (fun t b => t.InTime kind.text kind.Same b ∧ (kind = .wireguard → b.DrawsOthers S.toRegistrar key)) t₀ t ∧
      s.Follows S format t := by
  refine Reach.simulate (R := fun s t => s.Follows S format t) H ?_ hr
  intro s a u t _ H htime h
  obtain ⟨b, u', htime', hdraws, hstep, H'⟩ := H.step hformat htime h
  exact ⟨u', .single b ⟨htime', hdraws⟩ hstep, H'⟩

end Simulation

/-! ### Leases that are renewed over the endpoint -/

/-- What a new lease relies on. For a peer, a server whose rows are in the range of ids, and a key that no peer has; for a slot,
    credentials that are loaded, and a username that can stand in a header. -/
def LeaseKind.Ready (S : LeaseService) (s : Background) (env : LeaseEnv) (first : LeaseResponse) : LeaseKind → Prop
  | wireguard => S.config.ciMockWgContainer = false ∧ (∀ id r, s.table.get? id = some r → 0 ≤ id ∧ id < 65536) ∧
      ∀ k st, s.peers k = some st → ¬st.HasKey (S.api.x25519 env.allocate.secret)
  | socks5 => s.credentials = loadFromDb s.socks ∧ first.leaseRef ≠ none

section Renewed
variable {S : LeaseService} {kind : LeaseKind} {format seconds₀ caller : String} {s : Stores} {env : LeaseEnv}
  {stores : Stores} {allowedPoolIps : List String} {first : LeaseResponse} {t : Tenancy} {key : Key}

/-- In every run behind the endpoint the lease can be renewed. -/
theorem LeaseKind.Ready.renews {s₀ : Background} {result : LeaseResult} {seconds : Int}
    (hready : kind.Ready S s₀ env first)
    (hgrant : getWorkerConfig S.worker s₀.toStores (freshRequest kind.text format seconds) env = (.ok result, stores))
    (hr : Reach (Tenancy.step S.toRegistrar kind.text format)
      (fun t b => t.InTime kind.text kind.Same b ∧
        (kind = .wireguard → b.DrawsOthers S.toRegistrar (S.api.x25519 env.allocate.secret)))
      ⟨{ s₀ with toStores := stores }, result⟩ t) :
    result.SameConfig t.result ∧ ∀ seconds env, env.update = .ok () → env.read = .ok () →
      env.updateMs < t.result.leaseExpiresAt →
      ∃ result' stores', getWorkerConfig S.worker t.node.toStores (renewal kind.text format seconds t.result) env =
          (.ok result', stores') ∧ t.result.SameConfig result' ∧ result'.leaseExpiresAt = newExpiresAt env.nowMs seconds := by
  cases kind with
  | wireguard =>
    obtain ⟨hmock, hfits, hnew⟩ := hready
    obtain ⟨l, srv, hserver, hstands, hdrawn, hresult⟩ :=
      granted_stands hmock (fun h => hfits _ _ h) (fun h => hnew _ _ h) hgrant
    have hstart : Tenancy.OfPeer srv format l ⟨{ s₀ with toStores := stores }, result⟩ := ⟨l.row, hstands, hresult⟩
    have hkept : t.OfPeer srv format l :=
      hr.inv hstart fun s a u H hok h => H.step hserver (hdrawn.apart rfl) hok.1 (hdrawn.key ▸ hok.2 rfl) h
    exact ⟨hstart.sameConfig hkept, fun seconds env hupdate _ hlive => hkept.renews hserver seconds hupdate hlive⟩
  | socks5 =>
    obtain ⟨slot, hheld, hresult, hpassword⟩ := granted_held hgrant
    have hstart : Tenancy.OfSlot format slot ⟨{ s₀ with toStores := stores }, result⟩ :=
      ⟨slot.expiresAt, slot.updated, ⟨hheld, hready.1 ▸ hpassword⟩, hresult⟩
    have hkept : t.OfSlot format slot := hr.inv hstart fun s a u H hok h => H.step hok.1 h
    refine ⟨?_, fun seconds env hupdate hread hlive => hkept.renews seconds hupdate hread hlive⟩
    obtain ⟨expiresAt, updated, -, hanswer⟩ := hkept
    rw [hanswer, hresult]
    exact ⟨rfl, rfl, rfl⟩

end Renewed

/-- A worker with two peers and the secret `secret`. -/
def LeaseService.sample : LeaseService where
  toRegistrar := { Registrar.sample 2 with config := { (Registrar.sample 2).config with leaseTokenSecret := "secret" } }
  hmac := .known
  minutesToSeconds := fun _ => 0

end TpnWorker
