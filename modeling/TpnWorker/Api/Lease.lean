import TpnWorker.Crypto.LeaseToken
import TpnWorker.Net.Ip
import TpnWorker.Service.LeaseManager

/-! The lease endpoint (`src/api/lease.rs`): access control, validation of the parameters, the token check of an
    extension, and the signed response. -/

namespace TpnWorker

structure LeaseParams where
  leaseSeconds : Option String
  leaseMinutes : Option String
  format : Option String
  leaseType : Option String
  priority : Option String
  extendRef : Option String
  extendExpiresAt : Option String
  leaseToken : Option String

inductive Body where
  | text (content : String)
  | json (value : Json)

/-- A response: three headers and the body. A reference that is no header value is left out. -/
structure LeaseResponse where
  leaseRef : Option String
  leaseExpires : String
  leaseToken : String
  body : Body

/-- A worker with its HMAC, and the reading of `lease_minutes` as a number of seconds. -/
structure Endpoint where
  worker : Worker
  hmac : Hmac
  minutesToSeconds : String → Int

/-- `FromStr` of an i64. -/
def parseI64 (text : String) : Option Int := Decimal.parseSigned (-9223372036854775808) 9223372036854775807 text

/-- A header value has visible ASCII characters, blanks and tabs only. -/
def headerValue (text : String) : Option String :=
  if (textBytes text).all fun b => decide (32 ≤ b ∧ b < 127 ∨ b = 9) then some text else none

/-- The refusal of a caller outside the pool and the local networks. -/
def accessDenied (callerIp : String) : AppError :=
  .unauthorized s!"Worker does not accept lease requests from {callerIp}"

/-- Worker access control: only the resolved pool addresses and local callers are accepted. -/
def accessControl (config : AppConfig) (caller : String) (allowedPoolIps : List String) : Except AppError Unit :=
  if config.isWorker && !config.ciMockWorkerResponses then
    let callerIp := sanitizeIpv4 caller
    let localRequest := isLocalIp callerIp config.tpnInternalSubnet config.tpnExternalSubnet
    let ipMatch := allowedPoolIps.any fun ip => decide (ip = callerIp)
    if !ipMatch && !localRequest then .error (accessDenied callerIp) else .ok ()
  else .ok ()

/-- The duration in seconds; an unreadable one counts as zero. -/
def leaseSeconds (E : Endpoint) (params : LeaseParams) : Int :=
  match params.leaseSeconds with
  | some ls => (parseI64 ls).getD 0
  | none =>
    match params.leaseMinutes with
    | some lm => E.minutesToSeconds lm
    | none => 0

/-- The validated request. -/
def validate (E : Endpoint) (params : LeaseParams) : Except AppError LeaseRequest :=
  let format := params.format.getD "json"
  let leaseType := params.leaseType.getD "wireguard"
  let seconds := leaseSeconds E params
  if seconds ≤ 0 then
    .error (.validation
      s!"Invalid lease_seconds: {Decimal.display seconds}. Must be a valid number greater than 0.")
  else if format ≠ "json" ∧ format ≠ "text" then
    .error (.validation s!"Invalid format: {format}. Must be one of 'json', 'text'")
  else if leaseType ≠ "wireguard" ∧ leaseType ≠ "socks5" then
    .error (.validation s!"Invalid type: {leaseType}. Must be one of 'wireguard', 'socks5'")
  else if params.extendRef.isSome ∧ params.extendExpiresAt = none then
    .error (.validation "extend_expires_at is required when extend_ref is provided")
  else
    .ok ⟨leaseType, seconds, decide (params.priority = some "true"), format, params.extendRef,
      params.extendExpiresAt.bind parseI64⟩

/-- The token check of an extension. -/
def checkToken (E : Endpoint) (params : LeaseParams) : Except AppError Unit :=
  match params.extendRef with
  | none => .ok ()
  | some extendRef =>
    if verifyLeaseToken E.hmac extendRef (params.leaseToken.getD "") E.worker.config.leaseTokenSecret then .ok ()
    else .error (.unauthorized "Invalid or missing lease_token for lease extension")

/-- The lease of a request, before the response is built. -/
def leaseResult (E : Endpoint) (s : Stores) (caller : String) (allowedPoolIps : List String) (params : LeaseParams)
    (env : LeaseEnv) : Except AppError (LeaseRequest × LeaseResult) × Stores :=
  match accessControl E.worker.config caller allowedPoolIps with
  | .error e => (.error e, s)
  | .ok () =>
    match validate E params with
    | .error e => (.error e, s)
    | .ok req =>
      match checkToken E params with
      | .error e => (.error e, s)
      | .ok () =>
        match getWorkerConfig E.worker s req env with
        | (.error e, s) => (.error e, s)
        | (.ok result, s) => (.ok (req, result), s)

/-- The response for a lease, with a token for its reference. -/
def leaseResponse (E : Endpoint) (req : LeaseRequest) (result : LeaseResult) : LeaseResponse where
  leaseRef := headerValue result.leaseRef
  leaseExpires := Decimal.display result.leaseExpiresAt
  leaseToken := signLeaseToken E.hmac result.leaseRef E.worker.config.leaseTokenSecret
  body := if req.format = "text" then .text (result.configText.getD "") else .json (result.configJson.getD (.obj []))

/-- GET /api/lease/new. -/
def leaseNew (E : Endpoint) (s : Stores) (caller : String) (allowedPoolIps : List String) (params : LeaseParams)
    (env : LeaseEnv) : Except AppError LeaseResponse × Stores :=
  match leaseResult E s caller allowedPoolIps params env with
  | (.error e, s) => (.error e, s)
  | (.ok (req, result), s) => (.ok (leaseResponse E req result), s)

theorem validate_ok {E : Endpoint} {params : LeaseParams} {req : LeaseRequest} (h : validate E params = .ok req) :
    req = ⟨params.leaseType.getD "wireguard", leaseSeconds E params, decide (params.priority = some "true"),
        params.format.getD "json", params.extendRef, params.extendExpiresAt.bind parseI64⟩ ∧
      0 < leaseSeconds E params ∧
      (params.leaseType.getD "wireguard" = "wireguard" ∨ params.leaseType.getD "wireguard" = "socks5") := by
  simp only [validate] at h
  split at h
  · cases h
  · next hpos =>
    split at h
    · cases h
    · split at h
      · cases h
      · next htype =>
        split at h
        · cases h
        · refine ⟨(Except.ok.inj h).symm, by omega, ?_⟩
          by_contra hnot
          exact htype (not_or.mp hnot)

/-- What a request with a lease has passed. -/
theorem leaseResult_ok {E : Endpoint} {s s' : Stores} {caller : String} {allowedPoolIps : List String} {params : LeaseParams}
    {env : LeaseEnv} {req : LeaseRequest} {result : LeaseResult}
    (h : leaseResult E s caller allowedPoolIps params env = (.ok (req, result), s')) :
    validate E params = .ok req ∧ checkToken E params = .ok () ∧
      getWorkerConfig E.worker s req env = (.ok result, s') := by
  simp only [leaseResult] at h
  split at h
  · cases h
  · split at h
    · cases h
    · next hvalid =>
      split at h
      · cases h
      · next htoken =>
        split at h
        · cases h
        · next hconfig =>
          cases h
          exact ⟨hvalid, htoken, hconfig⟩

/-- A caller that is refused gets an error, and the request changes nothing. -/
theorem leaseNew_of_denied {E : Endpoint} {s : Stores} {caller : String} {allowedPoolIps : List String}
    {params : LeaseParams} {env : LeaseEnv} {e : AppError}
    (h : accessControl E.worker.config caller allowedPoolIps = .error e) :
    leaseNew E s caller allowedPoolIps params env = (.error e, s) := by
  simp only [leaseNew, leaseResult, h]

end TpnWorker
