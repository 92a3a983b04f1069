import TpnWorker.Api.Lease
import TpnWorker.Lib.Transition
import TpnWorker.Node

/-! Extension requests of arbitrary clients. A token belongs to a reference and not to one lease of it: whoever was
    ever given the token of a reference can extend the lease that is held on it now, as long as the request
    names the stored expiry. -/

namespace TpnWorker
open Transition

/-- A response that was sent: to whom, for the lease of which reference, and what it carried. -/
structure Issue where
  caller : String
  leaseRef : String
  response : LeaseResponse

/-- An endpoint at work: the stores, the responses sent so far, the last one first, and the references that were
    signed for a response. -/
structure Serving where
  stores : Stores
  issued : List Issue
  signed : List String

/-- A request of any client, or any change of the stores between two requests: a cleanup, a reload, a restart, a call
    that failed. -/
inductive ServeAct where
  | request (caller : String) (allowedPoolIps : List String) (params : LeaseParams) (env : LeaseEnv)
  | other (stores : Stores)

namespace Serving

def start (stores : Stores) : Serving := ⟨stores, [], []⟩

def step (E : Endpoint) (s : Serving) : ServeAct → Option Serving
  | .request caller allowedPoolIps params env =>
    match leaseResult E s.stores caller allowedPoolIps params env with
    | (.error _, stores) => some { s with stores }
    | (.ok (req, result), stores) =>
      some ⟨stores, ⟨caller, result.leaseRef, leaseResponse E req result⟩ :: s.issued, result.leaseRef :: s.signed⟩
  | .other stores => some { s with stores }

end Serving

/-- A token that a client presents verifies for a reference only if that reference was signed before. -/
def Unforgeable (E : Endpoint) (s : Serving) : ServeAct → Prop
  | .request _ _ params _ => ∀ ref, params.extendRef = some ref →
      verifyLeaseToken E.hmac ref (params.leaseToken.getD "") E.worker.config.leaseTokenSecret = true → ref ∈ s.signed
  | .other _ => True

/-- The lease that is held on a reference: its row carries this expiry, and at `nowMs` it has not passed. -/
def HeldUntil (s : Stores) (leaseType ref : String) (expiresAt nowMs : Int) : Prop :=
  nowMs < expiresAt ∧
    (leaseType = "wireguard" ∧ (∃ peerId r, parseI32 ref = some peerId ∧ s.table.get? peerId = some r ∧
        r.expiresAt = expiresAt) ∨
      leaseType = "socks5" ∧ ∃ r, readSocks5ConfigByUsername s.socks ref = some r ∧ r.expiresAt = expiresAt)

/-! ### What a successful extension has passed -/

section Extension
variable {E : Endpoint} {W : Worker} {s s' : Stores} {req : LeaseRequest} {ref caller : String} {expected : Int}
  {env : LeaseEnv} {result : LeaseResult} {params : LeaseParams} {allowedPoolIps : List String}
  {response : LeaseResponse}

theorem extendWireguard_ok (h : extendWireguard W s req ref expected env = (.ok result, s')) :
    HeldUntil s "wireguard" ref expected env.updateMs := by
  obtain ⟨peerId, r, hparse, hr, rfl, hlt, -⟩ := extendWireguard_eq_ok h
  exact ⟨hlt, Or.inl ⟨rfl, peerId, r, hparse, hr, rfl⟩⟩

theorem extendSocks5_ok (h : extendSocks5 s req ref expected env = (.ok result, s')) :
    HeldUntil s "socks5" ref expected env.updateMs := by
  obtain ⟨r, -, hr, rfl, hlt, -⟩ := extendSocks5_eq_ok h
  exact ⟨hlt, Or.inr ⟨rfl, r, hr, rfl⟩⟩

/-- An extension succeeds only on the lease that is held under the reference, named by its stored expiry. -/
theorem getWorkerConfig_extension_ok (hext : req.extendRef = some ref)
    (h : getWorkerConfig W s req env = (.ok result, s')) :
    ∃ expected, req.extendExpiresAt = some expected ∧ HeldUntil s req.leaseType ref expected env.updateMs := by
  simp only [getWorkerConfig, hext] at h
  split at h
  · cases h
  · next expected hexpected =>
    refine ⟨expected, hexpected, ?_⟩
    split at h
    · next htype => exact htype ▸ extendWireguard_ok h
    · split at h
      · next htype => exact htype ▸ extendSocks5_ok h
      · cases h

theorem checkToken_ok (hext : params.extendRef = some ref) (h : checkToken E params = .ok ()) :
    verifyLeaseToken E.hmac ref (params.leaseToken.getD "") E.worker.config.leaseTokenSecret = true := by
  simp only [checkToken, hext] at h
  split at h
  · next hverify => exact hverify
  · cases h

/-- An extension request succeeds only with a token that verifies, and with the expiry of the lease that is held. -/
theorem leaseNew_extension_ok (hext : params.extendRef = some ref)
    (h : leaseNew E s caller allowedPoolIps params env = (.ok response, s')) :
    verifyLeaseToken E.hmac ref (params.leaseToken.getD "") E.worker.config.leaseTokenSecret = true ∧
      ∃ expected, params.extendExpiresAt.bind parseI64 = some expected ∧
        HeldUntil s (params.leaseType.getD "wireguard") ref expected env.updateMs := by
  simp only [leaseNew] at h
  split at h
  · cases h
  · next hlease =>
    obtain ⟨hvalid, htoken, hconfig⟩ := leaseResult_ok hlease
    obtain ⟨rfl, -, -⟩ := validate_ok hvalid
    exact ⟨checkToken_ok hext htoken, getWorkerConfig_extension_ok hext hconfig⟩

end Extension

/-! ### Runs -/

/-- Every signed reference went out in a response, and every response carries the signature of its reference. -/
structure TokensSent (E : Endpoint) (s : Serving) : Prop where
  sent : ∀ ref ∈ s.signed, ∃ issue ∈ s.issued, issue.leaseRef = ref
  token : ∀ issue ∈ s.issued,
    issue.response.leaseToken = signLeaseToken E.hmac issue.leaseRef E.worker.config.leaseTokenSecret

section Runs
variable {E : Endpoint} {s t : Serving} {stores : Stores} {a : ServeAct}

theorem TokensSent.step (I : TokensSent E s) (h : s.step E a = some t) : TokensSent E t := by
  cases a with
  | other stores =>
    cases h
    exact ⟨I.sent, I.token⟩
  | request caller allowedPoolIps params env =>
    simp only [Serving.step] at h
    split at h
    · cases h
      exact ⟨I.sent, I.token⟩
    · next req result stores hlease =>
      cases h
      constructor
      · intro ref href
        rcases List.mem_cons.mp href with rfl | href
        · exact ⟨_, List.mem_cons_self, rfl⟩
        · obtain ⟨issue, hissue, hsame⟩ := I.sent ref href
          exact ⟨issue, List.mem_cons_of_mem _ hissue, hsame⟩
      · intro issue hissue
        rcases List.mem_cons.mp hissue with rfl | hissue
        · rfl
        · exact I.token issue hissue

theorem TokensSent.of_reach {C : Serving → ServeAct → Prop}
    (hr : Reach (Serving.step E) C (.start stores) s) : TokensSent E s :=
  hr.inv ⟨fun _ h => absurd h List.not_mem_nil, fun _ h => absurd h List.not_mem_nil⟩ fun _ _ _ I _ h => I.step h

/-- An extension succeeds only with a token that an earlier response carried for the same reference, and only on the
    lease that is held under the reference now, named by its stored expiry. -/
theorem extension_names_held_lease {caller ref : String} {allowedPoolIps : List String} {params : LeaseParams}
    {env : LeaseEnv} {response : LeaseResponse} {stores' : Stores}
    (hr : Reach (Serving.step E) (Unforgeable E) (.start stores) s)
    (hunforgeable : Unforgeable E s (.request caller allowedPoolIps params env)) (hext : params.extendRef = some ref)
    (h : leaseNew E s.stores caller allowedPoolIps params env = (.ok response, stores')) :
    (∃ issue ∈ s.issued, issue.leaseRef = ref ∧ issue.response.leaseToken = params.leaseToken.getD "") ∧
      ∃ expected, params.extendExpiresAt.bind parseI64 = some expected ∧
        HeldUntil s.stores (params.leaseType.getD "wireguard") ref expected env.updateMs := by
  obtain ⟨hverify, hheld⟩ := leaseNew_extension_ok hext h
  have I := TokensSent.of_reach hr
  obtain ⟨issue, hissue, rfl⟩ := I.sent ref (hunforgeable ref hext hverify)
  refine ⟨⟨issue, hissue, rfl, ?_⟩, hheld⟩
  rw [I.token issue hissue, verifyLeaseToken_iff.mp hverify]

end Runs

/-! ### A replayed token -/

def LeaseParams.fresh : LeaseParams := ⟨some "60", none, some "text", none, none, none, none, none⟩

def LeaseParams.extension (ref expiresAt token : String) : LeaseParams :=
  ⟨some "60", none, some "text", none, none, some ref, some expiresAt, some token⟩

/-- HMAC-SHA256 at the key `secret` and the message `1`. -/
def Hmac.known : Hmac := fun key message =>
  if key = textBytes "secret" ∧ message = textBytes "1" then
    [189, 40, 238, 20, 44, 165, 180, 98, 89, 246, 226, 127, 195, 164, 33, 111, 68, 123, 213, 132, 60, 64, 110, 99, 33,
      156, 255, 48, 231, 59, 19, 91]
  else []

/-- A worker with one peer id. -/
def Endpoint.sample : Endpoint where
  worker := ⟨.known, { (Deployment.sample 1).config with leaseTokenSecret := "secret" }, some (Deployment.sample 1).srv⟩
  hmac := .known
  minutesToSeconds := fun _ => 0

/-- One client is granted peer 1 at 0 for a minute; after that another client is granted it at 70 000. -/
def regranted : List ServeAct :=
  [.request "172.20.0.5" [] .fresh (.sample 0 1), .request "172.20.0.6" [] .fresh (.sample 70000 2)]

def Body.text? : Body → Option String
  | .text content => some content
  | .json _ => none

/-- Requests for new leases present no token. -/
theorem unforgeable_fresh {E : Endpoint} {s : Serving} {caller : String} {env : LeaseEnv} :
    Unforgeable E s (.request caller [] .fresh env) := fun _ h => by cases h

theorem unforgeable_extension {E : Endpoint} {s : Serving} {caller ref expiresAt token : String} {env : LeaseEnv}
    (h : ref ∈ s.signed) : Unforgeable E s (.request caller [] (.extension ref expiresAt token) env) := fun ref' href _ => by
  cases href
  exact h

theorem regranted_reach {s : Serving} (n : ℕ)
    (h : exec (Serving.step .sample) (.start ⟨.fresh, .sample⟩) (regranted.take n) = some s) :
    Reach (Serving.step .sample) (Unforgeable .sample) (.start ⟨.fresh, .sample⟩) s := by
  refine (Reach.of_exec (E := fun a => ∀ s, Unforgeable .sample s a) ?_ h).mono fun s _ ha => ha s
  intro a ha
  rcases List.mem_pair.mp (List.mem_of_mem_take ha) with rfl | rfl <;> exact fun _ => unforgeable_fresh

/-- The first client extends the second one's lease with the token of its own, and is sent the second one's
    configuration. -/
theorem replayed_token_extends :
    ∃ s current first response stores, Reach (Serving.step .sample) (Unforgeable .sample) (.start ⟨.fresh, .sample⟩) s ∧
      s.issued.head? = some current ∧ s.issued.getLast? = some first ∧
      first.caller = "172.20.0.5" ∧ current.caller = "172.20.0.6" ∧ first.leaseRef = "1" ∧ current.leaseRef = "1" ∧
      first.response.leaseExpires = "60000" ∧ current.response.leaseExpires = "130000" ∧
      Unforgeable .sample s (.request "172.20.0.5" [] (.extension "1" "130000" first.response.leaseToken)
        (.sample 80000 3)) ∧
      leaseNew .sample s.stores "172.20.0.5" [] (.extension "1" "130000" first.response.leaseToken) (.sample 80000 3) =
        (.ok response, stores) ∧
      response.body.text?.isSome ∧ response.body.text? = current.response.body.text? := by
  have hrun : (exec (Serving.step .sample) (.start ⟨.fresh, .sample⟩) (regranted.take 2)).any fun s => decide
      (∃ current ∈ s.issued.head?, ∃ first ∈ s.issued.getLast?,
        ∃ response ∈ (leaseNew .sample s.stores "172.20.0.5" [] (.extension "1" "130000" first.response.leaseToken)
          (.sample 80000 3)).1.toOption,
        "1" ∈ s.signed ∧ first.caller = "172.20.0.5" ∧ current.caller = "172.20.0.6" ∧ first.leaseRef = "1" ∧
        current.leaseRef = "1" ∧ first.response.leaseExpires = "60000" ∧ current.response.leaseExpires = "130000" ∧
        response.body.text?.isSome ∧ response.body.text? = current.response.body.text?) := by
    decide +kernel
  obtain ⟨s, hs, hfacts⟩ := (Option.any_eq_true _ _).mp hrun
  obtain ⟨current, hcurrent, first, hfirst, response, hresponse, hsigned, hcaller₁, hcaller₂, href₁, href₂, hexp₁, hexp₂,
    hbody⟩ := of_decide_eq_true hfacts
  exact ⟨s, current, first, response, _, regranted_reach 2 hs, hcurrent, hfirst, hcaller₁, hcaller₂, href₁, href₂, hexp₁,
    hexp₂, unforgeable_extension hsigned, eq_ok_of_mem_toOption hresponse, hbody⟩

/-- The first client extends its own lease before it ends. -/
theorem extension_names_held_lease_sample :
    ∃ (s : Serving) (response : LeaseResponse) (stores' : Stores),
      leaseNew .sample s.stores "172.20.0.5" [] (.extension "1" "60000" "vSjuFCyltGJZ9uJ_w6Qhb0R71YQ8QG5jIZz_MOc7E1s")
        (.sample 1000 3) = (.ok response, stores') ∧
      (∃ issue ∈ s.issued, issue.leaseRef = "1" ∧
        issue.response.leaseToken = "vSjuFCyltGJZ9uJ_w6Qhb0R71YQ8QG5jIZz_MOc7E1s") ∧
      ∃ expected, parseI64 "60000" = some expected ∧ HeldUntil s.stores "wireguard" "1" expected 1000 := by
  have hrun : (exec (Serving.step .sample) (.start ⟨.fresh, .sample⟩) (regranted.take 1)).any fun s => decide
      ("1" ∈ s.signed ∧ ∃ response ∈ (leaseNew .sample s.stores "172.20.0.5" []
        (.extension "1" "60000" "vSjuFCyltGJZ9uJ_w6Qhb0R71YQ8QG5jIZz_MOc7E1s") (.sample 1000 3)).1.toOption,
        response.leaseExpires = "61000") := by
    decide +kernel
  obtain ⟨s, hs, hfacts⟩ := (Option.any_eq_true _ _).mp hrun
  obtain ⟨hsigned, response, hresponse, -⟩ := of_decide_eq_true hfacts
  have hok := eq_ok_of_mem_toOption hresponse
  exact ⟨s, response, _, hok,
    extension_names_held_lease (regranted_reach 1 hs) (unforgeable_extension hsigned) rfl hok⟩

end TpnWorker
