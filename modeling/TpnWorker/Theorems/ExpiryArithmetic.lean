import TpnWorker.Theorems.Extensions
import TpnWorker.Theorems.LeaseTokens

/-! The arithmetic of a new expiry. The duration of a request has a lower bound only, and its product with 1000 and the
    sum with the clock are taken modulo 2^64. -/

namespace TpnWorker
open Keyed Wrap

/-- The times in milliseconds that a `chrono::DateTime<Utc>` can have. -/
def ChronoMillis (nowMs : Int) : Prop := -8334601228800000 ≤ nowMs ∧ nowMs ≤ 8210266876799999

/-- The expiry is `seconds` after `nowMs`: neither the product nor the sum overflows, and the lease lies ahead. -/
structure ExactExpiry (nowMs seconds expiresAt : Int) : Prop where
  product : InI64 (1000 * seconds)
  sum : InI64 (nowMs + 1000 * seconds)
  exact : expiresAt = nowMs + 1000 * seconds
  ahead : nowMs < expiresAt

/-- The row of the lease that was answered carries the expiry of the answer. -/
def StoredWith (s : Stores) (leaseType : String) (result : LeaseResult) : Prop :=
  (leaseType = "wireguard" ∧ ∃ peerId r, result.leaseRef = Decimal.display peerId ∧ s.table.get? peerId = some r ∧
      r.expiresAt = result.leaseExpiresAt) ∨
    leaseType = "socks5" ∧ ∃ r, readSocks5ConfigByUsername s.socks result.leaseRef = some r ∧
      r.expiresAt = result.leaseExpiresAt

/-- A lease is granted with the expiry that the call has computed, in the answer and in the row. -/
def GrantsUntil (s : Stores) (leaseType : String) (result : LeaseResult) (expiresAt : Int) : Prop :=
  result.leaseExpiresAt = expiresAt ∧ StoredWith s leaseType result

/-- The new expiry is exact exactly if the duration is short enough for the product, and for the sum when the clock is past
    the epoch. -/
theorem exactExpiry_iff {nowMs seconds : Int} (hclock : ChronoMillis nowMs) (hpos : 0 < seconds) :
    ExactExpiry nowMs seconds (newExpiresAt nowMs seconds) ↔ seconds ≤ (9223372036854775807 - max nowMs 0) / 1000 := by
  obtain ⟨hmin, hmax⟩ := hclock
  rw [Int.le_ediv_iff_mul_le (by decide)]
  constructor
  · rintro ⟨⟨-, hproduct⟩, ⟨-, hsum⟩, -, -⟩
    omega
  · intro hbound
    have hproduct : InI64 (1000 * seconds) := ⟨by omega, by omega⟩
    have hsum : InI64 (nowMs + 1000 * seconds) := ⟨by omega, by omega⟩
    have hexact : newExpiresAt nowMs seconds = nowMs + 1000 * seconds := by
      rw [newExpiresAt, Int.mul_comm seconds, i64_of_inI64 hproduct, i64_of_inI64 hsum]
    exact ⟨hproduct, hsum, hexact, by omega⟩

/-! ### Where the expiry goes -/

section Grant
variable {E : Endpoint} {W : Worker} {s s' : Stores} {req : LeaseRequest} {ref caller : String} {expected : Int}
  {env : LeaseEnv} {result : LeaseResult} {params : LeaseParams} {allowedPoolIps : List String}

theorem get?_insertLease_expiresAt (t : WgTable) (peerId expiresAt : Int) (nowStr : String) :
    ((insertLease t peerId expiresAt nowStr).get? peerId).map (·.expiresAt) = some expiresAt := by
  rw [get?_insertLease, if_pos rfl]
  cases t.get? peerId <;> rfl

theorem allocatePeer_expiresAt {api : WgApi} {srv : WireGuardServer} {w w' : WgState} {startId endId expiresAt : Int}
    {env : AllocateEnv} {allocation : PeerAllocation}
    (h : allocatePeer api srv w startId endId expiresAt env = (.ok allocation, w')) :
    allocation.expiresAt = expiresAt ∧ (w'.table.get? allocation.peerId).map (·.expiresAt) = some expiresAt := by
  simp only [allocatePeer] at h
  split at h
  · cases h
  · next lease table hlease =>
    obtain ⟨t₀, -, -, -, rfl⟩ := registerWireguardLease_ok hlease
    split at h
    · cases h
    · next hadd =>
      obtain rfl := addPeer_added hadd
      split at h
      · cases h
      · next hstore =>
        cases h
        exact ⟨rfl, (storePeerKeys_expiresAt hstore _).trans (get?_insertLease_expiresAt ..)⟩

theorem allocateWireguard_grants (h : allocateWireguard W s req env = (.ok result, s')) :
    GrantsUntil s' "wireguard" result (newExpiresAt env.nowMs req.leaseSeconds) := by
  simp only [allocateWireguard] at h
  split at h
  · split at h
    · cases h
    · next lease table hlease =>
      obtain ⟨t₀, -, -, -, rfl⟩ := registerWireguardLease_ok hlease
      cases h
      obtain ⟨r, hr, hexp⟩ := Option.map_eq_some_iff.mp
        (get?_insertLease_expiresAt t₀ lease.peerId (newExpiresAt env.nowMs req.leaseSeconds) env.allocate.nowStr)
      exact ⟨rfl, Or.inl ⟨rfl, lease.peerId, r, rfl, hr, hexp⟩⟩
  · split at h
    · cases h
    · split at h
      · cases h
      · next allocation wg halloc =>
        cases h
        obtain ⟨hexp, hrow⟩ := allocatePeer_expiresAt halloc
        obtain ⟨r, hr, hstored⟩ := Option.map_eq_some_iff.mp hrow
        exact ⟨hexp, Or.inl ⟨rfl, allocation.peerId, r, rfl, hr, hstored.trans hexp.symm⟩⟩

theorem extendWireguard_grants (h : extendWireguard W s req ref expected env = (.ok result, s')) :
    GrantsUntil s' "wireguard" result (newExpiresAt env.nowMs req.leaseSeconds) := by
  obtain ⟨peerId, r, -, -, -, -, href, hnew, hrow⟩ := extendWireguard_eq_ok h
  exact ⟨hnew, Or.inl ⟨rfl, peerId, _, href, hrow, hnew.symm⟩⟩

/-- An allocation hands out a row of the table and stores the expiry in it, whether or not the slot is shared. -/
theorem getSocks5Config_expiresAt {t t' : Socks5Table} {expiresAt slots : Int} {priority : Bool} {env : Socks5Env}
    {sock : Socks5Config} (h : getSocks5Config t expiresAt priority slots env = (.ok sock, t')) :
    ∃ r, readSocks5ConfigByUsername t' sock.username = some r ∧ r.expiresAt = expiresAt := by
  have hread : ∀ {t : Socks5Table} {limit offset : Int}, sock ∈ t.selectAvailable limit offset →
      readSocks5ConfigByUsername t sock.username = some sock := fun hmem =>
    Socks5Table.read_eq_some_iff.mpr ⟨(Socks5Table.mem_of_selectAvailable hmem).1, rfl⟩
  have hexclusive : ∀ {t : Socks5Table}, nonPriorityConfig t slots = some sock →
      ∃ r, readSocks5ConfigByUsername (markUnavailable t sock expiresAt env.nowMs) sock.username = some r ∧
        r.expiresAt = expiresAt := fun hselect =>
    ⟨_, Socks5Table.read_updateWhere_of (hread (List.mem_of_head? hselect)), by simp⟩
  simp only [getSocks5Config] at h
  split at h
  · simp only [getSocks5ConfigPriority] at h
    split at h
    · cases h
    · next config hchosen =>
      cases h
      exact ⟨_, Socks5Table.read_updateWhere_of (hread (List.mem_of_getElem? hchosen)), by simp⟩
  · simp only [getSocks5ConfigNonPriority] at h
    split at h
    · next hselect =>
      cases h
      exact hexclusive hselect
    · split at h
      · next hselect =>
        cases h
        exact hexclusive hselect
      · cases h

theorem allocateSocks5_grants (h : allocateSocks5 W s req env = (.ok result, s')) :
    GrantsUntil s' "socks5" result (newExpiresAt env.nowMs req.leaseSeconds) := by
  simp only [allocateSocks5] at h
  generalize (if (!req.priority && decide (countAvailableSocks s.socks W.config.prioritySlots = 0)) = true then
    (cleanupExpiredSocks5Configs s.socks env.cleanupMs).2 else s.socks) = socks at h
  split at h
  · cases h
  · split at h
    · cases h
    · next sock table hsock =>
      cases h
      exact ⟨rfl, Or.inr ⟨rfl, getSocks5Config_expiresAt hsock⟩⟩

theorem extendSocks5_grants (h : extendSocks5 s req ref expected env = (.ok result, s')) :
    GrantsUntil s' "socks5" result (newExpiresAt env.nowMs req.leaseSeconds) := by
  obtain ⟨-, r, -, -, -, href, hnew, hr, hexp⟩ := extendSocks5_eq_ok h
  exact ⟨hnew, Or.inr ⟨rfl, r, href ▸ hr, hexp.trans hnew.symm⟩⟩

/-- A new lease of either kind and an extension are granted until the expiry that the call has computed. -/
theorem getWorkerConfig_grants (h : getWorkerConfig W s req env = (.ok result, s')) :
    GrantsUntil s' req.leaseType result (newExpiresAt env.nowMs req.leaseSeconds) := by
  simp only [getWorkerConfig] at h
  split at h
  · split at h
    · cases h
    · split at h
      · next htype => exact htype ▸ extendWireguard_grants h
      · split at h
        · next htype => exact htype ▸ extendSocks5_grants h
        · cases h
  · split at h
    · next htype => exact htype ▸ allocateWireguard_grants h
    · split at h
      · next htype => exact htype ▸ allocateSocks5_grants h
      · cases h

end Grant

/-- The expiry of a request that is accepted is exact exactly if the duration is short enough, and it is the expiry with
    which a new lease of either kind or an extension is answered and stored. -/
theorem expiry_exact_iff (E : Endpoint) (params : LeaseParams) (env : LeaseEnv) (req : LeaseRequest)
    (hvalid : validate E params = .ok req) (hclock : ChronoMillis env.nowMs) :
    (ExactExpiry env.nowMs (leaseSeconds E params) (newExpiresAt env.nowMs req.leaseSeconds) ↔
        leaseSeconds E params ≤ (9223372036854775807 - max env.nowMs 0) / 1000) ∧
      ∀ s caller allowedPoolIps result s',
        leaseResult E s caller allowedPoolIps params env = (.ok (req, result), s') →
          GrantsUntil s' req.leaseType result (newExpiresAt env.nowMs req.leaseSeconds) := by
  obtain ⟨hreq, hpos, -⟩ := validate_ok hvalid
  refine ⟨?_, fun s caller allowedPoolIps result s' h => getWorkerConfig_grants (leaseResult_ok h).2.2⟩
  have hseconds : req.leaseSeconds = leaseSeconds E params := by rw [hreq]
  rw [hseconds]
  exact exactExpiry_iff hclock hpos

/-! ### A lease that is born expired -/

def LeaseParams.lasting (seconds leaseType : String) : LeaseParams :=
  { LeaseParams.fresh with leaseSeconds := some seconds, leaseType := some leaseType, priority := some "true" }

/-- The longest durations are accepted: one lease is granted until a second before the request, another one until a
    negative time. -/
theorem granted_in_the_past :
    ChronoMillis 5000 ∧
      (∃ req result s', leaseResult .sample ⟨.fresh, .sample⟩ "172.20.0.5" []
          (.lasting "9223372036854775807" "wireguard") (.sample 5000 1) = (.ok (req, result), s') ∧
        result.leaseExpiresAt = 4000 ∧ ¬ExactExpiry 5000 9223372036854775807 result.leaseExpiresAt) ∧
      ∃ req result s', leaseResult .sample ⟨.fresh, .sample⟩ "172.20.0.5" []
          (.lasting "9223372036854776" "socks5") (.sample 5000 1) = (.ok (req, result), s') ∧
        result.leaseExpiresAt < 0 ∧ ¬ExactExpiry 5000 9223372036854776 result.leaseExpiresAt := by
  have hrun : (leaseResult .sample ⟨.fresh, .sample⟩ "172.20.0.5" [] (.lasting "9223372036854775807" "wireguard")
      (.sample 5000 1)).1.toOption.map (·.2.leaseExpiresAt) = some 4000 := by decide +kernel
  have hrun' : (leaseResult .sample ⟨.fresh, .sample⟩ "172.20.0.5" [] (.lasting "9223372036854776" "socks5")
      (.sample 5000 1)).1.toOption.map (·.2.leaseExpiresAt) = some (-9223372036854770616) := by decide +kernel
  obtain ⟨⟨req, result⟩, hok, hexp⟩ := Option.map_eq_some_iff.mp hrun
  obtain ⟨⟨req', result'⟩, hok', hexp'⟩ := Option.map_eq_some_iff.mp hrun'
  dsimp only at hexp hexp'
  refine ⟨⟨by decide, by decide⟩, ⟨req, result, _, eq_ok_of_mem_toOption hok, hexp, fun h => ?_⟩,
    req', result', _, eq_ok_of_mem_toOption hok', ?_, fun h => ?_⟩
  · exact absurd h.ahead (by rw [hexp]; decide)
  · rw [hexp']
    decide
  · exact absurd h.ahead (by rw [hexp']; decide)

theorem expiry_exact_iff_sample :
    ∃ req, validate .sample (.lasting "60" "socks5") = .ok req ∧
      ExactExpiry 5000 60 (newExpiresAt 5000 req.leaseSeconds) := by
  have hvalid : validate .sample (.lasting "60" "socks5") = .ok ⟨"socks5", 60, true, "text", none, none⟩ := by rfl
  have hseconds : leaseSeconds .sample (.lasting "60" "socks5") = 60 := by rfl
  have h := (expiry_exact_iff .sample (.lasting "60" "socks5") (.sample 5000 1) _ hvalid ⟨by decide, by decide⟩).1
  rw [hseconds] at h
  exact ⟨_, hvalid, h.mpr (by decide)⟩

end TpnWorker
