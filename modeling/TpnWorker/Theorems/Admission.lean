import TpnWorker.Api.Lease

/-! Which callers the lease endpoint of a worker admits. The comparison of texts sees whole octets only: it is right
    for a prefix of at most three whole octets, too wide where bits of an octet are left over, and it never
    matches a block of one address. -/

namespace TpnWorker

/-- The address has the whole octets of the block, but differs from it in the bits of its prefix that are left
    over. -/
def RoundedOnto (block : Cidr) (ip : Ipv4Addr) : Prop :=
  block.mask % 8 ≠ 0 ∧ ip.SharesOctets (block.mask / 8) block.addr ∧ ¬block.Contains ip

/-- The address is the one address of the block. -/
def IsHost (block : Cidr) (ip : Ipv4Addr) : Prop := block.mask = 32 ∧ ip = block.addr

/-- A block does not misjudge the address: it is not rounded onto it unless the other block has it, and is not
    its one address unless the other block is matched by its octets. -/
def MaskFits (block other : Cidr) (ip : Ipv4Addr) : Prop :=
  (RoundedOnto block ip → other.Contains ip) ∧
    (IsHost block ip → other.mask < 32 ∧ ip.SharesOctets (other.mask / 8) other.addr)

section Admission
variable {ip : Ipv4Addr} {block other internal external : Cidr}

/-- A prefix of at most three whole octets misjudges no address. -/
theorem maskFits_of_octets (hmask : block.mask % 8 = 0) (hlt : block.mask < 32) : MaskFits block other ip :=
  ⟨fun h => absurd hmask h.1, fun h => absurd h.1 (Nat.ne_of_lt hlt)⟩

/-- What the octets match belongs to one of the blocks, if the block fits. -/
theorem MaskFits.contains (h : MaskFits block other ip) (hshares : ip.SharesOctets (block.mask / 8) block.addr) :
    block.Contains ip ∨ other.Contains ip := by
  by_cases hmask : block.mask % 8 = 0
  · exact Or.inl ((Cidr.contains_iff_sharesOctets hmask).mpr hshares)
  · by_cases hmem : block.Contains ip
    · exact Or.inl hmem
    · exact Or.inr (h.1 ⟨hmask, hshares, hmem⟩)

/-- What belongs to a block is matched by the octets of one of the blocks, if the block fits. -/
theorem MaskFits.matches (h : MaskFits block other ip) (hmem : block.Contains ip) :
    (block.mask < 32 ∧ ip.SharesOctets (block.mask / 8) block.addr) ∨
      (other.mask < 32 ∧ ip.SharesOctets (other.mask / 8) other.addr) := by
  by_cases hlt : block.mask < 32
  · exact Or.inl ⟨hlt, hmem.sharesOctets⟩
  · have hmask : block.mask = 32 := Nat.le_antisymm block.mask_le (Nat.le_of_not_lt hlt)
    exact Or.inr (h.2 ⟨hmask, (Cidr.contains_of_mask_eq hmask).mp hmem⟩)

/-- A block fits if the addresses matched by octets are those of the two blocks. -/
theorem maskFits_of_iff
    (h : (block.mask < 32 ∧ ip.SharesOctets (block.mask / 8) block.addr ∨
        other.mask < 32 ∧ ip.SharesOctets (other.mask / 8) other.addr) ↔ block.Contains ip ∨ other.Contains ip) :
    MaskFits block other ip := by
  have hle := block.mask_le
  constructor
  · rintro ⟨hmask, hshares, hmem⟩
    exact (h.mp (Or.inl ⟨by omega, hshares⟩)).resolve_left hmem
  · rintro ⟨hmask, haddr⟩
    exact (h.mpr (Or.inl ((Cidr.contains_of_mask_eq hmask).mpr haddr))).resolve_left fun hlt => by omega

/-- The check agrees with the blocks exactly on loopback and where both blocks fit. -/
theorem isLocalIp_agrees_iff :
    (isLocalIp ip.display internal.display external.display = true ↔
        ip = Ipv4Addr.loopback ∨ internal.Contains ip ∨ external.Contains ip) ↔
      (ip = Ipv4Addr.loopback ∨ MaskFits internal external ip ∧ MaskFits external internal ip) := by
  rw [isLocalIp_display]
  simp only [List.mem_cons, List.not_mem_nil, or_false, exists_eq_or_imp, exists_eq_left]
  by_cases hloop : ip = Ipv4Addr.loopback
  · simp only [hloop, true_or]
  · simp only [hloop, false_or]
    constructor
    · intro h
      exact ⟨maskFits_of_iff h, maskFits_of_iff (or_comm.trans (h.trans or_comm))⟩
    · rintro ⟨hint, hext⟩
      constructor
      · rintro (⟨-, h⟩ | ⟨-, h⟩)
        · exact hint.contains h
        · exact (hext.contains h).symm
      · rintro (h | h)
        · exact hint.matches h
        · exact (hext.matches h).symm

/-- A caller that is no pool address and not local is refused. -/
theorem accessControl_error {config : AppConfig} {caller : String} {allowedPoolIps : List String}
    (hworker : config.isWorker = true) (hmock : config.ciMockWorkerResponses = false)
    (hip : sanitizeIpv4 caller ∉ allowedPoolIps)
    (hlocal : isLocalIp (sanitizeIpv4 caller) config.tpnInternalSubnet config.tpnExternalSubnet = false) :
    accessControl config caller allowedPoolIps = .error (accessDenied (sanitizeIpv4 caller)) := by
  have hmatch : (allowedPoolIps.any fun ip => decide (ip = sanitizeIpv4 caller)) = false := by
    rw [List.any_eq_false]
    intro ip hmem hdec
    exact hip (of_decide_eq_true hdec ▸ hmem)
  simp only [accessControl, hworker, hmock, hmatch, hlocal, Bool.not_false, Bool.and_self, if_true]

/-- The check is right about an address, and a worker refuses a request of that address unless it is a pool address,
    loopback or a member of a block. -/
def AdmitsMembersOnly (internal external : Cidr) (ip : Ipv4Addr) : Prop :=
  (isLocalIp ip.display internal.display external.display = true ↔
      ip = Ipv4Addr.loopback ∨ internal.Contains ip ∨ external.Contains ip) ∧
    ∀ (E : Endpoint) (s : Stores) (caller : String) (allowedPoolIps : List String) (params : LeaseParams) (env : LeaseEnv),
      E.worker.config.isWorker = true → E.worker.config.ciMockWorkerResponses = false →
      E.worker.config.tpnInternalSubnet = internal.display → E.worker.config.tpnExternalSubnet = external.display →
      sanitizeIpv4 caller = ip.display →
      ip.display ∈ allowedPoolIps ∨ ip = Ipv4Addr.loopback ∨ internal.Contains ip ∨ external.Contains ip ∨
        leaseNew E s caller allowedPoolIps params env = (.error (accessDenied ip.display), s)

/-- Admission matches the configured blocks for an address exactly if it is loopback or neither block misjudges
    it. -/
theorem admission_matches_iff :
    AdmitsMembersOnly internal external ip ↔
      ip = Ipv4Addr.loopback ∨ MaskFits internal external ip ∧ MaskFits external internal ip := by
  rw [← isLocalIp_agrees_iff]
  refine ⟨fun h => h.1, fun hagrees => ⟨hagrees, ?_⟩⟩
  intro E s caller allowedPoolIps params env hworker hmock hint hext hcaller
  by_cases hmem : ip = Ipv4Addr.loopback ∨ internal.Contains ip ∨ external.Contains ip
  · rcases hmem with h | h | h
    · exact Or.inr (Or.inl h)
    · exact Or.inr (Or.inr (Or.inl h))
    · exact Or.inr (Or.inr (Or.inr (Or.inl h)))
  · by_cases hpool : ip.display ∈ allowedPoolIps
    · exact Or.inl hpool
    · have hlocal := Bool.eq_false_iff.mpr fun h => hmem (hagrees.mp h)
      rw [← hint, ← hext, ← hcaller] at hlocal
      rw [← hcaller] at hpool ⊢
      exact Or.inr (Or.inr (Or.inr (Or.inr (leaseNew_of_denied (accessControl_error hworker hmock hpool hlocal)))))

end Admission

/-- 172.16.0.0/12 is compared as 172.: the check admits 172.32.0.1. -/
theorem outside_address_admitted :
    ¬∀ (internal external : Cidr) (ip : Ipv4Addr),
      isLocalIp ip.display internal.display external.display = true ↔
        ip = Ipv4Addr.loopback ∨ internal.Contains ip ∨ external.Contains ip := by
  intro h
  have hip := h ⟨⟨172, 16, 0, 0⟩, 12, by omega⟩ ⟨⟨172, 21, 0, 0⟩, 16, by omega⟩ ⟨172, 32, 0, 1⟩
  revert hip
  decide +kernel

end TpnWorker
