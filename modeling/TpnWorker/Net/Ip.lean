import Mathlib.Data.List.TakeWhile
import TpnWorker.Lib.Ipv4

/-! Caller addresses (`src/net/ip.rs`): their normal form, and the comparison of a text with the network
    prefixes of the two configured subnets. -/

namespace TpnWorker

/-- The characters that `trim` removes: the Unicode property White_Space. -/
def isWhiteSpace (c : Char) : Bool :=
  let n := c.toNat
  decide ((9 ≤ n ∧ n ≤ 13) ∨ n = 0x20 ∨ n = 0x85 ∨ n = 0xA0 ∨ n = 0x1680 ∨ (0x2000 ≤ n ∧ n ≤ 0x200A) ∨ n = 0x2028 ∨
    n = 0x2029 ∨ n = 0x202F ∨ n = 0x205F ∨ n = 0x3000)

def trim (text : List Char) : List Char := ((text.dropWhile isWhiteSpace).reverse.dropWhile isWhiteSpace).reverse

/-- The text without this prefix, if it starts with it. -/
def stripPrefix (lead text : List Char) : List Char :=
  if lead.isPrefixOf text then text.drop lead.length else text

/-- The text before and after the first separator. -/
def splitOnce (sep : Char) (text : List Char) : Option (List Char × List Char) :=
  if sep ∈ text then some (text.takeWhile (· ≠ sep), (text.dropWhile (· ≠ sep)).tail) else none

/-- Normalize an address: strip `::ffff:`, convert `::1` to 127.0.0.1. -/
def sanitizeIpv4 (ip : String) : String :=
  let stripped := stripPrefix "::ffff:".toList (trim ip.toList)
  if stripped = "::1".toList then "127.0.0.1" else String.ofList stripped

/-- The network prefix of a CIDR text, such as `172.20.` of `172.20.0.0/16`. -/
def subnetPrefix (cidr : String) : String :=
  let parts := cidr.toList.splitOn '/'
  let ip := parts.headD []
  let maskBits := (parts[1]?.bind fun s => Decimal.parseUnsigned 4294967295 (String.ofList s)).getD 16
  let significantOctets := maskBits / 8
  let octets := (ip.splitOn '.').take significantOctets
  if octets = [] then "" else String.ofList (['.'].intercalate octets ++ ['.'])

def startsWith (text lead : String) : Bool := lead.toList.isPrefixOf text.toList

/-- Whether an address is loopback or starts with a network prefix. -/
def isLocalIp (ip internalSubnet externalSubnet : String) : Bool :=
  let sanitized := sanitizeIpv4 ip
  if sanitized = "127.0.0.1" ∨ sanitized = "localhost" ∨ sanitized = "::1" then true
  else startsWith sanitized (subnetPrefix internalSubnet) || startsWith sanitized (subnetPrefix externalSubnet)

theorem splitOnce_append {sep : Char} {a b : List Char} (h : sep ∉ a) : splitOnce sep (a ++ sep :: b) = some (a, b) := by
  have hne : ∀ c ∈ a, decide (c ≠ sep) = true := fun c hc => decide_eq_true fun heq => h (heq ▸ hc)
  rw [splitOnce, if_pos (List.mem_append_right _ List.mem_cons_self), List.takeWhile_append_of_pos hne,
    List.dropWhile_append_of_pos hne]
  simp

theorem trim_of_plain {text : List Char} (h : ∀ c ∈ text, isWhiteSpace c = false) : trim text = text := by
  have hplain : ∀ c ∈ text, ¬isWhiteSpace c = true := fun c hc => Bool.eq_false_iff.mp (h c hc)
  rw [trim, List.dropWhile_eq_self_iff.mpr fun hl => hplain _ (List.getElem_mem hl),
    List.dropWhile_eq_self_iff.mpr fun hl => hplain _ (List.mem_reverse.mp (List.getElem_mem hl)), List.reverse_reverse]

theorem trim_append {lead core tail : List Char} (hlead : ∀ c ∈ lead, isWhiteSpace c = true)
    (htail : ∀ c ∈ tail, isWhiteSpace c = true) (hfirst : core.dropWhile isWhiteSpace = core)
    (hlast : core.reverse.dropWhile isWhiteSpace = core.reverse) : trim (lead ++ core ++ tail) = core := by
  have hrev : ∀ c ∈ tail.reverse, isWhiteSpace c = true := fun c hc => htail c (List.mem_reverse.mp hc)
  rw [trim, List.append_assoc, List.dropWhile_append_of_pos hlead, List.dropWhile_append, hfirst]
  split
  · next hcore =>
    rw [List.isEmpty_iff] at hcore
    rw [hcore, List.dropWhile_eq_nil_iff.mpr htail]
    rfl
  · rw [List.reverse_append, List.dropWhile_append_of_pos hrev, hlast, List.reverse_reverse]

/-! ### Dotted decimal texts -/

section Display
variable {ip : Ipv4Addr} {block internal external : Cidr}

theorem display_head : ∃ c cs, ip.display.toList = c :: cs ∧ c.isDigit = true := by
  obtain ⟨c, cs, hcs, hc⟩ := Decimal.digits_head ip.a.toNat
  have h : ip.display.toList =
      Ipv4Addr.octetText ip.a ++ '.' :: ['.'].intercalate ([ip.b, ip.c, ip.d].map Ipv4Addr.octetText) := by
    rw [Ipv4Addr.display, String.toList_ofList, Ipv4Addr.octets, List.map_cons, List.map_cons,
      List.intercalate_cons_cons, List.append_assoc, List.singleton_append]
  rw [Ipv4Addr.octetText, hcs, List.cons_append] at h
  exact ⟨c, _, h, hc⟩

theorem not_isWhiteSpace {c : Char} (h : c = '.' ∨ c.isDigit = true) : isWhiteSpace c = false := by
  rcases h with rfl | h
  · decide
  · simp only [Char.isDigit, Bool.and_eq_true, decide_eq_true_eq] at h
    have h₁ : 48 ≤ c.toNat := h.1
    have h₂ : c.toNat ≤ 57 := h.2
    simp only [isWhiteSpace, decide_eq_false_iff_not]
    omega

theorem sanitizeIpv4_display : sanitizeIpv4 ip.display = ip.display := by
  have htrim : trim ip.display.toList = ip.display.toList :=
    trim_of_plain fun c hc => not_isWhiteSpace (Ipv4Addr.mem_display hc)
  obtain ⟨c, cs, hcs, hc⟩ := (display_head : ∃ c cs, ip.display.toList = c :: cs ∧ _)
  have hcolon : c ≠ ':' := by
    rintro rfl
    exact absurd hc (by decide)
  have hprefix : "::ffff:".toList.isPrefixOf (c :: cs) = false := by
    simp [List.isPrefixOf, hcolon.symm]
  have hloop : c :: cs ≠ "::1".toList := by
    intro h
    exact hcolon (List.cons.inj h).1
  rw [sanitizeIpv4, htrim, hcs, stripPrefix, hprefix]
  simp only [Bool.false_eq_true, if_false, if_neg hloop]
  rw [← hcs, String.ofList_toList]

/-- The prefix of a block is the text of its whole octets. -/
theorem subnetPrefix_display :
    (subnetPrefix block.display).toList =
      ((block.addr.octets.take (block.mask / 8)).map Ipv4Addr.octetText).flatMap fun w => w ++ ['.'] := by
  have hparts : block.display.toList.splitOn '/' = [block.addr.display.toList, Decimal.digits block.mask] := by
    have hslash : ∀ l ∈ [block.addr.display.toList, Decimal.digits block.mask], '/' ∉ l := by
      intro l hl hmem
      rcases List.mem_cons.mp hl with rfl | hl
      · exact absurd (Ipv4Addr.mem_display hmem) (by decide)
      · cases List.mem_singleton.mp hl
        exact absurd (Nat.isDigit_of_mem_toDigits (by omega) (by omega) hmem) (by decide)
    have hdisplay : block.display.toList = ['/'].intercalate [block.addr.display.toList, Decimal.digits block.mask] := by
      rw [Cidr.display, String.toList_ofList, List.intercalate_cons_cons, List.intercalate_singleton, List.append_assoc,
        List.singleton_append]
    rw [hdisplay, List.splitOn_intercalate '/' hslash (by simp)]
  have hmask := block.mask_le
  have hread : Decimal.parseUnsigned 4294967295 (String.ofList (Decimal.digits block.mask)) = some block.mask :=
    Decimal.parseUnsigned_digits (by omega)
  simp only [subnetPrefix, hparts, List.headD_cons, List.getElem?_cons_succ, List.getElem?_cons_zero, Option.bind_some,
    hread, Option.getD_some, Ipv4Addr.splitOn_display, ← List.map_take]
  generalize block.addr.octets.take (block.mask / 8) = os
  cases os with
  | nil => rfl
  | cons o os =>
    rw [if_neg (by simp), String.toList_ofList]
    induction os generalizing o with
    | nil => simp
    | cons o' os ih =>
      have h := ih o'
      simp only [List.map_cons, List.intercalate_cons_cons, List.flatMap_cons, List.append_assoc] at h ⊢
      rw [h]

/-- An address text starts with the prefix of a block if it has the block's whole octets, fewer than four. -/
theorem startsWith_subnetPrefix :
    startsWith ip.display (subnetPrefix block.display) = true ↔
      block.mask < 32 ∧ ip.SharesOctets (block.mask / 8) block.addr := by
  have hmask := block.mask_le
  rw [startsWith, List.isPrefixOf_iff_prefix, subnetPrefix_display, Ipv4Addr.octets_prefix_display]
  exact and_congr_left fun _ => by omega

/-- What the check computes on the text of an address and of two blocks. -/
theorem isLocalIp_display :
    isLocalIp ip.display internal.display external.display = true ↔
      ip = Ipv4Addr.loopback ∨ ∃ block ∈ [internal, external], block.mask < 32 ∧
        ip.SharesOctets (block.mask / 8) block.addr := by
  have hloop : ip.display = "127.0.0.1" ↔ ip = Ipv4Addr.loopback :=
    ⟨fun h => Ipv4Addr.display_injective (h.trans (by decide)), fun h => h ▸ by decide⟩
  obtain ⟨c, cs, hcs, hc⟩ := (display_head : ∃ c cs, ip.display.toList = c :: cs ∧ _)
  have hhost : ip.display ≠ "localhost" := by
    intro h
    rw [h] at hcs
    cases hcs
    exact absurd hc (by decide)
  have hsix : ip.display ≠ "::1" := by
    intro h
    rw [h] at hcs
    cases hcs
    exact absurd hc (by decide)
  simp only [isLocalIp, sanitizeIpv4_display, hloop, hhost, hsix, or_false]
  split
  · next h => exact ⟨fun _ => Or.inl h, fun _ => rfl⟩
  · next h =>
    simp only [Bool.or_eq_true, startsWith_subnetPrefix, h, false_or, List.mem_cons, List.not_mem_nil, or_false,
      exists_eq_or_imp, exists_eq_left]

end Display

end TpnWorker
