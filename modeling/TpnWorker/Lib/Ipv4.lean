import Mathlib.Algebra.Group.Nat.Defs
import Mathlib.Data.List.Basic
import TpnWorker.Lib.Decimal

/-! IPv4 addresses: the dotted decimal text and its parser, the 32-bit number of an address, and CIDR
    blocks. -/

/-! ### Words joined by a separator -/

section Words
variable {α : Type} {sep : α} {ws us : List (List α)}

/-- A word without the separator ends at its first occurrence. -/
theorem List.append_sep_inj {w u x y : List α} (hw : sep ∉ w) (hu : sep ∉ u) (h : w ++ sep :: x = u ++ sep :: y) :
    w = u ∧ x = y := by
  induction w generalizing u with
  | nil =>
    cases u with
    | nil => exact ⟨rfl, (List.cons.inj h).2⟩
    | cons b u => exact absurd (by rw [(List.cons.inj h).1]; exact List.mem_cons_self) hu
  | cons a w ih =>
    cases u with
    | nil => exact absurd (by rw [← (List.cons.inj h).1]; exact List.mem_cons_self) hw
    | cons b u =>
      obtain ⟨rfl, htail⟩ := List.cons.inj h
      obtain ⟨rfl, rfl⟩ := ih (fun hm => hw (List.mem_cons_of_mem _ hm)) (fun hm => hu (List.mem_cons_of_mem _ hm))
        htail
      exact ⟨rfl, rfl⟩

/-- Words that each end with the separator lead words that are joined by it if they are a proper prefix of
    them. -/
theorem List.flatMap_prefix_intercalate_iff (hws : ∀ w ∈ ws, sep ∉ w) (hus : ∀ u ∈ us, sep ∉ u) (hne : us ≠ []) :
    (ws.flatMap fun w => w ++ [sep]) <+: [sep].intercalate us ↔ ws <+: us ∧ ws.length < us.length := by
  induction ws generalizing us with
  | nil => simpa using List.length_pos_iff.mpr hne
  | cons w ws ih =>
    obtain ⟨hw, hws⟩ := List.forall_mem_cons.mp hws
    cases us with
    | nil => exact absurd rfl hne
    | cons u us =>
      obtain ⟨hu, hus⟩ := List.forall_mem_cons.mp hus
      rw [List.flatMap_cons, List.append_assoc, List.singleton_append, List.cons_prefix_cons]
      cases us with
      | nil =>
        rw [List.intercalate_singleton]
        constructor
        · rintro ⟨rest, h⟩
          exact absurd (h ▸ List.mem_append_left _ (List.mem_append_right _ List.mem_cons_self)) hu
        · rintro ⟨-, h⟩
          simp at h
      | cons u' us =>
        rw [List.intercalate_cons_cons, List.append_assoc, List.singleton_append]
        have hrest := ih hws hus (List.cons_ne_nil u' us)
        constructor
        · rintro ⟨rest, h⟩
          rw [List.append_assoc, List.cons_append] at h
          obtain ⟨rfl, htail⟩ := List.append_sep_inj hw hu h
          obtain ⟨hpre, hlen⟩ := hrest.mp ⟨rest, htail⟩
          exact ⟨⟨rfl, hpre⟩, by simpa using hlen⟩
        · rintro ⟨⟨rfl, hpre⟩, hlen⟩
          obtain ⟨rest, htail⟩ := hrest.mpr ⟨hpre, by simpa using hlen⟩
          exact ⟨rest, by rw [List.append_assoc, List.cons_append, htail]⟩

end Words

/-- An IPv4 address by its four octets. -/
structure Ipv4Addr where
  a : UInt8
  b : UInt8
  c : UInt8
  d : UInt8
deriving DecidableEq, Repr

namespace Ipv4Addr

def octets (ip : Ipv4Addr) : List UInt8 := [ip.a, ip.b, ip.c, ip.d]

/-- The decimal text of one octet. -/
def octetText (o : UInt8) : List Char := Decimal.digits o.toNat

/-- `Display`: the octets in decimal, separated by dots. -/
def display (ip : Ipv4Addr) : String := String.ofList (['.'].intercalate (ip.octets.map octetText))

/-- One octet of an address text: at most three digits, no leading zero, at most 255. -/
def readOctet (cs : List Char) : Option UInt8 :=
  if cs.length ≤ 3 ∧ (cs.length = 1 ∨ cs.head? ≠ some '0') then
    ((Decimal.readDigits cs).filter fun n => decide (n ≤ 255)).map UInt8.ofNat
  else none

/-- `FromStr`: four octets separated by dots. -/
def parse (text : String) : Option Ipv4Addr :=
  match text.toList.splitOn '.' with
  | [a, b, c, d] => do some ⟨← readOctet a, ← readOctet b, ← readOctet c, ← readOctet d⟩
  | _ => none

/-- The address as a 32-bit number. -/
def toNat (ip : Ipv4Addr) : ℕ := ((ip.a.toNat * 256 + ip.b.toNat) * 256 + ip.c.toNat) * 256 + ip.d.toNat

/-- The loopback address 127.0.0.1. -/
def loopback : Ipv4Addr := ⟨127, 0, 0, 1⟩

theorem readOctet_octetText (o : UInt8) : readOctet (octetText o) = some o := by
  have all : ∀ n : Fin 256, readOctet (Decimal.digits n) = some (UInt8.ofNat n) := by decide +kernel
  have h := all ⟨o.toNat, o.toNat_lt⟩
  rwa [UInt8.ofNat_toNat] at h

theorem octetText_injective {o o' : UInt8} (h : octetText o = octetText o') : o = o' := by
  have ho := readOctet_octetText o
  rw [h, readOctet_octetText] at ho
  exact (Option.some.inj ho).symm

theorem isDigit_of_mem_octetText {o : UInt8} {c : Char} (h : c ∈ octetText o) : c.isDigit = true :=
  Nat.isDigit_of_mem_toDigits (by omega) (by omega) h

theorem dot_notMem_octetText (o : UInt8) : '.' ∉ octetText o := fun h =>
  absurd (isDigit_of_mem_octetText h) (by decide)

theorem splitOn_display (ip : Ipv4Addr) : ip.display.toList.splitOn '.' = ip.octets.map octetText := by
  rw [display, String.toList_ofList]
  refine List.splitOn_intercalate '.' (fun l hl => ?_) (by simp [octets])
  obtain ⟨o, -, rfl⟩ := List.mem_map.mp hl
  exact dot_notMem_octetText o

theorem parse_display (ip : Ipv4Addr) : parse ip.display = some ip := by
  simp only [parse, splitOn_display, octets, List.map_cons, List.map_nil, readOctet_octetText]
  rfl

theorem display_injective {ip ip' : Ipv4Addr} (h : ip.display = ip'.display) : ip = ip' := by
  have hp := parse_display ip
  rw [h, parse_display] at hp
  exact (Option.some.inj hp).symm

theorem mem_display {ip : Ipv4Addr} {c : Char} (h : c ∈ ip.display.toList) : c = '.' ∨ c.isDigit = true := by
  rw [display, String.toList_ofList] at h
  simp only [octets, List.map_cons, List.map_nil, List.intercalate_cons_cons, List.intercalate_singleton, List.mem_append,
    List.mem_singleton] at h
  rcases h with (h | h) | (h | h) | (h | h) | h <;>
    first | exact Or.inl h | exact Or.inr (isDigit_of_mem_octetText h)

theorem toNat_eq (ip : Ipv4Addr) :
    ip.toNat = ip.a.toNat * 16777216 + ip.b.toNat * 65536 + ip.c.toNat * 256 + ip.d.toNat := by
  simp only [toNat]
  omega

/-- The two addresses have the same first `k` octets. -/
def SharesOctets (k : ℕ) (ip ip' : Ipv4Addr) : Prop := ip.octets.take k = ip'.octets.take k

instance (k : ℕ) (ip ip' : Ipv4Addr) : Decidable (SharesOctets k ip ip') := inferInstanceAs (Decidable (_ = _))

/-- The first octets are the high bits. -/
theorem sharesOctets_iff {k : ℕ} {ip ip' : Ipv4Addr} (hk : k ≤ 4) :
    SharesOctets k ip ip' ↔ ip.toNat / 2 ^ (32 - 8 * k) = ip'.toNat / 2 ^ (32 - 8 * k) := by
  obtain ⟨a, b, c, d⟩ := ip
  obtain ⟨a', b', c', d'⟩ := ip'
  have := a.toNat_lt
  have := b.toNat_lt
  have := c.toNat_lt
  have := d.toNat_lt
  have := a'.toNat_lt
  have := b'.toNat_lt
  have := c'.toNat_lt
  have := d'.toNat_lt
  have hk : k = 0 ∨ k = 1 ∨ k = 2 ∨ k = 3 ∨ k = 4 := by omega
  rcases hk with rfl | rfl | rfl | rfl | rfl <;>
    simp only [SharesOctets, octets, toNat_eq, List.take_zero, List.take_succ_cons, List.cons.injEq,
      ← UInt8.toNat_inj, Nat.reduceMul, Nat.reduceSub, Nat.reducePow, true_iff,
      and_true] <;> omega

theorem sharesOctets_four {ip ip' : Ipv4Addr} : SharesOctets 4 ip ip' ↔ ip = ip' := by
  obtain ⟨a, b, c, d⟩ := ip
  obtain ⟨a', b', c', d'⟩ := ip'
  simp [SharesOctets, octets]

/-- `ip` is the host address that lies `n` above `base` in the /24 of `base`. -/
def HostAt (base : Ipv4Addr) (n : ℕ) (ip : Ipv4Addr) : Prop :=
  ip.SharesOctets 3 base ∧ ip.d.toNat = base.d.toNat + n ∧ ip.d.toNat ≤ 254

instance (base : Ipv4Addr) (n : ℕ) (ip : Ipv4Addr) : Decidable (base.HostAt n ip) :=
  inferInstanceAs (Decidable (_ ∧ _ ∧ _))

theorem HostAt.eq {base ip ip' : Ipv4Addr} {n : ℕ} (h : base.HostAt n ip) (h' : base.HostAt n ip') : ip = ip' := by
  obtain ⟨hnet, hd, -⟩ := h
  obtain ⟨hnet', hd', -⟩ := h'
  have hoctet : ip.d = ip'.d := UInt8.toNat_inj.mp (hd.trans hd'.symm)
  obtain ⟨a, b, c, d⟩ := ip
  obtain ⟨a', b', c', d'⟩ := ip'
  have hshare : [a, b, c] = [a', b', c'] := hnet.trans hnet'.symm
  simp only [List.cons.injEq, and_true] at hshare
  obtain ⟨rfl, rfl, rfl⟩ := hshare
  rw [show d = d' from hoctet]

theorem HostAt.offset_eq {base ip : Ipv4Addr} {m n : ℕ} (h : base.HostAt m ip) (h' : base.HostAt n ip) : m = n := by
  have := h.2.1
  have := h'.2.1
  omega

/-- The low byte of a sum that stays below 255 gives a host address. -/
theorem hostAt_ofNat {base : Ipv4Addr} {n : ℕ} (h : base.d.toNat + n ≤ 254) :
    base.HostAt n { base with d := UInt8.ofNat (base.d.toNat + n) } := by
  have hd : (UInt8.ofNat (base.d.toNat + n)).toNat = base.d.toNat + n :=
    (UInt8.toNat_ofNat' ..).trans (Nat.mod_eq_of_lt (by omega))
  exact ⟨rfl, hd, Nat.le_trans (Nat.le_of_eq hd) h⟩

/-- A text of octets leads the text of an address if there are fewer than four and they are its first. -/
theorem octets_prefix_display {k : ℕ} {ip ip' : Ipv4Addr} :
    (((ip'.octets.take k).map octetText).flatMap fun w => w ++ ['.']) <+: ip.display.toList ↔
      k < 4 ∧ SharesOctets k ip ip' := by
  have hdot : ∀ (os : List UInt8), ∀ w ∈ os.map octetText, '.' ∉ w := by
    intro os w hw
    obtain ⟨o, -, rfl⟩ := List.mem_map.mp hw
    exact dot_notMem_octetText o
  rw [display, String.toList_ofList,
    List.flatMap_prefix_intercalate_iff (hdot _) (hdot _) (by simp [octets]), List.length_map, List.length_map,
    List.prefix_iff_eq_take, List.length_map, ← List.map_take, List.map_inj_right fun _ _ => octetText_injective]
  have hlen : ∀ ip : Ipv4Addr, ip.octets.length = 4 := fun _ => rfl
  rw [List.length_take, hlen, hlen]
  constructor
  · rintro ⟨h, hk⟩
    have hk : k < 4 := by omega
    rw [Nat.min_eq_left (Nat.le_of_lt hk)] at h
    exact ⟨hk, h.symm⟩
  · rintro ⟨hk, h⟩
    rw [Nat.min_eq_left (Nat.le_of_lt hk)]
    exact ⟨h.symm, hk⟩

end Ipv4Addr

/-- A CIDR block: an address of the block and the length of its network prefix. -/
structure Cidr where
  addr : Ipv4Addr
  mask : ℕ
  mask_le : mask ≤ 32

namespace Cidr

/-- The address agrees with the block's address in the first `mask` bits. -/
def Contains (block : Cidr) (ip : Ipv4Addr) : Prop :=
  ip.toNat / 2 ^ (32 - block.mask) = block.addr.toNat / 2 ^ (32 - block.mask)

instance (block : Cidr) (ip : Ipv4Addr) : Decidable (block.Contains ip) := inferInstanceAs (Decidable (_ = _))

/-- The addresses of a block share the whole octets of its prefix. -/
theorem Contains.sharesOctets {block : Cidr} {ip : Ipv4Addr} (h : block.Contains ip) :
    ip.SharesOctets (block.mask / 8) block.addr := by
  have hmask := block.mask_le
  rw [Ipv4Addr.sharesOctets_iff (by omega)]
  have hpow : 2 ^ (32 - 8 * (block.mask / 8)) = 2 ^ (32 - block.mask) * 2 ^ (block.mask - 8 * (block.mask / 8)) := by
    rw [← Nat.pow_add]
    congr 1
    omega
  rw [hpow, ← Nat.div_div_eq_div_mul, ← Nat.div_div_eq_div_mul, show _ = _ from h]

theorem contains_iff_sharesOctets {block : Cidr} {ip : Ipv4Addr} (hmask : block.mask % 8 = 0) :
    block.Contains ip ↔ ip.SharesOctets (block.mask / 8) block.addr := by
  have hle := block.mask_le
  rw [Ipv4Addr.sharesOctets_iff (by omega), Nat.mul_div_cancel' (Nat.dvd_of_mod_eq_zero hmask), Contains]

theorem contains_of_mask_eq {block : Cidr} {ip : Ipv4Addr} (hmask : block.mask = 32) :
    block.Contains ip ↔ ip = block.addr := by
  rw [← Ipv4Addr.sharesOctets_four, Ipv4Addr.sharesOctets_iff (Nat.le_refl 4), Contains, hmask]

/-- The block as text, `a.b.c.d/m`. -/
def display (block : Cidr) : String :=
  String.ofList (block.addr.display.toList ++ '/' :: Decimal.digits block.mask)

end Cidr
