import Mathlib.Data.Nat.Notation

/-! Integers of fixed width: the wrap-around of 64-bit signed arithmetic and the narrowing cast to 16 bits. -/

namespace Wrap

/-- The value of a 64-bit signed computation whose mathematical result is `n`. -/
def i64 (n : Int) : Int := (n + 9223372036854775808) % 18446744073709551616 - 9223372036854775808

/-- The mathematical result fits a 64-bit signed integer. -/
def InI64 (n : Int) : Prop := -9223372036854775808 ≤ n ∧ n ≤ 9223372036854775807

/-- The cast `as u16`. -/
def asU16 (n : Int) : ℕ := (n % 65536).toNat

theorem i64_of_inI64 {n : Int} (h : InI64 n) : i64 n = n := by
  obtain ⟨h₁, h₂⟩ := h
  simp only [i64]
  omega

theorem asU16_natCast {n : ℕ} (h : n < 65536) : asU16 n = n := by
  simp only [asU16]
  omega

theorem natCast_asU16 {n : Int} (h₁ : 0 ≤ n) (h₂ : n < 65536) : (asU16 n : Int) = n := by
  simp only [asU16]
  omega

theorem asU16_injOn {m n : Int} (hm₁ : 0 ≤ m) (hm₂ : m < 65536) (hn₁ : 0 ≤ n) (hn₂ : n < 65536)
    (h : asU16 m = asU16 n) : m = n := by
  rw [← natCast_asU16 hm₁ hm₂, h, natCast_asU16 hn₁ hn₂]

end Wrap
