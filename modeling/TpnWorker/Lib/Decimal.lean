import Mathlib.Data.Nat.Notation

/-! Decimal texts of integers: `Display` writes the digits with a minus sign for a negative number, and
    `FromStr` of a fixed-width type reads digits with an optional sign and rejects what is out of range. -/

namespace Decimal

/-- The digits of a natural number. -/
def digits (n : ℕ) : List Char := Nat.toDigits 10 n

/-- The number that a nonempty list of digits stands for. -/
def readDigits (cs : List Char) : Option ℕ :=
  if cs ≠ [] ∧ cs.all Char.isDigit then some (Nat.ofDigitChars 10 cs 0) else none

/-- `Display` of an integer. -/
def display : Int → String
  | .ofNat n => String.ofList (digits n)
  | .negSucc n => String.ofList ('-' :: digits (n + 1))

/-- `FromStr` of an unsigned type whose largest value is `max`. -/
def parseUnsigned (max : ℕ) (text : String) : Option ℕ :=
  let number := match text.toList with
    | '+' :: cs => readDigits cs
    | cs => readDigits cs
  number.filter fun n => decide (n ≤ max)

/-- `FromStr` of a signed type with values from `min` to `max`. -/
def parseSigned (min max : Int) (text : String) : Option Int :=
  let number := match text.toList with
    | '-' :: cs => (readDigits cs).map fun n => -(n : Int)
    | '+' :: cs => (readDigits cs).map fun n => (n : Int)
    | cs => (readDigits cs).map fun n => (n : Int)
  number.filter fun n => decide (min ≤ n ∧ n ≤ max)

theorem readDigits_digits (n : ℕ) : readDigits (digits n) = some n := by
  have hall : ∀ c ∈ Nat.toDigits 10 n, c.isDigit = true :=
    fun _ hc => Nat.isDigit_of_mem_toDigits (by omega) (by omega) hc
  simpa [readDigits, digits, Nat.toDigits_ne_nil, Nat.ofDigitChars_ten_toDigits] using hall

theorem digits_head (n : ℕ) : ∃ c cs, digits n = c :: cs ∧ c.isDigit = true := by
  cases h : digits n with
  | nil => exact absurd h Nat.toDigits_ne_nil
  | cons c cs => exact ⟨c, cs, rfl, Nat.isDigit_of_mem_toDigits (b := 10) (n := n) (by omega) (by omega)
      (by rw [← digits, h]; exact List.mem_cons_self)⟩

theorem parseUnsigned_digits {n max : ℕ} (h : n ≤ max) : parseUnsigned max (String.ofList (digits n)) = some n := by
  obtain ⟨c, cs, hcs, hc⟩ := digits_head n
  have hplus : c ≠ '+' := by
    rintro rfl
    exact absurd hc (by decide)
  have hread := readDigits_digits n
  rw [hcs] at hread
  simp only [parseUnsigned, String.toList_ofList, hcs]
  split
  · next heq => exact absurd (List.cons.inj heq).1 hplus
  · rw [hread]
    simp [h]

theorem parseSigned_display {i min max : Int} (hmin : min ≤ i) (hmax : i ≤ max) :
    parseSigned min max (display i) = some i := by
  cases i with
  | ofNat n =>
    obtain ⟨c, cs, hcs, hc⟩ := digits_head n
    have hread := readDigits_digits n
    rw [hcs] at hread
    simp only [display, parseSigned, String.toList_ofList, hcs]
    split
    · next heq =>
      rw [(List.cons.inj heq).1] at hc
      exact absurd hc (by decide)
    · next heq =>
      rw [(List.cons.inj heq).1] at hc
      exact absurd hc (by decide)
    · rw [hread]
      simpa using ⟨hmin, hmax⟩
  | negSucc n =>
    simp only [display, parseSigned, String.toList_ofList, readDigits_digits]
    exact Option.filter_eq_some_iff.mpr ⟨rfl, decide_eq_true ⟨hmin, hmax⟩⟩

end Decimal
