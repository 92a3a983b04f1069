import Mathlib.Data.List.Basic

/-! Standard base64 (RFC 4648): groups of three bytes as four characters, a last short group padded with
    `=`. The decoder is strict: padding is required and the unused bits of a short group are zero. -/

/-- The bytes of a text in UTF-8. -/
def textBytes (text : String) : List UInt8 := text.toUTF8.data.toList

theorem textBytes_inj {text text' : String} : textBytes text = textBytes text' ↔ text = text' := by
  rw [textBytes, textBytes, Array.toList_inj, ← ByteArray.ext_iff, String.toUTF8_eq_toByteArray,
    String.toUTF8_eq_toByteArray, String.toByteArray_inj]

namespace Base64

/-- The character that stands for a six-bit value. -/
def digit (n : Nat) : Char :=
  if n < 26 then Char.ofNat (n + 65)
  else if n < 52 then Char.ofNat (n + 71)
  else if n < 62 then Char.ofNat (n - 4)
  else if n = 62 then '+'
  else '/'

/-- The six-bit value that a character stands for. -/
def value (c : Char) : Option Nat :=
  if 65 ≤ c.toNat ∧ c.toNat ≤ 90 then some (c.toNat - 65)
  else if 97 ≤ c.toNat ∧ c.toNat ≤ 122 then some (c.toNat - 71)
  else if 48 ≤ c.toNat ∧ c.toNat ≤ 57 then some (c.toNat + 4)
  else if c = '+' then some 62
  else if c = '/' then some 63
  else none

def encodeChars : List UInt8 → List Char
  | a :: b :: c :: rest =>
    let n := a.toNat * 65536 + b.toNat * 256 + c.toNat
    digit (n / 262144) :: digit (n / 4096 % 64) :: digit (n / 64 % 64) :: digit (n % 64) :: encodeChars rest
  | [a, b] =>
    let n := a.toNat * 1024 + b.toNat * 4
    [digit (n / 4096), digit (n / 64 % 64), digit (n % 64), '=']
  | [a] =>
    let n := a.toNat * 16
    [digit (n / 64), digit (n % 64), '=', '=']
  | [] => []

/-- The bytes of one full group. -/
def group (w x y z : Char) : Option (List UInt8) := do
  let n := (← value w) * 262144 + (← value x) * 4096 + (← value y) * 64 + (← value z)
  some [UInt8.ofNat (n / 65536), UInt8.ofNat (n / 256 % 256), UInt8.ofNat (n % 256)]

/-- The bytes of a last group: full, or short and padded. -/
def lastGroup (w x y z : Char) : Option (List UInt8) :=
  if z = '=' then
    if y = '=' then do
      let n := (← value w) * 64 + (← value x)
      if n % 16 = 0 then some [UInt8.ofNat (n / 16)] else none
    else do
      let n := (← value w) * 4096 + (← value x) * 64 + (← value y)
      if n % 4 = 0 then some [UInt8.ofNat (n / 1024), UInt8.ofNat (n / 4 % 256)] else none
  else group w x y z

def decodeChars : List Char → Option (List UInt8)
  | [] => some []
  | [w, x, y, z] => lastGroup w x y z
  | w :: x :: y :: z :: rest => do
    let bytes ← group w x y z
    let more ← decodeChars rest
    some (bytes ++ more)
  | _ => none

def encode (bytes : List UInt8) : String := String.ofList (encodeChars bytes)

def decode (text : String) : Option (List UInt8) := decodeChars text.toList

/-- The URL-safe alphabet without padding. -/
def encodeUrlNoPad (bytes : List UInt8) : String :=
  String.ofList (((encodeChars bytes).filter fun c => decide (c ≠ '=')).map fun c =>
    if c = '+' then '-' else if c = '/' then '_' else c)

/-! ### Decoding inverts encoding -/

theorem value_digit {n : Nat} (h : n < 64) : value (digit n) = some n := by
  have all : ∀ i : Fin 64, value (digit i) = some i.val := by decide
  exact all ⟨n, h⟩

theorem digit_ne_pad {n : Nat} (h : n < 64) : digit n ≠ '=' := by
  have all : ∀ i : Fin 64, digit i ≠ '=' := by decide
  exact all ⟨n, h⟩

theorem group_digits {a b c : UInt8} :
    let n := a.toNat * 65536 + b.toNat * 256 + c.toNat
    group (digit (n / 262144)) (digit (n / 4096 % 64)) (digit (n / 64 % 64)) (digit (n % 64)) = some [a, b, c] := by
  intro n
  have ha := a.toNat_lt
  have hb := b.toNat_lt
  have hc := c.toNat_lt
  have hn : n = a.toNat * 65536 + b.toNat * 256 + c.toNat := rfl
  clear_value n
  have hdigits : n / 262144 * 262144 + n / 4096 % 64 * 4096 + n / 64 % 64 * 64 + n % 64 = n := by omega
  have h1 : n / 65536 = a.toNat := by omega
  have h2 : n / 256 % 256 = b.toNat := by omega
  have h3 : n % 256 = c.toNat := by omega
  simp only [group, value_digit (show n / 262144 < 64 by omega), value_digit (show n / 4096 % 64 < 64 by omega),
    value_digit (show n / 64 % 64 < 64 by omega), value_digit (show n % 64 < 64 by omega), Option.bind_eq_bind,
    Option.bind_some, hdigits, h1, h2, h3, UInt8.ofNat_toNat]

theorem lastGroup_two {a b : UInt8} :
    let n := a.toNat * 1024 + b.toNat * 4
    lastGroup (digit (n / 4096)) (digit (n / 64 % 64)) (digit (n % 64)) '=' = some [a, b] := by
  intro n
  have ha := a.toNat_lt
  have hb := b.toNat_lt
  have hn : n = a.toNat * 1024 + b.toNat * 4 := rfl
  clear_value n
  have hdigits : n / 4096 * 4096 + n / 64 % 64 * 64 + n % 64 = n := by omega
  have h1 : n / 1024 = a.toNat := by omega
  have h2 : n / 4 % 256 = b.toNat := by omega
  have h3 : n % 4 = 0 := by omega
  simp only [lastGroup, digit_ne_pad (show n % 64 < 64 by omega), value_digit (show n / 4096 < 64 by omega),
    value_digit (show n / 64 % 64 < 64 by omega), value_digit (show n % 64 < 64 by omega), Option.bind_eq_bind,
    Option.bind_some, hdigits, h1, h2, h3, UInt8.ofNat_toNat, if_true, if_false]

theorem lastGroup_one {a : UInt8} :
    let n := a.toNat * 16
    lastGroup (digit (n / 64)) (digit (n % 64)) '=' '=' = some [a] := by
  intro n
  have ha := a.toNat_lt
  have hn : n = a.toNat * 16 := rfl
  clear_value n
  have hdigits : n / 64 * 64 + n % 64 = n := by omega
  have h1 : n / 16 = a.toNat := by omega
  have h2 : n % 16 = 0 := by omega
  simp only [lastGroup, value_digit (show n / 64 < 64 by omega), value_digit (show n % 64 < 64 by omega),
    Option.bind_eq_bind, Option.bind_some, hdigits, h1, h2, UInt8.ofNat_toNat, if_true]

theorem decodeChars_encodeChars : ∀ bytes : List UInt8, decodeChars (encodeChars bytes) = some bytes
  | [] => rfl
  | [_] => lastGroup_one
  | [_, _] => lastGroup_two
  | [a, b, c] => by
    have hne : digit ((a.toNat * 65536 + b.toNat * 256 + c.toNat) % 64) ≠ '=' := digit_ne_pad (by omega)
    simp only [encodeChars, decodeChars, lastGroup, if_neg hne]
    exact group_digits
  | a :: b :: c :: d :: rest => by
    have ih := decodeChars_encodeChars (d :: rest)
    have hcons : ∃ x xs, encodeChars (d :: rest) = x :: xs := by
      rcases rest with _ | ⟨e, _ | ⟨f, rest⟩⟩
      · exact ⟨_, _, rfl⟩
      · exact ⟨_, _, rfl⟩
      · exact ⟨_, _, rfl⟩
    obtain ⟨x, xs, hx⟩ := hcons
    rw [hx] at ih
    have hsplit : encodeChars (a :: b :: c :: d :: rest) = _ :: _ :: _ :: _ :: encodeChars (d :: rest) := rfl
    rw [hsplit, hx]
    simp only [decodeChars]
    rw [group_digits, ih]
    rfl

theorem mem_encodeChars {c : Char} : ∀ {bytes : List UInt8}, c ∈ encodeChars bytes → c = '=' ∨ ∃ n < 64, c = digit n
  | [], h => by cases h
  | [a], h => by
    have ha := a.toNat_lt
    simp only [encodeChars, List.mem_cons, List.not_mem_nil, or_false] at h
    rcases h with rfl | rfl | rfl | rfl
    · exact Or.inr ⟨_, by omega, rfl⟩
    · exact Or.inr ⟨_, by omega, rfl⟩
    · exact Or.inl rfl
    · exact Or.inl rfl
  | [a, b], h => by
    have ha := a.toNat_lt
    have hb := b.toNat_lt
    simp only [encodeChars, List.mem_cons, List.not_mem_nil, or_false] at h
    rcases h with rfl | rfl | rfl | rfl
    · exact Or.inr ⟨_, by omega, rfl⟩
    · exact Or.inr ⟨_, by omega, rfl⟩
    · exact Or.inr ⟨_, by omega, rfl⟩
    · exact Or.inl rfl
  | a :: b :: c :: rest, h => by
    have ha := a.toNat_lt
    have hb := b.toNat_lt
    have hc := c.toNat_lt
    simp only [encodeChars, List.mem_cons] at h
    rcases h with rfl | rfl | rfl | rfl | h
    · exact Or.inr ⟨_, by omega, rfl⟩
    · exact Or.inr ⟨_, by omega, rfl⟩
    · exact Or.inr ⟨_, by omega, rfl⟩
    · exact Or.inr ⟨_, by omega, rfl⟩
    · exact mem_encodeChars h

theorem encodeChars_ne_nil {bytes : List UInt8} (h : bytes ≠ []) : encodeChars bytes ≠ [] := by
  intro hnil
  have hd := decodeChars_encodeChars bytes
  rw [hnil] at hd
  exact h (Option.some.inj hd).symm

theorem decode_encode (bytes : List UInt8) : decode (encode bytes) = some bytes := by
  simp only [decode, encode, String.toList_ofList, decodeChars_encodeChars]

end Base64
