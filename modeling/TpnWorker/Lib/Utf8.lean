import Mathlib.Data.List.Basic
import TpnWorker.Lib.Base64

/-! Bytes as text. The bytes are cut into characters and invalid sequences, a sequence being as long as it can be
    continued to a character; strict decoding refuses the sequences, lossy decoding replaces them. -/

namespace Utf8

/-- The character whose encoding starts the bytes. -/
def charAt (bytes : List UInt8) : Option Char := (ByteArray.mk bytes.toArray).utf8DecodeChar? 0

def isContinuation (b : UInt8) : Bool := decide (0x80 ≤ b ∧ b ≤ 0xBF)

/-- The second bytes of the characters of three and four bytes. -/
def isSecond (b c : UInt8) : Bool :=
  decide ((b = 0xE0 ∧ 0xA0 ≤ c ∧ c ≤ 0xBF) ∨ (0xE1 ≤ b ∧ b ≤ 0xEC ∧ 0x80 ≤ c ∧ c ≤ 0xBF) ∨
    (b = 0xED ∧ 0x80 ≤ c ∧ c ≤ 0x9F) ∨ (0xEE ≤ b ∧ b ≤ 0xEF ∧ 0x80 ≤ c ∧ c ≤ 0xBF) ∨
    (b = 0xF0 ∧ 0x90 ≤ c ∧ c ≤ 0xBF) ∨ (0xF1 ≤ b ∧ b ≤ 0xF3 ∧ 0x80 ≤ c ∧ c ≤ 0xBF) ∨
    (b = 0xF4 ∧ 0x80 ≤ c ∧ c ≤ 0x8F))

/-- The length of the invalid sequence that starts bytes without a character at their start. -/
def invalidLength : List UInt8 → ℕ
  | b :: c :: rest =>
    if isSecond b c then
      match rest with
      | d :: _ => if 0xF0 ≤ b ∧ isContinuation d then 3 else 2
      | [] => 2
    else 1
  | _ => 1

/-- The characters, and `none` for each invalid sequence, of at most `fuel` bytes. -/
def chunksAux : (fuel : ℕ) → List UInt8 → List (Option Char)
  | 0, _ | _, [] => []
  | fuel + 1, b :: rest =>
    match charAt (b :: rest) with
    | some c => some c :: chunksAux fuel ((b :: rest).drop c.utf8Size)
    | none => none :: chunksAux fuel ((b :: rest).drop (invalidLength (b :: rest)))

def chunks (bytes : List UInt8) : List (Option Char) := chunksAux bytes.length bytes

/-- `from_utf8_lossy`: U+FFFD for each invalid sequence. -/
def lossy (bytes : List UInt8) : String := String.ofList ((chunks bytes).map fun c => c.getD '\uFFFD')

/-- `from_utf8`: the text, if no sequence is invalid. -/
def decode (bytes : List UInt8) : Option String := ((chunks bytes).mapM id).map String.ofList

section Chunks
variable {bytes a b : List UInt8} {x : UInt8} {c : Char}

theorem toByteArray_eq (bytes : List UInt8) : ByteArray.mk bytes.toArray = bytes.toByteArray := by
  rw [ByteArray.ext_iff, List.data_toByteArray]

/-- A character is read where its encoding stands. -/
theorem charAt_eq_some_iff : charAt bytes = some c ↔ ∃ rest, bytes = String.utf8EncodeChar c ++ rest := by
  rw [charAt, toByteArray_eq]
  constructor
  · intro h
    obtain ⟨rest, hrest⟩ := ByteArray.exists_of_utf8DecodeChar?_eq_some h
    refine ⟨rest.data.toList, ?_⟩
    have hdata := congrArg (fun bytes => bytes.data.toList) hrest
    simpa using hdata
  · rintro ⟨rest, rfl⟩
    rw [List.toByteArray_append]
    exact ByteArray.utf8DecodeChar?_utf8EncodeChar_append

/-- Only the first byte of a character can be an ASCII byte. -/
theorem eq_nil_of_ascii {rest : List UInt8} (hx : x < 0x80) (h : String.utf8EncodeChar c = a ++ x :: rest) : a = [] := by
  have hlt : a.length < (String.utf8EncodeChar c).length := by simp [h]
  have hget : (String.utf8EncodeChar c)[a.length] = x := by simp [h]
  have hfirst : (String.utf8EncodeChar c)[a.length].IsUTF8FirstByte ↔ a.length = 0 :=
    UInt8.isUTF8FirstByte_getElem_utf8EncodeChar
  rw [← List.length_eq_zero_iff, ← hfirst, hget]
  left
  have all : ∀ n : Fin 128, UInt8.ofNat n &&& 128 = 0 := by decide
  have h := all ⟨x.toNat, hx⟩
  rwa [UInt8.ofNat_toNat] at h

theorem charAt_append {rest : List UInt8} (hx : x < 0x80) (ha : a ≠ []) : charAt (a ++ x :: rest) = charAt a := by
  ext c
  rw [charAt_eq_some_iff, charAt_eq_some_iff]
  constructor
  · rintro ⟨tail, h⟩
    rcases List.append_eq_append_iff.mp h with ⟨l, hc, -⟩ | ⟨l, rfl, -⟩
    · cases l with
      | nil => exact ⟨[], by simpa using hc.symm⟩
      | cons y l =>
        obtain ⟨rfl, -⟩ : x = y ∧ rest = l ++ tail := by simpa [hc] using h
        exact absurd (eq_nil_of_ascii hx hc) ha
    · exact ⟨l, rfl⟩
  · rintro ⟨tail, rfl⟩
    exact ⟨tail ++ x :: rest, List.append_assoc _ _ _⟩

theorem isSecond_ascii (hx : x < 0x80) (y : UInt8) : isSecond y x = false := by
  simp only [isSecond, decide_eq_false_iff_not]
  rw [UInt8.lt_iff_toNat_lt] at hx
  simp only [UInt8.le_iff_toNat_le]
  have : (0x80 : UInt8).toNat = 128 := rfl
  have : (0x90 : UInt8).toNat = 144 := rfl
  have : (0xA0 : UInt8).toNat = 160 := rfl
  omega

theorem isContinuation_ascii (hx : x < 0x80) : isContinuation x = false := by
  rw [isContinuation, decide_eq_false_iff_not, not_and]
  exact fun h => absurd h (UInt8.not_le.mpr hx)

theorem invalidLength_append {rest : List UInt8} (hx : x < 0x80) (ha : a ≠ []) :
    invalidLength (a ++ x :: rest) = invalidLength a := by
  rcases a with _ | ⟨b, _ | ⟨c, _ | ⟨d, a⟩⟩⟩
  · exact absurd rfl ha
  · simp [invalidLength, isSecond_ascii hx]
  · simp [invalidLength, isContinuation_ascii hx]
  · rfl

theorem invalidLength_bounds (hne : bytes ≠ []) : 0 < invalidLength bytes ∧ invalidLength bytes ≤ bytes.length := by
  rcases bytes with _ | ⟨b, _ | ⟨c, _ | ⟨d, bytes⟩⟩⟩
  · exact absurd rfl hne
  · simp [invalidLength]
  · simp only [invalidLength]
    split <;> simp
  · simp only [invalidLength]
    split
    · split <;> simp
    · simp

/-- The length of the first piece. -/
def chunkLength (bytes : List UInt8) : ℕ := (charAt bytes).elim (invalidLength bytes) Char.utf8Size

theorem chunkLength_bounds (hne : bytes ≠ []) : 0 < chunkLength bytes ∧ chunkLength bytes ≤ bytes.length := by
  rw [chunkLength]
  cases hc : charAt bytes with
  | none => exact invalidLength_bounds hne
  | some c =>
    obtain ⟨rest, rfl⟩ := charAt_eq_some_iff.mp hc
    exact ⟨c.utf8Size_pos, by simp⟩

theorem chunksAux_cons {fuel : ℕ} : chunksAux (fuel + 1) (x :: bytes) =
    charAt (x :: bytes) :: chunksAux fuel ((x :: bytes).drop (chunkLength (x :: bytes))) := by
  rw [chunksAux, chunkLength]
  cases charAt (x :: bytes) <;> rfl

/-- Fuel for every byte is enough. -/
theorem chunksAux_eq {fuel : ℕ} (h : bytes.length ≤ fuel) : chunksAux fuel bytes = chunks bytes := by
  induction hn : bytes.length using Nat.strongRecOn generalizing bytes fuel with
  | ind n ih =>
    subst hn
    cases bytes with
    | nil => cases fuel <;> rfl
    | cons x bytes =>
      cases fuel with
      | zero => exact absurd h (by simp)
      | succ fuel =>
        have hlen := chunkLength_bounds (List.cons_ne_nil x bytes)
        rw [chunks, List.length_cons, chunksAux_cons, chunksAux_cons]
        rw [List.length_cons] at h hlen
        congr 1
        rw [ih _ (by simp; omega) (by simp; omega) rfl, ih _ (by simp; omega) (by simp; omega) rfl]

@[simp] theorem chunks_nil : chunks [] = [] := rfl

theorem chunks_of_ne_nil (hne : bytes ≠ []) : chunks bytes = charAt bytes :: chunks (bytes.drop (chunkLength bytes)) := by
  cases bytes with
  | nil => exact absurd rfl hne
  | cons x bytes =>
    have hlen := chunkLength_bounds (List.cons_ne_nil x bytes)
    rw [List.length_cons] at hlen
    rw [chunks, List.length_cons, chunksAux_cons, chunksAux_eq (by simp; omega)]

theorem chunks_append {rest : List UInt8} (hx : x < 0x80) : chunks (a ++ x :: rest) = chunks a ++ chunks (x :: rest) := by
  induction hn : a.length using Nat.strongRecOn generalizing a with
  | ind n ih =>
    subst hn
    by_cases ha : a = []
    · rw [ha, List.nil_append, chunks_nil, List.nil_append]
    · have hlen : chunkLength (a ++ x :: rest) = chunkLength a := by
        rw [chunkLength, charAt_append hx ha, invalidLength_append hx ha, chunkLength]
      have hbounds := chunkLength_bounds ha
      rw [chunks_of_ne_nil (List.append_ne_nil_of_left_ne_nil ha _), chunks_of_ne_nil ha, charAt_append hx ha, hlen,
        List.drop_append_of_le_length hbounds.2, ih _ (by simp; omega) rfl, List.cons_append]

theorem chunks_encode {rest : List UInt8} : chunks (String.utf8EncodeChar c ++ rest) = some c :: chunks rest := by
  have hc : charAt (String.utf8EncodeChar c ++ rest) = some c := charAt_eq_some_iff.mpr ⟨rest, rfl⟩
  rw [chunks_of_ne_nil (by simp), chunkLength, hc, Option.elim_some, List.drop_left' (String.length_utf8EncodeChar c)]

theorem textBytes_ofList (cs : List Char) : textBytes (String.ofList cs) = cs.flatMap String.utf8EncodeChar := by
  simp [textBytes, List.utf8Encode]

theorem chunks_textBytes (text : String) : chunks (textBytes text) = text.toList.map some := by
  obtain ⟨cs, rfl⟩ := text.exists_eq_ofList
  rw [textBytes_ofList, String.toList_ofList]
  induction cs with
  | nil => rfl
  | cons c cs ih => rw [List.flatMap_cons, chunks_encode, ih, List.map_cons]

theorem subset_of_mem_chunks (h : some c ∈ chunks bytes) : String.utf8EncodeChar c ⊆ bytes := by
  induction hn : bytes.length using Nat.strongRecOn generalizing bytes with
  | ind n ih =>
    subst hn
    by_cases hne : bytes = []
    · rw [hne] at h
      cases h
    · rw [chunks_of_ne_nil hne] at h
      rcases List.mem_cons.mp h with hc | h
      · obtain ⟨rest, rfl⟩ := charAt_eq_some_iff.mp hc.symm
        exact List.subset_append_left _ _
      · have hbounds := chunkLength_bounds hne
        exact List.Subset.trans (ih _ (by simp; omega) h rfl) (List.drop_subset _ _)

/-- Both decoders read back a text from its bytes. -/
theorem lossy_textBytes (text : String) : lossy (textBytes text) = text := by
  rw [lossy, chunks_textBytes, List.map_map]
  exact (congrArg String.ofList (List.map_id _)).trans String.ofList_toList

/-- Lossy text around an ASCII character. -/
theorem toList_lossy_append {rest : List UInt8} (hx : x < 0x80) (hc : String.utf8EncodeChar c = [x]) :
    (lossy (a ++ x :: rest)).toList = (lossy a).toList ++ c :: (lossy rest).toList := by
  have hrest : chunks (x :: rest) = some c :: chunks rest := by
    rw [← List.singleton_append, ← hc, chunks_encode]
  simp only [lossy, String.toList_ofList, chunks_append hx, hrest, List.map_append, List.map_cons, Option.getD_some]

/-- The ASCII characters of the lossy text are those of the bytes. -/
theorem mem_lossy_iff (hx : x < 0x80) (hc : String.utf8EncodeChar c = [x]) : c ∈ (lossy bytes).toList ↔ x ∈ bytes := by
  constructor
  · intro h
    rw [lossy, String.toList_ofList, List.mem_map] at h
    obtain ⟨chunk, hchunk, rfl⟩ := h
    cases chunk with
    | none =>
      have henc : String.utf8EncodeChar '\uFFFD' = [0xEF, 0xBF, 0xBD] := by decide
      cases henc.symm.trans hc
    | some c => exact subset_of_mem_chunks hchunk (hc ▸ List.mem_singleton_self x)
  · intro h
    obtain ⟨a, rest, rfl⟩ := List.append_of_mem h
    rw [toList_lossy_append hx hc]
    exact List.mem_append_right _ List.mem_cons_self

theorem decode_textBytes (text : String) : decode (textBytes text) = some text := by
  have hmap : ∀ cs : List Char, (cs.map some).mapM id = some cs := by
    intro cs
    induction cs with
    | nil => rfl
    | cons c cs ih => simp [ih]
  rw [decode, chunks_textBytes, hmap, Option.map_some, String.ofList_toList]

end Chunks

end Utf8
