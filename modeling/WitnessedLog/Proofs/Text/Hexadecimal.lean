import Mathlib.Data.List.Induction
import WitnessedLog.Proofs.Text.Spellings

/-!
# Hexadecimal text is read exactly

A text is read as a value of fixed length if it consists of digits of either case, two for
each byte of the value, and the value is then written as that text in lower case.  What is
wrong with any other text is said of its length in UTF-8 first, of its characters second and
of the length of the value last.
-/

namespace WitnessedLog

namespace Hex

/-- The digits of either case. -/
def IsDigit (c : Char) : Prop :=
  ('0' ≤ c ∧ c ≤ '9') ∨ ('a' ≤ c ∧ c ≤ 'f') ∨ ('A' ≤ c ∧ c ≤ 'F')

instance : DecidablePred IsDigit :=
  fun _ => inferInstanceAs (Decidable (_ ∨ _))

/-! ## Single digits -/

theorem exists_value?_iff
    {c : Char} :
    (∃ nibble, value? c = some nibble) ↔ IsDigit c := by
  have hdecimal : c.isDigit = true ↔ '0' ≤ c ∧ c ≤ '9' := by
    rw [Char.isDigit, Bool.and_eq_true, decide_eq_true_eq, decide_eq_true_eq]
    rfl
  rw [IsDigit, ← hdecimal, value?]
  split_ifs with hdigit hlower hupper
  · simp [hdigit]
  · simp [hlower]
  · simp [hupper]
  · simp [hdigit, hlower, hupper]

theorem IsDigit.toNat_lt
    {c : Char}
    (h : IsDigit c) : c.toNat < 128 := by
  simp only [IsDigit, Char.le_def, UInt32.le_iff_toNat_le] at h
  have hcode : c.toNat = c.val.toNat := rfl
  have hnine : '9'.val.toNat = 57 := rfl
  have hlower : 'f'.val.toNat = 102 := rfl
  have hupper : 'F'.val.toNat = 70 := rfl
  omega

/-- The digit for the value of a character is that character in lower case. -/
theorem digitChar_of_value?
    {c : Char} {nibble : Nat}
    (h : value? c = some nibble) : nibble < 16 ∧ nibble.digitChar = c.toLower := by
  have hall : ∀ code < 128, ∀ nibble ∈ value? (Char.ofNat code),
      nibble < 16 ∧ nibble.digitChar = (Char.ofNat code).toLower := by decide
  have hcode := (exists_value?_iff.mp ⟨nibble, h⟩).toNat_lt
  simpa [h] using hall c.toNat hcode nibble

/-! ## Pairs of digits -/

theorem length_flatMap_digits (bytes : Bytes) :
    (bytes.flatMap digits).length = 2 * bytes.length := by
  simp [List.length_flatMap, digits, Nat.mul_comm]

theorem digits_ofNat
    {high low : Nat}
    (hhigh : high < 16) (hlow : low < 16) :
    digits (UInt8.ofNat (16 * high + low)) = [high.digitChar, low.digitChar] := by
  have hbyte : (UInt8.ofNat (16 * high + low)).toNat = 16 * high + low :=
    UInt8.toNat_ofNat_of_lt' (by
      change 16 * high + low < 256
      omega)
  rw [digits, hbyte, show (16 * high + low) / 16 = high by omega,
    show (16 * high + low) % 16 = low by omega]

theorem ofDigits?_cons_cons_eq_some_iff
    {high low : Char} {rest : List Char} {bytes : Bytes} :
    ofDigits? (high :: low :: rest) = some bytes ↔
      ∃ h l others, value? high = some h ∧ value? low = some l ∧ ofDigits? rest = some others ∧
        UInt8.ofNat (16 * h + l) :: others = bytes := by
  rw [ofDigits?]
  cases value? high with
  | none => simp
  | some h =>
      cases value? low with
      | none => simp
      | some l => simp

/-- Bytes are spelled by the digits they were read from, in lower case. -/
theorem flatMap_digits_of_ofDigits?
    {spelling : List Char} {bytes : Bytes}
    (h : ofDigits? spelling = some bytes) :
    bytes.flatMap digits = spelling.map Char.toLower := by
  induction spelling using List.twoStepInduction generalizing bytes with
  | nil =>
      obtain rfl : [] = bytes := Option.some.inj h
      rfl
  | singleton c => exact absurd h (by simp [ofDigits?])
  | cons_cons high low rest ih _ =>
      obtain ⟨a, b, others, hhigh, hlow, hothers, rfl⟩ := ofDigits?_cons_cons_eq_some_iff.mp h
      obtain ⟨ha, hhigh⟩ := digitChar_of_value? hhigh
      obtain ⟨hb, hlow⟩ := digitChar_of_value? hlow
      rw [List.flatMap_cons, digits_ofNat ha hb, ih hothers, hhigh, hlow]
      rfl

/-- Consecutive pairs of digits spell bytes. -/
theorem exists_ofDigits?_iff
    {spelling : List Char} :
    (∃ bytes, ofDigits? spelling = some bytes) ↔
      spelling.length % 2 = 0 ∧ ∀ c ∈ spelling, IsDigit c := by
  induction spelling using List.twoStepInduction with
  | nil => simp [ofDigits?]
  | singleton c => simp [ofDigits?]
  | cons_cons high low rest ih _ =>
      -- A pair is read before the rest, so it is the parity of the rest that counts.
      have hparity : (high :: low :: rest).length % 2 = rest.length % 2 := by
        simp only [List.length_cons]
        omega
      rw [hparity, List.forall_mem_cons, List.forall_mem_cons, ← exists_value?_iff,
        ← exists_value?_iff]
      simp only [ofDigits?_cons_cons_eq_some_iff]
      constructor
      · rintro ⟨bytes, a, b, others, hhigh, hlow, hothers, -⟩
        obtain ⟨hlength, hrest⟩ := ih.mp ⟨others, hothers⟩
        exact ⟨hlength, ⟨a, hhigh⟩, ⟨b, hlow⟩, hrest⟩
      · rintro ⟨hlength, ⟨a, hhigh⟩, ⟨b, hlow⟩, hrest⟩
        obtain ⟨others, hothers⟩ := ih.mpr ⟨hlength, hrest⟩
        exact ⟨_, a, b, others, hhigh, hlow, hothers, rfl⟩

/-! ## Whole texts -/

theorem utf8ByteSize_of_isDigit
    {text : String}
    (h : ∀ c ∈ text.toList, IsDigit c) : text.utf8ByteSize = text.length := by
  obtain ⟨spelling, rfl⟩ : ∃ spelling, text = String.ofList spelling :=
    ⟨text.toList, String.ofList_toList.symm⟩
  rw [String.toList_ofList] at h
  rw [String.utf8ByteSize_ofList, String.length_ofList]
  induction spelling with
  | nil => rfl
  | cons c spelling ih =>
      obtain ⟨hc, hspelling⟩ := List.forall_mem_cons.mp h
      have hsize : c.utf8Size = 1 := by
        rw [Char.utf8Size_eq_one_iff, UInt32.le_iff_toNat_le]
        exact Nat.le_of_lt_succ hc.toNat_lt
      rw [String.utf8Len_cons, ih hspelling, hsize, List.length_cons]

/-- A text of an even number of digits is the spelling of bytes, in one case or the other. -/
theorem decode_of_isDigit
    {text : String}
    (hdigits : ∀ c ∈ text.toList, IsDigit c) (heven : text.length % 2 = 0) :
    ∃ bytes, decode text = .ok bytes ∧ encode bytes = text.toLower ∧
      2 * bytes.length = text.length := by
  obtain ⟨bytes, hbytes⟩ := exists_ofDigits?_iff.mpr ⟨String.length_toList ▸ heven, hdigits⟩
  have hlower := flatMap_digits_of_ofDigits? hbytes
  refine ⟨bytes, ?_, ?_, ?_⟩
  · have hsize : text.utf8ByteSize % 2 ≠ 1 := by
      rw [utf8ByteSize_of_isDigit hdigits]
      omega
    rw [decode, if_neg hsize, hbytes]
  · apply String.toList_injective
    rw [encode, String.toList_ofList, hlower]
    exact String.toList_map.symm
  · rw [← length_flatMap_digits, hlower, List.length_map, String.length_toList]

/-- A character that is no digit is found in any text of even length. -/
theorem decode_of_not_isDigit
    {text : String}
    (heven : text.utf8ByteSize % 2 = 0) (h : ∃ c ∈ text.toList, ¬IsDigit c) :
    decode text = .error .invalidHexCharacter := by
  obtain ⟨c, hc, hdigit⟩ := h
  have hnone : ofDigits? text.toList = none := by
    by_contra hsome
    obtain ⟨bytes, hbytes⟩ := Option.ne_none_iff_exists'.mp hsome
    exact hdigit ((exists_ofDigits?_iff.mp ⟨bytes, hbytes⟩).2 c hc)
  rw [decode, if_neg (by omega), hnone]

end Hex

namespace Octets

/-- A text spells a value of a role if it has two digits for each byte of the value. -/
def SpelledBy (role : Role) (text : String) : Prop :=
  text.length = 2 * role.size ∧ ∀ c ∈ text.toList, Hex.IsDigit c

/-- What is wrong with a text that does not spell a value of a role. -/
def spellingFault (role : Role) (text : String) : EncodingError :=
  if text.utf8ByteSize % 2 = 1 then .oddHexLength
  else if text.toList.any (fun c => ¬Hex.IsDigit c) then .invalidHexCharacter
  else .invalidLength role.size (text.utf8ByteSize / 2)

theorem exists_ofHex_eq_ok
    {role : Role} {text : String}
    (h : SpelledBy role text) :
    ∃ value, ofHex role text = .ok value ∧ value.toHex = text.toLower := by
  obtain ⟨hlength, hdigits⟩ := h
  obtain ⟨bytes, hdecode, hlower, hbytes⟩ := Hex.decode_of_isDigit hdigits (by omega)
  have hsize : bytes.length = role.size := by omega
  refine ⟨⟨bytes, hsize⟩, ?_, hlower⟩
  rw [ofHex, hdecode]
  exact dif_pos hsize

theorem ofHex_eq_error
    {role : Role} {text : String}
    (h : ¬SpelledBy role text) :
    ofHex role text = .error (spellingFault role text) := by
  rw [spellingFault]
  split_ifs with hodd hother
  · rw [ofHex, Hex.decode, if_pos hodd]
  · obtain ⟨c, hc, hdigit⟩ := List.any_eq_true.mp hother
    rw [ofHex, Hex.decode_of_not_isDigit (by omega) ⟨c, hc, of_decide_eq_true hdigit⟩]
  · -- Only digits are left, so there are as many bytes of UTF-8 as there are characters.
    have hdigits : ∀ c ∈ text.toList, Hex.IsDigit c := by
      intro c hc
      by_contra hdigit
      exact hother (List.any_eq_true.mpr ⟨c, hc, decide_eq_true hdigit⟩)
    have hsize := Hex.utf8ByteSize_of_isDigit hdigits
    obtain ⟨bytes, hdecode, -, hbytes⟩ := Hex.decode_of_isDigit hdigits (by omega)
    have hlength : bytes.length ≠ role.size := fun hlength => h ⟨by omega, hdigits⟩
    rw [ofHex, hdecode, show text.utf8ByteSize / 2 = bytes.length by omega]
    exact dif_neg hlength

/-- Texts are read as values exactly where they spell one, and are then what the value is written
as, but for the case of their digits.  Every other text is refused for its first fault. -/
theorem ofHex_reads_spelling (role : Role) (text : String) :
    (∀ value, ofHex role text = .ok value ↔
      SpelledBy role text ∧ value.toHex = text.toLower) ∧
    (SpelledBy role text → ∃ value, ofHex role text = .ok value) ∧
    (∀ value : Octets role, ofHex role value.toHex = .ok value) ∧
    (¬SpelledBy role text → ofHex role text = .error (spellingFault role text)) := by
  refine ⟨fun value => ?_, ?_, ofHex_toHex, ofHex_eq_error⟩
  · by_cases h : SpelledBy role text
    · obtain ⟨other, hother, hlower⟩ := exists_ofHex_eq_ok h
      rw [hother, Except.ok.injEq]
      constructor
      · rintro rfl
        exact ⟨h, hlower⟩
      · rintro ⟨-, hvalue⟩
        exact toHex_inj (hlower.trans hvalue.symm)
    · simp [ofHex_eq_error h, h]
  · intro h
    obtain ⟨value, hvalue, -⟩ := exists_ofHex_eq_ok h
    exact ⟨value, hvalue⟩

/-- One character of two bytes is of even length. -/
example : ofHex .hash "é" = .error .invalidHexCharacter := by
  decide

end Octets

end WitnessedLog
