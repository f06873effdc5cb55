import Mathlib.Data.String.Basic
import WitnessedLog.Base64
import WitnessedLog.Octets
import WitnessedLog.Proofs.Text.Lines
import WitnessedLog.Text.Decimal
import WitnessedLog.Text.Utf8

/-!
# What is spelled can be told

Values are written in hexadecimal, in decimal and in base64, and texts in UTF-8.  Each spelling
tells the value.  None of the first three contains the end of a line, so values written one to a
line are told by the text as a whole.  The first two are words, and are read back as such.
-/

namespace WitnessedLog

/-! ## Hexadecimal -/

namespace Hex

/-- The value of the digit for a nibble is the nibble. -/
theorem value?_digitChar
    {nibble : Nat}
    (h : nibble < 16) : value? nibble.digitChar = some nibble := by
  revert nibble
  decide

/-- The digits of a byte string spell it. -/
theorem ofDigits?_flatMap_digits (bytes : Bytes) :
    ofDigits? (bytes.flatMap digits) = some bytes := by
  induction bytes with
  | nil => rfl
  | cons b bytes ih =>
      have hb : b.toNat < 256 := b.toNat_lt
      have hbyte : UInt8.ofNat (16 * (b.toNat / 16) + b.toNat % 16) = b := by
        rw [Nat.div_add_mod, UInt8.ofNat_toNat]
      rw [List.flatMap_cons, digits, List.cons_append, List.cons_append, List.nil_append,
        ofDigits?, value?_digitChar (by omega), value?_digitChar (by omega)]
      simp only [ih, Option.map_some, hbyte]

theorem encode_inj
    {bytes bytes' : Bytes}
    (h : encode bytes = encode bytes') : bytes = bytes' := by
  have hdigits : bytes.flatMap digits = bytes'.flatMap digits := String.ofList_injective h
  have hspelled := congrArg ofDigits? hdigits
  rw [ofDigits?_flatMap_digits, ofDigits?_flatMap_digits] at hspelled
  exact Option.some.inj hspelled

theorem exists_digitChar_of_mem_encode
    {bytes : Bytes} {c : Char}
    (h : c ∈ (encode bytes).toList) : ∃ nibble < 16, c = nibble.digitChar := by
  rw [encode, String.toList_ofList, List.mem_flatMap] at h
  obtain ⟨b, -, hdigit⟩ := h
  have hb : b.toNat < 256 := b.toNat_lt
  simp only [digits, List.mem_cons, List.not_mem_nil, or_false] at hdigit
  rcases hdigit with rfl | rfl
  · exact ⟨b.toNat / 16, by omega, rfl⟩
  · exact ⟨b.toNat % 16, by omega, rfl⟩

theorem newline_notMem_encode (bytes : Bytes) : '\n' ∉ (encode bytes).toList := by
  intro h
  obtain ⟨nibble, -, hdigit⟩ := exists_digitChar_of_mem_encode h
  exact Nat.digitChar_ne '\n' (by decide) hdigit.symm

theorem utf8Size_digitChar
    {nibble : Nat}
    (h : nibble < 16) : nibble.digitChar.utf8Size = 1 := by
  revert nibble
  decide

theorem utf8ByteSize_encode (bytes : Bytes) : (encode bytes).utf8ByteSize = 2 * bytes.length := by
  rw [encode, String.utf8ByteSize_ofList]
  induction bytes with
  | nil => rfl
  | cons b bytes ih =>
      have hb : b.toNat < 256 := b.toNat_lt
      rw [List.flatMap_cons, digits, List.cons_append, List.cons_append, List.nil_append,
        String.utf8Len_cons, String.utf8Len_cons, utf8Size_digitChar (by omega),
        utf8Size_digitChar (by omega), ih, List.length_cons]
      omega

/-- Written bytes are read back. -/
theorem decode_encode (bytes : Bytes) : decode (encode bytes) = .ok bytes := by
  rw [decode, utf8ByteSize_encode, if_neg (by omega), encode, String.toList_ofList,
    ofDigits?_flatMap_digits]

end Hex

namespace Octets

theorem toHex_inj
    {role : Role} {value value' : Octets role}
    (h : value.toHex = value'.toHex) : value = value' :=
  Octets.ext_bytes (Hex.encode_inj h)

/-- Written values are read back. -/
theorem ofHex_toHex {role : Role} (value : Octets role) : ofHex role value.toHex = .ok value := by
  simp only [ofHex, toHex, Hex.decode_encode, ofBytes, dif_pos value.length_bytes]

theorem isWord_toHex {role : Role} (value : Octets role) : Text.IsWord value.toHex := by
  constructor
  · intro hempty
    have hsize := Hex.utf8ByteSize_encode value.bytes
    rw [← toHex, hempty, value.length_bytes] at hsize
    cases role <;> simp [Role.size] at hsize
  · intro c hc
    obtain ⟨nibble, hnibble, rfl⟩ := Hex.exists_digitChar_of_mem_encode hc
    clear hc
    revert nibble
    decide

end Octets

/-! ## Decimal -/

namespace Text

theorem isDigit_of_mem_repr
    {value : Nat} {c : Char}
    (h : c ∈ value.repr.toList) : c.isDigit = true := by
  rw [Nat.repr_eq_ofList_toDigits, String.toList_ofList] at h
  exact Nat.isDigit_of_mem_toDigits (by decide) (by decide) h

theorem toList_repr_ne_nil (value : Nat) : value.repr.toList ≠ [] := by
  rw [Nat.repr_eq_ofList_toDigits, String.toList_ofList]
  exact Nat.toDigits_ne_nil

theorem repr_inj
    {value value' : Nat}
    (h : value.repr = value'.repr) : value = value' := by
  rw [Nat.repr_eq_ofList_toDigits, Nat.repr_eq_ofList_toDigits] at h
  have hread := congrArg (fun digits => Nat.ofDigitChars 10 digits 0) (String.ofList_injective h)
  simpa only [Nat.ofDigitChars_ten_toDigits] using hread

theorem writeNumber_inj
    {value value' : UInt64}
    (h : writeNumber value = writeNumber value') : value = value' :=
  UInt64.toNat_inj.mp (repr_inj h)

theorem dropPlus_eq_self
    {numeral : List Char}
    (h : '+' ∉ numeral) : dropPlus numeral = numeral := by
  cases numeral with
  | nil => rfl
  | cons c digits =>
      rw [dropPlus]
      rintro rest hrest
      rw [hrest] at h
      exact h List.mem_cons_self

/-- Written numbers are read back if they fit 64 bits. -/
theorem readNumber?_repr
    {value : Nat}
    (h : value < UInt64.size) : readNumber? value.repr.toList = some (UInt64.ofNat value) := by
  have hplus : '+' ∉ value.repr.toList := fun hmem => absurd (isDigit_of_mem_repr hmem) (by decide)
  have hnumeral : value.repr.toList ≠ [] ∧ value.repr.toList.all Char.isDigit :=
    ⟨toList_repr_ne_nil value, List.all_eq_true.mpr fun c hc => isDigit_of_mem_repr hc⟩
  have hvalue : Nat.ofDigitChars 10 value.repr.toList 0 = value := by
    rw [Nat.repr_eq_ofList_toDigits, String.toList_ofList, Nat.ofDigitChars_ten_toDigits]
  simp only [readNumber?, dropPlus_eq_self hplus, if_pos hnumeral, hvalue, if_pos h]

theorem readNumber?_writeNumber (value : UInt64) :
    readNumber? (writeNumber value).toList = some value := by
  rw [writeNumber, readNumber?_repr value.toNat_lt, UInt64.ofNat_toNat]

theorem isBlank_of_isDigit
    {c : Char}
    (h : c.isDigit = true) : isBlank c = false := by
  have hdigit : 48 ≤ c.toNat ∧ c.toNat ≤ 57 := Char.isDigit_iff_toNat.mp h
  simp [isBlank]
  omega

theorem isWord_repr (value : Nat) : IsWord value.repr :=
  ⟨fun hempty => toList_repr_ne_nil value (String.toList_eq_nil_iff.mpr hempty),
    fun _ hc => isBlank_of_isDigit (isDigit_of_mem_repr hc)⟩

theorem isWord_writeNumber (value : UInt64) : IsWord (writeNumber value) :=
  isWord_repr value.toNat

theorem newline_notMem_writeNumber (value : UInt64) : '\n' ∉ (writeNumber value).toList := by
  intro h
  exact absurd (isDigit_of_mem_repr h) (by decide)

end Text

/-! ## Base64 -/

namespace Base64

/-- The sextet for which a character stands. -/
def value (c : Char) : Nat :=
  if c.isUpper then c.toNat - 65
  else if c.isLower then c.toNat - 71
  else if c.isDigit then c.toNat + 4
  else if c = '+' then 62
  else 63

theorem value_symbol
    {sextet : Nat}
    (h : sextet < 64) : value (symbol sextet) = sextet := by
  revert sextet
  decide

theorem symbol_inj
    {sextet sextet' : Nat}
    (hsextet : sextet < 64) (hsextet' : sextet' < 64)
    (h : symbol sextet = symbol sextet') : sextet = sextet' := by
  rw [← value_symbol hsextet, h, value_symbol hsextet']

theorem symbol_ne_newline (sextet : Nat) : symbol sextet ≠ '\n' := by
  by_cases h : sextet < 64
  · revert sextet
    decide
  · have hlast : symbol sextet = '/' := by
      simp only [symbol]
      repeat rw [if_neg (by omega)]
    rw [hlast]
    decide

theorem newline_notMem_encode (bytes : Bytes) : '\n' ∉ (encode bytes).toList := by
  rw [encode, String.toList_ofList]
  induction bytes using symbols.induct with
  | case1 => simp [symbols]
  | case2 a => simp [symbols, (symbol_ne_newline _).symm]
  | case3 a b => simp [symbols, (symbol_ne_newline _).symm]
  | case4 a b c rest ih => simp [symbols, (symbol_ne_newline _).symm, ih]

/-- Three bytes are told by the four symbols that spell them. -/
theorem group_inj
    {a b c a' b' c' : UInt8}
    (hfirst : symbol (a.toNat / 4) = symbol (a'.toNat / 4))
    (hsecond : symbol (a.toNat % 4 * 16 + b.toNat / 16) =
      symbol (a'.toNat % 4 * 16 + b'.toNat / 16))
    (hthird : symbol (b.toNat % 16 * 4 + c.toNat / 64) =
      symbol (b'.toNat % 16 * 4 + c'.toNat / 64))
    (hfourth : symbol (c.toNat % 64) = symbol (c'.toNat % 64)) :
    a = a' ∧ b = b' ∧ c = c' := by
  have ha := a.toNat_lt
  have ha' := a'.toNat_lt
  have hb := b.toNat_lt
  have hb' := b'.toNat_lt
  have hc := c.toNat_lt
  have hc' := c'.toNat_lt
  have hfirst := symbol_inj (by omega) (by omega) hfirst
  have hsecond := symbol_inj (by omega) (by omega) hsecond
  have hthird := symbol_inj (by omega) (by omega) hthird
  have hfourth := symbol_inj (by omega) (by omega) hfourth
  refine ⟨UInt8.toNat_inj.mp ?_, UInt8.toNat_inj.mp ?_, UInt8.toNat_inj.mp ?_⟩
  · omega
  · omega
  · omega

/-- Byte strings of one length are told apart by their padded forms. -/
theorem symbols_inj
    {bytes bytes' : Bytes}
    (hlength : bytes.length = bytes'.length) (h : symbols bytes = symbols bytes') :
    bytes = bytes' := by
  induction bytes using symbols.induct generalizing bytes' with
  | case1 => exact (List.length_eq_zero_iff.mp hlength.symm).symm
  | case2 a =>
      match bytes', hlength with
      | [a'], _ =>
          -- A byte that is missing from the last group is spelled as a zero would be.
          simp only [symbols, List.cons.injEq] at h
          have hsecond : symbol (a.toNat % 4 * 16 + (0 : UInt8).toNat / 16) =
              symbol (a'.toNat % 4 * 16 + (0 : UInt8).toNat / 16) := h.2.1
          obtain ⟨rfl, -⟩ := group_inj (c := 0) h.1 hsecond rfl rfl
          rfl
  | case3 a b =>
      match bytes', hlength with
      | [a', b'], _ =>
          simp only [symbols, List.cons.injEq] at h
          have hthird : symbol (b.toNat % 16 * 4 + (0 : UInt8).toNat / 64) =
              symbol (b'.toNat % 16 * 4 + (0 : UInt8).toNat / 64) := h.2.2.1
          obtain ⟨rfl, rfl, -⟩ := group_inj h.1 h.2.1 hthird rfl
          rfl
  | case4 a b c rest ih =>
      match bytes', hlength with
      | a' :: b' :: c' :: rest', hlength =>
          simp only [symbols, List.cons.injEq] at h
          obtain ⟨hfirst, hsecond, hthird, hfourth, hrest⟩ := h
          obtain ⟨rfl, rfl, rfl⟩ := group_inj hfirst hsecond hthird hfourth
          rw [ih (by simpa using hlength) hrest]

theorem encode_inj
    {bytes bytes' : Bytes}
    (hlength : bytes.length = bytes'.length) (h : encode bytes = encode bytes') :
    bytes = bytes' :=
  symbols_inj hlength (String.ofList_injective h)

end Base64

/-! ## UTF-8 -/

/-- Texts are told apart by their UTF-8 forms. -/
theorem Utf8.encode_inj
    {text text' : List Char}
    (h : encode text = encode text') : text = text' := by
  have hbytes : text.utf8Encode = text'.utf8Encode := congrArg List.toByteArray h
  rw [← String.toByteArray_ofList, ← String.toByteArray_ofList, String.toByteArray_inj] at hbytes
  exact String.ofList_injective hbytes

/-! ## Lines -/

namespace Text

/-- What comes before the first newline, and what comes after it, is told by the whole. -/
theorem cut_inj
    {line line' rest rest' : List Char}
    (hline : '\n' ∉ line) (hline' : '\n' ∉ line')
    (h : line ++ '\n' :: rest = line' ++ '\n' :: rest') : line = line' ∧ rest = rest' := by
  induction line generalizing line' with
  | nil =>
      cases line' with
      | nil => exact ⟨rfl, (List.cons.inj h).2⟩
      | cons c line' =>
          have hc : '\n' = c := (List.cons.inj h).1
          exact absurd (hc ▸ List.mem_cons_self) hline'
  | cons c line ih =>
      cases line' with
      | nil =>
          have hc : c = '\n' := (List.cons.inj h).1
          exact absurd (hc ▸ List.mem_cons_self) hline
      | cons c' line' =>
          obtain ⟨rfl, htail⟩ := List.cons.inj h
          have hrest := ih (fun hmem => hline (List.mem_cons_of_mem c hmem))
            (fun hmem => hline' (List.mem_cons_of_mem c hmem)) htail
          exact ⟨congrArg (c :: ·) hrest.1, hrest.2⟩

theorem line_inj
    {line line' rest rest' : String}
    (hline : '\n' ∉ line.toList) (hline' : '\n' ∉ line'.toList)
    (h : line ++ ("\n" ++ rest) = line' ++ ("\n" ++ rest')) : line = line' ∧ rest = rest' := by
  have hlist := congrArg String.toList h
  simp only [String.toList_append] at hlist
  obtain ⟨hfirst, hafter⟩ := cut_inj hline hline' hlist
  exact ⟨String.toList_injective hfirst, String.toList_injective hafter⟩

end Text

end WitnessedLog
