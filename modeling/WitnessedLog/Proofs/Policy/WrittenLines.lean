import Mathlib.Data.List.TakeWhile
import WitnessedLog.Policy.Written
import WitnessedLog.Proofs.Policy.Directives
import WitnessedLog.Proofs.Text.Lines
import WitnessedLog.Proofs.Text.Spellings

/-!
# Written directives are read back

A directive is written as its words with spaces between them.  The words are read back if they are
words: not empty, without blanks and without a number sign.  Keys in hexadecimal and thresholds in
decimal are words, and they are read as what they stand for.
-/

namespace WitnessedLog

namespace Policy

/-! ## Words -/

theorem isWord_iff
    {text : String} :
    isWord text = true ↔ text ≠ "" ∧ ∀ c ∈ text.toList, Text.isBlank c = false ∧ c ≠ '#' := by
  simp [isWord]

theorem isWord_toHex {role : Role} (value : Octets role) : isWord value.toHex = true := by
  obtain ⟨hne, hchars⟩ := value.isWord_toHex
  refine isWord_iff.mpr ⟨hne, fun c hc => ⟨hchars c hc, ?_⟩⟩
  obtain ⟨nibble, -, rfl⟩ := Hex.exists_digitChar_of_mem_encode hc
  exact Nat.digitChar_ne '#' (by decide)

theorem isWord_repr (value : Nat) : isWord value.repr = true := by
  obtain ⟨hne, hchars⟩ := Text.isWord_repr value
  refine isWord_iff.mpr ⟨hne, fun c hc => ⟨hchars c hc, ?_⟩⟩
  rintro rfl
  exact absurd (Text.isDigit_of_mem_repr hc) (by decide)

theorem readKey_toHex (key : PublicKey) : readKey key.toHex = .ok key := by
  have hlength : key.bytes.length = Role.size .publicKey := key.length_bytes
  simp only [readKey, Octets.toHex, Hex.decode_encode, Octets.ofBytes, dif_pos hlength]

theorem readThreshold_repr
    {threshold : Nat}
    (h : threshold < UInt64.size) (size : Nat) :
    readThreshold threshold.repr size = .ok threshold := by
  have hkeyword : ∀ keyword : String, ¬keyword.toList.all Char.isDigit →
      threshold.repr ≠ keyword := by
    rintro keyword hkeyword rfl
    exact hkeyword (List.all_eq_true.mpr fun c hc => Text.isDigit_of_mem_repr hc)
  rw [readThreshold]
  · rw [Text.readNumber?_repr h]
    exact congrArg Except.ok (UInt64.toNat_ofNat_of_lt' h)
  · exact hkeyword "any" (by decide)
  · exact hkeyword "all" (by decide)

/-! ## Lines -/

/-- The text with a line for each directive. -/
def textOf (directives : List (List String)) : String :=
  String.join (directives.map fun words => " ".intercalate words ++ "\n")

/-- The directives consist of words. -/
def AreWords (directives : List (List String)) : Prop :=
  ∀ words ∈ directives, ∀ word ∈ words, isWord word = true

theorem areWords_nil : AreWords [] :=
  fun _ hmem => absurd hmem List.not_mem_nil

theorem areWords_cons
    {words : List String} {directives : List (List String)} :
    AreWords (words :: directives) ↔ (∀ word ∈ words, isWord word = true) ∧ AreWords directives :=
  List.forall_mem_cons

theorem areWords_append
    {directives more : List (List String)} :
    AreWords (directives ++ more) ↔ AreWords directives ∧ AreWords more :=
  List.forall_mem_append

variable {directives : List (List String)}

theorem directive_intercalate
    {words : List String}
    (h : ∀ word ∈ words, isWord word = true) :
    Reader.directive (" ".intercalate words).toList = words := by
  have hsign : (" ".intercalate words).toList.takeWhile (· != '#') =
      (" ".intercalate words).toList := by
    rw [List.takeWhile_eq_self_iff]
    intro c hc
    rw [bne_iff_ne]
    rcases Text.eq_space_or_mem_of_mem_intercalate hc with rfl | ⟨word, hword, hc⟩
    · decide
    · exact ((isWord_iff.mp (h word hword)).2 c hc).2
  rw [Reader.directive, hsign]
  apply Text.words_intercalate
  intro word hword
  obtain ⟨hne, hchars⟩ := isWord_iff.mp (h word hword)
  exact ⟨hne, fun c hc => (hchars c hc).1⟩

theorem lines_textOf
    (h : AreWords directives) :
    Text.lines (textOf directives).toList =
      directives.map fun words => (" ".intercalate words).toList := by
  have hbreak : ∀ line ∈ directives.map (" ".intercalate ·), ∀ c ∈ line.toList,
      Text.isBlank c = true → c = ' ' := by
    intro line hline c hc hblank
    obtain ⟨words, hwords, rfl⟩ := List.mem_map.mp hline
    refine (Text.eq_space_or_mem_of_mem_intercalate hc).resolve_right ?_
    rintro ⟨word, hword, hc⟩
    rw [((isWord_iff.mp (h words hwords word hword)).2 c hc).1] at hblank
    cases hblank
  have hlines : Text.lines (String.join
      ((directives.map (" ".intercalate ·)).map (· ++ "\n"))).toList =
      (directives.map (" ".intercalate ·)).map String.toList := by
    apply Text.lines_join
    intro line hline
    exact ⟨fun hc => absurd (hbreak line hline _ hc (by decide)) (by decide),
      fun hc => absurd (hbreak line hline _ hc (by decide)) (by decide)⟩
  rwa [List.map_map, List.map_map] at hlines

theorem foldlM_readLine
    (h : AreWords directives) (reader : Reader) :
    (directives.map fun words => (" ".intercalate words).toList).foldlM Reader.readLine reader =
      directives.foldlM Reader.follow reader := by
  induction directives generalizing reader with
  | nil => rfl
  | cons words directives ih =>
      obtain ⟨hwords, hrest⟩ := areWords_cons.mp h
      rw [List.map_cons, List.foldlM_cons, List.foldlM_cons, Reader.readLine,
        directive_intercalate hwords]
      exact bind_congr fun next => ih hrest next

/-- A written text is read directive by directive. -/
theorem ofText_textOf
    (h : AreWords directives) :
    ofText (textOf directives) =
      directives.foldlM Reader.follow Reader.start >>= fun reader => reader.draft.finalize := by
  rw [ofText, lines_textOf h, foldlM_readLine h]

/-! ## What written directives say -/

namespace Directive

theorem entity?_toHex (key : PublicKey) (url : Option String) :
    entity? key.toHex url = some ⟨key, url⟩ := by
  rw [entity?, readKey_toHex]
  rfl

theorem ofWords?_logDirective (log : Entity) :
    ofWords? (logDirective log) = some (.log log) := by
  obtain ⟨key, url⟩ := log
  cases url with
  | none => simp [logDirective, ofWords?, entity?_toHex]
  | some url => simp [logDirective, ofWords?, entity?_toHex]

theorem ofWords?_witnessDirective (names : NameChoice) (witness : Entity) :
    ofWords? (witnessDirective names witness) =
      some (.witness (names.witness witness.name) witness) := by
  obtain ⟨key, url⟩ := witness
  cases url with
  | none => simp [witnessDirective, ofWords?, entity?_toHex]
  | some url => simp [witnessDirective, ofWords?, entity?_toHex]

theorem ofWords?_group
    {threshold : Nat} {members : List String}
    (hthreshold : threshold < UInt64.size) (hmembers : members ≠ []) (name : String) :
    ofWords? ("group" :: name :: threshold.repr :: members) =
      some (.group name threshold members) := by
  obtain ⟨member, members, rfl⟩ := List.exists_cons_of_ne_nil hmembers
  simp [ofWords?, readThreshold_repr hthreshold, Except.toOption]

end Directive

end Policy

end WitnessedLog
