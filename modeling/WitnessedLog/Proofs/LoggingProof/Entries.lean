import WitnessedLog.LoggingProof.Text
import WitnessedLog.Proofs.Text.Lines

/-!
# Lines with a key

A line of a proof is an entry: a key, an equality sign and words with spaces between them.  A key
has no equality sign in it, so the first one on the line ends it, and an entry is found by its own
key and by no other, even if one key begins or ends like another.
-/

namespace WitnessedLog

namespace LoggingProof

/-- A line that gives a key its value. -/
def entry (key : String) (value : List Char) : List Char :=
  key.toList ++ '=' :: value

variable {key other : String} {value : List Char}

/-! ## The key and the value of an entry -/

theorem splitAtEquals?_entry
    (h : '=' ∉ key.toList) :
    Text.splitAtEquals? (entry key value) = some (key.toList, value) := by
  have hkey : ∀ c ∈ key.toList, (c != '=') = true := by
    intro c hc
    rw [bne_iff_ne]
    rintro rfl
    exact h hc
  rw [Text.splitAtEquals?, entry, List.dropWhile_append_of_pos hkey,
    List.takeWhile_append_of_pos hkey]
  simp

/-- An entry tells its key and its value. -/
theorem entry_inj
    {value' : List Char}
    (hkey : '=' ∉ key.toList) (hother : '=' ∉ other.toList)
    (h : entry key value = entry other value') : key = other ∧ value = value' := by
  have hsplit := congrArg Text.splitAtEquals? h
  rw [splitAtEquals?_entry hkey, splitAtEquals?_entry hother] at hsplit
  obtain ⟨hkeys, hvalues⟩ := Prod.mk.inj (Option.some.inj hsplit)
  exact ⟨String.toList_injective hkeys, hvalues⟩

theorem dropStart?_entry :
    Text.dropStart? (key.toList ++ ['=']) (entry key value) = some value := by
  rw [Text.dropStart?_eq_some_iff, entry, List.append_assoc]
  rfl

theorem dropStart?_entry_of_ne
    (hkey : '=' ∉ key.toList) (hother : '=' ∉ other.toList) (hne : key ≠ other) :
    Text.dropStart? (key.toList ++ ['=']) (entry other value) = none := by
  rw [Option.eq_none_iff_forall_ne_some]
  intro rest hrest
  rw [Text.dropStart?_eq_some_iff, List.append_assoc] at hrest
  exact hne (entry_inj hother hkey hrest).1.symm

/-! ## Looking for a key -/

theorem hasKey_iff
    {line : List Char} :
    hasKey key line = true ↔ ∃ value, line = entry key value := by
  rw [hasKey, List.isPrefixOf_iff_prefix]
  constructor
  · rintro ⟨value, rfl⟩
    exact ⟨value, by rw [List.append_assoc]; rfl⟩
  · rintro ⟨value, rfl⟩
    exact ⟨value, by rw [List.append_assoc]; rfl⟩

@[simp] theorem hasKey_entry_self : hasKey key (entry key value) = true :=
  hasKey_iff.mpr ⟨value, rfl⟩

theorem hasKey_entry_of_ne
    (hkey : '=' ∉ key.toList) (hother : '=' ∉ other.toList) (hne : key ≠ other) :
    hasKey key (entry other value) = false := by
  rw [Bool.eq_false_iff]
  intro h
  obtain ⟨value', hentry⟩ := hasKey_iff.mp h
  exact hne (entry_inj hother hkey hentry).1.symm

/-- A line with one key does not have another one. -/
theorem hasKey_of_hasKey_of_ne
    {line : List Char}
    (hkey : '=' ∉ key.toList) (hother : '=' ∉ other.toList) (hne : key ≠ other)
    (h : hasKey other line = true) : hasKey key line = false := by
  obtain ⟨value, rfl⟩ := hasKey_iff.mp h
  exact hasKey_entry_of_ne hkey hother hne

@[simp] theorem hasKey_nil : hasKey key [] = false := by
  rw [Bool.eq_false_iff]
  intro h
  obtain ⟨value, hentry⟩ := hasKey_iff.mp h
  exact List.append_ne_nil_of_right_ne_nil _ (List.cons_ne_nil _ _) hentry.symm

theorem requireValue_entry (lines : List (List Char)) :
    requireValue key (entry key value :: lines) = .ok value := by
  rw [requireValue, value?, List.findSome?_cons, dropStart?_entry]

theorem requireValue_entry_of_ne
    (hkey : '=' ∉ key.toList) (hother : '=' ∉ other.toList) (hne : key ≠ other)
    (lines : List (List Char)) :
    requireValue key (entry other value :: lines) = requireValue key lines := by
  rw [requireValue, value?, List.findSome?_cons, dropStart?_entry_of_ne hkey hother hne]
  rfl

/-! ## Entries as written lines -/

/-- A line that is read back as it is written: no end of a line is in it, and no blank begins or
ends it. -/
structure IsLine (line : List Char) : Prop where
  feed : '\n' ∉ line
  carriage : '\r' ∉ line
  first : ∃ c ∈ line.head?, Text.isBlank c = false
  last : ∃ c ∈ line.getLast?, Text.isBlank c = false

theorem IsLine.trim_eq
    {line : List Char}
    (h : IsLine line) : Text.trim line = line := by
  obtain ⟨c, hc, hfirst⟩ := h.first
  obtain ⟨d, hd, hlast⟩ := h.last
  apply Text.trim_eq_self
  · intro c' hc'
    rw [Option.mem_unique hc' hc, hfirst]
  · intro d' hd'
    rw [Option.mem_unique hd' hd, hlast]

theorem IsLine.ne_nil
    {line : List Char}
    (h : IsLine line) : line ≠ [] := by
  rintro rfl
  obtain ⟨c, hc, -⟩ := h.first
  cases hc

variable {words : List String}

/-- Spaces are the only blanks of an entry of words. -/
theorem eq_space_of_mem_entry
    {c : Char}
    (hkey : Text.IsWord key) (hwords : ∀ word ∈ words, Text.IsWord word)
    (hc : c ∈ entry key (" ".intercalate words).toList) (hblank : Text.isBlank c = true) :
    c = ' ' := by
  rw [entry, List.mem_append, List.mem_cons] at hc
  rcases hc with hc | rfl | hc
  · rw [hkey.2 c hc] at hblank
    cases hblank
  · exact absurd hblank (by decide)
  · refine (Text.eq_space_or_mem_of_mem_intercalate hc).resolve_right ?_
    rintro ⟨word, hword, hc⟩
    rw [(hwords word hword).2 c hc] at hblank
    cases hblank

theorem isLine_entry
    (hkey : Text.IsWord key) (hne : words ≠ []) (hwords : ∀ word ∈ words, Text.IsWord word) :
    IsLine (entry key (" ".intercalate words).toList) where
  feed hc := absurd (eq_space_of_mem_entry hkey hwords hc (by decide)) (by decide)
  carriage hc := absurd (eq_space_of_mem_entry hkey hwords hc (by decide)) (by decide)
  first := by
    obtain ⟨c, rest, hstart⟩ := List.exists_cons_of_ne_nil
      hkey.toList_ne_nil
    refine ⟨c, ?_, hkey.2 c (hstart ▸ List.mem_cons_self)⟩
    rw [entry, hstart]
    rfl
  last := by
    obtain ⟨c, hc, hblank⟩ := Text.exists_getLast?_intercalate hne hwords
    refine ⟨c, ?_, hblank⟩
    rw [entry, List.getLast?_append, List.getLast?_cons, Option.mem_def.mp hc]
    rfl

theorem isLine_entry_word
    {word : String}
    (hkey : Text.IsWord key) (hword : Text.IsWord word) : IsLine (entry key word.toList) := by
  have hline : IsLine (entry key (" ".intercalate [word]).toList) :=
    isLine_entry hkey (List.cons_ne_nil _ _) fun other hmem => by
      rw [List.mem_singleton.mp hmem]
      exact hword
  rwa [String.intercalate_singleton] at hline

end LoggingProof

end WitnessedLog
