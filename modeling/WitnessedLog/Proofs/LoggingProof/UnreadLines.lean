import WitnessedLog.Proofs.LoggingProof.TextRoundTrip

/-!
# Lines that a proof does not read

Lines with unknown keys can stand anywhere among the lines of a proof.  Each part of a proof is found
by a scan over all lines, and a line without a known key leaves every scan with what it finds
anyway; as it is not blank, it does not end the block of the tree head either.
-/

namespace WitnessedLog

/-! ## A list with one more element -/

/-- The first list is the second one, or has one more element in it. -/
def IsWithExtra {α : Type} (extra : α) (longer list : List α) : Prop :=
  longer = list ∨ ∃ front back, longer = front ++ extra :: back ∧ list = front ++ back

namespace IsWithExtra

variable {α β ε : Type} {extra : α} {longer list : List α}

theorem of_append (extra : α) (front back : List α) :
    IsWithExtra extra (front ++ extra :: back) (front ++ back) :=
  Or.inr ⟨front, back, rfl, rfl⟩

theorem dropWhile
    {p : α → Bool}
    (h : IsWithExtra extra longer list) (hextra : p extra = true) :
    IsWithExtra extra (longer.dropWhile p) (list.dropWhile p) := by
  rcases h with rfl | ⟨front, back, rfl, rfl⟩
  · exact Or.inl rfl
  · rw [List.dropWhile_append, List.dropWhile_append]
    split
    · exact Or.inl (List.dropWhile_cons_of_pos hextra)
    · exact of_append extra _ back

theorem takeWhile
    {p : α → Bool}
    (h : IsWithExtra extra longer list) (hextra : p extra = true) :
    IsWithExtra extra (longer.takeWhile p) (list.takeWhile p) := by
  rcases h with rfl | ⟨front, back, rfl, rfl⟩
  · exact Or.inl rfl
  · rw [List.takeWhile_append, List.takeWhile_append]
    split
    · rw [List.takeWhile_cons_of_pos hextra]
      exact of_append extra front _
    · exact Or.inl rfl

theorem filter_eq
    {p : α → Bool}
    (h : IsWithExtra extra longer list) (hextra : p extra = false) :
    longer.filter p = list.filter p := by
  rcases h with rfl | ⟨front, back, rfl, rfl⟩
  · rfl
  · rw [List.filter_append, List.filter_append, List.filter_cons_of_neg (by simp [hextra])]

theorem any_eq
    {p : α → Bool}
    (h : IsWithExtra extra longer list) (hextra : p extra = false) :
    longer.any p = list.any p := by
  rcases h with rfl | ⟨front, back, rfl, rfl⟩
  · rfl
  · rw [List.any_append, List.any_append, List.any_cons, hextra, Bool.false_or]

theorem findSome?_eq
    {f : α → Option β}
    (h : IsWithExtra extra longer list) (hextra : f extra = none) :
    longer.findSome? f = list.findSome? f := by
  rcases h with rfl | ⟨front, back, rfl, rfl⟩
  · rfl
  · rw [List.findSome?_append, List.findSome?_append, List.findSome?_cons, hextra]

/-- A step that changes nothing can be left out of a run. -/
theorem foldlM_eq
    {step : β → α → Except ε β}
    (h : IsWithExtra extra longer list) (hextra : ∀ state, step state extra = .ok state)
    (start : β) : longer.foldlM step start = list.foldlM step start := by
  rcases h with rfl | ⟨front, back, rfl, rfl⟩
  · rfl
  · have hskip : ∀ state, (extra :: back).foldlM step state = back.foldlM step state := by
      intro state
      rw [List.foldlM_cons, hextra]
      rfl
    rw [List.foldlM_append, List.foldlM_append]
    exact bind_congr hskip

end IsWithExtra

namespace LoggingProof

/-! ## Lines without a known key -/

/-- A line that no scan of a proof looks for and that ends no block: it is not blank, it does not
begin with the key of a line that is found by its beginning, and cutting off its blanks brings no key
of a tree head to its front. -/
structure Unread (line : List Char) : Prop where
  nonblank : Text.trim line ≠ []
  keys : ∀ key ∈ ["version", "log", "leaf", "size", "leaf_index", "node_hash"],
    hasKey key line = false
  headKeys : ∀ key ∈ ["cosignature", "size", "root_hash", "signature"],
    hasKey key (Text.trim line) = false

/-- The carriage return at the end of a line does not matter. -/
theorem Unread.dropReturn
    {line : List Char}
    (h : Unread line) : Unread (Text.dropReturn line) := by
  rw [Text.dropReturn]
  split
  · rename_i hlast
    obtain ⟨front, rfl⟩ := List.getLast?_eq_some_iff.mp hlast
    have hblank : ∀ c ∈ ['\r'], Text.isBlank c = true := List.forall_mem_singleton.mpr (by decide)
    have htrim : Text.trim (front ++ ['\r']) = Text.trim front := Text.trim_append_blanks hblank front
    rw [List.dropLast_concat]
    refine ⟨htrim ▸ h.nonblank, ?_, htrim ▸ h.headKeys⟩
    intro key hkey
    rw [Bool.eq_false_iff]
    intro hfront
    obtain ⟨value, rfl⟩ := hasKey_iff.mp hfront
    have hline : hasKey key (entry key value ++ ['\r']) = true :=
      hasKey_iff.mpr ⟨value ++ ['\r'], by simp [entry]⟩
    rw [h.keys key hkey] at hline
    cases hline
  · exact h

variable {line : List Char} {longer lines : List (List Char)}

theorem requireValue_eq_of_isWithExtra
    {key : String}
    (hlines : IsWithExtra line longer lines) (hkey : hasKey key line = false) :
    requireValue key longer = requireValue key lines := by
  have hnone : Text.dropStart? (key.toList ++ ['=']) line = none := by
    rw [Option.eq_none_iff_forall_ne_some]
    intro value hvalue
    rw [Text.dropStart?_eq_some_iff, List.append_assoc] at hvalue
    rw [hasKey_iff.mpr ⟨value, hvalue⟩] at hkey
    cases hkey
  rw [requireValue, requireValue, value?, value?, hlines.findSome?_eq hnone]

/-! ## The lines of a tree head -/

/-- What stands on either side of the first equality sign makes up the line. -/
theorem eq_entry_of_splitAtEquals?
    {key value : List Char}
    (h : Text.splitAtEquals? line = some (key, value)) :
    line = entry (String.ofList key) value := by
  rw [Text.splitAtEquals?] at h
  split at h
  · cases h
  · rename_i c rest hdrop
    obtain ⟨rfl, rfl⟩ := Prod.mk.inj (Option.some.inj h)
    have hequals : c = '=' := by
      have hnot := List.head?_dropWhile_not (· != '=') line
      rw [hdrop] at hnot
      simpa using hnot
    subst hequals
    rw [entry, String.toList_ofList, ← hdrop, List.takeWhile_append_dropWhile]

/-- A value is taken only of the three keys of a tree head. -/
theorem HeadFields.set_of_ne
    {key : String}
    (hsize : key ≠ "size") (hroot : key ≠ "root_hash") (hsignature : key ≠ "signature")
    (fields : HeadFields) (value : List Char) : fields.set key value = .ok fields := by
  unfold set
  split
  · exact absurd rfl hsize
  · exact absurd rfl hroot
  · exact absurd rfl hsignature
  · rfl

theorem HeadFields.readLine_unread
    (h : Unread line) (fields : HeadFields) : fields.readLine line = .ok fields := by
  have hkeys : ∀ key ∈ ["cosignature", "size", "root_hash", "signature"], ∀ value,
      Text.trim line ≠ entry key value := by
    intro key hkey value hentry
    have hnot : hasKey key (Text.trim line) = false := h.headKeys key hkey
    rw [hentry, hasKey_entry_self] at hnot
    cases hnot
  rw [readLine]
  split
  · rename_i value hvalue
    rw [Text.dropStart?_eq_some_iff] at hvalue
    exact absurd hvalue (hkeys "cosignature" (by decide) value)
  · split
    · rfl
    · rename_i key value hsplit
      have hentry : Text.trim line = entry (String.ofList key) value :=
        eq_entry_of_splitAtEquals? hsplit
      split
      · rfl
      · apply set_of_ne
        · exact fun hkey => hkeys "size" (by decide) value (hkey ▸ hentry)
        · exact fun hkey => hkeys "root_hash" (by decide) value (hkey ▸ hentry)
        · exact fun hkey => hkeys "signature" (by decide) value (hkey ▸ hentry)

/-- An unread line among those before the tree head is passed over, one within its block is read to
no effect, and one behind the block is not reached. -/
theorem readTreeHead_eq_of_isWithExtra
    (hlines : IsWithExtra line longer lines) (h : Unread line) :
    readTreeHead longer = readTreeHead lines := by
  have hsize : hasKey "size" line = false := h.keys "size" (by decide)
  have hblock : IsWithExtra line (headLines longer) (headLines lines) :=
    (hlines.dropWhile (by simp [hsize])).takeWhile (by simpa using h.nonblank)
  rw [readTreeHead, readTreeHead, hlines.any_eq hsize,
    hblock.foldlM_eq (HeadFields.readLine_unread h)]

/-! ## The lines of an inclusion path -/

theorem pathLines_eq_of_isWithExtra
    (hlines : IsWithExtra line longer lines) (h : Unread line) :
    pathLines longer = pathLines lines := by
  have hindex : hasKey "leaf_index" line = false := h.keys "leaf_index" (by decide)
  have hnode : hasKey "node_hash" line = false := h.keys "node_hash" (by decide)
  exact (hlines.dropWhile (by simp [hindex])).filter_eq (by simp [hindex, hnode])

/-! ## The whole text -/

/-- What is read from some lines is read from them with an unread line as well. -/
theorem ofLines_eq_of_isWithExtra
    (hlines : IsWithExtra line longer lines) (h : Unread line) :
    ofLines longer = ofLines lines := by
  have hversion : readVersion longer = readVersion lines := by
    rw [readVersion, readVersion,
      requireValue_eq_of_isWithExtra hlines (h.keys "version" (by decide))]
  have hlog : readLog longer = readLog lines := by
    rw [readLog, readLog, requireValue_eq_of_isWithExtra hlines (h.keys "log" (by decide))]
  have hleaf : ∀ version, readLeaf version longer = readLeaf version lines := by
    intro version
    rw [readLeaf, readLeaf, requireValue_eq_of_isWithExtra hlines (h.keys "leaf" (by decide))]
  have hinclusion : readInclusion longer = readInclusion lines := by
    rw [readInclusion, readInclusion, pathLines_eq_of_isWithExtra hlines h]
  simp only [ofLines, hversion, hlog, hleaf, readTreeHead_eq_of_isWithExtra hlines h, hinclusion]

/-- Something stands on either side of a line feed in a trimmed text. -/
theorem sides_ne_nil_of_trim_eq
    {text front back : List Char}
    (h : Text.trim text = front ++ '\n' :: back) : front ≠ [] ∧ back ≠ [] := by
  have hfeed : Text.isBlank '\n' = true := by decide
  constructor
  · rintro rfl
    have hfirst : '\n' ∈ (Text.trim text).head? := by
      rw [h]
      rfl
    rw [Text.isBlank_of_mem_head?_trim hfirst] at hfeed
    cases hfeed
  · rintro rfl
    have hlast : '\n' ∈ (Text.trim text).getLast? := by
      rw [h, List.getLast?_concat]
      rfl
    rw [Text.isBlank_of_mem_getLast?_trim hlast] at hfeed
    cases hfeed

/-- A text stays trimmed when a line is put in at one of its line feeds. -/
theorem trim_insert
    {text front back : List Char}
    (h : Text.trim text = front ++ '\n' :: back) (line : List Char) :
    Text.trim (front ++ '\n' :: (line ++ '\n' :: back)) =
      front ++ '\n' :: (line ++ '\n' :: back) := by
  obtain ⟨hfront, hback⟩ := sides_ne_nil_of_trim_eq h
  have hfirst : ∀ c ∈ (Text.trim text).head?, Text.isBlank c = false :=
    fun _ => Text.isBlank_of_mem_head?_trim
  have hlast : ∀ c ∈ (Text.trim text).getLast?, Text.isBlank c = false :=
    fun _ => Text.isBlank_of_mem_getLast?_trim
  obtain ⟨first, rest, rfl⟩ := List.exists_cons_of_ne_nil hfront
  have hend : back.getLast? = some (back.getLast hback) := List.getLast?_eq_some_getLast hback
  rw [h] at hfirst hlast
  apply Text.trim_eq_self
  · exact hfirst
  · simpa [List.getLast?_append, List.getLast?_cons, hend] using hlast

/-- An unread line can be put in between any two lines of a text, and the same proof is read, or the
text refused for the same reason.  It does not matter which blanks stand around the whole. -/
theorem ofText_insert_line
    {text line front back before after : String}
    (htext : Text.trim text.toList = (front ++ "\n" ++ back).toList)
    (hbefore : ∀ c ∈ before.toList, Text.isBlank c = true)
    (hafter : ∀ c ∈ after.toList, Text.isBlank c = true)
    (hfeed : '\n' ∉ line.toList) (hunread : Unread line.toList) :
    let inserted := before ++ (front ++ "\n" ++ line ++ "\n" ++ back) ++ after
    ofText inserted = ofText text ∧
      ∃ above below, above ≠ [] ∧ below ≠ [] ∧
        Text.lines (Text.trim text.toList) = above ++ below ∧
        Text.lines (Text.trim inserted.toList) = above ++ Text.dropReturn line.toList :: below := by
  intro inserted
  have htext : Text.trim text.toList = front.toList ++ '\n' :: back.toList := by
    simpa using htext
  have hinserted : Text.trim inserted.toList =
      front.toList ++ '\n' :: (line.toList ++ '\n' :: back.toList) := by
    have hwhole : inserted.toList = before.toList ++
        (front.toList ++ '\n' :: (line.toList ++ '\n' :: back.toList)) ++ after.toList := by
      simp [inserted]
    rw [hwhole, Text.trim_append_blanks hafter, Text.trim_blanks_append hbefore,
      trim_insert htext]
  have hlines : Text.lines (Text.trim text.toList) =
      (front.toList.splitOn '\n').map Text.dropReturn ++ Text.lines back.toList := by
    rw [htext, Text.lines_append_feed]
  have hmore : Text.lines (Text.trim inserted.toList) =
      (front.toList.splitOn '\n').map Text.dropReturn ++
        Text.dropReturn line.toList :: Text.lines back.toList := by
    rw [hinserted, Text.lines_append_feed, Text.lines_append_newline hfeed]
  refine ⟨?_, _, _, ?_, Text.lines_ne_nil (sides_ne_nil_of_trim_eq htext).2, hlines, hmore⟩
  · rw [ofText, ofText, hlines, hmore]
    exact ofLines_eq_of_isWithExtra (IsWithExtra.of_append _ _ _) hunread.dropReturn
  · exact fun hnil => List.splitOn_ne_nil '\n' front.toList (List.map_eq_nil_iff.mp hnil)

/-- The lines of the sample up to the size of its tree head. -/
def sampleFront : List String :=
  sampleCosigned.openingLines "0a1b" ++ [""]

/-- The lines of the sample between the size of its tree head and its last node. -/
def sampleBack : List String :=
  sampleCosigned.detailLines ++ [""] ++ sampleCosigned.inclusionLines.dropLast

/-- The line of the sample's last node. -/
def sampleLastLine : String :=
  "node_hash=" ++ (Octets.replicate 8 : Hash).toHex

/-- A line for a leaf index with a blank before it is put in behind the size of the tree head, and
the sample is read all the same. -/
theorem ofText_insert_line_sampleCosigned :
    let front := String.join (sampleFront.map (· ++ "\n")) ++ sampleCosigned.sizeLine
    let back := String.join (sampleBack.map (· ++ "\n")) ++ sampleLastLine
    Text.trim (sampleCosigned.toText "0a1b").toList = (front ++ "\n" ++ back).toList ∧
      '\n' ∉ " leaf_index=7".toList ∧ Unread " leaf_index=7".toList ∧
      ofText ("\n" ++ (front ++ "\n" ++ " leaf_index=7" ++ "\n" ++ back) ++ " \n") =
        .ok sampleCosigned := by
  intro front back
  have hlines : sampleCosigned.openingLines "0a1b" ++ [""] ++
      sampleCosigned.sizeLine :: sampleCosigned.detailLines ++ [""] ++
        sampleCosigned.inclusionLines =
      (sampleFront ++ sampleCosigned.sizeLine :: sampleBack) ++ [sampleLastLine] := by
    simp [sampleFront, sampleBack, sampleLastLine, inclusionLines, sampleCosigned]
  have hlast : ∃ c ∈ sampleLastLine.toList.getLast?, Text.isBlank c = false := by
    obtain ⟨line, hline, hlast⟩ := exists_last_inclusionLines sampleCosigned
    cases hline
    exact hlast
  have htext : Text.trim (sampleCosigned.toText "0a1b").toList = (front ++ "\n" ++ back).toList := by
    rw [toText, arranged, hlines, Text.trim_join ⟨_, rfl, 'v', rfl, by decide⟩ hlast]
    simp [front, back, String.toList_join]
  have hunread : Unread " leaf_index=7".toList := ⟨by decide, by decide, by decide⟩
  have hblank : (∀ c ∈ "\n".toList, Text.isBlank c = true) ∧
      ∀ c ∈ " \n".toList, Text.isBlank c = true :=
    ⟨List.all_eq_true.mp (by decide), List.all_eq_true.mp (by decide)⟩
  have hchecksum : Text.IsWord "0a1b" := by decide
  have hread : ofText (sampleCosigned.toText "0a1b") = .ok sampleCosigned := by
    rw [toText, detailLines_eq, ofText, lines_arranged fun _ => hchecksum]
    exact ofLines_writtenLines (.inl rfl) (fun _ => hchecksum) (by decide) (by decide) (List.Perm.refl _)
  exact ⟨htext, by decide, hunread,
    (ofText_insert_line htext hblank.1 hblank.2 (by decide) hunread).1.trans hread⟩

end LoggingProof

end WitnessedLog
