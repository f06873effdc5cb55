import WitnessedLog.Proofs.LoggingProof.TreeHeadLines
import WitnessedLog.Proofs.Policy.CompilerCorrectness

/-!
# Written proofs of logging are read back

The version, the log and the leaf are read from the first lines with their keys, the tree head from
the line of its size to the next blank line, and the inclusion path from the line of the leaf index
on.  In a written proof each of these scans finds its own lines only, whatever the values are.
-/

namespace WitnessedLog

namespace LoggingProof

/-! ## The version, the log and the leaf -/

/-- The words of the line that names the leaf. -/
def leafWords (checksum : String) (proof : LoggingProof) : List String :=
  let words := [proof.leaf.keyHash.toHex, proof.leaf.signature.toHex]
  if proof.version = 1 then checksum :: words else words

variable {checksum : String} {proof : LoggingProof}

theorem leafWords_ne_nil : proof.leafWords checksum ≠ [] := by
  rw [leafWords]
  split <;> exact List.cons_ne_nil _ _

theorem isWord_of_mem_leafWords
    (hchecksum : proof.version = 1 → Text.IsWord checksum) :
    ∀ word ∈ proof.leafWords checksum, Text.IsWord word := by
  by_cases hversion : proof.version = 1
  · simp [leafWords, hversion, hchecksum hversion, Octets.isWord_toHex]
  · simp [leafWords, hversion, Octets.isWord_toHex]

theorem map_toList_openingLines (checksum : String) (proof : LoggingProof) :
    (proof.openingLines checksum).map String.toList =
      [entry "version" proof.version.toNat.repr.toList, entry "log" proof.log.toHex.toList,
        entry "leaf" (" ".intercalate (proof.leafWords checksum)).toList] := by
  by_cases hversion : proof.version = 1
  · simp only [openingLines, leafWords, hversion, if_true, List.map_cons, List.map_nil,
      Text.toList_intercalate_cons_cons, String.intercalate_singleton, String.toList_append,
      List.append_assoc]
    rfl
  · simp only [openingLines, leafWords, hversion, if_false, List.map_cons, List.map_nil,
      Text.toList_intercalate_cons_cons, String.intercalate_singleton, String.toList_append,
      List.append_assoc]
    rfl

theorem readVersion_openingLines
    (hversion : proof.version = 1 ∨ proof.version = 2) (rest : List (List Char)) :
    readVersion ((proof.openingLines checksum).map String.toList ++ rest) = .ok proof.version := by
  rw [map_toList_openingLines, readVersion, List.cons_append, requireValue_entry, bind_eq_ok_iff]
  refine ⟨_, rfl, ?_⟩
  rw [(Text.isWord_repr _).trim_eq, String.ofList_toList]
  rcases hversion with hone | htwo
  · rw [hone]
    rfl
  · rw [htwo]
    rfl

theorem readLog_openingLines (rest : List (List Char)) :
    readLog ((proof.openingLines checksum).map String.toList ++ rest) = .ok proof.log := by
  rw [map_toList_openingLines, readLog, List.cons_append,
    requireValue_entry_of_ne (by decide) (by decide) (by decide), List.cons_append,
    requireValue_entry, bind_eq_ok_iff]
  refine ⟨_, rfl, ?_⟩
  rw [proof.log.isWord_toHex.trim_eq, String.ofList_toList, readOctets_toHex]

theorem readLeaf_openingLines
    (hversion : proof.version = 1 ∨ proof.version = 2)
    (hchecksum : proof.version = 1 → Text.IsWord checksum) (rest : List (List Char)) :
    readLeaf proof.version ((proof.openingLines checksum).map String.toList ++ rest) =
      .ok proof.leaf := by
  rw [map_toList_openingLines, readLeaf, List.cons_append,
    requireValue_entry_of_ne (by decide) (by decide) (by decide), List.cons_append,
    requireValue_entry_of_ne (by decide) (by decide) (by decide), List.cons_append,
    requireValue_entry, bind_eq_ok_iff]
  refine ⟨_, rfl, ?_⟩
  rw [Text.words_intercalate (isWord_of_mem_leafWords hchecksum)]
  rcases hversion with hone | htwo
  · simp only [leafWords, hone, if_true, show (1 : UInt8).toNat = 1 from rfl, readOctets_toHex]
    rfl
  · simp only [leafWords, htwo, show (2 : UInt8) ≠ 1 from nofun, if_false,
      show (2 : UInt8).toNat = 2 from rfl, readOctets_toHex]
    rfl

/-! ## The inclusion path -/

theorem map_toList_inclusionLines (proof : LoggingProof) :
    proof.inclusionLines.map String.toList =
      entry "leaf_index" (Text.writeNumber proof.inclusion.leafIndex).toList ::
        proof.inclusion.path.map fun node => entry "node_hash" node.toHex.toList := by
  rw [inclusionLines, List.map_cons, String.toList_append, List.map_map]
  congr 1
  apply List.map_congr_left
  intro node _
  rw [Function.comp_apply, String.toList_append]
  rfl

namespace PathFields

/-- A line of one word sets the field of its key. -/
theorem readLine_entry
    {key value : String}
    (hkey : Text.IsWord key) (hequals : '=' ∉ key.toList) (hvalue : Text.IsWord value)
    (fields : PathFields) :
    fields.readLine (entry key value.toList) = fields.set key value.toList := by
  simp only [readLine, (isLine_entry_word hkey hvalue).trim_eq, splitAtEquals?_entry hequals,
    hkey.toList_ne_nil, hvalue.toList_ne_nil, or_self, if_false, String.ofList_toList]

theorem readLine_leafIndex (index : UInt64) :
    start.readLine (entry "leaf_index" (Text.writeNumber index).toList) = .ok ⟨some index, []⟩ := by
  rw [readLine_entry (by decide) (by decide) (Text.isWord_writeNumber index), set]
  simp only [start, Text.readNumber?_writeNumber]

theorem readLine_node (node : Hash) (fields : PathFields) :
    fields.readLine (entry "node_hash" node.toHex.toList) =
      .ok { fields with path := fields.path ++ [node] } := by
  rw [readLine_entry (by decide) (by decide) node.isWord_toHex, set, String.ofList_toList,
    readOctets_toHex]
  rfl

theorem foldlM_readLine_nodes (path : List Hash) (fields : PathFields) :
    (path.map fun node => entry "node_hash" node.toHex.toList).foldlM readLine fields =
      .ok { fields with path := fields.path ++ path } := by
  induction path generalizing fields with
  | nil =>
      rw [List.append_nil]
      rfl
  | cons node path ih =>
      rw [List.map_cons, List.foldlM_cons, readLine_node]
      refine (ih _).trans ?_
      rw [List.append_assoc, List.singleton_append]

end PathFields

/-- The leaf index and the nodes are read back as the inclusion path if no line in front of them has
the key of a leaf index. -/
theorem readInclusion_lines
    {front : List (List Char)}
    (hfront : ∀ line ∈ front, hasKey "leaf_index" line = false) (proof : LoggingProof) :
    readInclusion (front ++ proof.inclusionLines.map String.toList) = .ok proof.inclusion := by
  have hskipped : ∀ line ∈ front, (!hasKey "leaf_index" line) = true := by
    intro line hmem
    rw [hfront line hmem]
    rfl
  have hkept : ∀ line ∈ proof.inclusionLines.map String.toList,
      (hasKey "leaf_index" line || hasKey "node_hash" line) = true := by
    intro line hmem
    rw [map_toList_inclusionLines, List.mem_cons, List.mem_map] at hmem
    rcases hmem with rfl | ⟨node, -, rfl⟩
    · rw [hasKey_entry_self, Bool.true_or]
    · rw [hasKey_entry_self, Bool.or_true]
  have hpath : pathLines (front ++ proof.inclusionLines.map String.toList) =
      proof.inclusionLines.map String.toList := by
    rw [pathLines, List.dropWhile_append_of_pos hskipped, map_toList_inclusionLines,
      List.dropWhile_cons_of_neg (by simp), ← map_toList_inclusionLines,
      List.filter_eq_self.mpr hkept]
  rw [readInclusion, hpath, map_toList_inclusionLines, List.foldlM_cons,
    PathFields.readLine_leafIndex, bind_eq_ok_iff]
  refine ⟨_, PathFields.foldlM_readLine_nodes _ _, ?_⟩
  rw [List.nil_append]
  rfl

/-! ## The whole text -/

theorem isLine_of_mem_openingLines
    (hchecksum : proof.version = 1 → Text.IsWord checksum) :
    ∀ line ∈ (proof.openingLines checksum).map String.toList, IsLine line := by
  rw [map_toList_openingLines]
  simp only [List.forall_mem_cons]
  refine ⟨?_, ?_, ?_, by simp⟩
  · exact isLine_entry_word (by decide) (Text.isWord_repr _)
  · exact isLine_entry_word (by decide) proof.log.isWord_toHex
  · exact isLine_entry (by decide) leafWords_ne_nil (isWord_of_mem_leafWords hchecksum)

theorem hasKey_of_mem_openingLines
    {key : String}
    (hkey : '=' ∉ key.toList) (hversion : key ≠ "version") (hlog : key ≠ "log")
    (hleaf : key ≠ "leaf") :
    ∀ line ∈ (proof.openingLines checksum).map String.toList, hasKey key line = false := by
  rw [map_toList_openingLines]
  simp only [List.forall_mem_cons]
  refine ⟨?_, ?_, ?_, by simp⟩
  · exact hasKey_entry_of_ne hkey (by decide) hversion
  · exact hasKey_entry_of_ne hkey (by decide) hlog
  · exact hasKey_entry_of_ne hkey (by decide) hleaf

theorem isLine_of_mem_inclusionLines (proof : LoggingProof) :
    ∀ line ∈ proof.inclusionLines.map String.toList, IsLine line := by
  rw [map_toList_inclusionLines]
  refine List.forall_mem_cons.mpr ⟨?_, List.forall_mem_map.mpr fun node _ => ?_⟩
  · exact isLine_entry_word (by decide) (Text.isWord_writeNumber _)
  · exact isLine_entry_word (by decide) node.isWord_toHex

theorem exists_last_inclusionLines (proof : LoggingProof) :
    ∃ line ∈ proof.inclusionLines.getLast?,
      ∃ c ∈ line.toList.getLast?, Text.isBlank c = false := by
  have hne : proof.inclusionLines ≠ [] := List.cons_ne_nil _ _
  refine ⟨_, List.getLast?_eq_some_getLast hne, ?_⟩
  exact (proof.isLine_of_mem_inclusionLines _ (List.mem_map_of_mem (List.getLast_mem hne))).last

/-- The lines of a written proof whose tree head has the given details behind its size. -/
def writtenLines (checksum : String) (given : List Detail) (proof : LoggingProof) :
    List (List Char) :=
  (proof.openingLines checksum).map String.toList ++ [] ::
    (proof.sizeLine.toList :: (given.map fun detail => detail.line.toList) ++
      [] :: proof.inclusionLines.map String.toList)

theorem lines_arranged
    (hchecksum : proof.version = 1 → Text.IsWord checksum) (given : List Detail) :
    Text.lines (Text.trim (proof.arranged checksum (given.map Detail.line)).toList) =
      proof.writtenLines checksum given := by
  have hwritten : (proof.openingLines checksum ++ [""] ++ proof.sizeLine :: given.map Detail.line
      ++ [""] ++ proof.inclusionLines).map String.toList = proof.writtenLines checksum given := by
    simp [writtenLines]
  have hlines : ∀ line ∈ proof.writtenLines checksum given, line = [] ∨ IsLine line := by
    intro line hmem
    simp only [writtenLines, List.mem_append, List.mem_cons] at hmem
    rcases hmem with hmem | rfl | (rfl | hmem) | rfl | hmem
    · exact Or.inr (isLine_of_mem_openingLines hchecksum line hmem)
    · exact Or.inl rfl
    · exact Or.inr proof.isLine_sizeLine
    · obtain ⟨detail, -, rfl⟩ := List.mem_map.mp hmem
      exact Or.inr detail.isLine_line
    · exact Or.inl rfl
    · exact Or.inr (proof.isLine_of_mem_inclusionLines line hmem)
  rw [← hwritten]
  apply Text.lines_trim_join
  · intro line hmem
    rcases hlines line.toList (hwritten ▸ List.mem_map_of_mem hmem) with hempty | hline
    · rw [hempty]
      decide
    · exact ⟨hline.feed, hline.carriage⟩
  · refine ⟨_, rfl, 'v', ?_, by decide⟩
    rw [String.toList_append]
    rfl
  · obtain ⟨line, hline, hlast⟩ := proof.exists_last_inclusionLines
    refine ⟨line, ?_, hlast⟩
    rw [List.getLast?_append, Option.mem_def.mp hline]
    rfl

variable {given : List Detail}

theorem readTreeHead_writtenLines
    (hsize : 0 < proof.treeHead.signed.treeHead.size)
    (htimes : ∀ entry ∈ proof.treeHead.cosignatures.entries, 0 < entry.2.timestamp)
    (hgiven : given.Perm proof.details) :
    readTreeHead (proof.writtenLines checksum given) = .ok proof.treeHead := by
  have hfront : ∀ line ∈ (proof.openingLines checksum).map String.toList ++ [[]],
      hasKey "size" line = false := by
    rw [List.forall_mem_append]
    exact ⟨hasKey_of_mem_openingLines (by decide) (by decide) (by decide) (by decide), by simp⟩
  rw [writtenLines, List.append_cons]
  exact readTreeHead_lines hsize htimes hgiven hfront _

theorem readInclusion_writtenLines :
    readInclusion (proof.writtenLines checksum given) = .ok proof.inclusion := by
  have hfront : ∀ line ∈ (proof.openingLines checksum).map String.toList ++ [] ::
      (proof.sizeLine.toList :: (given.map fun detail => detail.line.toList) ++ [[]]),
        hasKey "leaf_index" line = false := by
    intro line hmem
    simp only [List.mem_append, List.mem_cons, List.not_mem_nil, or_false] at hmem
    rcases hmem with hmem | rfl | (rfl | hmem) | rfl
    · exact hasKey_of_mem_openingLines (by decide) (by decide) (by decide) (by decide) line hmem
    · exact hasKey_nil
    · rw [toList_sizeLine]
      exact hasKey_entry_of_ne (by decide) (by decide) (by decide)
    · obtain ⟨detail, -, rfl⟩ := List.mem_map.mp hmem
      exact detail.hasKey_leafIndex_line
    · exact hasKey_nil
  have hread := readInclusion_lines hfront proof
  simpa [writtenLines] using hread

theorem ofLines_writtenLines
    (hversion : proof.version = 1 ∨ proof.version = 2)
    (hchecksum : proof.version = 1 → Text.IsWord checksum)
    (hsize : 0 < proof.treeHead.signed.treeHead.size)
    (htimes : ∀ entry ∈ proof.treeHead.cosignatures.entries, 0 < entry.2.timestamp)
    (hgiven : given.Perm proof.details) :
    ofLines (proof.writtenLines checksum given) = .ok proof := by
  simp only [ofLines, bind_eq_ok_iff]
  exact ⟨proof.version, readVersion_openingLines hversion _, proof.log, readLog_openingLines _,
    proof.leaf, readLeaf_openingLines hversion hchecksum _,
    proof.treeHead, readTreeHead_writtenLines hsize htimes hgiven,
    proof.inclusion, readInclusion_writtenLines, rfl⟩

/-- A proof whose size and times are not zero is read back from its text, in version 1 or 2 and with
the lines of the tree head behind its size in any order. -/
theorem ofText_arranged
    {details : List String}
    (hsize : 0 < proof.treeHead.signed.treeHead.size)
    (htimes : ∀ entry ∈ proof.treeHead.cosignatures.entries, 0 < entry.2.timestamp)
    (hdetails : details.Perm proof.detailLines) :
    ∀ version, version = 1 ∨ version = 2 → (version = 1 → Text.IsWord checksum) →
      ofText (arranged checksum details { proof with version }) = .ok { proof with version } := by
  intro version hversion hchecksum
  obtain ⟨given, rfl, hgiven⟩ : ∃ given : List Detail, details = given.map Detail.line ∧
      given.Perm proof.details := by
    rw [detailLines_eq] at hdetails
    exact (congrFun₂ (List.eq_map_comp_perm Detail.line) details proof.details).mpr hdetails
  rw [ofText, lines_arranged hchecksum]
  exact ofLines_writtenLines hversion hchecksum hsize htimes hgiven

/-- A proof for a leaf of the largest tree, cosigned by two witnesses. -/
def sampleCosigned : LoggingProof where
  version := 1
  log := .replicate 7
  leaf := ⟨.replicate 9, .replicate 2⟩
  treeHead := {
    signed := ⟨⟨18446744073709551615, .replicate 4⟩, .replicate 0⟩
    cosignatures := {
      entries := [(.replicate 1, ⟨1700000000, .replicate 5⟩), (.replicate 3, ⟨1, .replicate 6⟩)]
      ascending := by decide } }
  inclusion := ⟨5, [.replicate 8, .replicate 255, .replicate 8]⟩

/-- The sample is read back in both versions with the lines behind its size listed backwards. -/
theorem ofText_arranged_sampleCosigned :
    let details := sampleCosigned.detailLines.reverse
    let second := { sampleCosigned with version := 2 }
    details.Perm sampleCosigned.detailLines ∧ Text.IsWord "0a1b" ∧
      ofText (sampleCosigned.arranged "0a1b" details) = .ok sampleCosigned ∧
      ofText (second.arranged "0a1b" details) = .ok second :=
  ⟨List.reverse_perm _, by decide,
    ofText_arranged (by decide) (by decide) (List.reverse_perm _) 1 (.inl rfl) fun _ => by
      decide,
    ofText_arranged (by decide) (by decide) (List.reverse_perm _) 2 (.inr rfl) nofun⟩

end LoggingProof

end WitnessedLog
