import Mathlib.Data.List.Nodup
import Mathlib.Data.List.Perm.Basic
import WitnessedLog.LoggingProof.Written
import WitnessedLog.Proofs.Fallible
import WitnessedLog.Proofs.KeyTable
import WitnessedLog.Proofs.LoggingProof.Entries
import WitnessedLog.Proofs.Text.Spellings

/-!
# Tree heads read from their lines

Behind the line of its size, a tree head has a line for the root hash, one for the signature and
one for each cosignature.  Each of them fills a field of its own or an entry of its own in the
table of cosignatures, so they may stand in any order.
-/

namespace WitnessedLog

namespace LoggingProof

/-! ## What the lines give -/

/-- What a line of a tree head behind its size gives. -/
inductive Detail where
  | rootHash (root : Hash)
  | signature (signed : Signature)
  | cosignature (witness : KeyHash) (cosigned : Cosignature)

/-- A place of a tree head: a field, or the entry of a witness. -/
inductive Place where
  | rootHash
  | signature
  | cosignature (witness : KeyHash)

namespace Detail

/-- The line that gives a detail. -/
def line : Detail → String
  | .rootHash root => "root_hash=" ++ root.toHex
  | .signature signed => "signature=" ++ signed.toHex
  | .cosignature witness cosigned => cosignatureLine (witness, cosigned)

/-- The place that a detail fills. -/
def place : Detail → Place
  | .rootHash _ => .rootHash
  | .signature _ => .signature
  | .cosignature witness _ => .cosignature witness

/-- The key of the line that gives a detail. -/
def key : Detail → String
  | .rootHash _ => "root_hash"
  | .signature _ => "signature"
  | .cosignature _ _ => "cosignature"

/-- The words of the line that gives a detail. -/
def words : Detail → List String
  | .rootHash root => [root.toHex]
  | .signature signed => [signed.toHex]
  | .cosignature witness cosigned =>
    [witness.toHex, Text.writeNumber cosigned.timestamp, cosigned.signature.toHex]

theorem toList_line (detail : Detail) :
    detail.line.toList = entry detail.key (" ".intercalate detail.words).toList := by
  cases detail with
  | rootHash root =>
      rw [line, key, words, String.intercalate_singleton, String.toList_append]
      rfl
  | signature signed =>
      rw [line, key, words, String.intercalate_singleton, String.toList_append]
      rfl
  | cosignature witness cosigned =>
      have hline : line (.cosignature witness cosigned) = "cosignature=" ++ witness.toHex ++ " " ++
          Text.writeNumber cosigned.timestamp ++ " " ++ cosigned.signature.toHex := rfl
      rw [hline, key, words, Text.toList_intercalate_cons_cons, Text.toList_intercalate_cons_cons,
        String.intercalate_singleton, entry]
      simp only [String.toList_append, List.append_assoc]
      rfl

theorem words_ne_nil (detail : Detail) : detail.words ≠ [] := by
  cases detail <;> exact List.cons_ne_nil _ _

theorem isWord_of_mem_words
    {detail : Detail} {word : String}
    (h : word ∈ detail.words) : Text.IsWord word := by
  cases detail with
  | rootHash root =>
      rw [List.mem_singleton.mp h]
      exact root.isWord_toHex
  | signature signed =>
      rw [List.mem_singleton.mp h]
      exact signed.isWord_toHex
  | cosignature witness cosigned =>
      simp only [words, List.mem_cons, List.not_mem_nil, or_false] at h
      rcases h with rfl | rfl | rfl
      · exact witness.isWord_toHex
      · exact Text.isWord_writeNumber _
      · exact cosigned.signature.isWord_toHex

theorem key_mem (detail : Detail) : detail.key ∈ ["root_hash", "signature", "cosignature"] := by
  cases detail <;> simp [key]

theorem isLine_line (detail : Detail) : IsLine detail.line.toList := by
  have hkeys : ∀ key ∈ ["root_hash", "signature", "cosignature"], Text.IsWord key := by decide
  rw [toList_line]
  exact isLine_entry (hkeys _ detail.key_mem) detail.words_ne_nil fun _ => isWord_of_mem_words

theorem hasKey_leafIndex_line (detail : Detail) :
    hasKey "leaf_index" detail.line.toList = false := by
  have hkeys : ∀ key ∈ ["root_hash", "signature", "cosignature"],
      '=' ∉ key.toList ∧ "leaf_index" ≠ key := by decide
  obtain ⟨hequals, hne⟩ := hkeys _ detail.key_mem
  rw [toList_line]
  exact hasKey_entry_of_ne (by decide) hequals hne

end Detail

/-- The details of a proof's tree head. -/
def details (proof : LoggingProof) : List Detail :=
  .rootHash proof.treeHead.signed.treeHead.rootHash :: .signature proof.treeHead.signed.signature ::
    proof.treeHead.cosignatures.entries.map fun entry => .cosignature entry.1 entry.2

theorem detailLines_eq (proof : LoggingProof) :
    proof.detailLines = proof.details.map Detail.line := by
  rw [detailLines, details, List.map_cons, List.map_cons, List.map_map]
  rfl

/-! ## Reading one line -/

theorem readPositive?_writeNumber
    {value : UInt64}
    (h : 0 < value) : readPositive? (Text.writeNumber value).toList = some value := by
  simp [readPositive?, Text.readNumber?_writeNumber, h]

theorem readOctets_toHex
    {role : Role} (value : Octets role) : readOctets role value.toHex = .ok value := by
  rw [readOctets, Octets.ofHex_toHex]

namespace HeadFields

/-- The fields with one more detail. -/
def fill (fields : HeadFields) : Detail → HeadFields
  | .rootHash root => { fields with rootHash := some root }
  | .signature signed => { fields with signature := some signed }
  | .cosignature witness cosigned =>
    { fields with cosignatures := fields.cosignatures.insert witness cosigned }

/-- A detail for which there is room: a cosignature has a time, and its witness has not cosigned
before. -/
def HasRoom (fields : HeadFields) : Detail → Prop
  | .cosignature witness cosigned =>
    0 < cosigned.timestamp ∧ fields.cosignatures.contains witness = false
  | _ => True

/-- A line of one word whose key is not that of a cosignature sets the field of its key. -/
theorem readLine_entry_of_ne
    {key value : String}
    (hkey : Text.IsWord key) (hequals : '=' ∉ key.toList) (hvalue : Text.IsWord value)
    (hne : key ≠ "cosignature") (fields : HeadFields) :
    fields.readLine (entry key value.toList) = fields.set key value.toList := by
  have hdrop : Text.dropStart? ("cosignature".toList ++ ['=']) (entry key value.toList) = none :=
    dropStart?_entry_of_ne (by decide) hequals hne.symm
  have hprefix : "cosignature=".toList = "cosignature".toList ++ ['='] := rfl
  simp only [readLine, (isLine_entry_word hkey hvalue).trim_eq, hprefix, hdrop,
    splitAtEquals?_entry hequals, hkey.toList_ne_nil, hvalue.toList_ne_nil, or_self, if_false,
    String.ofList_toList]

theorem readLine_cosignature
    {words : List String}
    (hne : words ≠ []) (hwords : ∀ word ∈ words, Text.IsWord word) (fields : HeadFields) :
    fields.readLine (entry "cosignature" (" ".intercalate words).toList) =
      fields.addCosignature words := by
  have hline : IsLine (entry "cosignature" (" ".intercalate words).toList) :=
    isLine_entry (by decide) hne hwords
  have hdrop : Text.dropStart? ("cosignature".toList ++ ['='])
      (entry "cosignature" (" ".intercalate words).toList) =
        some (" ".intercalate words).toList := dropStart?_entry
  have hprefix : "cosignature=".toList = "cosignature".toList ++ ['='] := rfl
  simp only [readLine, hline.trim_eq, hprefix, hdrop, Text.words_intercalate hwords]

theorem addCosignature_words
    {fields : HeadFields} {witness : KeyHash} {cosigned : Cosignature}
    (h : fields.HasRoom (.cosignature witness cosigned)) :
    fields.addCosignature (Detail.cosignature witness cosigned).words =
      .ok (fields.fill (.cosignature witness cosigned)) := by
  obtain ⟨htime, hnew⟩ := h
  rw [Detail.words, addCosignature, bind_eq_ok_iff]
  refine ⟨witness, readOctets_toHex witness, ?_⟩
  simp only [readPositive?_writeNumber htime]
  rw [bind_eq_ok_iff]
  refine ⟨cosigned.signature, readOctets_toHex cosigned.signature, ?_⟩
  rw [hnew]
  rfl

/-- A line fills the place for its detail. -/
theorem readLine_line
    {fields : HeadFields} {detail : Detail}
    (h : fields.HasRoom detail) :
    fields.readLine detail.line.toList = .ok (fields.fill detail) := by
  rw [Detail.toList_line]
  cases detail with
  | rootHash root =>
      rw [Detail.key, Detail.words, String.intercalate_singleton,
        readLine_entry_of_ne (by decide) (by decide) root.isWord_toHex (by decide), set,
        String.ofList_toList, readOctets_toHex]
      rfl
  | signature signed =>
      rw [Detail.key, Detail.words, String.intercalate_singleton,
        readLine_entry_of_ne (by decide) (by decide) signed.isWord_toHex (by decide), set,
        String.ofList_toList, readOctets_toHex]
      rfl
  | cosignature witness cosigned =>
      have hwords : ∀ word ∈ (Detail.cosignature witness cosigned).words, Text.IsWord word :=
        fun _ => Detail.isWord_of_mem_words
      rw [Detail.key, readLine_cosignature (Detail.words_ne_nil _) hwords, addCosignature_words h]

/-! ## Reading the lines in any order -/

theorem hasRoom_fill
    {fields : HeadFields} {detail other : Detail}
    (h : fields.HasRoom other) (hplace : detail.place ≠ other.place) :
    (fields.fill detail).HasRoom other := by
  cases other with
  | rootHash _ => trivial
  | signature _ => trivial
  | cosignature witness cosigned =>
      obtain ⟨htime, hnew⟩ := h
      refine ⟨htime, ?_⟩
      cases detail with
      | rootHash _ => exact hnew
      | signature _ => exact hnew
      | cosignature earlier _ =>
          have hne : witness ≠ earlier := fun h => hplace (congrArg Place.cosignature h.symm)
          rw [KeyTable.contains] at hnew ⊢
          rw [fill, KeyTable.get?_insert, if_neg hne, hnew]

theorem foldlM_readLine
    {fields : HeadFields} {details : List Detail}
    (hplaces : (details.map Detail.place).Nodup) (hroom : ∀ detail ∈ details, fields.HasRoom detail) :
    (details.map fun detail => detail.line.toList).foldlM readLine fields =
      .ok (details.foldl fill fields) := by
  induction details generalizing fields with
  | nil => rfl
  | cons detail details ih =>
      obtain ⟨hother, hnodup⟩ := List.nodup_cons.mp hplaces
      obtain ⟨hfirst, hrest⟩ := List.forall_mem_cons.mp hroom
      rw [List.map_cons, List.foldlM_cons, readLine_line hfirst, List.foldl_cons]
      apply ih hnodup
      intro other hmem
      apply hasRoom_fill (hrest other hmem)
      intro hplace
      exact hother (hplace ▸ List.mem_map_of_mem hmem)

/-- Details for different places may be filled in either order. -/
theorem fill_comm
    {detail other : Detail}
    (h : detail.place ≠ other.place) (fields : HeadFields) :
    (fields.fill detail).fill other = (fields.fill other).fill detail := by
  cases detail with
  | rootHash _ =>
      cases other with
      | rootHash _ => exact absurd rfl h
      | signature _ => rfl
      | cosignature _ _ => rfl
  | signature _ =>
      cases other with
      | rootHash _ => rfl
      | signature _ => exact absurd rfl h
      | cosignature _ _ => rfl
  | cosignature witness _ =>
      cases other with
      | rootHash _ => rfl
      | signature _ => rfl
      | cosignature witness' _ =>
          have hne : witness ≠ witness' := fun heq => h (congrArg Place.cosignature heq)
          simp only [fill, KeyTable.insert_comm hne]

theorem foldl_fill_of_perm
    {details details' : List Detail}
    (h : details.Perm details') (hplaces : (details.map Detail.place).Nodup) (fields : HeadFields) :
    details.foldl fill fields = details'.foldl fill fields := by
  apply h.foldl_eq'
  intro detail hdetail other hother fields
  by_cases hplace : detail.place = other.place
  · rw [List.inj_on_of_nodup_map hplaces hdetail hother hplace]
  · exact fill_comm hplace fields

theorem foldl_fill_cosignatures (entries : List (KeyHash × Cosignature)) (fields : HeadFields) :
    (entries.map fun entry => Detail.cosignature entry.1 entry.2).foldl fill fields =
      { fields with
        cosignatures :=
          entries.foldl (fun table entry => table.insert entry.1 entry.2) fields.cosignatures } := by
  induction entries generalizing fields with
  | nil => rfl
  | cons entry entries ih => rw [List.map_cons, List.foldl_cons, ih, List.foldl_cons, fill]

end HeadFields

theorem nodup_places (proof : LoggingProof) : (proof.details.map Detail.place).Nodup := by
  have hwitnesses : (proof.treeHead.cosignatures.keys.map Place.cosignature).Nodup :=
    List.Nodup.map (fun _ _ => Place.cosignature.inj) proof.treeHead.cosignatures.nodup_keys
  rw [KeyTable.keys, List.map_map] at hwitnesses
  simp only [details, List.map_cons, List.map_map, List.nodup_cons]
  refine ⟨?_, ?_, hwitnesses⟩
  · simp [Detail.place]
  · simp [Detail.place]

/-- There is room for each detail of a proof whose cosignatures have times, as long as no
cosignature has been read. -/
theorem hasRoom_of_mem_details
    {proof : LoggingProof} {detail : Detail}
    (htimes : ∀ entry ∈ proof.treeHead.cosignatures.entries, 0 < entry.2.timestamp)
    (h : detail ∈ proof.details) (size : Option UInt64) :
    HeadFields.HasRoom { HeadFields.start with size } detail := by
  rw [details, List.mem_cons, List.mem_cons, List.mem_map] at h
  rcases h with rfl | rfl | ⟨entry, hmem, rfl⟩
  · trivial
  · trivial
  · exact ⟨htimes entry hmem, rfl⟩

/-- The details of a proof complete the tree head whose size has been read. -/
theorem complete_foldl_details (proof : LoggingProof) :
    (proof.details.foldl HeadFields.fill
      { HeadFields.start with size := some proof.treeHead.signed.treeHead.size }).complete =
        .ok proof.treeHead := by
  rw [details, List.foldl_cons, List.foldl_cons, HeadFields.foldl_fill_cosignatures]
  simp only [HeadFields.fill, HeadFields.start, KeyTable.foldl_insert_entries, HeadFields.complete]

/-! ## The lines of a tree head among others -/

/-- The lines of a tree head begin with its size and end before a blank line. -/
theorem headLines_append
    {front rest : List (List Char)} {value : List Char}
    (hfront : ∀ line ∈ front, hasKey "size" line = false) (hsize : IsLine (entry "size" value))
    (hrest : ∀ line ∈ rest, IsLine line) (back : List (List Char)) :
    headLines (front ++ (entry "size" value :: rest ++ [] :: back)) = entry "size" value :: rest := by
  have hskipped : ∀ line ∈ front, (!hasKey "size" line) = true := by
    intro line hmem
    rw [hfront line hmem]
    rfl
  have hkept : ∀ line ∈ entry "size" value :: rest, (Text.trim line != []) = true := by
    intro line hmem
    have hline : IsLine line := by
      rcases List.mem_cons.mp hmem with rfl | hmem
      · exact hsize
      · exact hrest line hmem
    rw [hline.trim_eq, bne_iff_ne]
    exact hline.ne_nil
  rw [headLines, List.dropWhile_append_of_pos hskipped, List.cons_append,
    List.dropWhile_cons_of_neg (by simp), ← List.cons_append, List.takeWhile_append_of_pos hkept,
    List.takeWhile_cons_of_neg (by decide), List.append_nil]

theorem toList_sizeLine (proof : LoggingProof) :
    proof.sizeLine.toList =
      entry "size" (Text.writeNumber proof.treeHead.signed.treeHead.size).toList := by
  rw [sizeLine, String.toList_append]
  rfl

theorem isLine_sizeLine (proof : LoggingProof) : IsLine proof.sizeLine.toList := by
  rw [toList_sizeLine]
  exact isLine_entry_word (by decide) (Text.isWord_writeNumber _)

theorem HeadFields.readLine_sizeLine
    {proof : LoggingProof}
    (h : 0 < proof.treeHead.signed.treeHead.size) (fields : HeadFields) :
    fields.readLine proof.sizeLine.toList =
      .ok { fields with size := some proof.treeHead.signed.treeHead.size } := by
  rw [toList_sizeLine, readLine_entry_of_ne (by decide) (by decide) (Text.isWord_writeNumber _)
    (by decide), set]
  simp only [readPositive?_writeNumber h]

/-- The size, the details in any order and a blank line are read back as the tree head, whatever
comes after them, if no line in front has the key of a size. -/
theorem readTreeHead_lines
    {proof : LoggingProof} {front : List (List Char)} {details : List Detail}
    (hsize : 0 < proof.treeHead.signed.treeHead.size)
    (htimes : ∀ entry ∈ proof.treeHead.cosignatures.entries, 0 < entry.2.timestamp)
    (hperm : details.Perm proof.details) (hfront : ∀ line ∈ front, hasKey "size" line = false)
    (back : List (List Char)) :
    readTreeHead (front ++ (proof.sizeLine.toList ::
      (details.map fun detail => detail.line.toList) ++ [] :: back)) = .ok proof.treeHead := by
  have hline := proof.isLine_sizeLine
  have hlines : ∀ line ∈ details.map fun detail => detail.line.toList, IsLine line := by
    intro line hmem
    obtain ⟨detail, -, rfl⟩ := List.mem_map.mp hmem
    exact detail.isLine_line
  have hplaces : (details.map Detail.place).Nodup :=
    (hperm.map Detail.place).nodup_iff.mpr proof.nodup_places
  have hroom : ∀ detail ∈ details, HeadFields.HasRoom
      { HeadFields.start with size := some proof.treeHead.signed.treeHead.size } detail := by
    intro detail hmem
    exact hasRoom_of_mem_details htimes (hperm.mem_iff.mp hmem) _
  have hfound : (front ++ (proof.sizeLine.toList ::
      (details.map fun detail => detail.line.toList) ++ [] :: back)).any (hasKey "size") = true := by
    rw [List.any_append, List.cons_append, List.any_cons, toList_sizeLine, hasKey_entry_self,
      Bool.true_or, Bool.or_true]
  rw [toList_sizeLine] at hline
  rw [readTreeHead, if_pos hfound, bind_eq_ok_iff]
  refine ⟨_, ?_, proof.complete_foldl_details⟩
  rw [toList_sizeLine, headLines_append hfront hline hlines, ← toList_sizeLine, List.foldlM_cons,
    HeadFields.readLine_sizeLine hsize, ← HeadFields.foldl_fill_of_perm hperm hplaces]
  exact HeadFields.foldlM_readLine hplaces hroom

end LoggingProof

end WitnessedLog
