import WitnessedLog.Proofs.LoggingProof.TextRoundTrip

/-!
# Every line of a proof counts

A text is a proof only if all of its lines for cosignatures, nodes and the leaf index can be read.
Each of them then gives its own part of the proof: a cosignature line the entry of a witness that no
other line names, a node line the next node of the path, and the one line for the leaf index that
index.  Nothing else gets into these parts of the proof.
-/

namespace WitnessedLog

namespace LoggingProof

/-! ## What a line gives -/

/-- Whether a line is for a cosignature, once the blanks are cut off its ends. -/
def isCosignatureLine (line : List Char) : Bool :=
  hasKey "cosignature" (Text.trim line)

/-- A line gives the cosignature of a witness. -/
def GivesCosignature (line : List Char) (given : KeyHash × Cosignature) : Prop :=
  ∃ value witness time signature,
    Text.trim line = entry "cosignature" value ∧ Text.words value = [witness, time, signature] ∧
      Octets.ofHex .keyHash witness = .ok given.1 ∧
      Text.readNumber? time.toList = some given.2.timestamp ∧ 0 < given.2.timestamp ∧
      Octets.ofHex .signature signature = .ok given.2.signature

/-- A line gives the index of a leaf. -/
def GivesIndex (line : List Char) (index : UInt64) : Prop :=
  ∃ value, Text.trim line = entry "leaf_index" value ∧ Text.readNumber? value = some index

/-- A line gives a node of an audit path. -/
def GivesNode (line : List Char) (node : Hash) : Prop :=
  ∃ value, Text.trim line = entry "node_hash" value ∧
    Octets.ofHex .hash (String.ofList value) = .ok node

theorem readOctets_eq_ok_iff
    {role : Role} {text : String} {value : Octets role} :
    readOctets role text = .ok value ↔ Octets.ofHex role text = .ok value := by
  rw [readOctets]
  cases Octets.ofHex role text with
  | error cause => simp
  | ok read => simp

theorem readPositive?_eq_some_iff
    {numeral : List Char} {value : UInt64} :
    readPositive? numeral = some value ↔ Text.readNumber? numeral = some value ∧ 0 < value := by
  rw [readPositive?, Option.filter_eq_some_iff, decide_eq_true_eq]

/-- A line that begins with a key keeps it when blanks are cut off its ends. -/
theorem exists_trim_eq_entry
    {key : String} {line : List Char}
    (hkey : Text.IsWord key) (h : hasKey key line = true) :
    ∃ value, Text.trim line = entry key value := by
  obtain ⟨value, rfl⟩ := hasKey_iff.mp h
  have hfront : (entry key value).dropWhile Text.isBlank = entry key value := by
    obtain ⟨c, rest, hstart⟩ := List.exists_cons_of_ne_nil hkey.toList_ne_nil
    have hfirst : Text.isBlank c = false := hkey.2 c (hstart ▸ List.mem_cons_self)
    rw [entry, hstart, List.cons_append, List.dropWhile_cons_of_neg (by simp [hfirst])]
  have hend : ('=' :: key.toList.reverse).dropWhile Text.isBlank = '=' :: key.toList.reverse :=
    List.dropWhile_cons_of_neg (by decide)
  refine ⟨(value.reverse.dropWhile Text.isBlank).reverse, ?_⟩
  rw [Text.trim, hfront, entry, List.reverse_append, List.reverse_cons, List.append_assoc,
    List.singleton_append, List.dropWhile_append, hend]
  split
  · rename_i hblank
    rw [List.isEmpty_iff.mp hblank]
    simp [entry]
  · simp [entry]

/-- A list with an element of some kind begins its part from there on with the first of them. -/
theorem exists_dropWhile_eq_cons
    {α : Type} {p : α → Bool} {list : List α}
    (h : list.any p = true) :
    ∃ front first rest, list = front ++ first :: rest ∧ (∀ a ∈ front, p a = false) ∧
      p first = true ∧ list.dropWhile (fun a => !p a) = first :: rest := by
  induction list with
  | nil => cases h
  | cons a list ih =>
      cases ha : p a with
      | true => exact ⟨[], a, list, rfl, by simp, ha, List.dropWhile_cons_of_neg (by simp [ha])⟩
      | false =>
          rw [List.any_cons, ha, Bool.false_or] at h
          obtain ⟨front, first, rest, hcut, hfront, hfirst, hdrop⟩ := ih h
          refine ⟨a :: front, first, rest, by rw [hcut, List.cons_append], ?_, hfirst, ?_⟩
          · exact List.forall_mem_cons.mpr ⟨ha, hfront⟩
          · rw [List.dropWhile_cons_of_pos (by simp [ha]), hdrop]

/-- The only element of some kind from the first one on is the only one of the list. -/
theorem exists_cut_of_filter_eq_singleton
    {α : Type} {p : α → Bool} {list : List α} {a : α}
    (h : (list.dropWhile fun b => !p b).filter p = [a]) :
    ∃ before after, list = before ++ a :: after ∧ p a = true ∧
      (∀ b ∈ before ++ after, p b = false) ∧ list.dropWhile (fun b => !p b) = a :: after := by
  have hmem : a ∈ (list.dropWhile fun b => !p b).filter p := h ▸ List.mem_cons_self
  obtain ⟨hdropped, ha⟩ := List.mem_filter.mp hmem
  have hany : list.any p = true :=
    List.any_eq_true.mpr ⟨a, (List.dropWhile_sublist _).subset hdropped, ha⟩
  obtain ⟨before, first, after, hcut, hbefore, hfirst, hdrop⟩ := exists_dropWhile_eq_cons hany
  rw [hdrop, List.filter_cons_of_pos hfirst] at h
  obtain ⟨rfl, hafter⟩ := List.cons.inj h
  refine ⟨before, after, hcut, ha, List.forall_mem_append.mpr ⟨hbefore, ?_⟩, hdrop⟩
  intro b hb
  exact Bool.eq_false_iff.mpr (List.filter_eq_nil_iff.mp hafter b hb)

/-! ## The lines of a tree head -/

namespace HeadFields

/-- What a line of a tree head does to the fields: it gives a cosignature of a new witness, or it
leaves the cosignatures as they are and sets no size of zero. -/
inductive Step (fields : HeadFields) (line : List Char) : HeadFields → Prop where
  | cosignature {witness : KeyHash} {cosigned : Cosignature}
    (hgives : GivesCosignature line (witness, cosigned))
    (hnew : fields.cosignatures.contains witness = false) :
      Step fields line
        { fields with cosignatures := fields.cosignatures.insert witness cosigned }
  | field {fields' : HeadFields} (hother : isCosignatureLine line = false)
    (hsame : fields'.cosignatures = fields.cosignatures)
    (hsize : ∀ size, fields'.size = some size → fields.size = some size ∨ 0 < size) :
      Step fields line fields'

variable {fields fields' : HeadFields} {line : List Char} {lines : List (List Char)}

theorem set_keeps
    {key : String} {value : List Char}
    (h : fields.set key value = .ok fields') :
    fields'.cosignatures = fields.cosignatures ∧
      ∀ size, fields'.size = some size → fields.size = some size ∨ 0 < size := by
  unfold set at h
  split at h
  · split at h
    · rename_i size hsize
      cases h
      refine ⟨rfl, ?_⟩
      rintro _ ⟨⟩
      exact Or.inr (readPositive?_eq_some_iff.mp hsize).2
    · cases h
  · obtain ⟨root, -, h⟩ := bind_eq_ok_iff.mp h
    cases h
    exact ⟨rfl, fun _ => Or.inl⟩
  · obtain ⟨signed, -, h⟩ := bind_eq_ok_iff.mp h
    cases h
    exact ⟨rfl, fun _ => Or.inl⟩
  · cases h
    exact ⟨rfl, fun _ => Or.inl⟩

theorem step_of_addCosignature
    {value : List Char}
    (hline : Text.trim line = entry "cosignature" value)
    (h : fields.addCosignature (Text.words value) = .ok fields') : fields.Step line fields' := by
  unfold addCosignature at h
  split at h
  · rename_i name time signature hwords
    obtain ⟨witness, hwitness, h⟩ := bind_eq_ok_iff.mp h
    split at h
    · cases h
    · rename_i timestamp htime
      obtain ⟨signed, hsigned, h⟩ := bind_eq_ok_iff.mp h
      split at h
      · cases h
      · rename_i hnew
        cases h
        obtain ⟨hnumber, hpositive⟩ := readPositive?_eq_some_iff.mp htime
        refine .cosignature ⟨value, name, time, signature, hline, hwords, ?_, hnumber, hpositive,
          ?_⟩ (Bool.eq_false_iff.mpr hnew)
        · exact readOctets_eq_ok_iff.mp hwitness
        · exact readOctets_eq_ok_iff.mp hsigned
  · cases h

theorem step_of_readLine
    (h : fields.readLine line = .ok fields') : fields.Step line fields' := by
  have hprefix : "cosignature=".toList = "cosignature".toList ++ ['='] := rfl
  simp only [readLine, hprefix] at h
  split at h
  · rename_i value hvalue
    rw [Text.dropStart?_eq_some_iff, List.append_assoc] at hvalue
    exact step_of_addCosignature hvalue h
  · rename_i hnone
    have hother : isCosignatureLine line = false := by
      rw [Bool.eq_false_iff]
      intro hkey
      obtain ⟨value, hentry⟩ := hasKey_iff.mp hkey
      rw [hentry, dropStart?_entry] at hnone
      cases hnone
    split at h
    · cases h
      exact .field hother rfl fun _ => Or.inl
    · split at h
      · cases h
        exact .field hother rfl fun _ => Or.inl
      · obtain ⟨hsame, hsize⟩ := set_keeps h
        exact .field hother hsame hsize

/-- Each cosignature line has given one entry, and there are no other new entries. -/
theorem exists_entries_of_run
    (h : lines.foldlM readLine fields = .ok fields') :
    ∃ entries : List (KeyHash × Cosignature),
      List.Forall₂ GivesCosignature (lines.filter isCosignatureLine) entries ∧
        fields'.cosignatures.entries.Perm (entries ++ fields.cosignatures.entries) := by
  induction lines generalizing fields with
  | nil =>
      cases h
      exact ⟨[], List.Forall₂.nil, List.Perm.refl _⟩
  | cons line lines ih =>
      rw [List.foldlM_cons, bind_eq_ok_iff] at h
      obtain ⟨next, hline, hlines⟩ := h
      obtain ⟨entries, hentries, hperm⟩ := ih hlines
      cases step_of_readLine hline with
      | cosignature hgives hnew =>
          rename_i witness cosigned
          have hkey : isCosignatureLine line = true := by
            obtain ⟨value, -, -, -, hentry, -⟩ := hgives
            rw [isCosignatureLine, hentry, hasKey_entry_self]
          refine ⟨(witness, cosigned) :: entries, ?_, ?_⟩
          · rw [List.filter_cons_of_pos hkey]
            exact hentries.cons hgives
          · exact hperm.trans (((KeyTable.entries_insert_perm hnew cosigned).append_left
              entries).trans List.perm_middle)
      | field hother hsame hsize =>
          refine ⟨entries, ?_, hsame ▸ hperm⟩
          rwa [List.filter_cons_of_neg (by simp [hother])]

theorem size_pos_of_run
    (h : lines.foldlM readLine start = .ok fields) :
    ∀ size, fields.size = some size → 0 < size := by
  refine foldlM_keeps
    (motive := fun fields => ∀ size, fields.size = some size → 0 < size) ?_ h (by simp [start])
  intro line _ before after hline hbefore size hsize
  cases step_of_readLine hline with
  | cosignature hgives hnew => exact hbefore size hsize
  | field hother hsame hset => exact (hset size hsize).elim (hbefore size) id

theorem complete_eq_ok
    {head : CosignedTreeHead}
    (h : fields.complete = .ok head) :
    fields.size = some head.signed.treeHead.size ∧ fields.cosignatures = head.cosignatures := by
  rw [complete] at h
  split at h
  · rename_i size root hsize hroot
    split at h
    · cases h
      exact ⟨hsize, rfl⟩
    · cases h
  · cases h

end HeadFields

/-- The block of the tree head among the lines of a text: the lines from the first one with a size
to the next blank line or the end. -/
structure IsHeadBlock (lines block : List (List Char)) : Prop where
  cut : ∃ front back, lines = front ++ block ++ back ∧
    (∀ line ∈ front, hasKey "size" line = false) ∧ ∀ line ∈ back.head?, Text.trim line = []
  first : ∃ line ∈ block.head?, hasKey "size" line = true
  nonblank : ∀ line ∈ block, Text.trim line ≠ []

theorem isHeadBlock_headLines
    {lines : List (List Char)}
    (h : lines.any (hasKey "size") = true) : IsHeadBlock lines (headLines lines) := by
  obtain ⟨front, first, rest, hcut, hfront, hfirst, hdrop⟩ := exists_dropWhile_eq_cons h
  have hnonblank : (Text.trim first != []) = true := by
    obtain ⟨value, hvalue⟩ := exists_trim_eq_entry (by decide) hfirst
    rw [hvalue, bne_iff_ne]
    exact List.append_ne_nil_of_right_ne_nil _ (List.cons_ne_nil _ _)
  have hblock : headLines lines = (first :: rest).takeWhile fun line => Text.trim line != [] := by
    rw [headLines, hdrop]
  refine ⟨⟨front, (first :: rest).dropWhile fun line => Text.trim line != [], ?_, hfront, ?_⟩,
    ?_, ?_⟩
  · rw [hblock, List.append_assoc, List.takeWhile_append_dropWhile, hcut]
  · intro line hline
    have hnot := List.head?_dropWhile_not (fun line => Text.trim line != []) (first :: rest)
    rw [Option.mem_def.mp hline] at hnot
    simpa using hnot
  · refine ⟨first, ?_, hfirst⟩
    simp only [hblock, List.takeWhile_cons, hnonblank, if_true, List.head?_cons, Option.mem_def]
  · intro line hline
    rw [hblock] at hline
    simpa using List.mem_takeWhile_imp hline

/-- What a tree head is read from: its size is not zero, and its cosignatures are those that the
lines of its block give. -/
theorem exists_block_of_readTreeHead
    {lines : List (List Char)} {head : CosignedTreeHead}
    (h : readTreeHead lines = .ok head) :
    0 < head.signed.treeHead.size ∧
      ∃ block entries, IsHeadBlock lines block ∧
        List.Forall₂ GivesCosignature (block.filter isCosignatureLine) entries ∧
          head.cosignatures.entries.Perm entries := by
  rw [readTreeHead] at h
  split at h
  · rename_i hfound
    obtain ⟨fields, hrun, hcomplete⟩ := bind_eq_ok_iff.mp h
    obtain ⟨hsize, hcosignatures⟩ := HeadFields.complete_eq_ok hcomplete
    obtain ⟨entries, hentries, hperm⟩ := HeadFields.exists_entries_of_run hrun
    refine ⟨HeadFields.size_pos_of_run hrun _ hsize, headLines lines, entries,
      isHeadBlock_headLines hfound, hentries, ?_⟩
    rw [← hcosignatures]
    exact hperm.trans (List.Perm.of_eq (List.append_nil entries))
  · cases h

/-! ## The lines of an inclusion path -/

namespace PathFields

/-- What a line of an inclusion path does to the fields: it gives the leaf index if there is none
yet, or the next node of the path. -/
inductive Step (fields : PathFields) (line : List Char) : PathFields → Prop where
  | leafIndex {index : UInt64} (hkey : hasKey "leaf_index" line = true)
    (hother : hasKey "node_hash" line = false) (hgives : GivesIndex line index)
    (hunset : fields.leafIndex = none) :
      Step fields line { fields with leafIndex := some index }
  | node {node : Hash} (hkey : hasKey "node_hash" line = true)
    (hother : hasKey "leaf_index" line = false) (hgives : GivesNode line node) :
      Step fields line { fields with path := fields.path ++ [node] }

variable {fields fields' : PathFields} {line : List Char} {lines : List (List Char)}

theorem readLine_of_trim
    {key : String} {value : List Char}
    (hline : Text.trim line = entry key value) (hequals : '=' ∉ key.toList)
    (h : fields.readLine line = .ok fields') :
    fields.set key value = .ok fields' := by
  simp only [readLine, hline, splitAtEquals?_entry hequals, String.ofList_toList] at h
  split at h
  · cases h
  · exact h

theorem step_of_readLine
    (hkey : (hasKey "leaf_index" line || hasKey "node_hash" line) = true)
    (h : fields.readLine line = .ok fields') : fields.Step line fields' := by
  cases hindex : hasKey "leaf_index" line with
  | true =>
      have hother : hasKey "node_hash" line = false :=
        hasKey_of_hasKey_of_ne (by decide) (by decide) (by decide) hindex
      obtain ⟨value, hline⟩ := exists_trim_eq_entry (by decide) hindex
      have hset := readLine_of_trim hline (by decide) h
      simp only [set] at hset
      split at hset
      · cases hset
      · rename_i hunset
        split at hset
        · rename_i index hread
          cases hset
          exact .leafIndex hindex hother ⟨value, hline, hread⟩ hunset
        · cases hset
  | false =>
      have hnode : hasKey "node_hash" line = true := by rwa [hindex, Bool.false_or] at hkey
      obtain ⟨value, hline⟩ := exists_trim_eq_entry (by decide) hnode
      have hset := readLine_of_trim hline (by decide) h
      obtain ⟨node, hread, hset⟩ := bind_eq_ok_iff.mp hset
      cases hset
      exact .node hnode hindex ⟨value, hline, readOctets_eq_ok_iff.mp hread⟩

/-- Each line has given its node or the index, and nothing else was added. -/
theorem exists_given_of_run
    (hkeys : ∀ line ∈ lines, (hasKey "leaf_index" line || hasKey "node_hash" line) = true)
    (h : lines.foldlM readLine fields = .ok fields') :
    ∃ indices nodes,
      List.Forall₂ GivesIndex (lines.filter (hasKey "leaf_index")) indices ∧
        fields'.leafIndex.toList = fields.leafIndex.toList ++ indices ∧
        List.Forall₂ GivesNode (lines.filter (hasKey "node_hash")) nodes ∧
          fields'.path = fields.path ++ nodes := by
  induction lines generalizing fields with
  | nil =>
      cases h
      exact ⟨[], [], List.Forall₂.nil, by simp, List.Forall₂.nil, by simp⟩
  | cons line lines ih =>
      obtain ⟨hkey, hrest⟩ := List.forall_mem_cons.mp hkeys
      rw [List.foldlM_cons, bind_eq_ok_iff] at h
      obtain ⟨next, hline, hlines⟩ := h
      obtain ⟨indices, nodes, hindices, hindex, hnodes, hpath⟩ := ih hrest hlines
      cases step_of_readLine hkey hline with
      | leafIndex hmatch hother hgives hunset =>
          rename_i index
          refine ⟨index :: indices, nodes, ?_, ?_, ?_, hpath⟩
          · rw [List.filter_cons_of_pos hmatch]
            exact hindices.cons hgives
          · rw [hindex, hunset]
            rfl
          · rwa [List.filter_cons_of_neg (by simp [hother])]
      | node hmatch hother hgives =>
          rename_i node
          refine ⟨indices, node :: nodes, ?_, hindex, ?_, ?_⟩
          · rwa [List.filter_cons_of_neg (by simp [hother])]
          · rw [List.filter_cons_of_pos hmatch]
            exact hnodes.cons hgives
          · rw [hpath, List.append_assoc, List.singleton_append]

theorem complete_eq_ok
    {inclusion : InclusionPath}
    (h : fields.complete = .ok inclusion) :
    fields.leafIndex = some inclusion.leafIndex ∧ fields.path = inclusion.path := by
  rw [complete] at h
  split at h
  · rename_i index hindex
    cases h
    exact ⟨hindex, rfl⟩
  · cases h

end PathFields

/-- The lines with one of two keys have those with either key in them. -/
theorem filter_hasKey_filter
    (key other : String) (lines : List (List Char)) :
    (lines.filter fun line => hasKey key line || hasKey other line).filter (hasKey key) =
        lines.filter (hasKey key) ∧
      (lines.filter fun line => hasKey key line || hasKey other line).filter (hasKey other) =
        lines.filter (hasKey other) := by
  rw [List.filter_filter, List.filter_filter]
  constructor
  · exact List.filter_congr fun line _ => by cases hasKey key line <;> simp
  · exact List.filter_congr fun line _ => by cases hasKey other line <;> simp

/-- What an inclusion path is read from: one line with the leaf index, and behind it one line for
each node. -/
theorem exists_lines_of_readInclusion
    {lines : List (List Char)} {inclusion : InclusionPath}
    (h : readInclusion lines = .ok inclusion) :
    ∃ before line after, lines = before ++ line :: after ∧ hasKey "leaf_index" line = true ∧
      (∀ other ∈ before ++ after, hasKey "leaf_index" other = false) ∧
        GivesIndex line inclusion.leafIndex ∧
          List.Forall₂ GivesNode (after.filter (hasKey "node_hash")) inclusion.path := by
  obtain ⟨fields, hrun, hcomplete⟩ := bind_eq_ok_iff.mp h
  obtain ⟨hleaf, hpath⟩ := PathFields.complete_eq_ok hcomplete
  have hkeys : ∀ line ∈ pathLines lines,
      (hasKey "leaf_index" line || hasKey "node_hash" line) = true :=
    fun line hline => (List.mem_filter.mp hline).2
  obtain ⟨indices, nodes, hindices, hindex, hnodes, hnode⟩ :=
    PathFields.exists_given_of_run hkeys hrun
  have hone : indices = [inclusion.leafIndex] := by
    rw [hleaf] at hindex
    exact hindex.symm
  have hall : nodes = inclusion.path := by
    rw [← hpath, hnode]
    rfl
  subst hone hall
  obtain ⟨hindexLines, hnodeLines⟩ := filter_hasKey_filter "leaf_index" "node_hash"
    (lines.dropWhile fun line => !hasKey "leaf_index" line)
  rw [pathLines, hindexLines] at hindices
  rw [pathLines, hnodeLines] at hnodes
  obtain ⟨line, none, hgives, hnone, hline⟩ := List.forall₂_cons_right_iff.mp hindices
  rw [List.forall₂_nil_right_iff.mp hnone] at hline
  obtain ⟨before, after, hcut, hkey, hothers, hdrop⟩ := exists_cut_of_filter_eq_singleton hline
  have hother : hasKey "node_hash" line = false :=
    hasKey_of_hasKey_of_ne (by decide) (by decide) (by decide) hkey
  rw [hdrop, List.filter_cons_of_neg (by simp [hother])] at hnodes
  exact ⟨before, line, after, hcut, hkey, hothers, hgives, hnodes⟩

theorem readVersion_eq_ok
    {lines : List (List Char)} {version : UInt8}
    (h : readVersion lines = .ok version) :
    ∃ value, value? "version" lines = some value ∧
      String.ofList (Text.trim value) = version.toNat.repr ∧ (version = 1 ∨ version = 2) := by
  obtain ⟨value, hvalue, h⟩ := bind_eq_ok_iff.mp h
  have hfound : value? "version" lines = some value := by
    rw [requireValue] at hvalue
    split at hvalue
    · rename_i found hfound
      cases hvalue
      exact hfound
    · cases hvalue
  refine ⟨value, hfound, ?_⟩
  split at h
  · rename_i hnumber
    cases h
    exact ⟨hnumber, .inl rfl⟩
  · rename_i hnumber
    cases h
    exact ⟨hnumber, .inr rfl⟩
  · cases h

/-! ## The whole text -/

/-- A text that is a proof has its version, 1 or 2, in the first line for it, and the size of its
tree is not zero.  Its cosignatures are those of the cosignature lines in the block of the tree head,
one for each line and no two for the same witness.  There is just one line for the leaf index, and
the path has one node for each node line behind it, in their order. -/
theorem ofText_reads_every_line
    {text : String} {proof : LoggingProof}
    (h : ofText text = .ok proof) :
    let lines := Text.lines (Text.trim text.toList)
    (∃ value, value? "version" lines = some value ∧
        String.ofList (Text.trim value) = proof.version.toNat.repr ∧
          (proof.version = 1 ∨ proof.version = 2)) ∧
      0 < proof.treeHead.signed.treeHead.size ∧
      (∃ block entries, IsHeadBlock lines block ∧
        List.Forall₂ GivesCosignature (block.filter isCosignatureLine) entries ∧
          (entries.map Prod.fst).Nodup ∧ proof.treeHead.cosignatures.entries.Perm entries) ∧
      ∃ before line after, lines = before ++ line :: after ∧ hasKey "leaf_index" line = true ∧
        (∀ other ∈ before ++ after, hasKey "leaf_index" other = false) ∧
          GivesIndex line proof.inclusion.leafIndex ∧
            List.Forall₂ GivesNode (after.filter (hasKey "node_hash")) proof.inclusion.path := by
  intro lines
  simp only [ofText, ofLines, bind_eq_ok_iff] at h
  obtain ⟨version, hversion, log, -, leaf, -, head, hhead, inclusion, hinclusion, hproof⟩ := h
  cases hproof
  obtain ⟨hsize, block, entries, hblock, hentries, hperm⟩ := exists_block_of_readTreeHead hhead
  refine ⟨readVersion_eq_ok hversion, hsize, ⟨block, entries, hblock, hentries, ?_, hperm⟩,
    exists_lines_of_readInclusion hinclusion⟩
  exact (hperm.map Prod.fst).nodup_iff.mp head.cosignatures.nodup_keys

/-- The sample has two cosignature lines and three node lines. -/
theorem ofText_reads_every_line_sampleCosigned :
    let text := sampleCosigned.arranged "0a1b" sampleCosigned.detailLines
    let lines := Text.lines (Text.trim text.toList)
    ofText text = .ok sampleCosigned ∧
      (∃ block, IsHeadBlock lines block ∧ (block.filter isCosignatureLine).length = 2) ∧
      ∃ before line after, lines = before ++ line :: after ∧ GivesIndex line 5 ∧
        (after.filter (hasKey "node_hash")).length = 3 := by
  intro text lines
  have hread : ofText text = .ok sampleCosigned := by
    simp only [text, detailLines_eq, ofText, lines_arranged fun _ => (by decide : Text.IsWord "0a1b")]
    exact ofLines_writtenLines (.inl rfl) (fun _ => by decide) (by decide) (by decide) (List.Perm.refl _)
  obtain ⟨-, -, ⟨block, entries, hblock, hentries, -, hperm⟩, before, line, after, hcut, -, -,
    hindex, hnodes⟩ := ofText_reads_every_line hread
  exact ⟨hread, ⟨block, hblock, hentries.length_eq.trans hperm.length_eq.symm⟩, before, line, after,
    hcut, hindex, hnodes.length_eq⟩

end LoggingProof

end WitnessedLog
