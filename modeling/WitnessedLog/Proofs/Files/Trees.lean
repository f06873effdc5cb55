import Mathlib.Data.List.Induction
import Mathlib.Order.Defs.Unbundled
import WitnessedLog.Files.Tree
import WitnessedLog.Proofs.Fallible

/-!
# What changes in a file tree

A file is written, and a directory made, at one location, and nothing else in the tree changes.  A
path that leads somewhere still does so when more is put into the tree, so that a file is found again
by the path by which it was written.  Directories that are made first never bring a path to a file to
which it did not lead before, unless the path goes back up through one of them.
-/

namespace WitnessedLog

namespace FileTree

variable {tree tree' : FileTree} {working location : Location} {path : String}

/-! ## Setting a location -/

theorem node?_nil (tree : FileTree) : tree.node? [] = some .directory :=
  if_pos rfl

theorem node?_set
    (hlocation : location ≠ []) (node : FileNode) (other : Location) :
    (tree.set location node).node? other =
      if other = location then some node else tree.node? other := by
  by_cases hroot : other = []
  · rw [hroot, node?_nil, node?_nil, if_neg (Ne.symm hlocation)]
  · by_cases hsame : other = location
    · simp [node?, set, hsame, hlocation]
    · have hothers : (tree.nodes.filter fun entry => entry.1 ≠ location).find?
          (fun entry => entry.1 = other) = tree.nodes.find? (fun entry => entry.1 = other) := by
        rw [List.find?_filter]
        congr 1
        funext entry
        by_cases hentry : entry.1 = other
        · simp [hentry, hsame]
        · simp [hentry]
      rw [node?, node?, if_neg hroot, if_neg hroot, if_neg hsame, set, List.find?_cons, hothers,
        decide_eq_false (Ne.symm hsame)]

theorem content?_eq_some_iff
    {content : Bytes} :
    tree.content? location = some content ↔ tree.node? location = some (.file content) := by
  rw [content?]
  split
  · simp_all
  · simp_all

/-! ## Trees with more in them -/

/-- Everything that was in the first tree is in the second one, as it was. -/
def Extends (tree tree' : FileTree) : Prop :=
  ∀ location node, tree.node? location = some node → tree'.node? location = some node

theorem Extends.refl (tree : FileTree) : tree.Extends tree :=
  fun _ _ => id

theorem Extends.trans
    {tree'' : FileTree}
    (h : tree.Extends tree') (h' : tree'.Extends tree'') : tree.Extends tree'' :=
  fun location node hnode => h' location node (h location node hnode)

instance : IsPreorder FileTree Extends where
  refl := Extends.refl
  trans _ _ _ := Extends.trans

/-- Every file of the first tree is in the second one with the same content. -/
def KeepsFiles (tree tree' : FileTree) : Prop :=
  ∀ location content, tree.content? location = some content →
    tree'.content? location = some content

theorem KeepsFiles.refl (tree : FileTree) : tree.KeepsFiles tree :=
  fun _ _ => id

theorem Extends.keepsFiles
    (h : tree.Extends tree') : tree.KeepsFiles tree' := by
  intro location content hcontent
  rw [content?_eq_some_iff] at hcontent ⊢
  exact h location _ hcontent

/-! ## Following a path -/

/-- A tree in which at least as much can be followed: the directories of the first tree are there, and
something is where something was. -/
structure Admits (tree tree' : FileTree) : Prop where
  directory : ∀ location, tree.node? location = some .directory →
    tree'.node? location = some .directory
  isSome : ∀ location, (tree.node? location).isSome → (tree'.node? location).isSome

theorem Extends.admits
    (h : tree.Extends tree') : tree.Admits tree' where
  directory location := h location .directory
  isSome location hsome := by
    obtain ⟨node, hnode⟩ := Option.isSome_iff_exists.mp hsome
    exact Option.isSome_iff_exists.mpr ⟨node, h location node hnode⟩

theorem admits_set
    (hlocation : location ≠ []) (hnot : tree.node? location ≠ some .directory) (node : FileNode) :
    tree.Admits (tree.set location node) where
  directory other hother := by
    have hne : other ≠ location := by
      rintro rfl
      exact hnot hother
    rw [node?_set hlocation, if_neg hne, hother]
  isSome other hother := by
    rw [node?_set hlocation]
    split
    · rfl
    · exact hother

/-- What it takes to follow a name. -/
theorem follow_eq_ok_iff
    {name : String} {location' : Location} :
    tree.follow location name = .ok location' ↔
      tree.node? location = some .directory ∧
        (name = "." ∧ location' = location ∨
          name = ".." ∧ location' = location.dropLast ∨
          isProperName name = true ∧ name.utf8ByteSize ≤ 255 ∧ location' = location ++ [name] ∧
            (tree.node? (location ++ [name])).isSome) := by
  rw [follow]
  cases hnode : tree.node? location with
  | none => simp
  | some node =>
      cases node with
      | file content => simp
      | directory =>
          by_cases hsame : name = "."
          · simpa [hsame, isProperName] using eq_comm
          by_cases hup : name = ".."
          · simpa [hup, isProperName] using eq_comm
          by_cases hlong : 255 < name.utf8ByteSize
          · simp [hsame, hup, hlong, Nat.not_le.mpr hlong]
          cases hfound : tree.node? (location ++ [name]) with
          | none => simp [hsame, hup, hlong]
          | some found =>
              simpa [hsame, hup, hlong, isProperName, Nat.not_lt.mp hlong] using eq_comm

theorem Admits.follow
    {name : String} {location' : Location}
    (h : tree.Admits tree') (hfollow : tree.follow location name = .ok location') :
    tree'.follow location name = .ok location' := by
  rw [follow_eq_ok_iff] at hfollow ⊢
  obtain ⟨hdirectory, hname⟩ := hfollow
  refine ⟨h.directory location hdirectory, hname.imp_right (Or.imp_right ?_)⟩
  exact fun ⟨hproper, hshort, hlocation, hsome⟩ => ⟨hproper, hshort, hlocation, h.isSome _ hsome⟩

theorem Admits.followAll
    {names : List String} {location' : Location}
    (h : tree.Admits tree') {absolute : Bool}
    (hfollow : tree.followAll working absolute names = .ok location') :
    tree'.followAll working absolute names = .ok location' :=
  foldlM_eq_ok_of_imp (fun _ _ _ => h.follow) hfollow

/-! ## Writing a file -/

theorem eq_ofText_of_partsOf
    {parts : PathParts} (h : partsOf path = .ok parts) : parts = PathParts.ofText path := by
  unfold partsOf at h
  split_ifs at h
  exact (Except.ok.inj h).symm

theorem locateNew_eq_ok_iff
    {directory : Location} {last : Option String} :
    tree.locateNew working path = .ok (directory, last) ↔
      ∃ parts, partsOf path = .ok parts ∧
        tree.followAll working parts.absolute parts.parts.dropLast = .ok directory ∧
        tree.node? directory = some .directory ∧ parts.parts.getLast? = last := by
  simp only [locateNew, bind_eq_ok_iff]
  refine exists_congr fun parts => and_congr_right fun _ => ?_
  constructor
  · rintro ⟨location, hlocation, h⟩
    split_ifs at h with hdirectory
    obtain ⟨rfl, rfl⟩ := Prod.mk.inj (Except.ok.inj h)
    exact ⟨hlocation, hdirectory, rfl⟩
  · rintro ⟨hlocation, hdirectory, rfl⟩
    exact ⟨directory, hlocation, if_pos hdirectory⟩

theorem Admits.locateNew
    {directory : Location} {last : Option String}
    (h : tree.Admits tree') (hnew : tree.locateNew working path = .ok (directory, last)) :
    tree'.locateNew working path = .ok (directory, last) := by
  obtain ⟨parts, hparts, hdirectory, hnode, hlast⟩ := locateNew_eq_ok_iff.mp hnew
  exact locateNew_eq_ok_iff.mpr
    ⟨parts, hparts, h.followAll hdirectory, h.directory directory hnode, hlast⟩

/-- What it takes to write a file. -/
theorem writeFile_eq_ok_iff
    {content : Bytes} :
    tree.writeFile working path content = .ok tree' ↔
      ∃ directory name, tree.locateNew working path = .ok (directory, some name) ∧
        isProperName name = true ∧ (PathParts.ofText path).trailingSlash = false ∧
        name.utf8ByteSize ≤ 255 ∧ tree.node? (directory ++ [name]) ≠ some .directory ∧
        tree' = tree.set (directory ++ [name]) (.file content) := by
  rw [writeFile]
  rcases tree.locateNew working path with e | ⟨directory, _ | name⟩
  · simp
  · simp
  · by_cases hproper : isProperName name = true
    · by_cases hslash : (PathParts.ofText path).trailingSlash = true
      · simp [hproper, hslash]
      · by_cases hlong : 255 < name.utf8ByteSize
        · simp [hproper, hslash, hlong, Nat.not_le.mpr hlong]
        · by_cases hnode : tree.node? (directory ++ [name]) = some .directory
          · simp [hproper, hslash, hlong, hnode]
          · simpa [hproper, hslash, hlong, hnode, Nat.not_lt.mp hlong] using eq_comm
    · simp [hproper]

/-- A path leads to where it would create something if there is something. -/
theorem locate_eq_ok_of_locateNew
    {directory : Location} {name : String}
    (hnew : tree.locateNew working path = .ok (directory, some name))
    (hproper : isProperName name = true)
    (hslash : (PathParts.ofText path).trailingSlash = false) (hshort : name.utf8ByteSize ≤ 255)
    (hsome : (tree.node? (directory ++ [name])).isSome) :
    tree.locate working path = .ok (directory ++ [name]) := by
  obtain ⟨parts, hparts, hdirectory, hnode, hlast⟩ := locateNew_eq_ok_iff.mp hnew
  have hfollow : tree.follow directory name = .ok (directory ++ [name]) :=
    follow_eq_ok_iff.mpr ⟨hnode, .inr (.inr ⟨hproper, hshort, rfl, hsome⟩)⟩
  have hall : tree.followAll working parts.absolute parts.parts = .ok (directory ++ [name]) := by
    rw [← List.dropLast_append_getLast? name hlast, followAll, List.foldlM_append]
    refine bind_eq_ok_iff.mpr ⟨directory, hdirectory, ?_⟩
    rw [List.foldlM_cons]
    exact bind_eq_ok_iff.mpr ⟨directory ++ [name], hfollow, rfl⟩
  rw [← eq_ofText_of_partsOf hparts] at hslash
  refine bind_eq_ok_iff.mpr ⟨parts, hparts, bind_eq_ok_iff.mpr ⟨directory ++ [name], hall, ?_⟩⟩
  exact if_neg fun hasked => by simp [hslash] at hasked

/-- The second tree is the first one with a file at a location. -/
structure HoldsFile (tree : FileTree) (location : Location) (content : Bytes) (tree' : FileTree) :
    Prop where
  content? : tree'.content? location = some content
  others : ∀ other, other ≠ location → tree'.node? other = tree.node? other

/-- A file that was written is found by the path by which it was written, and nothing else has
changed. -/
theorem locate_of_writeFile
    {content : Bytes} (h : tree.writeFile working path content = .ok tree') :
    ∃ location, tree'.locate working path = .ok location ∧
      tree.HoldsFile location content tree' := by
  obtain ⟨directory, name, hnew, hproper, hslash, hshort, hnot, rfl⟩ := writeFile_eq_ok_iff.mp h
  have hroot : directory ++ [name] ≠ [] := List.append_ne_nil_of_right_ne_nil _ (by simp)
  have hset (other : Location) :
      (tree.set (directory ++ [name]) (.file content)).node? other =
        if other = directory ++ [name] then some (.file content) else tree.node? other :=
    node?_set hroot (.file content) other
  refine ⟨directory ++ [name], ?_, ?_, ?_⟩
  · refine locate_eq_ok_of_locateNew ((admits_set hroot hnot _).locateNew hnew) hproper hslash
      hshort ?_
    rw [hset, if_pos rfl]
    rfl
  · rw [content?_eq_some_iff, hset, if_pos rfl]
  · intro other hother
    rw [hset, if_neg hother]

/-! ## Making directories -/

/-- A directory is made in a directory, where there was nothing. -/
theorem exists_of_makeDirectory
    (h : tree.makeDirectory working path = .ok tree') :
    ∃ directory name, tree.locateNew working path = .ok (directory, some name) ∧
      tree.node? (directory ++ [name]) = none ∧
      tree' = tree.set (directory ++ [name]) .directory := by
  rw [makeDirectory] at h
  split at h
  · cases h
  · cases h
  · rename_i directory name hnew
    split_ifs at h with _ _ hfree
    exact ⟨directory, name, hnew, Option.not_isSome_iff_eq_none.mp hfree, (Except.ok.inj h).symm⟩

theorem extends_of_makeDirectory
    (h : tree.makeDirectory working path = .ok tree') : tree.Extends tree' := by
  obtain ⟨directory, name, _, hfree, rfl⟩ := exists_of_makeDirectory h
  have hroot : directory ++ [name] ≠ [] := List.append_ne_nil_of_right_ne_nil _ (by simp)
  intro location node hnode
  rw [node?_set hroot, if_neg]
  · exact hnode
  · rintro rfl
    cases hfree.symm.trans hnode

/-! ## New files in new directories -/

/-- Whatever is in the tree lies in directories of the tree. -/
def Rooted (tree : FileTree) : Prop :=
  ∀ location name, (tree.node? (location ++ [name])).isSome →
    tree.node? location = some .directory

theorem rooted_iff :
    tree.Rooted ↔
      ∀ entry ∈ tree.nodes, tree.node? entry.1.dropLast = some .directory := by
  constructor
  · rintro hrooted ⟨location, node⟩ hmem
    rcases List.eq_nil_or_concat' location with rfl | ⟨above, name, rfl⟩
    · exact node?_nil tree
    · have hsome : (tree.node? (above ++ [name])).isSome := by
        rw [node?, if_neg (by simp), Option.isSome_map, List.find?_isSome]
        exact ⟨_, hmem, by simp⟩
      rw [List.dropLast_concat]
      exact hrooted above name hsome
  · intro hentries location name hsome
    rw [node?, if_neg (by simp), Option.isSome_map, List.find?_isSome] at hsome
    obtain ⟨entry, hmem, hlocation⟩ := hsome
    have habove := hentries entry hmem
    rwa [of_decide_eq_true hlocation, List.dropLast_concat] at habove

instance : Decidable tree.Rooted :=
  decidable_of_iff _ rooted_iff.symm

/-- Something put into a directory leaves a tree, if it takes the place of no directory that it is not
itself. -/
theorem Rooted.set
    {directory : Location} {name : String} {node : FileNode} (hrooted : tree.Rooted)
    (hdirectory : tree.node? directory = some .directory)
    (hnode : tree.node? (directory ++ [name]) = some .directory → node = .directory) :
    (tree.set (directory ++ [name]) node).Rooted := by
  have hroot : directory ++ [name] ≠ [] := List.append_ne_nil_of_right_ne_nil _ (by simp)
  intro location last hsome
  rw [node?_set hroot] at hsome ⊢
  by_cases hput : location ++ [last] = directory ++ [name]
  · obtain ⟨rfl, -⟩ := List.append_inj' hput rfl
    rw [if_neg (by simp), hdirectory]
  · rw [if_neg hput] at hsome
    have habove := hrooted location last hsome
    split
    · rename_i hlocation
      rw [hnode (hlocation ▸ habove)]
    · exact habove

theorem Rooted.of_writeFile
    {content : Bytes} (hrooted : tree.Rooted)
    (h : tree.writeFile working path content = .ok tree') : tree'.Rooted := by
  obtain ⟨directory, name, hnew, _, _, _, hnot, rfl⟩ := writeFile_eq_ok_iff.mp h
  obtain ⟨_, _, _, hdirectory, _⟩ := locateNew_eq_ok_iff.mp hnew
  exact hrooted.set hdirectory fun hthere => absurd hthere hnot

theorem Rooted.of_makeDirectory
    (hrooted : tree.Rooted) (h : tree.makeDirectory working path = .ok tree') : tree'.Rooted := by
  obtain ⟨directory, name, hnew, _, rfl⟩ := exists_of_makeDirectory h
  obtain ⟨_, _, _, hdirectory, _⟩ := locateNew_eq_ok_iff.mp hnew
  exact hrooted.set hdirectory fun _ => rfl

/-- A path without steps upward to a directory of a tree passes only directories of the tree, even
where it was followed with more in the tree. -/
theorem Rooted.foldlM_follow
    (hrooted : tree.Rooted) {names : List String} (hup : ".." ∉ names)
    {start location : Location}
    (hfollow : names.foldlM tree'.follow start = .ok location)
    (hdirectory : tree.node? location = some .directory) :
    names.foldlM tree.follow start = .ok location := by
  induction names using List.reverseRecOn generalizing location with
  | nil => exact hfollow
  | append_singleton names name ih =>
      simp only [List.foldlM_append, List.foldlM_cons, List.foldlM_nil, bind_eq_ok_iff,
        follow_eq_ok_iff] at hfollow ⊢
      obtain ⟨before, hbefore, after, ⟨_, hname⟩, hafter⟩ := hfollow
      cases hafter
      have hnames : ".." ∉ names := fun hmem => hup (List.mem_append_left _ hmem)
      rcases hname with ⟨rfl, rfl⟩ | ⟨rfl, _⟩ | ⟨hproper, hshort, rfl, _⟩
      · exact ⟨location, ih hnames hbefore hdirectory, location,
          ⟨hdirectory, .inl ⟨rfl, rfl⟩⟩, rfl⟩
      · simp at hup
      · have hsome : (tree.node? (before ++ [name])).isSome := by
          rw [hdirectory]
          rfl
        have habove := hrooted before name hsome
        exact ⟨before, ih hnames hbefore habove, before ++ [name],
          ⟨habove, .inr (.inr ⟨hproper, hshort, rfl, hsome⟩)⟩, rfl⟩

/-- Where a path would write over something, with more in the tree, it would do so at once, if it
takes no step upward. -/
theorem Rooted.locateNew
    (hrooted : tree.Rooted) (hup : ".." ∉ (PathParts.ofText path).parts)
    {directory : Location} {name : String}
    (hnew : tree'.locateNew working path = .ok (directory, some name))
    (hsome : (tree.node? (directory ++ [name])).isSome) :
    tree.locateNew working path = .ok (directory, some name) := by
  obtain ⟨parts, hparts, hdirectory, _, hlast⟩ := locateNew_eq_ok_iff.mp hnew
  have habove := hrooted directory name hsome
  rw [← eq_ofText_of_partsOf hparts] at hup
  have hfollow : tree.followAll working parts.absolute parts.parts.dropLast = .ok directory :=
    hrooted.foldlM_follow (fun hmem => hup (List.dropLast_subset _ hmem)) hdirectory habove
  exact locateNew_eq_ok_iff.mpr ⟨parts, hparts, hfollow, habove, hlast⟩

/-- A file that is written after directories were made does not replace a file that was there before,
if the path was free, and its directory was there before or the path takes no step upward. -/
theorem Rooted.extends_of_writeFile
    {made written : FileTree} {content : Bytes} (hrooted : tree.Rooted)
    (hplace : (∃ place, tree.locateNew working path = .ok place) ∨
      ".." ∉ (PathParts.ofText path).parts)
    (hfree : tree.pathExists working path = false) (hmade : tree.Extends made)
    (hwritten : made.writeFile working path content = .ok written) : tree.Extends written := by
  obtain ⟨directory, name, hnew, hproper, hslash, hshort, hnot, rfl⟩ :=
    writeFile_eq_ok_iff.mp hwritten
  have hroot : directory ++ [name] ≠ [] := List.append_ne_nil_of_right_ne_nil _ (by simp)
  intro location node hnode
  rw [node?_set hroot, if_neg]
  · exact hmade location node hnode
  · -- had it been there, the path would have led to it from the first
    rintro rfl
    have hsome : (tree.node? (directory ++ [name])).isSome :=
      Option.isSome_iff_exists.mpr ⟨node, hnode⟩
    have hbefore : tree.locateNew working path = .ok (directory, some name) := by
      rcases hplace with ⟨place, hplace⟩ | hup
      · rw [hplace]
        exact (hmade.admits.locateNew hplace).symm.trans hnew
      · exact hrooted.locateNew hup hnew hsome
    have hlocate := locate_eq_ok_of_locateNew hbefore hproper hslash hshort hsome
    rw [pathExists, hlocate] at hfree
    cases hfree

end FileTree

end WitnessedLog
