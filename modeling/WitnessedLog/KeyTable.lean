import WitnessedLog.Octets

/-!
# Tables by key hash

A finite map from key hashes, kept as its list of entries in strictly ascending order of the keys.
The order makes the representation unique: two tables that answer every look-up alike are equal.
-/

namespace WitnessedLog

/-- A finite map from key hashes. -/
structure KeyTable (α : Type) where
  entries : List (KeyHash × α)
  ascending : entries.Pairwise (fun a b => a.1 < b.1)
  deriving DecidableEq

namespace KeyTable

variable {α : Type}

/-- The table without entries. -/
def empty : KeyTable α :=
  ⟨[], List.Pairwise.nil⟩

/-- The value filed under a key hash. -/
def get? (table : KeyTable α) (key : KeyHash) : Option α :=
  (table.entries.find? (fun entry => entry.1 = key)).map Prod.snd

/-- Whether something is filed under a key hash. -/
def contains (table : KeyTable α) (key : KeyHash) : Bool :=
  (table.get? key).isSome

/-- The key hashes of a table, ascending. -/
def keys (table : KeyTable α) : List KeyHash :=
  table.entries.map Prod.fst

/-- The values of a table, in ascending order of their key hashes. -/
def values (table : KeyTable α) : List α :=
  table.entries.map Prod.snd

/-- The number of entries. -/
def size (table : KeyTable α) : Nat :=
  table.entries.length

/-- Put an entry where its key belongs in an ascending list, in place of one with the same key. -/
def place (key : KeyHash) (value : α) : List (KeyHash × α) → List (KeyHash × α)
  | [] => [(key, value)]
  | entry :: rest =>
    if key < entry.1 then (key, value) :: entry :: rest
    else if entry.1 < key then entry :: place key value rest
    else (key, value) :: rest

theorem mem_place
    {key : KeyHash} {value : α} {list : List (KeyHash × α)} {entry : KeyHash × α}
    (h : entry ∈ place key value list) : entry = (key, value) ∨ entry ∈ list := by
  induction list with
  | nil => simpa [place] using h
  | cons first rest ih =>
    unfold place at h
    split at h
    · simpa using h
    · split at h
      · rcases List.mem_cons.mp h with h | h
        · exact Or.inr (by simp [h])
        · exact (ih h).imp id (List.mem_cons_of_mem first)
      · rcases List.mem_cons.mp h with h | h
        · exact Or.inl h
        · exact Or.inr (List.mem_cons_of_mem first h)

theorem pairwise_place
    (key : KeyHash) (value : α) {list : List (KeyHash × α)}
    (h : list.Pairwise (fun a b => a.1 < b.1)) :
    (place key value list).Pairwise (fun a b => a.1 < b.1) := by
  induction list with
  | nil => simp [place]
  | cons first rest ih =>
    obtain ⟨hfirst, hrest⟩ := List.pairwise_cons.mp h
    unfold place
    split
    · rename_i hlt
      refine List.pairwise_cons.mpr ⟨?_, h⟩
      intro entry hentry
      rcases List.mem_cons.mp hentry with rfl | hentry
      · exact hlt
      · exact Octets.lt_trans hlt (hfirst entry hentry)
    · split
      · rename_i hgt
        refine List.pairwise_cons.mpr ⟨?_, ih hrest⟩
        intro entry hentry
        rcases mem_place hentry with rfl | hentry
        · exact hgt
        · exact hfirst entry hentry
      · rename_i hlt hgt
        have hkey : key = first.1 := by
          rcases Octets.lt_or_eq_or_gt key first.1 with h | h | h
          · exact absurd h hlt
          · exact h
          · exact absurd h hgt
        refine List.pairwise_cons.mpr ⟨?_, hrest⟩
        intro entry hentry
        simpa [hkey] using hfirst entry hentry

/-- File a value under a key hash, in place of what was filed there. -/
def insert (table : KeyTable α) (key : KeyHash) (value : α) : KeyTable α :=
  ⟨place key value table.entries, pairwise_place key value table.ascending⟩

@[simp] theorem get?_empty (key : KeyHash) : (empty : KeyTable α).get? key = none := rfl

/-- A pair is an entry exactly when the look-up of its key finds its value. -/
theorem mem_entries_iff
    {table : KeyTable α} {key : KeyHash} {value : α} :
    (key, value) ∈ table.entries ↔ table.get? key = some value := by
  obtain ⟨entries, ascending⟩ := table
  induction entries with
  | nil => simp [get?]
  | cons first rest ih =>
    obtain ⟨hfirst, hrest⟩ := List.pairwise_cons.mp ascending
    have ih := ih hrest
    simp only [get?] at ih
    simp only [get?, List.find?_cons, List.mem_cons]
    by_cases hkey : first.1 = key
    · subst hkey
      have hnot : (first.1, value) ∉ rest := by
        intro hmem
        exact Octets.lt_irrefl first.1 (hfirst (first.1, value) hmem)
      constructor
      · rintro (h | h)
        · simp only [decide_true, Option.map_some, Option.some.injEq]
          rw [← h]
        · exact absurd h hnot
      · intro h
        simp only [decide_true, Option.map_some, Option.some.injEq] at h
        exact Or.inl (by rw [← h])
    · simp only [hkey, decide_false]
      rw [← ih]
      constructor
      · rintro (h | h)
        · exact absurd (by rw [← h]) hkey
        · exact h
      · exact Or.inr

/-- What is found after an insertion. -/
theorem get?_insert
    (table : KeyTable α) (key : KeyHash) (value : α) (other : KeyHash) :
    (table.insert key value).get? other =
      if other = key then some value else table.get? other := by
  obtain ⟨entries, ascending⟩ := table
  induction entries with
  | nil =>
    simp only [insert, place, get?, List.find?_cons, List.find?_nil]
    by_cases h : key = other
    · simp [h]
    · simp [h, Ne.symm h]
  | cons first rest ih =>
    obtain ⟨hfirst, hrest⟩ := List.pairwise_cons.mp ascending
    have ih := ih hrest
    simp only [insert, get?] at ih
    simp only [insert, get?, place]
    by_cases hlt : key < first.1
    · simp only [hlt, if_true, List.find?_cons]
      by_cases h : key = other
      · simp [h]
      · simp [h, Ne.symm h]
    · by_cases hgt : first.1 < key
      · simp only [hlt, hgt, if_true, if_false, List.find?_cons]
        by_cases h : first.1 = other
        · have hne : other ≠ key := by
            rintro rfl
            exact Octets.lt_irrefl _ (h ▸ hgt)
          simp [h, hne]
        · simpa [h] using ih
      · have hkey : key = first.1 := by
          rcases Octets.lt_or_eq_or_gt key first.1 with h | h | h
          · exact absurd h hlt
          · exact h
          · exact absurd h hgt
        simp only [hlt, hgt, if_false, List.find?_cons]
        by_cases h : key = other
        · simp [h]
        · simp [h, Ne.symm h, ← hkey]

/-- Tables that answer every look-up alike are equal. -/
theorem ext_get?
    {s t : KeyTable α}
    (h : ∀ key, s.get? key = t.get? key) : s = t := by
  have hmem : ∀ entry, entry ∈ s.entries ↔ entry ∈ t.entries := by
    rintro ⟨key, value⟩
    rw [mem_entries_iff, mem_entries_iff, h]
  obtain ⟨xs, hxs⟩ := s
  obtain ⟨ys, hys⟩ := t
  congr
  simp only at hmem
  clear h
  induction xs generalizing ys with
  | nil =>
    cases ys with
    | nil => rfl
    | cons y ys => exact absurd ((hmem y).mpr (by simp)) (by simp)
  | cons x xs ih =>
    cases ys with
    | nil => exact absurd ((hmem x).mp (by simp)) (by simp)
    | cons y ys =>
      obtain ⟨hx, hxs⟩ := List.pairwise_cons.mp hxs
      obtain ⟨hy, hys'⟩ := List.pairwise_cons.mp hys
      have hxy : x = y := by
        rcases List.mem_cons.mp ((hmem x).mp (by simp)) with h | h
        · exact h
        · rcases List.mem_cons.mp ((hmem y).mpr (by simp)) with h' | h'
          · exact h'.symm
          · exact absurd (hx y h') (Octets.lt_asymm (hy x h))
      subst hxy
      have hrest : ∀ entry, entry ∈ xs ↔ entry ∈ ys := by
        intro entry
        constructor
        · intro h
          rcases List.mem_cons.mp ((hmem entry).mp (List.mem_cons_of_mem x h)) with h' | h'
          · exact absurd (h' ▸ hx entry h) (Octets.lt_irrefl _)
          · exact h'
        · intro h
          rcases List.mem_cons.mp ((hmem entry).mpr (List.mem_cons_of_mem x h)) with h' | h'
          · exact absurd (h' ▸ hy entry h) (Octets.lt_irrefl _)
          · exact h'
      rw [ih hxs ys hys' hrest]

end KeyTable

end WitnessedLog
