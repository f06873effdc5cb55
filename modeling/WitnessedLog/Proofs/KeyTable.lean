import Mathlib.Data.List.Find
import WitnessedLog.KeyTable

/-!
# Entries of a table

The keys of a table are strictly ascending, so no two entries have the same key.  A table is
therefore made by filing its entries one by one, and the order in which they are filed does not
matter.
-/

namespace WitnessedLog

theorem Octets.nodup_of_pairwise_lt
    {role : Role} {values : List (Octets role)}
    (h : values.Pairwise (· < ·)) : values.Nodup := by
  refine h.imp ?_
  rintro a b hlt rfl
  exact Octets.lt_irrefl a hlt

namespace KeyTable

variable {α : Type}

theorem contains_iff_mem_keys
    {table : KeyTable α} {key : KeyHash} :
    table.contains key = true ↔ key ∈ table.keys := by
  rw [contains, get?, Option.isSome_map, List.find?_isSome, keys]
  simp only [decide_eq_true_eq, List.mem_map]

theorem nodup_keys (table : KeyTable α) : table.keys.Nodup :=
  Octets.nodup_of_pairwise_lt (List.pairwise_map.mpr table.ascending)

/-! ## Filing entries one by one -/

theorem place_perm
    {key : KeyHash} {list : List (KeyHash × α)}
    (h : key ∉ list.map Prod.fst) (value : α) :
    (place key value list).Perm ((key, value) :: list) := by
  induction list with
  | nil => exact List.Perm.refl _
  | cons first rest ih =>
      rw [List.map_cons, List.mem_cons, not_or] at h
      obtain ⟨hfirst, hrest⟩ := h
      rw [place]
      split
      · exact List.Perm.refl _
      · split
        · exact ((ih hrest).cons first).trans (List.Perm.swap _ _ _)
        · rename_i hlt hgt
          rcases Octets.lt_or_eq_or_gt key first.1 with h | h | h
          · exact absurd h hlt
          · exact absurd h hfirst
          · exact absurd h hgt

/-- What is filed under a new key is one more entry. -/
theorem entries_insert_perm
    {table : KeyTable α} {key : KeyHash}
    (h : table.contains key = false) (value : α) :
    (table.insert key value).entries.Perm ((key, value) :: table.entries) := by
  apply place_perm
  intro hmem
  rw [contains_iff_mem_keys.mpr hmem] at h
  cases h

theorem get?_foldl_insert
    {entries : List (KeyHash × α)}
    (h : (entries.map Prod.fst).Nodup) (table : KeyTable α) (key : KeyHash) :
    (entries.foldl (fun table entry => table.insert entry.1 entry.2) table).get? key =
      ((entries.find? fun entry => entry.1 = key).map Prod.snd).or (table.get? key) := by
  induction entries generalizing table with
  | nil => rfl
  | cons entry entries ih =>
      obtain ⟨hother, hnodup⟩ := List.nodup_cons.mp h
      rw [List.foldl_cons, ih hnodup, get?_insert, List.find?_cons]
      by_cases hkey : entry.1 = key
      · have hnone : (entries.find? fun other => other.1 = key) = none := by
          rw [List.find?_eq_none]
          intro other hmem heq
          exact hother (hkey.trans (of_decide_eq_true heq).symm ▸ List.mem_map_of_mem hmem)
        simp [hkey, hnone]
      · simp [hkey, Ne.symm hkey]

/-- A table is made by filing its entries one by one. -/
theorem foldl_insert_entries (table : KeyTable α) :
    table.entries.foldl (fun table entry => table.insert entry.1 entry.2) empty = table := by
  apply ext_get?
  intro key
  rw [get?_foldl_insert table.nodup_keys, get?_empty, Option.or_none]
  rfl

/-- Entries with different keys may be filed in either order. -/
theorem insert_comm
    {key key' : KeyHash}
    (h : key ≠ key') (table : KeyTable α) (value value' : α) :
    (table.insert key value).insert key' value' = (table.insert key' value').insert key value := by
  apply ext_get?
  intro other
  simp only [get?_insert]
  by_cases hkey : other = key
  · simp [hkey, h]
  · simp [hkey]

end KeyTable

end WitnessedLog
