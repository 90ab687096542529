import Std.Data.ExtTreeMap
import Concordance.Proofs.Sequences

/-!
# Tables from their entries

A stored table is a list of its entries. Put in one after the other they give the table
back, in whatever order they are stored. Where a key comes twice the later entry counts,
and each value that is found is still that of an entry.
-/

namespace Concordance.Table

open Sequences

section
variable {κ ν : Type} [Ord κ] [Std.TransOrd κ] [Std.LawfulEqOrd κ]
  {table : Std.ExtTreeMap κ ν} {entries : List (κ × ν)} {key : κ} {value : ν}

theorem mem_of_getElem?_foldl_insert
    (h : (entries.foldl (fun table (key, value) => table.insert key value) table)[key]? =
      some value) : (key, value) ∈ entries ∨ table[key]? = some value := by
  induction entries generalizing table with
  | nil => exact .inr h
  | cons entry entries ih =>
      rcases ih h with hm | hget
      · exact .inl (List.mem_cons_of_mem _ hm)
      · rw [Std.ExtTreeMap.getElem?_insert] at hget
        split at hget
        · next heq =>
            cases hget
            rw [← Std.compare_eq_iff_eq.1 heq]
            exact .inl (List.mem_cons_self ..)
        · exact .inr hget

theorem getElem?_foldl_insert_of_notMem (h : key ∉ entries.map (·.1)) :
    (entries.foldl (fun table (key, value) => table.insert key value) table)[key]? =
      table[key]? := by
  induction entries generalizing table with
  | nil => rfl
  | cons entry entries ih =>
      rw [List.map_cons, List.mem_cons, not_or] at h
      rw [List.foldl_cons, ih h.2, Std.ExtTreeMap.getElem?_insert,
        if_neg fun heq => h.1 (Std.compare_eq_iff_eq.1 heq).symm]

/-- Where no key comes twice every entry is found. -/
theorem getElem?_foldl_insert_of_mem (hnodup : (entries.map (·.1)).Nodup)
    (h : (key, value) ∈ entries) :
    (entries.foldl (fun table (key, value) => table.insert key value) table)[key]? =
      some value := by
  induction entries generalizing table with
  | nil => cases h
  | cons entry entries ih =>
      rw [List.map_cons, List.nodup_cons] at hnodup
      rcases List.mem_cons.1 h with rfl | hm
      · rw [List.foldl_cons, getElem?_foldl_insert_of_notMem hnodup.1,
          Std.ExtTreeMap.getElem?_insert_self]
      · exact ih hnodup.2 hm

/-- The entries of a table give the table back. -/
theorem foldl_insert_of_perm_toList (h : entries.Perm table.toList) :
    entries.foldl (fun table (key, value) => table.insert key value) ∅ = table := by
  have hnodup : (entries.map (·.1)).Nodup := by
    apply (h.map _).nodup_iff.2
    rw [Std.ExtTreeMap.map_fst_toList_eq_keys]
    exact Std.ExtTreeMap.nodup_keys
  apply Std.ExtTreeMap.ext_getElem?
  intro key
  apply Option.ext
  intro value
  rw [← Std.ExtTreeMap.mem_toList_iff_getElem?_eq_some (t := table), ← h.mem_iff]
  constructor
  · intro hget
    rcases mem_of_getElem?_foldl_insert hget with hm | hempty
    · exact hm
    · rw [Std.ExtTreeMap.getElem?_empty] at hempty
      cases hempty
  · exact getElem?_foldl_insert_of_mem hnodup

end

/-- A table of as many keys as there are numbers below a bound, all of them below it, has each
of these numbers as a key. -/
theorem mem_of_size_eq {ν : Type} {table : Std.ExtTreeMap UInt32 ν} {bound key : UInt32}
    (hsize : table.size = bound.toNat) (hbelow : ∀ other ∈ table, other < bound)
    (hkey : key < bound) : key ∈ table := by
  by_contra hnot
  have hnodup : (key :: table.keys).Nodup :=
    List.nodup_cons.2 ⟨mt Std.ExtTreeMap.mem_keys.1 hnot, Std.ExtTreeMap.nodup_keys⟩
  have hlt : ∀ other ∈ key :: table.keys, other.toNat < bound.toNat := by
    intro other hm
    rcases List.mem_cons.1 hm with rfl | hm
    · exact UInt32.lt_iff_toNat_lt.1 hkey
    · exact UInt32.lt_iff_toNat_lt.1 (hbelow other (Std.ExtTreeMap.mem_keys.1 hm))
  have hle := length_le_of_nodup hnodup hlt
  rw [List.length_cons, Std.ExtTreeMap.length_keys, hsize] at hle
  omega

end Concordance.Table
