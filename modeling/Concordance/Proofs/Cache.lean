import Concordance.Cache

/-!
# Caches give what was put

Whatever is true of each value and its key when it is put is true when it is found.
-/

namespace Concordance.Cache
variable {κ ν : Type} {cache next : Cache κ ν} {key : κ} {value : ν} {p : κ → ν → Prop}

/-- This is true of all values kept. -/
def Sound (cache : Cache κ ν) (p : κ → ν → Prop) : Prop :=
  ∀ entry ∈ cache.entries, p entry.1 entry.2

/-- A cache is made where there is room for it, and then it is empty. -/
theorem allocate_eq_ok_iff {room : Room} {capacity : Nat} :
    allocate room capacity = .ok cache ↔
      room capacity = .ok () ∧ cache = ofCapacity capacity := by
  rw [allocate]
  cases room capacity with
  | error fault => exact ⟨nofun, nofun⟩
  | ok _ => exact ⟨fun h => ⟨rfl, (Except.ok.inj h).symm⟩, fun h => congrArg Except.ok h.2.symm⟩

theorem sound_of_allocate {room : Room} {capacity : Nat}
    (h : allocate room capacity = .ok cache) : cache.Sound p := by
  rw [(allocate_eq_ok_iff.1 h).2]
  exact nofun

theorem sound_clear (cache : Cache κ ν) : cache.clear.Sound p := nofun

variable [DecidableEq κ]

theorem map_fst_others (cache : Cache κ ν) (key : κ) :
    (cache.others key).map (·.1) = (cache.entries.map (·.1)).filter (· ≠ key) := by
  rw [List.filter_map]
  rfl

/-- A key is found with the value that is kept, and comes to the front, or none is kept. -/
theorem get_cases (cache : Cache κ ν) (key : κ) :
    (∃ value, (key, value) ∈ cache.entries ∧ cache.get key = (some value,
        { cache with entries := (key, value) :: cache.others key, hits := cache.hits + 1 })) ∨
      key ∉ cache.entries.map (·.1) ∧
        cache.get key = (none, { cache with misses := cache.misses + 1 }) := by
  rw [get]
  split
  · next found value hfind =>
      have hkey : found = key := by simpa using List.find?_some hfind
      exact .inl ⟨value, hkey ▸ List.mem_of_find?_eq_some hfind, rfl⟩
  · next hfind =>
      refine .inr ⟨?_, rfl⟩
      intro hm
      obtain ⟨entry, hentry, hkey⟩ := List.mem_map.1 hm
      have hne := List.find?_eq_none.1 hfind entry hentry
      simp [hkey] at hne

theorem Sound.others (h : cache.Sound p) : ∀ entry ∈ cache.others key, p entry.1 entry.2 :=
  fun entry hm => h entry (List.mem_filter.1 hm).1

theorem Sound.put (h : cache.Sound p) (hp : p key value) : (cache.put key value).Sound p := by
  intro entry hm
  rcases List.mem_cons.1 hm with rfl | hm
  · exact hp
  · exact h.others entry ((List.take_sublist ..).subset hm)

/-- What is found was put, and stays. -/
theorem Sound.of_get (h : cache.Sound p) (hget : cache.get key = (some value, next)) :
    p key value ∧ next.Sound p := by
  obtain ⟨found, hm, hfound⟩ | ⟨-, hnone⟩ := cache.get_cases key
  · rw [hfound] at hget
    cases hget
    have hp := h _ hm
    refine ⟨hp, ?_⟩
    intro entry hm
    rcases List.mem_cons.1 hm with rfl | hm
    · exact hp
    · exact h.others entry hm
  · rw [hnone] at hget
    cases hget

theorem Sound.of_get_none (h : cache.Sound p) (hget : cache.get key = (none, next)) :
    next.Sound p := by
  obtain ⟨found, -, hfound⟩ | ⟨-, hnone⟩ := cache.get_cases key
  · rw [hfound] at hget
    cases hget
  · rw [hnone] at hget
    cases hget
    exact h

end Concordance.Cache
