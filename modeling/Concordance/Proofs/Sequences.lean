import Mathlib.Data.List.Forall2
import Mathlib.Data.List.Perm.Subperm
import Mathlib.Data.List.TakeWhile

/-!
# Lists side by side, lists cut off and lists in groups

What the development needs to know of two lists whose entries stand beside each other,
of a list without its first entries, and of a list whose entries are grouped by a key.
-/

namespace Concordance.Sequences

open scoped List

variable {α β : Type}

/-- What stands beside an entry of the first of two lists. -/
theorem exists_beside {R : α → β → Prop} {xs : List α} {ys : List β}
    (h : List.Forall₂ R xs ys) {x : α} (hx : x ∈ xs) : ∃ y ∈ ys, R x y := by
  induction h with
  | nil => cases hx
  | cons hp _ ih =>
      rcases List.mem_cons.1 hx with rfl | hx
      · exact ⟨_, List.mem_cons_self .., hp⟩
      · obtain ⟨y, hy, hxy⟩ := ih hx
        exact ⟨y, List.mem_cons_of_mem _ hy, hxy⟩

theorem exists_getElem?_beside {R : α → β → Prop} {xs : List α} {ys : List β}
    (h : List.Forall₂ R xs ys) {i : Nat} {x : α} (hx : xs[i]? = some x) :
    ∃ y, ys[i]? = some y ∧ R x y := by
  induction h generalizing i with
  | nil => cases hx
  | cons hp _ ih =>
      cases i with
      | zero =>
          cases hx
          exact ⟨_, rfl, hp⟩
      | succ i => exact ih hx

/-- What is said of each entry of a list and its number, said of the first entry and the others. -/
theorem forall_getElem?_cons_iff {p : Nat → α → Prop} {x : α} {xs : List α} :
    (∀ i y, (x :: xs)[i]? = some y → p i y) ↔ p 0 x ∧ ∀ i y, xs[i]? = some y → p (i + 1) y := by
  constructor
  · intro h
    exact ⟨h 0 x rfl, fun i y hy => h (i + 1) y hy⟩
  · rintro ⟨hfirst, hrest⟩ i y hy
    cases i with
    | zero =>
        cases hy
        exact hfirst
    | succ i => exact hrest i y hy

theorem exists_getElem?_cons_iff {p : Nat → α → Prop} {x : α} {xs : List α} :
    (∃ i y, (x :: xs)[i]? = some y ∧ p i y) ↔ p 0 x ∨ ∃ i y, xs[i]? = some y ∧ p (i + 1) y := by
  constructor
  · rintro ⟨i, y, hy, hp⟩
    cases i with
    | zero =>
        cases hy
        exact .inl hp
    | succ i => exact .inr ⟨i, y, hy, hp⟩
  · rintro (hp | ⟨i, y, hy, hp⟩)
    · exact ⟨0, x, rfl, hp⟩
    · exact ⟨i + 1, y, hy, hp⟩

/-- Something stands beside each entry of a list if there is something for each of them. -/
theorem exists_forall₂ {R : α → β → Prop} {xs : List α} (h : ∀ x ∈ xs, ∃ y, R x y) :
    ∃ ys, List.Forall₂ R xs ys := by
  induction xs with
  | nil => exact ⟨[], .nil⟩
  | cons x xs ih =>
      rw [List.forall_mem_cons] at h
      obtain ⟨y, hy⟩ := h.1
      obtain ⟨ys, hys⟩ := ih h.2
      exact ⟨y :: ys, .cons hy hys⟩

theorem ne_nil_of_forall₂ {R : α → β → Prop} {xs : List α} {ys : List β}
    (h : List.Forall₂ R xs ys) : xs ≠ [] ↔ ys ≠ [] := by
  rw [← List.length_pos_iff, h.length_eq, List.length_pos_iff]

/-- Two lists beside a third stand beside each other. -/
theorem forall₂_beside {γ : Type} {R : α → γ → Prop} {S : β → γ → Prop} {T : α → β → Prop}
    {xs : List α} {ys : List β} {zs : List γ} (h : List.Forall₂ R xs zs)
    (h' : List.Forall₂ S ys zs) (hT : ∀ x y z, R x z → S y z → T x y) : List.Forall₂ T xs ys := by
  induction h generalizing ys with
  | nil =>
      cases h'
      exact .nil
  | cons hx _ ih =>
      cases h' with
      | cons hy hrest => exact .cons (hT _ _ _ hx hy) (ih hrest)

/-- A list is a function of another, all of whose entries have a property. -/
theorem forall₂_eq_map_iff {p : α → Prop} {f : α → β} {xs : List α} {ys : List β} :
    List.Forall₂ (fun x y => p x ∧ y = f x) xs ys ↔ (∀ x ∈ xs, p x) ∧ ys = xs.map f := by
  rw [List.forall₂_and_left]
  apply and_congr_right
  intro _
  rw [eq_comm (a := ys), ← List.forall₂_eq_eq_eq, List.forall₂_map_left_iff]
  simp only [eq_comm]

/-- There are no more numbers below a bound than the bound says. -/
theorem length_le_of_nodup {xs : List UInt32} {bound : Nat} (h : xs.Nodup)
    (hlt : ∀ x ∈ xs, x.toNat < bound) : xs.length ≤ bound := by
  have hnodup : (xs.map UInt32.toNat).Nodup :=
    List.pairwise_map.2 (h.imp fun hne heq => hne (UInt32.toNat_inj.1 heq))
  have hsub : xs.map UInt32.toNat ⊆ List.range bound := by
    intro number hm
    obtain ⟨x, hx, rfl⟩ := List.mem_map.1 hm
    exact List.mem_range.2 (hlt x hx)
  have hle := (List.subperm_of_subset hnodup hsub).length_le
  rwa [List.length_map, List.length_range] at hle

/-- An entry of a list with one more at its end is there already or the one more. -/
theorem getElem?_concat_eq_some_iff {xs : List α} {x y : α} {i : Nat} :
    (xs ++ [x])[i]? = some y ↔ xs[i]? = some y ∨ i = xs.length ∧ x = y := by
  by_cases hi : i < xs.length
  · rw [List.getElem?_append_left hi]
    simp [Nat.ne_of_lt hi]
  · rw [List.getElem?_append_right (by omega), List.getElem?_eq_none (l := xs) (by omega),
      List.getElem?_singleton]
    have : i - xs.length = 0 ↔ i = xs.length := by omega
    simp [this]

theorem dropWhile_eq_drop {p : α → Bool} {xs : List α} (count : Nat)
    (hbelow : ∀ i x, i < count → xs[i]? = some x → p x = true)
    (hreached : ∀ x, xs[count]? = some x → p x = false) : xs.dropWhile p = xs.drop count := by
  induction count generalizing xs with
  | zero =>
      cases xs with
      | nil => rfl
      | cons x xs => rw [List.dropWhile_cons_of_neg (by simp [hreached x rfl]), List.drop_zero]
  | succ count ih =>
      cases xs with
      | nil => rfl
      | cons x xs =>
          rw [List.dropWhile_cons_of_pos (hbelow 0 x (by omega) rfl), List.drop_succ_cons]
          exact ih (fun i y hi hy => hbelow (i + 1) y (by omega) hy) hreached

theorem mem_dropWhile_of_not {p : α → Bool} {x : α} {xs : List α} (hx : x ∈ xs)
    (hp : p x = false) : x ∈ xs.dropWhile p := by
  rw [← List.takeWhile_append_dropWhile (p := p) (l := xs), List.mem_append] at hx
  rcases hx with hx | hx
  · have := List.mem_takeWhile_imp hx
    rw [hp] at this
    cases this
  · exact hx

/-- Where a function gives something for each entry, it keeps the places of the entries. -/
theorem getElem?_filterMap_of_forall {f : α → Option β} {xs : List α}
    (h : ∀ x ∈ xs, (f x).isSome = true) (i : Nat) : (xs.filterMap f)[i]? = xs[i]?.bind f := by
  induction xs generalizing i with
  | nil => rfl
  | cons x xs ih =>
      rw [List.forall_mem_cons] at h
      obtain ⟨y, hy⟩ := Option.isSome_iff_exists.1 h.1
      rw [List.filterMap_cons_some hy]
      cases i with
      | zero => simp [hy]
      | succ i => simpa using ih h.2 i

/-- What is in order, and ahead of all that is left out, are the first of all when sorted. -/
theorem eq_take_mergeSort {le : α → α → Bool}
    (htotal : ∀ a b, (le a b || le b a) = true)
    (htrans : ∀ a b c, le a b = true → le b c = true → le a c = true)
    (hantisymm : ∀ a b, le a b = true → le b a = true → a = b) {kept dropped all : List α}
    {count : Nat} (hperm : (kept ++ dropped).Perm all)
    (hlength : kept.length = min count all.length)
    (hkept : kept.Pairwise fun a b => le a b = true)
    (hahead : ∀ a ∈ kept, ∀ b ∈ dropped, le a b = true) :
    kept = (all.mergeSort le).take count := by
  have hrest := List.mergeSort_perm dropped le
  have hsorted : (kept ++ dropped.mergeSort le).Pairwise fun a b => le a b = true := by
    rw [List.pairwise_append]
    refine ⟨hkept, List.pairwise_mergeSort htrans htotal dropped, ?_⟩
    intro a ha b hb
    exact hahead a ha b (hrest.mem_iff.1 hb)
  have hall : kept ++ dropped.mergeSort le = all.mergeSort le := by
    apply List.Perm.eq_of_pairwise (fun a b _ _ => hantisymm a b) hsorted
      (List.pairwise_mergeSort htrans htotal all)
    calc
      _ ~ kept ++ dropped := hrest.append_left kept
      _ ~ all := hperm
      _ ~ all.mergeSort le := (List.mergeSort_perm all le).symm
  have hsize := hperm.length_eq
  rw [List.length_append] at hsize
  rw [← hall]
  by_cases hcount : count ≤ all.length
  · rw [Nat.min_eq_left hcount] at hlength
    rw [← hlength, List.take_left]
  · have hnone : dropped = [] := List.length_eq_zero_iff.1 (by omega)
    rw [hnone, List.mergeSort_nil, List.append_nil, List.take_of_length_le (by omega)]

/-- Of entries in the order of their keys, the first with a property is the one with the least key. -/
theorem find?_eq_some_iff_least {found : List (UInt32 × α)} {p : UInt32 × α → Bool}
    {entry : UInt32 × α} (h : found.Pairwise fun a b => a.1 < b.1) :
    found.find? p = some entry ↔
      entry ∈ found ∧ p entry = true ∧ ∀ other ∈ found, p other = true → entry.1 ≤ other.1 := by
  rw [List.find?_eq_some_iff_append]
  constructor
  · rintro ⟨hp, before, after, rfl, hbefore⟩
    obtain ⟨hafter, -⟩ := List.pairwise_cons.1 (List.pairwise_append.1 h).2.1
    refine ⟨List.mem_append_right _ (List.mem_cons_self ..), hp, ?_⟩
    intro other hm hother
    rw [List.mem_append, List.mem_cons] at hm
    rcases hm with hm | rfl | hm
    · exact absurd hother (by simpa using hbefore other hm)
    · exact UInt32.le_refl _
    · exact UInt32.le_of_lt (hafter other hm)
  · rintro ⟨hm, hp, hleast⟩
    obtain ⟨before, after, rfl⟩ := List.append_of_mem hm
    refine ⟨hp, before, after, rfl, ?_⟩
    intro other hother
    have hlt : other.1 < entry.1 :=
      (List.pairwise_append.1 h).2.2 other hother entry (List.mem_cons_self ..)
    rw [Bool.not_eq_true', Bool.eq_false_iff]
    intro hp
    exact UInt32.not_le.2 hlt (hleast other (List.mem_append_left _ hother) hp)

/-- Entries grouped by their keys are all those with one of the keys. -/
theorem flatMap_filter_perm {κ : Type} [DecidableEq κ] {key : α → κ} {keys : List κ}
    (h : keys.Nodup) (xs : List α) :
    (keys.flatMap fun k => xs.filter (key · = k)) ~ xs.filter (key · ∈ keys) := by
  induction keys with
  | nil => simp
  | cons k keys ih =>
      rw [List.nodup_cons] at h
      have hgroup : (xs.filter (key · ∈ k :: keys)).filter (key · = k) =
          xs.filter (key · = k) := by
        rw [List.filter_filter]
        apply List.filter_congr
        intro x _
        by_cases heq : key x = k <;> simp [heq]
      have hothers : (xs.filter (key · ∈ k :: keys)).filter (fun x => !decide (key x = k)) =
          xs.filter (key · ∈ keys) := by
        rw [List.filter_filter]
        apply List.filter_congr
        intro x _
        by_cases heq : key x = k
        · simp [heq, h.1]
        · simp [heq]
      calc
        _ = xs.filter (key · = k) ++ keys.flatMap fun k => xs.filter (key · = k) :=
          List.flatMap_cons
        _ ~ xs.filter (key · = k) ++ xs.filter (key · ∈ keys) := (ih h.2).append_left _
        _ ~ xs.filter (key · ∈ k :: keys) := by
          rw [← hgroup, ← hothers]
          exact List.filter_append_perm ..

/-- What stays of a list keeps its order. -/
theorem idxOf_lt_of_filter [DecidableEq α] {p : α → Bool} {xs : List α} {a b : α} (ha : p a = true)
    (hb : p b = true) (h : (xs.filter p).idxOf a < (xs.filter p).idxOf b) :
    xs.idxOf a < xs.idxOf b := by
  induction xs with
  | nil => exact h
  | cons x xs ih =>
      by_cases hx : p x = true
      · rw [List.filter_cons_of_pos hx] at h
        simp only [List.idxOf_cons] at h ⊢
        grind
      · rw [List.filter_cons_of_neg hx] at h
        have hlt := ih h
        simp only [List.idxOf_cons]
        grind

/-- The distinct entries of a list are in the order in which they first occur. -/
theorem pairwise_idxOf_eraseDups [DecidableEq α] (xs : List α) :
    xs.eraseDups.Pairwise fun a b => xs.idxOf a < xs.idxOf b := by
  match xs with
  | [] => exact List.Pairwise.nil
  | x :: xs =>
      have hother : ∀ y ∈ (xs.filter fun y => !y == x).eraseDups, x ≠ y := by
        intro y hy
        rw [List.mem_eraseDups, List.mem_filter] at hy
        rintro rfl
        simp at hy
      rw [List.eraseDups_cons, List.pairwise_cons]
      constructor
      · intro y hy
        rw [List.idxOf_cons_self, List.idxOf_cons_ne _ (hother y hy)]
        exact Nat.succ_pos _
      · apply (pairwise_idxOf_eraseDups _).imp_of_mem
        intro a b ha hb hlt
        rw [List.idxOf_cons_ne _ (hother a ha), List.idxOf_cons_ne _ (hother b hb)]
        exact Nat.succ_lt_succ
          (idxOf_lt_of_filter (by simp [(hother a ha).symm]) (by simp [(hother b hb).symm]) hlt)
termination_by xs.length
decreasing_by
  exact Nat.lt_succ_of_le (List.length_filter_le ..)

/-- To change what a function gives for one of the entries is to change it at the entry's place. -/
theorem map_ite_eq_modify [DecidableEq α] {xs : List α} {x : α} (h : xs.Nodup) (hx : x ∈ xs)
    (f : α → β) (g : β → β) :
    (xs.map fun y => if x = y then g (f y) else f y) = (xs.map f).modify (xs.idxOf x) g := by
  apply List.ext_getElem
  · rw [List.length_map, List.length_modify, List.length_map]
  · intro i hi _
    have hlt : i < xs.length := by rwa [List.length_map] at hi
    have hplace : x = xs[i] ↔ xs.idxOf x = i := by
      constructor
      · rintro rfl
        exact h.idxOf_getElem i hlt
      · rintro rfl
        exact (List.getElem_idxOf (List.idxOf_lt_length_iff.2 hx)).symm
    rw [List.getElem_map, List.getElem_modify, List.getElem_map]
    simp only [hplace]

theorem countP_cons_eq {p : α → Bool} {x : α} {xs : List α} :
    (x :: xs).countP p = (p x).toNat + xs.countP p := by
  rw [List.countP_cons, Nat.add_comm]
  cases p x <;> rfl

theorem filterMap_concat (f : α → Option β) (xs : List α) (x : α) :
    (xs ++ [x]).filterMap f = xs.filterMap f ++ (f x).toList := by
  cases h : f x <;> simp [h]

section
variable [DecidableEq α]

theorem length_takeWhile_ne (x : α) (xs : List α) :
    (xs.takeWhile (· ≠ x)).length = xs.idxOf x := by
  induction xs with
  | nil => rfl
  | cons y xs ih =>
      by_cases hy : y = x
      · simp [hy]
      · rw [List.takeWhile_cons_of_pos (by simpa using hy), List.length_cons, ih,
          List.idxOf_cons_ne _ hy]

/-- What stands before an entry is the same without another entry, but for that one. -/
theorem takeWhile_ne_filter {x y : α} (h : x ≠ y) (xs : List α) :
    (xs.filter (· ≠ x)).takeWhile (· ≠ y) = (xs.takeWhile (· ≠ y)).filter (· ≠ x) := by
  rw [List.takeWhile_filter]
  congr 2
  funext z
  by_cases hz : z = x
  · simp [hz, h]
  · simp [hz]

/-- Without one of its entries a list starts with what the others of a longer start are. -/
theorem take_filter_take {xs : List α} (h : xs.Nodup) (x : α) (n : Nat) :
    ((xs.take (n + 1)).filter (· ≠ x)).take n = (xs.filter (· ≠ x)).take n := by
  induction xs generalizing n with
  | nil => simp
  | cons y xs ih =>
      rw [List.nodup_cons] at h
      rw [List.take_succ_cons]
      by_cases hy : y = x
      · have hall (ys : List α) (hys : ys ⊆ xs) : ys.filter (· ≠ x) = ys := by
          rw [List.filter_eq_self]
          intro z hz
          have hne : z ≠ x := fun hzx => h.1 (by rw [hy, ← hzx]; exact hys hz)
          simpa using hne
        rw [List.filter_cons_of_neg (by simpa using hy), List.filter_cons_of_neg (by simpa using hy),
          hall _ (List.take_subset _ _), hall _ (List.Subset.refl _), List.take_take, Nat.min_self]
      · rw [List.filter_cons_of_pos (by simpa using hy), List.filter_cons_of_pos (by simpa using hy)]
        cases n with
        | zero => rfl
        | succ n => rw [List.take_succ_cons, List.take_succ_cons, ih h.2]

end

end Concordance.Sequences
