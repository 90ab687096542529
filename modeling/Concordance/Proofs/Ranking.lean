import Concordance.Ranking
import Mathlib.Data.List.Forall2

/-!
# A ranking keeps its entries

The heap only exchanges entries, so that a ranking with room for all entries gives
each of them once. Nothing is asked of the two relations, and nothing but the relations
is asked of the entries: those that compare alike are ranked alike.
-/

namespace Concordance.Ranking
variable {α : Type} (ahead beats : α → α → Bool)

theorem rise_perm (heap : Array α) (place : Nat) : (rise ahead heap place).Perm heap := by
  fun_induction rise ahead heap place with
  | case1 => exact .rfl
  | case2 heap place hplace parent hahead ih => exact ih.trans (Array.swap_perm ..)
  | case3 => exact .rfl

theorem push_perm (heap : Array α) (entry : α) :
    (push ahead heap entry).Perm (heap.push entry) :=
  rise_perm ahead _ _

theorem sinkToLeaf_perm (heap : Array α) (place : Nat) :
    (sinkToLeaf ahead heap place).1.Perm heap := by
  fun_induction sinkToLeaf ahead heap place with
  | case1 heap place child hchild hahead ih => exact ih.trans (Array.swap_perm ..)
  | case2 heap place child hchild hahead ih => exact ih.trans (Array.swap_perm ..)
  | case3 => exact Array.swap_perm ..
  | case4 => exact .rfl

/-- Removing the root leaves all other entries. -/
theorem dropRoot_perm {heap : Array α} (hpos : 0 < heap.size) :
    (heap[0] :: (dropRoot ahead heap).toList).Perm heap.toList := by
  cases hback : heap.back? with
  | none =>
      rw [Array.back?_eq_none_iff] at hback
      subst hback
      exact absurd hpos (Nat.lt_irrefl 0)
  | some last =>
      obtain ⟨rest, rfl⟩ := Array.back?_eq_some_iff.1 hback
      rw [dropRoot, hback]
      simp only [Array.pop_push]
      split
      · next hrest =>
          have hperm := (rise_perm ahead (sinkToLeaf ahead (rest.set 0 last) 0).1
            (sinkToLeaf ahead (rest.set 0 last) 0).2).trans (sinkToLeaf_perm ahead _ 0)
          obtain ⟨root, others, hlist⟩ := List.exists_cons_of_ne_nil
            (List.ne_nil_of_length_pos (l := rest.toList) hrest)
          have hroot : (rest.push last)[0] = root := by
            rw [Array.getElem_push_lt hrest, ← Array.getElem_toList]
            simp only [hlist, List.getElem_cons_zero]
          have hset : (rest.set 0 last).toList = last :: others := by
            rw [Array.toList_set, hlist, List.set_cons_zero]
          rw [hroot, Array.toList_push, hlist, List.cons_append]
          apply List.Perm.cons
          exact (hset ▸ hperm.toList).trans (List.perm_append_singleton last others).symm
      · next hrest =>
          have hnil : rest = #[] := Array.eq_empty_of_size_eq_zero (by omega)
          subst hnil
          exact .rfl

theorem sink_perm (heap : Array α) (stop place : Nat) :
    (sink ahead heap stop place).Perm heap := by
  fun_induction sink ahead heap stop place with
  | case1 => exact .rfl
  | case2 heap place child hchild hahead hplace ih => exact ih.trans (Array.swap_perm ..)
  | case3 => exact .rfl
  | case4 heap place child hchild hahead hplace ih => exact ih.trans (Array.swap_perm ..)
  | case5 => exact .rfl
  | case6 => exact Array.swap_perm ..
  | case7 => exact .rfl

theorem sortHeap_perm (stop : Nat) (heap : Array α) :
    (sortHeap ahead stop heap).Perm heap := by
  fun_induction sortHeap ahead stop heap with
  | case1 => exact .rfl
  | case2 heap stop hstop ih => exact ih.trans ((sink_perm ..).trans (Array.swap_perm ..))
  | case3 => exact .rfl

/-- Offers to a heap with room for all of them only add. -/
theorem foldl_offer_perm {count : Nat} {heap : Array α} {entries : List α}
    (h : heap.size + entries.length ≤ count) :
    (entries.foldl (offer ahead beats count) heap).toList.Perm (heap.toList ++ entries) := by
  induction entries generalizing heap with
  | nil => simp
  | cons entry entries ih =>
      rw [List.length_cons] at h
      have hpush := push_perm ahead heap entry
      have hsize : (push ahead heap entry).size = heap.size + 1 := by
        rw [hpush.size_eq, Array.size_push]
      rw [List.foldl_cons, offer, if_pos (by omega)]
      refine (ih (by omega)).trans ?_
      have hlist := hpush.toList
      rw [Array.toList_push] at hlist
      simpa using hlist.append_right entries

theorem mem_of_mem_offer {count : Nat} {heap : Array α} {entry other : α}
    (h : other ∈ offer ahead beats count heap entry) : other ∈ heap ∨ other = entry := by
  rw [offer] at h
  split at h
  · exact Array.mem_push.1 ((push_perm ahead heap entry).mem_iff.1 h)
  · split at h
    · next hpos =>
        split at h
        · rcases Array.mem_push.1 ((push_perm ahead _ entry).mem_iff.1 h) with hm | heq
          · have hrest := List.mem_cons_of_mem heap[0] (Array.mem_toList_iff.2 hm)
            exact .inl (Array.mem_toList_iff.1 ((dropRoot_perm ahead hpos).mem_iff.1 hrest))
          · exact .inr heq
        · exact .inl h
    · exact .inl h

theorem mem_of_mem_foldl_offer {count : Nat} {heap : Array α} {entries : List α} {entry : α}
    (h : entry ∈ entries.foldl (offer ahead beats count) heap) : entry ∈ heap ∨ entry ∈ entries := by
  induction entries generalizing heap with
  | nil => exact .inl h
  | cons first entries ih =>
      rcases ih h with hm | hm
      · rcases mem_of_mem_offer ahead beats hm with hm | rfl
        · exact .inl hm
        · exact .inr (List.mem_cons_self ..)
      · exact .inr (List.mem_cons_of_mem _ hm)

/-- A ranking gives none but its entries. -/
theorem mem_of_mem_best {count : Nat} {entries : List α} {entry : α}
    (h : entry ∈ best ahead beats count entries) : entry ∈ entries := by
  rw [best, Array.mem_toList_iff, (sortHeap_perm ..).mem_iff] at h
  rcases mem_of_mem_foldl_offer ahead beats h with hm | hm
  · exact absurd hm (Array.not_mem_empty _)
  · exact hm

/-- Without room a ranking gives nothing. -/
theorem best_zero (entries : List α) : best ahead beats 0 entries = [] := by
  have hheap : entries.foldl (offer ahead beats 0) #[] = #[] := by
    induction entries with
    | nil => rfl
    | cons entry entries ih => exact ih
  rw [best, hheap]
  rfl

/-- A ranking with room for all entries gives each of them once. -/
theorem best_perm {count : Nat} {entries : List α} (h : entries.length ≤ count) :
    (best ahead beats count entries).Perm entries := by
  have hroom : (#[] : Array α).size + entries.length ≤ count := by simpa using h
  have hheap := foldl_offer_perm ahead beats hroom
  exact (sortHeap_perm ahead _ _).toList.trans hheap

/-! The entries are looked at through the two relations alone. -/

section
variable {α β : Type} (f : α → β) (ahead beats : β → β → Bool)

theorem map_swap (heap : Array α) {i j : Nat} (hi : i < heap.size) (hj : j < heap.size) :
    (heap.swap i j).map f =
      (heap.map f).swap i j (by rwa [Array.size_map]) (by rwa [Array.size_map]) := by
  simp only [Array.swap_def, Array.map_set, Array.getElem_map]

theorem map_rise (heap : Array α) (place : Nat) :
    (rise (fun x y => ahead (f x) (f y)) heap place).map f = rise ahead (heap.map f) place := by
  fun_induction rise (fun x y => ahead (f x) (f y)) heap place with
  | case1 heap place hplace parent hahead =>
      rw [rise, dif_pos (by rwa [Array.size_map])]
      simp only [Array.getElem_map]
      rw [if_pos hahead]
  | case2 heap place hplace parent hahead ih =>
      rw [ih, rise.eq_def ahead (heap.map f), dif_pos (by rwa [Array.size_map])]
      simp only [Array.getElem_map]
      rw [if_neg hahead, map_swap]
  | case3 heap place hplace =>
      rw [rise, dif_neg (by rwa [Array.size_map])]

theorem map_push (heap : Array α) (entry : α) :
    (push (fun x y => ahead (f x) (f y)) heap entry).map f = push ahead (heap.map f) (f entry) := by
  rw [push, push, map_rise, Array.map_push, Array.size_map]

theorem map_sinkToLeaf (heap : Array α) (place : Nat) :
    (sinkToLeaf (fun x y => ahead (f x) (f y)) heap place).map (Array.map f) id =
      sinkToLeaf ahead (heap.map f) place := by
  fun_induction sinkToLeaf (fun x y => ahead (f x) (f y)) heap place with
  | case1 heap place child hchild hahead ih =>
      rw [ih, sinkToLeaf.eq_def ahead (heap.map f)]
      simp only [Array.size_map, Array.getElem_map]
      rw [dif_pos hchild, if_pos hahead, map_swap]
  | case2 heap place child hchild hahead ih =>
      rw [ih, sinkToLeaf.eq_def ahead (heap.map f)]
      simp only [Array.size_map, Array.getElem_map]
      rw [dif_pos hchild, if_neg hahead, map_swap]
  | case3 heap place child hchild hlast =>
      rw [sinkToLeaf.eq_def ahead (heap.map f)]
      simp only [Array.size_map]
      rw [dif_neg hchild, dif_pos hlast, Prod.map, map_swap]
      rfl
  | case4 heap place child hchild hlast =>
      rw [sinkToLeaf.eq_def ahead (heap.map f)]
      simp only [Array.size_map]
      rw [dif_neg hchild, dif_neg hlast, Prod.map, id]

theorem map_dropRoot (heap : Array α) :
    (dropRoot (fun x y => ahead (f x) (f y)) heap).map f = dropRoot ahead (heap.map f) := by
  rw [dropRoot, dropRoot, Array.back?_map]
  cases heap.back? with
  | none => rfl
  | some last =>
      simp only [Option.map_some, ← Array.map_pop, Array.size_map]
      split
      · rw [map_rise, ← Array.map_set, ← map_sinkToLeaf]
        rfl
      · rfl

theorem map_sink (heap : Array α) (stop place : Nat) :
    (sink (fun x y => ahead (f x) (f y)) heap stop place).map f =
      sink ahead (heap.map f) stop place := by
  fun_induction sink (fun x y => ahead (f x) (f y)) heap stop place with
  | case1 heap place child hchild hfirst hplace =>
      rw [sink.eq_def ahead (heap.map f)]
      simp only [Array.size_map, Array.getElem_map]
      rw [dif_pos hchild, if_pos hfirst, if_pos hplace]
  | case2 heap place child hchild hfirst hplace ih =>
      rw [ih, sink.eq_def ahead (heap.map f)]
      simp only [Array.size_map, Array.getElem_map]
      rw [dif_pos hchild, if_pos hfirst, if_neg hplace, map_swap]
  | case3 heap place child hchild hfirst hplace =>
      rw [sink.eq_def ahead (heap.map f)]
      simp only [Array.size_map, Array.getElem_map]
      rw [dif_pos hchild, if_neg hfirst, if_pos hplace]
  | case4 heap place child hchild hfirst hplace ih =>
      rw [ih, sink.eq_def ahead (heap.map f)]
      simp only [Array.size_map, Array.getElem_map]
      rw [dif_pos hchild, if_neg hfirst, if_neg hplace, map_swap]
  | case5 heap place child hchild hlast hplace =>
      rw [sink.eq_def ahead (heap.map f)]
      simp only [Array.size_map, Array.getElem_map]
      rw [dif_neg hchild, dif_pos hlast, if_pos hplace]
  | case6 heap place child hchild hlast hplace =>
      rw [sink.eq_def ahead (heap.map f)]
      simp only [Array.size_map, Array.getElem_map]
      rw [dif_neg hchild, dif_pos hlast, if_neg hplace, map_swap]
  | case7 heap place child hchild hlast =>
      rw [sink.eq_def ahead (heap.map f)]
      simp only [Array.size_map]
      rw [dif_neg hchild, dif_neg hlast]

theorem map_sortHeap (stop : Nat) (heap : Array α) :
    (sortHeap (fun x y => ahead (f x) (f y)) stop heap).map f = sortHeap ahead stop (heap.map f) := by
  fun_induction sortHeap (fun x y => ahead (f x) (f y)) stop heap with
  | case1 => rfl
  | case2 heap stop hstop ih =>
      rw [ih, sortHeap, dif_pos (by rwa [Array.size_map]), map_sink, map_swap]
  | case3 heap stop hstop =>
      rw [sortHeap, dif_neg (by rwa [Array.size_map])]

theorem map_offer (count : Nat) (heap : Array α) (entry : α) :
    (offer (fun x y => ahead (f x) (f y)) (fun x y => beats (f x) (f y)) count heap entry).map f =
      offer ahead beats count (heap.map f) (f entry) := by
  rw [offer, offer]
  simp only [Array.size_map, Array.getElem_map]
  split
  · exact map_push ..
  · split
    · split
      · rw [map_push, map_dropRoot]
      · rfl
    · rfl

/-- What is ranked by something of each entry is ranked as that is. -/
theorem map_best (count : Nat) (entries : List α) :
    (best (fun x y => ahead (f x) (f y)) (fun x y => beats (f x) (f y)) count entries).map f =
      best ahead beats count (entries.map f) := by
  have hheap (heap : Array α) : (entries.foldl (offer (fun x y => ahead (f x) (f y))
      (fun x y => beats (f x) (f y)) count) heap).map f =
        (entries.map f).foldl (offer ahead beats count) (heap.map f) := by
    induction entries generalizing heap with
    | nil => rfl
    | cons entry entries ih => rw [List.foldl_cons, ih, map_offer, List.map_cons, List.foldl_cons]
  have hempty := hheap #[]
  rw [Array.map_empty] at hempty
  rw [best, best, ← Array.toList_map, map_sortHeap, hempty, ← hempty, Array.size_map]

end

/-- Entries that compare alike are ranked alike. -/
theorem best_forall₂ {α β : Type} {ahead beats : α → α → Bool} {aheadOther beatsOther : β → β → Bool}
    {R : α → β → Prop}
    (hahead : ∀ x y x' y', R x y → R x' y' → ahead x x' = aheadOther y y')
    (hbeats : ∀ x y x' y', R x y → R x' y' → beats x x' = beatsOther y y')
    {entries : List α} {others : List β} (h : List.Forall₂ R entries others) (count : Nat) :
    List.Forall₂ R (best ahead beats count entries) (best aheadOther beatsOther count others) := by
  -- The pairs of entries that stand beside each other, which either relation ranks.
  obtain ⟨pairs, rfl, rfl⟩ : ∃ pairs : List { pair : α × β // R pair.1 pair.2 },
      entries = pairs.map (·.1.1) ∧ others = pairs.map (·.1.2) := by
    induction h with
    | nil => exact ⟨[], rfl, rfl⟩
    | @cons x y _ _ hxy _ ih =>
        obtain ⟨pairs, hentries, hothers⟩ := ih
        exact ⟨⟨(x, y), hxy⟩ :: pairs, by rw [hentries]; rfl, by rw [hothers]; rfl⟩
  have hsame : best (fun p q : { pair : α × β // R pair.1 pair.2 } => ahead p.1.1 q.1.1)
      (fun p q => beats p.1.1 q.1.1) count pairs =
        best (fun p q => aheadOther p.1.2 q.1.2) (fun p q => beatsOther p.1.2 q.1.2) count pairs := by
    congr 1
    · ext p q
      rw [hahead _ _ _ _ p.2 q.2]
    · ext p q
      rw [hbeats _ _ _ _ p.2 q.2]
  rw [← map_best (fun pair : { pair : α × β // R pair.1 pair.2 } => pair.1.1), hsame,
    ← map_best (fun pair : { pair : α × β // R pair.1 pair.2 } => pair.1.2),
    List.forall₂_map_left_iff, List.forall₂_map_right_iff, List.forall₂_same]
  exact fun pair _ => pair.2

end Concordance.Ranking
