import Concordance.Proofs.Heap

/-!
# A ranking gives the best entries

After any offers the heap holds as many entries as there is room for, and those it
dropped are behind all of them. This is kept where a newcomer takes the place of the
root exactly if the root is not ahead of it.
-/

namespace Concordance.Ranking

open scoped List

variable {α : Type} {ahead beats : α → α → Bool} {heap : Array α}

/-- The heap holds the best of the entries seen so far, as many as there is room for. -/
structure Keeps (ahead : α → α → Bool) (count : Nat) (seen : List α) (heap : Array α) : Prop where
  ordered : Ordered ahead heap heap.size
  size_eq : heap.size = min count seen.length
  split : ∃ dropped, (heap.toList ++ dropped).Perm seen ∧
    ∀ x ∈ heap.toList, ∀ y ∈ dropped, ahead x y = true

theorem Ordered.ahead_root (hr : Ranks ahead) (h : Ordered ahead heap heap.size)
    (hpos : 0 < heap.size) {x : α} (hx : x ∈ heap.toList) : ahead x heap[0] = true := by
  obtain ⟨i, hi⟩ := List.mem_iff_getElem?.1 hx
  rw [Array.getElem?_toList] at hi
  have hlt := (Array.getElem?_eq_some_iff.1 hi).1
  exact h.aheadAt_root hr (Nat.le_refl _) hlt x _ hi (Array.getElem?_eq_getElem hpos)

namespace Keeps
variable {count : Nat} {seen : List α} {entry : α}

/-- Where there is room, an entry is kept. -/
theorem push (hr : Ranks ahead) (h : Keeps ahead count seen heap) (hroom : heap.size < count) :
    Keeps ahead count (seen ++ [entry]) (push ahead heap entry) := by
  obtain ⟨dropped, hperm, -⟩ := h.split
  have hsize := h.size_eq
  have hpush := push_perm ahead heap entry
  have hnone : dropped = [] := by
    have hlength := hperm.length_eq
    rw [List.length_append, Array.length_toList] at hlength
    exact List.length_eq_zero_iff.1 (by omega)
  rw [hnone, List.append_nil] at hperm
  refine ⟨push_ordered hr h.ordered entry, ?_, [], ?_, by simp⟩
  · rw [hpush.size_eq, Array.size_push, List.length_append, List.length_singleton]
    omega
  · have hlist := hpush.toList
    rw [Array.toList_push] at hlist
    rw [List.append_nil]
    exact hlist.trans (hperm.append_right [entry])

/-- An entry that is ahead of the root of a full heap takes its place. -/
theorem replace (hr : Ranks ahead) (h : Keeps ahead count seen heap) (hfull : count ≤ heap.size)
    (hpos : 0 < heap.size) (hahead : ahead entry heap[0] = true) :
    Keeps ahead count (seen ++ [entry]) (Ranking.push ahead (dropRoot ahead heap) entry) := by
  obtain ⟨dropped, hperm, hsplit⟩ := h.split
  obtain ⟨hordered, hrest⟩ := dropRoot_spec hr h.ordered hpos
  have hpush := push_perm ahead (dropRoot ahead heap) entry
  have hlist := hpush.toList
  rw [Array.toList_push] at hlist
  have hroot : heap[0] ∈ heap.toList := Array.mem_toList_iff.2 (Array.getElem_mem hpos)
  refine ⟨push_ordered hr hordered entry, ?_, heap[0] :: dropped, ?_, ?_⟩
  · have hsize := h.size_eq
    have hlength := hrest.length_eq
    rw [List.length_cons, Array.length_toList, Array.length_toList] at hlength
    rw [hpush.size_eq, Array.size_push, List.length_append, List.length_singleton]
    omega
  · have hmove : (entry :: dropped).Perm (dropped ++ [entry]) :=
      (List.perm_append_singleton entry dropped).symm
    calc
      _ ~ (dropRoot ahead heap).toList ++ [entry] ++ heap[0] :: dropped := hlist.append_right _
      _ ~ heap[0] :: ((dropRoot ahead heap).toList ++ [entry] ++ dropped) := List.perm_middle
      _ = heap[0] :: (dropRoot ahead heap).toList ++ entry :: dropped := by simp
      _ ~ heap[0] :: (dropRoot ahead heap).toList ++ (dropped ++ [entry]) := hmove.append_left _
      _ = heap[0] :: (dropRoot ahead heap).toList ++ dropped ++ [entry] := by simp
      _ ~ heap.toList ++ dropped ++ [entry] := (hrest.append_right dropped).append_right _
      _ ~ seen ++ [entry] := hperm.append_right _
  · intro x hx y hy
    rw [hlist.mem_iff, List.mem_append, List.mem_singleton] at hx
    rcases hx with hx | rfl
    · have hx' : x ∈ heap.toList := hrest.subset (List.mem_cons_of_mem _ hx)
      rcases List.mem_cons.1 hy with rfl | hy
      · exact h.ordered.ahead_root hr hpos hx'
      · exact hsplit x hx' y hy
    · rcases List.mem_cons.1 hy with rfl | hy
      · exact hahead
      · exact hr.trans hahead (hsplit _ hroot y hy)

/-- An entry that all of a full heap are ahead of is dropped. -/
theorem drop (h : Keeps ahead count seen heap) (hfull : count ≤ heap.size)
    (hahead : ∀ x ∈ heap.toList, ahead x entry = true) :
    Keeps ahead count (seen ++ [entry]) heap := by
  obtain ⟨dropped, hperm, hsplit⟩ := h.split
  have hsize := h.size_eq
  refine ⟨h.ordered, ?_, dropped ++ [entry], ?_, ?_⟩
  · rw [List.length_append, List.length_singleton]
    omega
  · rw [← List.append_assoc]
    exact hperm.append_right [entry]
  · intro x hx y hy
    rw [List.mem_append, List.mem_singleton] at hy
    rcases hy with hy | rfl
    · exact hsplit x hx y hy
    · exact hahead x hx

/-- One more offer leaves the best of one more entry. -/
theorem offer (hr : Ranks ahead) (h : Keeps ahead count seen heap)
    (hbeats : ∀ x ∈ seen, beats entry x = true ↔ ¬ ahead x entry = true) :
    Keeps ahead count (seen ++ [entry]) (offer ahead beats count heap entry) := by
  rw [Ranking.offer]
  split
  · next hroom => exact h.push hr hroom
  · next hfull =>
      split
      · next hpos =>
          obtain ⟨dropped, hperm, -⟩ := h.split
          have hroot : heap[0] ∈ seen := hperm.subset (List.mem_append_left _
            (Array.mem_toList_iff.2 (Array.getElem_mem hpos)))
          split
          · next hbeat =>
              have hn := (hbeats _ hroot).1 hbeat
              exact h.replace hr (Nat.not_lt.1 hfull) hpos (hr.of_not hn)
          · next hbeat =>
              have hahead : ahead heap[0] entry = true := by
                by_contra hn
                exact hbeat ((hbeats _ hroot).2 hn)
              apply h.drop (Nat.not_lt.1 hfull)
              intro x hx
              exact hr.trans (h.ordered.ahead_root hr hpos hx) hahead
      · next hempty =>
          apply h.drop (Nat.not_lt.1 hfull)
          intro x hx
          rw [Array.eq_empty_of_size_eq_zero (Nat.eq_zero_of_not_pos hempty)] at hx
          cases hx

/-- A run of offers leaves the best of all entries. -/
theorem foldl_offer (hr : Ranks ahead) {entries : List α} (h : Keeps ahead count seen heap)
    (hbeats : ∀ x ∈ seen ++ entries, ∀ y ∈ entries, beats y x = true ↔ ¬ ahead x y = true) :
    Keeps ahead count (seen ++ entries) (entries.foldl (Ranking.offer ahead beats count) heap) := by
  induction entries generalizing seen heap with
  | nil => rwa [List.append_nil]
  | cons entry entries ih =>
      have hnext : Keeps ahead count (seen ++ [entry])
          (Ranking.offer ahead beats count heap entry) :=
        h.offer hr fun x hx => hbeats x (List.mem_append_left _ hx) entry (List.mem_cons_self ..)
      rw [List.append_cons] at hbeats ⊢
      exact ih hnext fun x hx y hy => hbeats x hx y (List.mem_cons_of_mem _ hy)

end Keeps

/-- The entries of a ranking are the best of all: they are in order, as many as there is room
for, and ahead of those that are left out. -/
theorem best_spec (hr : Ranks ahead) (count : Nat) {entries : List α}
    (hbeats : ∀ x ∈ entries, ∀ y ∈ entries, beats y x = true ↔ ¬ ahead x y = true) :
    ∃ dropped, (best ahead beats count entries ++ dropped).Perm entries ∧
      (best ahead beats count entries).length = min count entries.length ∧
      (best ahead beats count entries).Pairwise (fun x y => ahead x y = true) ∧
      ∀ x ∈ best ahead beats count entries, ∀ y ∈ dropped, ahead x y = true := by
  have hempty : Keeps ahead count [] #[] :=
    ⟨fun i _ hi => absurd hi (Nat.not_lt_zero i), by simp, [], .refl _, by simp⟩
  have hkeeps : Keeps ahead count ([] ++ entries) (entries.foldl (offer ahead beats count) #[]) :=
    hempty.foldl_offer hr hbeats
  rw [List.nil_append] at hkeeps
  obtain ⟨dropped, hperm, hsplit⟩ := hkeeps.split
  rw [best]
  generalize entries.foldl (offer ahead beats count) #[] = heap at hkeeps hperm hsplit
  have hsort := (sortHeap_perm ahead heap.size heap).toList
  refine ⟨dropped, (hsort.append_right dropped).trans hperm, ?_, ?_, ?_⟩
  · rw [hsort.length_eq, Array.length_toList, hkeeps.size_eq]
  · exact pairwise_sortHeap hr hkeeps.ordered
  · intro x hx
    exact hsplit x (hsort.subset hx)

end Concordance.Ranking
