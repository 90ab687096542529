import Concordance.Proofs.Ranking
import Mathlib.Logic.Equiv.Basic

/-!
# The heap of a ranking is ordered

In an ordered heap every entry is ahead of its parent, so that the root is the worst of
them. Each move of an entry through the heap leaves one place where this may fail, and
`Rising`, `Vacant` and `Sinking` say what still holds around it. Adding an entry and
removing the root keep the heap ordered, and sorting it puts each entry ahead of those
behind it.

## Implementation notes

Entries are compared by their places, and a place beyond the heap has none to compare.
An exchange of two entries then only renames places.
-/

namespace Concordance.Ranking
variable {α : Type} {ahead : α → α → Bool}

/-- Any two entries can be ranked, and what is ahead of an entry is ahead of all that the
entry is ahead of. -/
structure Ranks (ahead : α → α → Bool) : Prop where
  total : ∀ x y, ahead x y = true ∨ ahead y x = true
  trans : ∀ {x y z}, ahead x y = true → ahead y z = true → ahead x z = true

theorem Ranks.of_not {x y : α} (h : Ranks ahead) (hn : ¬ ahead x y = true) :
    ahead y x = true :=
  (h.total x y).resolve_left hn

theorem Ranks.refl (h : Ranks ahead) (x : α) : ahead x x = true :=
  (h.total x x).elim id id

/-- The entry at the first place is ahead of the one at the second, if there are such. -/
def AheadAt (ahead : α → α → Bool) (heap : Array α) (i j : Nat) : Prop :=
  ∀ x y, heap[i]? = some x → heap[j]? = some y → ahead x y = true

/-- The place of an entry's parent. -/
def parent (place : Nat) : Nat := (place - 1) / 2

theorem parent_lt {i : Nat} (h : 0 < i) : parent i < i := by
  unfold parent
  omega

section AheadAt
variable {heap : Array α} {i j k a b : Nat}

theorem aheadAt_iff (hi : i < heap.size) (hj : j < heap.size) :
    AheadAt ahead heap i j ↔ ahead heap[i] heap[j] = true := by
  constructor
  · intro h
    exact h _ _ (Array.getElem?_eq_getElem hi) (Array.getElem?_eq_getElem hj)
  · intro h x y hx hy
    rw [Array.getElem?_eq_getElem hi] at hx
    rw [Array.getElem?_eq_getElem hj] at hy
    cases hx
    cases hy
    exact h

theorem AheadAt.trans (hr : Ranks ahead) (hij : AheadAt ahead heap i j)
    (hjk : AheadAt ahead heap j k) (hj : j < heap.size) : AheadAt ahead heap i k := by
  intro x z hx hz
  have hy := Array.getElem?_eq_getElem hj
  exact hr.trans (hij x _ hx hy) (hjk _ z hy hz)

/-- An entry that is not ahead of another has the other ahead of it. -/
theorem aheadAt_of_not (hr : Ranks ahead) (hi : i < heap.size) (hj : j < heap.size)
    (hn : ¬ ahead heap[i] heap[j] = true) : AheadAt ahead heap j i :=
  (aheadAt_iff hj hi).2 (hr.of_not hn)

theorem getElem?_swap_eq (ha : a < heap.size) (hb : b < heap.size) :
    (heap.swap a b ha hb)[k]? = heap[Equiv.swap a b k]? := by
  rw [Array.getElem?_swap, Equiv.swap_apply_def]
  by_cases hkb : b = k
  · subst hkb
    by_cases hab : b = a
    · subst hab
      simp
    · simp [hab]
  · by_cases hka : a = k
    · subst hka
      simp [hkb]
    · simp [hkb, hka, Ne.symm hkb, Ne.symm hka]

/-- After an exchange a place has the entry of the other. -/
theorem aheadAt_swap_iff (ha : a < heap.size) (hb : b < heap.size) :
    AheadAt ahead (heap.swap a b ha hb) i j ↔
      AheadAt ahead heap (Equiv.swap a b i) (Equiv.swap a b j) := by
  simp only [AheadAt, getElem?_swap_eq]

end AheadAt

/-- Each of the first `stop` entries but the root is ahead of its parent. -/
def Ordered (ahead : α → α → Bool) (heap : Array α) (stop : Nat) : Prop :=
  ∀ i, 0 < i → i < stop → AheadAt ahead heap i (parent i)

/-- Entries below `place` are ahead of the one above it. -/
def Over (ahead : α → α → Bool) (heap : Array α) (stop place : Nat) : Prop :=
  0 < place → ∀ i, 0 < i → i < stop → parent i = place → AheadAt ahead heap i (parent place)

/-- Only the entry at `place` may not be ahead of its parent. -/
structure Rising (ahead : α → α → Bool) (heap : Array α) (place : Nat) : Prop where
  order : ∀ i, 0 < i → i < heap.size → i ≠ place → AheadAt ahead heap i (parent i)
  above : Over ahead heap heap.size place

/-- The entry at `place` is not looked at. -/
structure Vacant (ahead : α → α → Bool) (heap : Array α) (place : Nat) : Prop where
  order : ∀ i, 0 < i → i < heap.size → i ≠ place → parent i ≠ place →
    AheadAt ahead heap i (parent i)
  above : Over ahead heap heap.size place

/-- Only the entries below `place`, among the first `stop`, may not be ahead of it. -/
structure Sinking (ahead : α → α → Bool) (heap : Array α) (stop place : Nat) : Prop where
  order : ∀ i, 0 < i → i < stop → parent i ≠ place → AheadAt ahead heap i (parent i)
  above : Over ahead heap stop place

section Moves
variable {heap : Array α} {stop place child : Nat}

/-- The root is the worst entry of an ordered heap. -/
theorem Ordered.aheadAt_root (hr : Ranks ahead) (h : Ordered ahead heap stop)
    (hstop : stop ≤ heap.size) {i : Nat} (hi : i < stop) : AheadAt ahead heap i 0 := by
  induction i using Nat.strongRecOn with
  | ind i ih =>
      by_cases hzero : i = 0
      · subst hzero
        exact (aheadAt_iff (by omega) (by omega)).2 (hr.refl _)
      · have hlt : parent i < i := parent_lt (Nat.pos_of_ne_zero hzero)
        exact (h i (by omega) hi).trans hr (ih _ hlt (by omega)) (by omega)

/-- An entry that is not ahead of its parent changes places with it. -/
theorem Rising.swap (hr : Ranks ahead) (h : Rising ahead heap place) (hpos : 0 < place)
    (hplace : place < heap.size) (hparent : parent place < heap.size)
    (hn : ¬ ahead heap[place] heap[parent place] = true) :
    Rising ahead (heap.swap (parent place) place) (parent place) := by
  have hlt : parent place < place := parent_lt hpos
  have hup : AheadAt ahead heap (parent place) place := aheadAt_of_not hr hplace hparent hn
  have hsame (k : Nat) (hk : k ≠ parent place) (hk' : k ≠ place) :
      Equiv.swap (parent place) place k = k := Equiv.swap_apply_of_ne_of_ne hk hk'
  constructor
  · intro i hi hsize hne
    rw [Array.size_swap] at hsize
    rw [aheadAt_swap_iff]
    by_cases hip : i = place
    · subst hip
      rwa [Equiv.swap_apply_right, Equiv.swap_apply_left]
    · rw [hsame i hne hip]
      by_cases hsibling : parent i = parent place
      · rw [hsibling, Equiv.swap_apply_left]
        exact (hsibling ▸ h.order i hi hsize hip).trans hr hup hparent
      · by_cases hchild : parent i = place
        · rw [hchild, Equiv.swap_apply_right]
          exact h.above hpos i hi hsize hchild
        · rw [hsame _ hsibling hchild]
          exact h.order i hi hsize hip
  · intro hpos' i hi hsize hpi
    rw [Array.size_swap] at hsize
    have hgrand : parent (parent place) < parent place := parent_lt hpos'
    rw [aheadAt_swap_iff, hsame (parent (parent place)) (by omega) (by omega)]
    have habove := h.order (parent place) hpos' hparent (by omega)
    by_cases hip : i = place
    · subst hip
      rwa [Equiv.swap_apply_right]
    · have hlt' : parent i < i := parent_lt hi
      rw [hsame i (by omega) hip]
      exact (hpi ▸ h.order i hi hsize hip).trans hr habove hparent

/-- An entry that rises ends where the heap is ordered. -/
theorem rise_ordered (hr : Ranks ahead) (h : Rising ahead heap place) :
    Ordered ahead (rise ahead heap place) heap.size := by
  fun_induction rise ahead heap place with
  | case1 heap place hplace above hahead =>
      intro i hi hsize
      by_cases hip : i = place
      · subst hip
        exact (aheadAt_iff hsize _).2 hahead
      · exact h.order i hi hsize hip
  | case2 heap place hplace above hahead ih =>
      have habove : parent place < heap.size := Nat.lt_trans (parent_lt hplace.1) hplace.2
      have hnext := ih (h.swap hr hplace.1 hplace.2 habove hahead)
      rwa [Array.size_swap] at hnext
  | case3 heap place hplace =>
      intro i hi hsize
      exact h.order i hi hsize (by omega)

/-- A new entry behind an ordered heap rises to its place. -/
theorem push_ordered (hr : Ranks ahead) (h : Ordered ahead heap heap.size) (entry : α) :
    Ordered ahead (push ahead heap entry) (push ahead heap entry).size := by
  rw [(push_perm ahead heap entry).size_eq]
  apply rise_ordered hr
  constructor
  · intro i hi hsize hne x y hx hy
    rw [Array.size_push] at hsize
    have hlt : parent i < heap.size :=
      Nat.lt_of_lt_of_le (parent_lt hi) (Nat.le_of_lt_succ hsize)
    rw [Array.getElem?_push, if_neg hne] at hx
    rw [Array.getElem?_push, if_neg (by omega)] at hy
    exact h i hi (by omega) x y hx hy
  · intro hpos i hi hsize hpi
    rw [Array.size_push] at hsize
    have hlt : heap.size < i := hpi ▸ parent_lt hi
    omega

/-- The two places below a place. -/
theorem eq_or_eq_of_parent_eq {i : Nat} (hi : 0 < i) (h : parent i = place) :
    i = 2 * place + 1 ∨ i = 2 * place + 1 + 1 := by
  unfold parent at h
  omega

theorem parent_left (place : Nat) : parent (2 * place + 1) = place := by
  unfold parent
  omega

theorem parent_right (place : Nat) : parent (2 * place + 1 + 1) = place := by
  unfold parent
  omega

/-- The right entry below a place is the worst if the left is ahead of it. -/
theorem aheadAt_right (h : AheadAt ahead heap (2 * place + 1) (2 * place + 1 + 1)) {i : Nat}
    (hi : 0 < i) (hpi : parent i = place) (hne : i ≠ 2 * place + 1 + 1) :
    AheadAt ahead heap i (2 * place + 1 + 1) := by
  rwa [(eq_or_eq_of_parent_eq hi hpi).resolve_right hne]

/-- The left entry below a place is the worst if the right is ahead of it. -/
theorem aheadAt_left (h : AheadAt ahead heap (2 * place + 1 + 1) (2 * place + 1)) {i : Nat}
    (hi : 0 < i) (hpi : parent i = place) (hne : i ≠ 2 * place + 1) :
    AheadAt ahead heap i (2 * place + 1) := by
  rwa [(eq_or_eq_of_parent_eq hi hpi).resolve_left hne]

/-- Without a right entry, the left one is the only one below a place. -/
theorem eq_left_of_lt {i : Nat} (hstop : stop ≤ 2 * place + 1 + 1) (hi : 0 < i)
    (hi' : i < stop) (hpi : parent i = place) : i = 2 * place + 1 := by
  apply (eq_or_eq_of_parent_eq hi hpi).resolve_right
  omega

/-- The worst entry below a vacant place moves up. -/
theorem Vacant.swap (h : Vacant ahead heap place) (hplace : place < heap.size)
    (hchild : child < heap.size) (hpos : 0 < child) (hparent : parent child = place)
    (hworst : ∀ i, 0 < i → i < heap.size → parent i = place → i ≠ child →
      AheadAt ahead heap i child) :
    Vacant ahead (heap.swap place child) child := by
  have hlt : place < child := hparent ▸ parent_lt hpos
  have hsame (k : Nat) (hk : k ≠ place) (hk' : k ≠ child) :
      Equiv.swap place child k = k := Equiv.swap_apply_of_ne_of_ne hk hk'
  constructor
  · intro i hi hsize hne hpi
    rw [Array.size_swap] at hsize
    rw [aheadAt_swap_iff]
    by_cases hip : i = place
    · subst hip
      rw [Equiv.swap_apply_left, hsame (parent i) (Nat.ne_of_lt (parent_lt hi)) hpi]
      exact h.above hi child hpos hchild hparent
    · rw [hsame i hip hne]
      by_cases hsibling : parent i = place
      · rw [hsibling, Equiv.swap_apply_left]
        exact hworst i hi hsize hsibling hne
      · rw [hsame _ hsibling hpi]
        exact h.order i hi hsize hip hsibling
  · intro _ i hi hsize hpi
    rw [Array.size_swap] at hsize
    have hlt' : child < i := hpi ▸ parent_lt hi
    rw [aheadAt_swap_iff, hparent, Equiv.swap_apply_left, hsame i (by omega) (by omega)]
    exact hpi ▸ h.order i hi hsize (by omega) (by omega)

theorem Vacant.rising (h : Vacant ahead heap place) (hleaf : heap.size ≤ 2 * place + 1) :
    Rising ahead heap place where
  order i hi hsize hne := h.order i hi hsize hne (by unfold parent; omega)
  above := h.above

/-- A vacant place that sinks to a leaf leaves an entry that has to rise. -/
theorem sinkToLeaf_rising (hr : Ranks ahead) (h : Vacant ahead heap place)
    (hplace : place < heap.size) :
    Rising ahead (sinkToLeaf ahead heap place).1 (sinkToLeaf ahead heap place).2 := by
  fun_induction sinkToLeaf ahead heap place with
  | case1 heap place child hchild hahead ih =>
      apply ih _ (by rwa [Array.size_swap])
      apply h.swap hplace hchild (Nat.succ_pos _) (parent_right place)
      intro i hi _ hpi hne
      exact aheadAt_right ((aheadAt_iff _ _).2 hahead) hi hpi hne
  | case2 heap place child hchild hahead ih =>
      apply ih _ (by rw [Array.size_swap]; omega)
      apply h.swap hplace (Nat.lt_of_succ_lt hchild) (Nat.succ_pos _) (parent_left place)
      intro i hi _ hpi hne
      exact aheadAt_left (aheadAt_of_not hr _ _ hahead) hi hpi hne
  | case3 heap place child hchild hlast =>
      refine Vacant.rising ?_ (by simp only [Array.size_swap]; omega)
      apply h.swap hplace hlast (Nat.succ_pos _) (parent_left place)
      intro i hi hsize hpi hne
      exact absurd (eq_left_of_lt (by omega) hi hsize hpi) hne
  | case4 heap place child hchild hlast => exact h.rising (by omega)

/-- Where the last entry takes the place of the root, all others are still in order. -/
theorem vacant_set_root {rest : Array α} {last : α}
    (h : Ordered ahead (rest.push last) (rest.push last).size) (hrest : 0 < rest.size) :
    Vacant ahead (rest.set 0 last) 0 := by
  constructor
  · intro i hi hsize hne hpi x y hx hy
    rw [Array.size_set] at hsize
    have hlt : parent i < rest.size := Nat.lt_trans (parent_lt hi) hsize
    rw [Array.getElem?_set_ne hrest (Ne.symm hne)] at hx
    rw [Array.getElem?_set_ne hrest (Ne.symm hpi)] at hy
    apply h i hi (by rw [Array.size_push]; omega) x y
    · rwa [Array.getElem?_push, if_neg (by omega)]
    · rwa [Array.getElem?_push, if_neg (by omega)]
  · exact fun hpos => absurd hpos (Nat.lt_irrefl 0)

/-- Removing the root leaves an ordered heap of all other entries. -/
theorem dropRoot_spec (hr : Ranks ahead) (h : Ordered ahead heap heap.size)
    (hpos : 0 < heap.size) :
    Ordered ahead (dropRoot ahead heap) (dropRoot ahead heap).size ∧
      (heap[0] :: (dropRoot ahead heap).toList).Perm heap.toList := by
  refine ⟨?_, dropRoot_perm ahead hpos⟩
  rw [dropRoot]
  split
  · next hback => exact h
  · next last hback =>
      obtain ⟨rest, rfl⟩ := Array.back?_eq_some_iff.1 hback
      simp only [Array.pop_push]
      split
      · next hrest =>
          have hsunk := sinkToLeaf_rising hr (vacant_set_root h hrest)
            (by rwa [Array.size_set])
          rw [(rise_perm ..).size_eq]
          exact rise_ordered hr hsunk
      · next hrest => exact fun i _ hi => absurd hi (by omega)

/-- An entry that the worst one below it is not ahead of changes places with that. -/
theorem Sinking.swap (hr : Ranks ahead) (h : Sinking ahead heap stop place)
    (hstop : stop ≤ heap.size) (hplace : place < heap.size) (hchild : child < stop)
    (hpos : 0 < child) (hparent : parent child = place)
    (hn : ¬ ahead heap[child] heap[place] = true)
    (hworst : ∀ i, 0 < i → i < stop → parent i = place → i ≠ child →
      AheadAt ahead heap i child) :
    Sinking ahead (heap.swap place child) stop child := by
  have hlt : place < child := hparent ▸ parent_lt hpos
  have hsame (k : Nat) (hk : k ≠ place) (hk' : k ≠ child) :
      Equiv.swap place child k = k := Equiv.swap_apply_of_ne_of_ne hk hk'
  constructor
  · intro i hi hi' hpi
    rw [aheadAt_swap_iff]
    by_cases hip : i = place
    · subst hip
      rw [Equiv.swap_apply_left, hsame (parent i) (Nat.ne_of_lt (parent_lt hi)) hpi]
      exact h.above hi child hpos hchild hparent
    · by_cases hic : i = child
      · subst hic
        rw [hparent, Equiv.swap_apply_left, Equiv.swap_apply_right]
        exact aheadAt_of_not hr _ hplace hn
      · rw [hsame i hip hic]
        by_cases hsibling : parent i = place
        · rw [hsibling, Equiv.swap_apply_left]
          exact hworst i hi hi' hsibling hic
        · rw [hsame _ hsibling hpi]
          exact h.order i hi hi' hsibling
  · intro _ i hi hi' hpi
    have hlt' : child < i := hpi ▸ parent_lt hi
    rw [aheadAt_swap_iff, hparent, Equiv.swap_apply_left, hsame i (by omega) (by omega)]
    exact hpi ▸ h.order i hi hi' (by omega)

/-- Where the entries below a place are ahead of it, nothing is left to do. -/
theorem Sinking.ordered (h : Sinking ahead heap stop place)
    (hbelow : ∀ i, 0 < i → i < stop → parent i = place → AheadAt ahead heap i place) :
    Ordered ahead heap stop := by
  intro i hi hi'
  by_cases hpi : parent i = place
  · exact hpi ▸ hbelow i hi hi' hpi
  · exact h.order i hi hi' hpi

/-- An entry that sinks ends where the heap is ordered. -/
theorem sink_ordered (hr : Ranks ahead) (h : Sinking ahead heap stop place)
    (hstop : stop ≤ heap.size) : Ordered ahead (sink ahead heap stop place) stop := by
  fun_induction sink ahead heap stop place with
  | case1 heap place child hchild hahead hplace =>
      apply h.ordered
      intro i hi _ hpi
      have hsiblings : AheadAt ahead heap child (child + 1) := (aheadAt_iff _ _).2 hahead
      have hright : AheadAt ahead heap (child + 1) place := (aheadAt_iff _ _).2 hplace
      by_cases hne : i = child + 1
      · exact hne ▸ hright
      · exact (aheadAt_right hsiblings hi hpi hne).trans hr hright (by omega)
  | case2 heap place child hchild hahead hplace ih =>
      apply ih _ (by rwa [Array.size_swap])
      apply h.swap hr hstop (by omega) hchild.1 (Nat.succ_pos _) (parent_right place) hplace
      intro i hi _ hpi hne
      exact aheadAt_right ((aheadAt_iff _ _).2 hahead) hi hpi hne
  | case3 heap place child hchild hahead hplace =>
      apply h.ordered
      intro i hi _ hpi
      have hsiblings : AheadAt ahead heap (child + 1) child := aheadAt_of_not hr _ _ hahead
      have hleft : AheadAt ahead heap child place := (aheadAt_iff _ _).2 hplace
      by_cases hne : i = child
      · exact hne ▸ hleft
      · exact (aheadAt_left hsiblings hi hpi hne).trans hr hleft (by omega)
  | case4 heap place child hchild hahead hplace ih =>
      apply ih _ (by rwa [Array.size_swap])
      apply h.swap hr hstop (by omega) (by omega) (Nat.succ_pos _) (parent_left place) hplace
      intro i hi _ hpi hne
      exact aheadAt_left (aheadAt_of_not hr _ _ hahead) hi hpi hne
  | case5 heap place child hchild hlast hplace =>
      apply h.ordered
      intro i hi hi' hpi
      rw [eq_left_of_lt (by omega) hi hi' hpi]
      exact (aheadAt_iff _ _).2 hplace
  | case6 heap place child hchild hlast hplace =>
      have hsunk : Sinking ahead (heap.swap place child) stop child := by
        apply h.swap hr hstop (by omega) hlast.1 (Nat.succ_pos _) (parent_left place) hplace
        intro i hi hi' hpi hne
        exact absurd (eq_left_of_lt (by omega) hi hi' hpi) hne
      apply hsunk.ordered
      intro i hi hi' hpi
      rcases eq_or_eq_of_parent_eq hi hpi with rfl | rfl <;> omega
  | case7 heap place child hchild hlast =>
      apply h.ordered
      intro i hi hi' hpi
      rcases eq_or_eq_of_parent_eq hi hpi with rfl | rfl <;> omega

theorem swap_lt {i : Nat} (hplace : place < stop) (hchild : child < stop) (hi : i < stop) :
    Equiv.swap place child i < stop := by
  rw [Equiv.swap_apply_def]
  split
  · exact hchild
  · split
    · exact hplace
    · exact hi

/-- Sinking leaves the entries from `stop` on where they are. -/
theorem getElem?_sink_of_le {k : Nat} (hk : stop ≤ k) :
    (sink ahead heap stop place)[k]? = heap[k]? := by
  fun_induction sink ahead heap stop place with
  | case2 heap place child hchild hahead hplace ih =>
      rw [ih, getElem?_swap_eq, Equiv.swap_apply_of_ne_of_ne (by omega) (by omega)]
  | case4 heap place child hchild hahead hplace ih =>
      rw [ih, getElem?_swap_eq, Equiv.swap_apply_of_ne_of_ne (by omega) (by omega)]
  | case6 heap place child hchild hlast hplace =>
      rw [getElem?_swap_eq, Equiv.swap_apply_of_ne_of_ne (by omega) (by omega)]
  | _ => rfl

/-- What all of the first `stop` entries have in common, they keep when one of them sinks. -/
theorem forall_sink {p : α → Prop} (h : ∀ i < stop, ∀ x, heap[i]? = some x → p x) :
    ∀ i < stop, ∀ x, (sink ahead heap stop place)[i]? = some x → p x := by
  have hswap (heap : Array α) (place child : Nat) (hplace : place < heap.size)
      (hchild : child < heap.size) (hplace' : place < stop) (hchild' : child < stop)
      (h : ∀ i < stop, ∀ x, heap[i]? = some x → p x) :
      ∀ i < stop, ∀ x, (heap.swap place child)[i]? = some x → p x := by
    intro i hi x hx
    rw [getElem?_swap_eq] at hx
    exact h _ (swap_lt hplace' hchild' hi) x hx
  fun_induction sink ahead heap stop place with
  | case2 heap place child hchild hahead hplace ih =>
      exact ih (hswap heap place (child + 1) _ _ (by omega) hchild.1 h)
  | case4 heap place child hchild hahead hplace ih =>
      exact ih (hswap heap place child _ _ (by omega) (by omega) h)
  | case6 heap place child hchild hlast hplace =>
      exact hswap heap place child _ _ (by omega) hlast.1 h
  | _ => exact h

end Moves

/-- The first `stop` entries are an ordered heap, and the entries behind are in order with
all entries ahead of them before them. -/
structure Sorting (ahead : α → α → Bool) (heap : Array α) (stop : Nat) : Prop where
  ordered : Ordered ahead heap stop
  before : ∀ i k, i < k → stop ≤ k → AheadAt ahead heap i k

variable {heap : Array α} {stop : Nat}

/-- The root goes behind the others, all of which are ahead of it. -/
theorem Sorting.step (hr : Ranks ahead) (h : Sorting ahead heap (stop + 1))
    (hpos : 0 < stop) (hstop : stop < heap.size) :
    Sorting ahead (sink ahead (heap.swap 0 stop) stop 0) stop := by
  have hzero : 0 < heap.size := by omega
  have hswap (k : Nat) : (heap.swap 0 stop)[k]? = heap[Equiv.swap 0 stop k]? :=
    getElem?_swap_eq hzero hstop
  have hbehind (k : Nat) (hk : stop < k) :
      (sink ahead (heap.swap 0 stop) stop 0)[k]? = heap[k]? := by
    rw [getElem?_sink_of_le (Nat.le_of_lt hk), hswap,
      Equiv.swap_apply_of_ne_of_ne (by omega) (by omega)]
  constructor
  · apply sink_ordered hr
    · constructor
      · intro i hi hi' hpi
        rw [aheadAt_swap_iff, Equiv.swap_apply_of_ne_of_ne (by omega) (by omega),
          Equiv.swap_apply_of_ne_of_ne hpi (Nat.ne_of_lt (Nat.lt_trans (parent_lt hi) hi'))]
        exact h.ordered i hi (by omega)
      · exact fun hpos => absurd hpos (Nat.lt_irrefl 0)
    · rw [Array.size_swap]
      omega
  · intro i k hik hk x y hx hy
    by_cases hkstop : k = stop
    · -- The entry put behind is the root, which all others of the heap are ahead of.
      subst hkstop
      rw [getElem?_sink_of_le (Nat.le_refl _), hswap, Equiv.swap_apply_right] at hy
      refine forall_sink (p := fun x => ahead x y = true) ?_ i hik x hx
      intro j hj z hz
      rw [hswap] at hz
      refine h.ordered.aheadAt_root hr hstop ?_ z y hz hy
      exact swap_lt (by omega) (by omega) (by omega)
    · rw [hbehind k (by omega)] at hy
      rcases Nat.lt_trichotomy i stop with hi | rfl | hi
      · refine forall_sink (p := fun x => ahead x y = true) ?_ i hi x hx
        intro j hj z hz
        rw [hswap] at hz
        refine h.before _ k ?_ (by omega) z y hz hy
        have hlt : Equiv.swap 0 stop j < stop + 1 := swap_lt (by omega) (by omega) (by omega)
        omega
      · rw [getElem?_sink_of_le (Nat.le_refl _), hswap, Equiv.swap_apply_right] at hx
        exact h.before 0 k (by omega) (by omega) x y hx hy
      · rw [hbehind i hi] at hx
        exact h.before i k hik (by omega) x y hx hy

/-- Sorting an ordered heap puts each entry ahead of those behind it. -/
theorem sortHeap_before (hr : Ranks ahead) (h : Sorting ahead heap stop)
    (hstop : stop ≤ heap.size) {i k : Nat} (hik : i < k) :
    AheadAt ahead (sortHeap ahead stop heap) i k := by
  fun_induction sortHeap ahead stop heap with
  | case1 heap => exact h.before i k hik (Nat.zero_le k)
  | case2 heap stop hlt ih =>
      apply ih (h.step hr hlt.1 hlt.2)
      rw [(sink_perm ..).size_eq, Array.size_swap]
      exact Nat.le_of_lt hlt.2
  | case3 heap stop hn => exact h.before i k hik (by omega)

theorem pairwise_sortHeap (hr : Ranks ahead) (h : Ordered ahead heap heap.size) :
    (sortHeap ahead heap.size heap).toList.Pairwise fun x y => ahead x y = true := by
  have hsorting : Sorting ahead heap heap.size := by
    refine ⟨h, ?_⟩
    intro i k hik hk x y hx hy
    rw [Array.getElem?_eq_none hk] at hy
    cases hy
  rw [List.pairwise_iff_getElem]
  intro i k hi hk hik
  have hbefore := sortHeap_before hr hsorting (Nat.le_refl _) hik
  rw [Array.length_toList] at hi hk
  exact (aheadAt_iff hi hk).1 hbefore

end Concordance.Ranking
