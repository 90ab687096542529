import Concordance.Proofs.PhraseWalk
import Mathlib.Data.List.Destutter

/-!
# Two ways to match two terms

Two terms are matched by walking their lists, and could be matched by moving both lists up to
their lead. After a match the walk goes on by one occurrence in either list, and the other way
passes all occurrences at the place of the match. So the table of the walk has all columns of
the other table, and where positions are repeated in both lists it has more.

## Implementation notes

The matches of the walk that the other way finds as well are those that start behind the one
before: `List.destutter` with `Behind`. Since dropping what is below a place commutes with the
walk (`dropWhile_pairs`), each round of the other way is told in terms of the walk.
-/

namespace Concordance.Phrase

open Sequences Result PopStream

variable {first second : List Occurrence} {rows : List (List Occurrence)} {column : List Occurrence}
  {a b : Occurrence} {place : Nat}

/-- The second match starts behind the first. -/
def Behind (match₁ match₂ : Occurrence × Occurrence) : Prop :=
  match₁.1.position.toNat < match₂.1.position.toNat

instance : DecidableRel Behind := fun match₁ match₂ =>
  inferInstanceAs (Decidable (match₁.1.position.toNat < match₂.1.position.toNat))

instance : Trans Behind Behind Behind := ⟨Nat.lt_trans⟩

/-- The match has its first term below the place. -/
def startsBelow (place : Nat) (pair : Occurrence × Occurrence) : Bool :=
  pair.1.position.toNat < place

/-- The occurrence is below the place. -/
def isBelow (place : Nat) (occurrence : Occurrence) : Bool := occurrence.position.toNat < place

theorem pairs_nil_right (first : List Occurrence) : pairs first [] = [] := by
  cases first <;> simp [pairs]

/-- In a list in order nothing is below the place if its head is not. -/
theorem InOrder.dropWhile_of_le (h : InOrder (a :: first)) (hle : place ≤ a.position.toNat) :
    (a :: first).dropWhile (isBelow place) = a :: first ∧
      first.dropWhile (isBelow place) = first := by
  have hnot {occurrence : Occurrence} (hm : occurrence ∈ a :: first) :
      isBelow place occurrence = false := by
    have := UInt32.le_iff_toNat_le.1 (h.head_le hm)
    rw [isBelow, decide_eq_false_iff_not]
    omega
  constructor
  · apply List.dropWhile_cons_of_neg
    rw [hnot (List.mem_cons_self ..)]
    exact Bool.false_ne_true
  · exact dropWhile_eq_drop 0 (fun _ _ hlt => absurd hlt (Nat.not_lt_zero _))
      fun occurrence hm => hnot (List.mem_cons_of_mem _ (List.mem_of_getElem? hm))

theorem dropWhile_of_lt (hlt : a.position.toNat < place) :
    (a :: first).dropWhile (isBelow place) = first.dropWhile (isBelow place) :=
  List.dropWhile_cons_of_pos (by simpa [isBelow] using hlt)

theorem pairs_of_lt (h : a.position.toNat + 1 < b.position.toNat) :
    pairs (a :: first) (b :: second) = pairs first (b :: second) := by
  rw [pairs, if_pos h]

theorem pairs_of_gt (h : b.position.toNat < a.position.toNat + 1) :
    pairs (a :: first) (b :: second) = pairs (a :: first) second := by
  rw [pairs, if_neg (by omega), if_pos h]

theorem pairs_of_eq (h : b.position.toNat = a.position.toNat + 1) :
    pairs (a :: first) (b :: second) = (a, b) :: pairs first second := by
  rw [pairs, if_neg (by omega), if_neg (by omega)]

/-- The matches from a place on are those of the occurrences from there on. -/
theorem dropWhile_pairs (hfirst : InOrder first) (hsecond : InOrder second) (place : Nat) :
    (pairs first second).dropWhile (startsBelow place) =
      pairs (first.dropWhile (isBelow place)) (second.dropWhile (isBelow (place + 1))) := by
  fun_induction pairs first second with
  | case1 second => simp [pairs]
  | case2 a first => simp [pairs_nil_right]
  | case3 a first b second hlt ih =>
      rw [ih hfirst.of_cons hsecond]
      by_cases hbelow : a.position.toNat < place
      · rw [dropWhile_of_lt hbelow]
      · obtain ⟨ha, hrest⟩ := hfirst.dropWhile_of_le (Nat.not_lt.1 hbelow)
        obtain ⟨hb, -⟩ := hsecond.dropWhile_of_le (show place + 1 ≤ b.position.toNat by omega)
        rw [ha, hrest, hb, pairs_of_lt hlt]
  | case4 a first b second hge hlt ih =>
      rw [ih hfirst hsecond.of_cons]
      by_cases hbelow : b.position.toNat < place + 1
      · rw [dropWhile_of_lt hbelow]
      · obtain ⟨hb, hrest⟩ := hsecond.dropWhile_of_le (Nat.not_lt.1 hbelow)
        obtain ⟨ha, -⟩ := hfirst.dropWhile_of_le (show place ≤ a.position.toNat by omega)
        rw [hb, hrest, ha, pairs_of_gt hlt]
  | case5 a first b second hge hle ih =>
      by_cases hbelow : a.position.toNat < place
      · have hnext : b.position.toNat < place + 1 := by omega
        rw [List.dropWhile_cons_of_pos (by simpa [startsBelow] using hbelow),
          ih hfirst.of_cons hsecond.of_cons, dropWhile_of_lt hbelow, dropWhile_of_lt hnext]
      · obtain ⟨ha, -⟩ := hfirst.dropWhile_of_le (Nat.not_lt.1 hbelow)
        obtain ⟨hb, -⟩ := hsecond.dropWhile_of_le (show place + 1 ≤ b.position.toNat by omega)
        rw [List.dropWhile_cons_of_neg (by simpa [startsBelow] using hbelow), ha, hb,
          pairs_of_eq (by omega)]

/-- What is kept behind the head starts where the head is passed. -/
theorem destutter_cons {α : Type} {R : α → α → Prop} [DecidableRel R] (x : α) (xs : List α) :
    (x :: xs).destutter R = x :: (xs.dropWhile fun y => ¬ R x y).destutter R := by
  rw [List.destutter_cons']
  induction xs with
  | nil => rfl
  | cons y xs ih =>
      by_cases h : R x y
      · rw [List.destutter'_cons_pos _ h, List.dropWhile_cons_of_neg (by simpa using h),
          List.destutter_cons']
      · rw [List.destutter'_cons_neg _ h, List.dropWhile_cons_of_pos (by simpa using h), ih]

/-- The match of the heads is kept, and those that start behind it. -/
theorem destutter_pairs_of_eq (hfirst : InOrder (a :: first)) (hsecond : InOrder (b :: second))
    (h : b.position.toNat = a.position.toNat + 1) :
    (pairs (a :: first) (b :: second)).destutter Behind =
      (a, b) :: (pairs ((a :: first).dropWhile (isBelow (a.position.toNat + 1)))
        ((b :: second).dropWhile (isBelow (a.position.toNat + 1 + 1)))).destutter Behind := by
  have hpassed : (fun pair => decide ¬ Behind (a, b) pair) =
      startsBelow (a.position.toNat + 1) := by
    funext pair
    rw [startsBelow, decide_eq_decide, Behind]
    exact Nat.not_lt.trans Nat.lt_succ_iff.symm
  rw [pairs_of_eq h, destutter_cons, hpassed, dropWhile_pairs hfirst.of_cons hsecond.of_cons,
    dropWhile_of_lt (Nat.lt_succ_self _), dropWhile_of_lt (show b.position.toNat <
      a.position.toNat + 1 + 1 by omega)]

/-- No match is below the lead of the lists. -/
theorem pairs_dropBelow_lead (hfirst : InOrder first) (hsecond : InOrder second)
    (hc : heads? [first, second] = some column) :
    pairs (first.dropWhile (isBelow (lead 0 column)))
      (second.dropWhile (isBelow (lead 0 column + 1))) = pairs first second := by
  rw [← dropWhile_pairs hfirst hsecond]
  apply dropWhile_eq_drop 0 (fun _ _ hlt => absurd hlt (Nat.not_lt_zero _))
  intro pair hm
  obtain ⟨ha, hb, hab⟩ := mem_pairs (List.mem_of_getElem? hm)
  have hstands : StandsAt (pair.1.position.toNat + 0) [first, second] :=
    ⟨⟨pair.1, ha, rfl⟩, ⟨pair.2, hb, hab⟩, trivial⟩
  have hle := lead_le (by simp [hfirst, hsecond]) 0 hstands hc
  rw [startsBelow, decide_eq_false_iff_not]
  omega

theorem pairs_eq_nil_of_heads? (h : heads? [first, second] = none) : pairs first second = [] := by
  cases first with
  | nil => simp [pairs]
  | cons a first =>
      cases second with
      | nil => exact pairs_nil_right _
      | cons b second => cases h

/-- Lists that agree on a match give it, and go on behind it. -/
theorem heads?_eq_some_of_consecutive (h : heads? [first, second] = some column)
    (hmatch : consecutive place column = true) :
    ∃ a b restFirst restSecond, first = a :: restFirst ∧ second = b :: restSecond ∧
      column = [a, b] ∧ a.position.toNat = place ∧ b.position.toNat = place + 1 := by
  cases first with
  | nil => cases h
  | cons a first =>
      cases second with
      | nil => cases h
      | cons b second =>
          cases h
          simp only [consecutive, Bool.and_true, Bool.and_eq_true, beq_iff_eq] at hmatch
          exact ⟨a, b, first, second, rfl, rfl, rfl, hmatch⟩

/-- Moving both lists up to their lead finds the matches of the walk that start behind the one
before. -/
theorem columns_eq_destutter {rows : List (List Occurrence)} :
    ∀ first second, rows = [first, second] → InOrder first → InOrder second →
      columns rows = ((pairs first second).destutter Behind).map fun pair => [pair.1, pair.2] := by
  fun_induction columns rows with
  | case1 =>
      intro first second hrows
      cases hrows
  | case2 rows hne hnone =>
      rintro first second rfl - -
      rw [pairs_eq_nil_of_heads? hnone]
      rfl
  | case3 rows hne heads hheads target hnone =>
      rintro first second rfl hfirst hsecond
      have hnil : pairs (first.dropWhile (isBelow target))
          (second.dropWhile (isBelow (target + 1))) = [] := pairs_eq_nil_of_heads? hnone
      rw [← pairs_dropBelow_lead hfirst hsecond hheads, hnil]
      rfl
  | case4 rows hne heads hheads target moved hmoved hmatch ih =>
      rintro first second rfl hfirst hsecond
      have hmoved : heads? [first.dropWhile (isBelow target),
          second.dropWhile (isBelow (target + 1))] = some moved := hmoved
      have hsame : pairs (first.dropWhile (isBelow target))
          (second.dropWhile (isBelow (target + 1))) = pairs first second :=
        pairs_dropBelow_lead hfirst hsecond hheads
      have hfirst := hfirst.dropWhile (isBelow target)
      have hsecond := hsecond.dropWhile (isBelow (target + 1))
      have hrest := ih _ _ rfl (hfirst.dropWhile (isBelow (target + 1)))
        (hsecond.dropWhile (isBelow (target + 1 + 1)))
      obtain ⟨a, b, restFirst, restSecond, ha, hb, rfl, hplace, hnext⟩ :=
        heads?_eq_some_of_consecutive hmoved hmatch
      rw [ha] at hfirst
      rw [hb] at hsecond
      have hstep := destutter_pairs_of_eq hfirst hsecond (by omega)
      rw [← ha, ← hb, hplace, hsame] at hstep
      rw [hstep, List.map_cons, hrest]
      rfl
  | case5 rows hne heads hheads target moved hmoved hmatch ih =>
      rintro first second rfl hfirst hsecond
      rw [← pairs_dropBelow_lead hfirst hsecond hheads]
      exact ih _ _ rfl (hfirst.dropWhile _) (hsecond.dropWhile _)

/-! How many matches start at a place. -/

theorem InOrder.countP_eq_zero (h : InOrder (a :: first)) (hlt : place < a.position.toNat) :
    (a :: first).countP (·.position.toNat = place) = 0 := by
  rw [List.countP_eq_zero]
  intro occurrence hm
  have := UInt32.le_iff_toNat_le.1 (h.head_le hm)
  rw [decide_eq_true_eq]
  omega

/-- The walk finds as many matches at a place as both lists have occurrences for. -/
theorem countP_pairs (hfirst : InOrder first) (hsecond : InOrder second) (place : Nat) :
    (pairs first second).countP (·.1.position.toNat = place) =
      min (first.countP (·.position.toNat = place))
        (second.countP (·.position.toNat = place + 1)) := by
  fun_induction pairs first second with
  | case1 second => rw [List.countP_nil, List.countP_nil, Nat.zero_min]
  | case2 a first => rw [List.countP_nil, List.countP_nil, Nat.min_zero]
  | case3 a first b second hlt ih =>
      rw [ih hfirst.of_cons hsecond]
      by_cases hat : a.position.toNat = place
      · rw [hsecond.countP_eq_zero (by omega), Nat.min_zero, Nat.min_zero]
      · rw [List.countP_cons_of_neg (a := a) (by simpa using hat)]
  | case4 a first b second hge hlt ih =>
      rw [ih hfirst hsecond.of_cons]
      by_cases hat : b.position.toNat = place + 1
      · rw [hfirst.countP_eq_zero (by omega), Nat.zero_min, Nat.zero_min]
      · rw [List.countP_cons_of_neg (a := b) (by simpa using hat)]
  | case5 a first b second hge hle ih =>
      by_cases hat : a.position.toNat = place
      · rw [List.countP_cons_of_pos (by simpa using hat),
          List.countP_cons_of_pos (a := a) (by simpa using hat),
          List.countP_cons_of_pos (a := b) (by simp only [decide_eq_true_eq]; omega),
          ih hfirst.of_cons hsecond.of_cons, Nat.add_min_add_right]
      · rw [List.countP_cons_of_neg (by simpa using hat),
          List.countP_cons_of_neg (a := a) (by simpa using hat),
          List.countP_cons_of_neg (a := b) (by simp only [decide_eq_true_eq]; omega),
          ih hfirst.of_cons hsecond.of_cons]

/-- The walk has no two matches at one place exactly if no place has two occurrences in both
lists. -/
theorem destutter_pairs_eq_iff (hfirst : InOrder first) (hsecond : InOrder second) :
    (pairs first second).destutter Behind = pairs first second ↔
      ∀ place : Nat, first.countP (·.position.toNat = place) ≤ 1 ∨
        second.countP (·.position.toNat = place + 1) ≤ 1 := by
  have hstarts : InOrder ((pairs first second).map (·.1)) :=
    hfirst.sublist (map_fst_pairs_sublist first second)
  have hordered := List.pairwise_map.1 hstarts
  have hnodup : (pairs first second).Pairwise Behind ↔
      ((pairs first second).map (·.1.position.toNat)).Nodup := by
    rw [List.Nodup, List.pairwise_map]
    constructor
    · intro h
      exact h.imp Nat.ne_of_lt
    · intro h
      apply (hordered.and h).imp
      rintro p q ⟨hle, hne⟩
      exact Nat.lt_of_le_of_ne (UInt32.le_iff_toNat_le.1 hle) hne
  rw [List.destutter_eq_self_iff, List.isChain_iff_pairwise, hnodup,
    List.nodup_iff_count_le_one]
  refine forall_congr' fun place => ?_
  have hcount : ((pairs first second).map (·.1.position.toNat)).count place =
      min (first.countP (·.position.toNat = place))
        (second.countP (·.position.toNat = place + 1)) := by
    rw [← countP_pairs hfirst hsecond, List.count_eq_countP, List.countP_map]
    rfl
  omega

theorem rowsOf_two (found : List (Occurrence × Occurrence)) :
    rowsOf 2 (found.map fun pair => [pair.1, pair.2]) = [found.map (·.1), found.map (·.2)] := by
  simp [rowsOf, List.range_succ, List.filterMap_map]

theorem countP_occurrences (stream : List UInt32) (place : Nat) :
    (occurrences stream).countP (·.position.toNat = place) =
      stream.countP (·.toNat = place) := by
  conv_rhs => rw [← map_position_occurrences stream, List.countP_map]
  rfl

/-- From two streams whose positions do not go down, the walk gives the table of two terms. The
table of any number of terms, which the other way gives as long as it can count the positions,
has those of its columns that start behind the column before. Both are the same exactly if no
position is repeated in the first stream while the position behind it is repeated in the second. -/
theorem process_eq_columnTable_iff {σ : Type} [PopStream σ UInt32] {sources : List σ}
    {first second : List UInt32} (hsources : List.Forall₂ Gives sources [first, second])
    (hfirst : first.Pairwise (· ≤ ·)) (hsecond : second.Pairwise (· ≤ ·)) :
    ∃ found : List (Occurrence × Occurrence),
      process sources = .ok ⟨[found.map (·.1), found.map (·.2)]⟩ ∧
      columnTable [first, second] = ⟨[(found.destutter Behind).map (·.1),
        (found.destutter Behind).map (·.2)]⟩ ∧
      ((∀ stream ∈ [first, second], stream.length ≤ UInt32.size) →
        gatherTable sources = .ok (columnTable [first, second])) ∧
      (process sources = .ok (columnTable [first, second]) ↔
        ∀ position : Nat, first.countP (·.toNat = position) ≤ 1 ∨
          second.countP (·.toNat = position + 1) ≤ 1) := by
  have hfirst := inOrder_occurrences hfirst
  have hsecond := inOrder_occurrences hsecond
  have hprocess : process sources = .ok (pairTable first second) := by
    match sources, hsources with
    | [_, _], .cons hgives (.cons hgives' .nil) => exact walkTable_eq hgives hgives'
  have hcolumns : columnTable [first, second] = ⟨rowsOf 2 (columns
      [occurrences first, occurrences second])⟩ := rfl
  rw [columns_eq_destutter _ _ rfl hfirst hsecond, rowsOf_two] at hcolumns
  refine ⟨pairs (occurrences first) (occurrences second), hprocess, hcolumns,
    fun hlengths => gatherTable_eq hsources hlengths (List.cons_ne_nil _ _), ?_⟩
  simp only [← countP_occurrences]
  rw [← destutter_pairs_eq_iff hfirst hsecond, hprocess, hcolumns]
  constructor
  · intro h
    have hrow := (List.cons.inj (PositionTable.mk.inj (Except.ok.inj h))).1
    have hlength := congrArg List.length hrow
    rw [List.length_map, List.length_map] at hlength
    exact (List.destutter_sublist _ _).eq_of_length hlength.symm
  · intro h
    rw [h]
    rfl

/-- Positions of two terms, repeated at different places. -/
def apartPositions : List (List UInt32) := [[0, 5, 5, 7], [0, 1, 6, 9, 9]]

/-- Both ways give one table. -/
theorem process_eq_columnTable_iff_apart :
    List.Forall₂ Gives (apartPositions.map ListStream.mk) [[0, 5, 5, 7], [0, 1, 6, 9, 9]] ∧
      (∀ stream ∈ apartPositions, stream.Pairwise (· ≤ ·)) ∧
      process (apartPositions.map ListStream.mk) = .ok (columnTable apartPositions) ∧
      gatherTable (apartPositions.map ListStream.mk) = .ok (columnTable apartPositions) := by
  have hsources : List.Forall₂ Gives (apartPositions.map ListStream.mk)
      [[0, 5, 5, 7], [0, 1, 6, 9, 9]] :=
    .cons (gives_listStream _) (.cons (gives_listStream _) .nil)
  have hordered : ∀ stream ∈ apartPositions, stream.Pairwise (· ≤ ·) := by decide
  have hfirst := hordered _ (List.mem_cons_self ..)
  have hsecond := hordered _ (List.mem_cons_of_mem _ (List.mem_cons_self ..))
  obtain ⟨-, -, -, hgather, hiff⟩ := process_eq_columnTable_iff hsources hfirst hsecond
  refine ⟨hsources, hordered, hiff.2 ?_, hgather (by decide)⟩
  intro position
  by_cases hlow : position < 8
  · revert position
    decide
  · have hbelow : ∀ value ∈ ([0, 5, 5, 7] : List UInt32), value.toNat < 8 := by simp
    have hnone : ([0, 5, 5, 7] : List UInt32).countP (·.toNat = position) = 0 := by
      rw [List.countP_eq_zero]
      intro value hm
      have := hbelow value hm
      rw [decide_eq_true_eq]
      omega
    exact .inl (hnone ▸ Nat.zero_le 1)

/-- Positions of two terms, repeated one behind the other. -/
def besidePositions : List (List UInt32) := [[5, 5], [6, 6]]

/-- The walk finds one more match than the other way. -/
theorem process_ne_columnTable :
    (∀ stream ∈ besidePositions, stream.Pairwise (· ≤ ·)) ∧
      (process (besidePositions.map ListStream.mk)).toOption =
        some ⟨[[⟨5, 0⟩, ⟨5, 1⟩], [⟨6, 0⟩, ⟨6, 1⟩]]⟩ ∧
      (gatherTable (besidePositions.map ListStream.mk)).toOption = some ⟨[[⟨5, 0⟩], [⟨6, 0⟩]]⟩ ∧
      columnTable besidePositions = ⟨[[⟨5, 0⟩], [⟨6, 0⟩]]⟩ ∧
      (process (besidePositions.map ListStream.mk)).toOption ≠
        some (columnTable besidePositions) := by
  decide +kernel

end Concordance.Phrase
