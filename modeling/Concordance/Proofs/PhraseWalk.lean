import Concordance.Proofs.PhraseTable

/-!
# Walkers find the matches of the lists they go through

A walker stands on the first of the occurrences that its term has left, and its stream gives
the positions of the others. A pop drops the first occurrence, so that the two walkers of
`walk` go through their lists as `pairs` does, and the walkers of `gather` as `columns` does:
with positions that are popped one by one and only as far as needed, with starts below zero,
and with an end as soon as one stream is at its end. What they find is therefore the table of
all the positions, and it is exact as long as the numbers of the occurrences fit a word.
-/

namespace Concordance.Phrase

open Sequences Result PopStream

variable {σ : Type} [PopStream σ UInt32] {place number : Nat} {position : UInt32}
  {positions : List UInt32} {row first second : List Occurrence} {a b : Occurrence}
  {walker : Walker σ}

theorem ofInt_natCast (n : Nat) : UInt32.ofInt n = n.toUInt32 := by
  rw [← UInt32.toNat_inj]
  simp only [UInt32.ofInt, UInt32.toNat_ofNat', Nat.toUInt32_eq]
  omega

theorem occurrencesFrom_cons (number : Nat) (position : UInt32) (positions : List UInt32) :
    occurrencesFrom number (position :: positions) =
      ⟨position, number.toUInt32⟩ :: occurrencesFrom (number + 1) positions := rfl

namespace Walker

/-- The walker stands on the first of these occurrences, and its stream gives the positions of
the others. -/
inductive On (place : Nat) : Walker σ → List Occurrence → Prop
  | mk {stream : σ} {number : Nat} {position : UInt32} {positions : List UInt32}
      (hgives : Gives stream positions) :
      On place ⟨stream, position.toNat - place, number⟩
        (⟨position, number.toUInt32⟩ :: occurrencesFrom (number + 1) positions)

/-- A pop goes to the first position that the stream gives. -/
theorem exists_pop (hgives : Gives walker.stream (position :: positions))
    (hindex : walker.index + 1 = number) :
    ∃ next, walker.pop place = .ok next ∧ next.index = number ∧
      On place next (occurrencesFrom number (position :: positions)) := by
  obtain ⟨rest, hpop, hrest⟩ := hgives
  refine ⟨⟨rest, position.toNat - place, number⟩, ?_, rfl, .mk hrest⟩
  rw [pop, hpop]
  simp only [hindex]

theorem exists_first (place : Nat) (start : Int) {stream : σ}
    (hgives : Gives stream (position :: positions)) :
    ∃ next, pop place ⟨stream, start, -1⟩ = .ok next ∧ next.index = 0 ∧
      On place next (occurrences (position :: positions)) :=
  exists_pop hgives rfl

namespace On

theorem ne_nil (h : On place walker row) : row ≠ [] := by
  cases h
  exact List.cons_ne_nil _ _

theorem start_eq (h : On place walker (a :: row)) : walker.start = a.position.toNat - place := by
  cases h
  rfl

theorem occurrence_eq (h : On place walker (a :: row)) : walker.occurrence place = a := by
  cases h
  rw [occurrence, Int.sub_add_cancel, ofInt_natCast, ofInt_natCast]
  simp

theorem atEnd_iff (h : On place walker (a :: row)) : walker.atEnd = true ↔ row = [] := by
  cases h with
  | mk hgives =>
      rw [atEnd, hgives.atEnd_eq, List.isEmpty_iff]
      simp [occurrencesFrom]

/-- A pop drops the first occurrence. -/
theorem exists_pop (h : On place walker (a :: b :: row)) :
    ∃ next, walker.pop place = .ok next ∧ next.index = walker.index + 1 ∧
      On place next (b :: row) := by
  generalize hrow : b :: row = rest at h
  cases h with
  | @mk stream number position positions hgives =>
      cases positions with
      | nil => cases hrow
      | cons position positions => exact Walker.exists_pop hgives rfl

end On

end Walker

/-! The walk over two streams. -/

section
variable {walker other : Walker σ}

theorem walk_of_lt (h : walker.start < other.start) :
    walk walker other =
      if walker.atEnd then .ok [] else walker.pop 0 >>= fun next => walk next other := by
  rw [walk, if_pos h]
  split
  · rfl
  · cases walker.pop 0 <;> rfl

theorem walk_of_gt (h : other.start < walker.start) :
    walk walker other =
      if other.atEnd then .ok [] else other.pop 1 >>= fun next => walk walker next := by
  rw [walk, if_neg (Int.not_lt.2 (Int.le_of_lt h)), if_pos h]
  split
  · rfl
  · cases other.pop 1 <;> rfl

theorem walk_of_eq (h : walker.start = other.start) :
    walk walker other =
      if walker.atEnd ∨ other.atEnd then .ok [(walker.occurrence 0, other.occurrence 1)]
      else walker.pop 0 >>= fun next => other.pop 1 >>= fun next' =>
        (walk next next').map ((walker.occurrence 0, other.occurrence 1) :: ·) := by
  rw [walk, if_neg (Int.not_lt.2 (Int.le_of_eq h.symm)), if_neg (Int.not_lt.2 (Int.le_of_eq h))]
  simp only
  split
  · rfl
  · cases walker.pop 0 with
    | error fault => rfl
    | ok next => cases other.pop 1 <;> rfl

/-- Walkers on two lists find the matches of the lists. -/
theorem walk_eq (h : walker.On 0 first) (h' : other.On 1 second) :
    walk walker other = .ok (pairs first second) := by
  fun_induction pairs first second generalizing walker other with
  | case1 => exact absurd rfl h.ne_nil
  | case2 => exact absurd rfl h'.ne_nil
  | case3 a first b second hlt ih =>
      have hstart := h.start_eq
      have hstart' := h'.start_eq
      rw [walk_of_lt (by omega)]
      cases first with
      | nil => rw [if_pos (h.atEnd_iff.2 rfl), pairs]
      | cons c first =>
          obtain ⟨next, hpop, -, hnext⟩ := h.exists_pop
          rw [if_neg (by simp [h.atEnd_iff]), hpop, ok_bind, ih hnext h']
  | case4 a first b second hge hlt ih =>
      have hstart := h.start_eq
      have hstart' := h'.start_eq
      rw [walk_of_gt (by omega)]
      cases second with
      | nil => rw [if_pos (h'.atEnd_iff.2 rfl), pairs]
      | cons c second =>
          obtain ⟨next, hpop, -, hnext⟩ := h'.exists_pop
          rw [if_neg (by simp [h'.atEnd_iff]), hpop, ok_bind, ih h hnext]
  | case5 a first b second hge hle ih =>
      have hstart := h.start_eq
      have hstart' := h'.start_eq
      rw [walk_of_eq (by omega), h.occurrence_eq, h'.occurrence_eq]
      cases first with
      | nil => rw [if_pos (.inl (h.atEnd_iff.2 rfl)), pairs]
      | cons c first =>
          cases second with
          | nil => rw [if_pos (.inr (h'.atEnd_iff.2 rfl)), pairs]
          | cons d second =>
              obtain ⟨next, hpop, -, hnext⟩ := h.exists_pop
              obtain ⟨next', hpop', -, hnext'⟩ := h'.exists_pop
              rw [if_neg (by simp [h.atEnd_iff, h'.atEnd_iff]), hpop, ok_bind, hpop', ok_bind,
                ih hnext hnext']
              rfl

end

/-- From the starts that the walkers set out from, the second pops a position first and then the
first does. -/
theorem walkTable_eq {source other : σ} {stream stream' : List UInt32} (h : Gives source stream)
    (h' : Gives other stream') : walkTable source other = .ok (pairTable stream stream') := by
  suffices hwalk : walk ⟨source, -100, -1⟩ ⟨other, -200, -1⟩ =
      .ok (pairs (occurrences stream) (occurrences stream')) by
    rw [walkTable, hwalk]
    rfl
  rw [walk_of_gt (show (-200 : Int) < -100 by decide)]
  simp only [Walker.atEnd, h'.atEnd_eq]
  cases stream' with
  | nil => cases stream <;> simp [occurrences, occurrencesFrom, pairs]
  | cons position' positions' =>
      obtain ⟨next', hpop', -, hon'⟩ := Walker.exists_first 1 (-200) h'
      have hstart' : next'.start = position'.toNat - 1 := hon'.start_eq
      simp only [List.isEmpty_cons, Bool.false_eq_true, if_false, hpop', ok_bind]
      rw [walk_of_lt (by simp only; omega)]
      simp only [Walker.atEnd, h.atEnd_eq]
      cases stream with
      | nil => simp [occurrences, occurrencesFrom, pairs]
      | cons position positions =>
          obtain ⟨next, hpop, -, hon⟩ := Walker.exists_first 0 (-100) h
          simp only [List.isEmpty_cons, Bool.false_eq_true, if_false, hpop, ok_bind]
          exact walk_eq hon hon'

/-- Once the second stream has given a position, the first has to give one. -/
theorem walkTable_fault {source rest other : σ} {fault : Fault}
    (h' : Gives other (position :: positions)) (hend : PopStream.atEnd source = false)
    (hfault : PopStream.pop source = (.error fault, rest)) :
    walkTable source other = .error fault := by
  obtain ⟨next, hpop, -, hon⟩ := Walker.exists_first 1 (-200) h'
  have hstart : next.start = position.toNat - 1 := hon.start_eq
  rw [walkTable, walk_of_gt (show (-200 : Int) < -100 by decide)]
  simp only [Walker.atEnd, h'.atEnd_eq, List.isEmpty_cons, Bool.false_eq_true, if_false, hpop,
    ok_bind]
  rw [walk_of_lt (by simp only; omega)]
  simp only [Walker.atEnd, hend, Bool.false_eq_true, if_false, Walker.pop, hfault, error_bind]

/-! The moves of any number of walkers. -/

/-- Each walker stands on its list, the first of them being number `place` of the phrase, and the
numbers of the occurrences that are left fit a word. -/
inductive AllOn : (place : Nat) → List (Walker σ) → List (List Occurrence) → Prop
  | nil {place : Nat} : AllOn place [] []
  | cons {place : Nat} {walker : Walker σ} {walkers : List (Walker σ)} {row : List Occurrence}
      {rows : List (List Occurrence)} (hon : walker.On place row)
      (hcount : walker.index + row.length ≤ UInt32.size) (hrest : AllOn (place + 1) walkers rows) :
      AllOn place (walker :: walkers) (row :: rows)

section
variable {walkers moved passed : List (Walker σ)} {rows : List (List Occurrence)} {target : Nat}

omit [PopStream σ UInt32] in
theorem exists_start_eq_highest (hne : walkers ≠ []) :
    ∃ walker ∈ walkers, walker.start = highest walkers := by
  unfold highest
  cases hmax : (walkers.map (·.start)).max? with
  | none => exact absurd (List.map_eq_nil_iff.1 (List.max?_eq_none_iff.1 hmax)) hne
  | some start => exact List.mem_map.1 (List.max?_eq_some_iff.1 hmax).1

theorem Walker.advance_of_stop {start : Int} (h : walker.atEnd ∨ start ≤ walker.start) :
    walker.advance place start = .ok walker := by
  rw [advance, if_pos h]

theorem Walker.advance_of_go {start : Int} (h : ¬ (walker.atEnd ∨ start ≤ walker.start))
    {next : Walker σ} (hpop : walker.popCounted place = .ok next) :
    walker.advance place start = next.advance place start := by
  rw [advance, if_neg h]
  split
  · next hpop' =>
      rw [hpop] at hpop'
      cases hpop'
      rfl
  · next hpop' =>
      rw [hpop] at hpop'
      cases hpop'

/-- A walker drops the occurrences below its place in a match, unless these are all that are
left. -/
theorem Walker.On.advance (hon : walker.On place row)
    (hcount : walker.index + row.length ≤ UInt32.size) :
    ∃ next left, walker.advance place target = .ok next ∧
      row.dropWhile (fun occurrence => occurrence.position.toNat < target + place) = left ∧
      (left = [] ∧ next.start < target ∨
        target ≤ next.start ∧ next.On place left ∧ next.index + left.length ≤ UInt32.size) := by
  induction row generalizing walker with
  | nil => exact absurd rfl hon.ne_nil
  | cons a row ih =>
      have hstart := hon.start_eq
      by_cases hlt : a.position.toNat < target + place
      · rw [List.dropWhile_cons_of_pos (by simpa using hlt)]
        cases row with
        | nil =>
            refine ⟨walker, [], Walker.advance_of_stop (.inl (hon.atEnd_iff.2 rfl)), rfl,
              .inl ⟨rfl, ?_⟩⟩
            omega
        | cons b row =>
            obtain ⟨next, hpop, hindex, hnext⟩ := hon.exists_pop
            simp only [List.length_cons] at hcount
            have hcounted : walker.popCounted place = .ok next := by
              simp only [Walker.popCounted, hpop]
              rw [if_pos (by omega)]
            have hgo : ¬ (walker.atEnd ∨ (target : Int) ≤ walker.start) := by
              simp only [hon.atEnd_iff, reduceCtorEq, false_or]
              omega
            rw [Walker.advance_of_go hgo hcounted]
            apply ih hnext
            simp only [List.length_cons]
            omega
      · rw [List.dropWhile_cons_of_neg (by simpa using hlt)]
        refine ⟨walker, _, Walker.advance_of_stop (.inr (by omega)), rfl, .inr ⟨?_, hon, hcount⟩⟩
        omega

namespace AllOn

theorem ne_nil (h : AllOn place walkers rows) (hne : rows ≠ []) : walkers ≠ [] := by
  cases h with
  | nil => exact absurd rfl hne
  | cons => exact List.cons_ne_nil _ _

/-- The walkers stand on the first occurrences of their lists. -/
theorem heads?_eq (h : AllOn place walkers rows) : heads? rows = some (column place walkers) := by
  induction h with
  | nil => rfl
  | cons hon _ _ ih =>
      obtain ⟨a, row, rfl⟩ := List.exists_cons_of_ne_nil hon.ne_nil
      rw [heads?, ih, column, hon.occurrence_eq]
      rfl

theorem agree_iff (h : AllOn place walkers rows) :
    agree target walkers = true ↔ consecutive (target + place) (column place walkers) = true := by
  induction h with
  | nil => simp [agree, column, consecutive]
  | @cons place walker _ _ _ hon _ _ ih =>
      obtain ⟨a, row, rfl⟩ := List.exists_cons_of_ne_nil hon.ne_nil
      have hstart := hon.start_eq
      have hat : walker.start = (target : Int) ↔ a.position.toNat = target + place := by omega
      simp only [agree, column, consecutive, List.all_cons, Bool.and_eq_true, beq_iff_eq, hat,
        hon.occurrence_eq] at ih ⊢
      rw [ih, Nat.add_assoc]

theorem start_le_lead (h : AllOn place walkers rows) :
    ∀ walker ∈ walkers, walker.start ≤ lead place (column place walkers) := by
  induction h with
  | nil => simp
  | cons hon _ _ ih =>
      obtain ⟨a, row, rfl⟩ := List.exists_cons_of_ne_nil hon.ne_nil
      have hstart := hon.start_eq
      rw [List.forall_mem_cons, column, lead, hon.occurrence_eq]
      refine ⟨by omega, fun walker hm => ?_⟩
      have := ih walker hm
      omega

theorem exists_start_eq_lead (h : AllOn place walkers rows) :
    lead place (column place walkers) = 0 ∨
      ∃ walker ∈ walkers, walker.start = lead place (column place walkers) := by
  induction h with
  | nil => exact .inl rfl
  | @cons place walker walkers _ _ hon _ _ ih =>
      obtain ⟨a, row, rfl⟩ := List.exists_cons_of_ne_nil hon.ne_nil
      have hstart := hon.start_eq
      rw [column, lead, hon.occurrence_eq]
      rcases Nat.le_total (lead (place + 1) (column (place + 1) walkers))
        (a.position.toNat - place) with hle | hle
      · rw [Nat.max_eq_left hle]
        by_cases hlow : a.position.toNat ≤ place
        · exact .inl (Nat.sub_eq_zero_of_le hlow)
        · exact .inr ⟨walker, List.mem_cons_self .., by omega⟩
      · rw [Nat.max_eq_right hle]
        apply ih.imp_right
        rintro ⟨other, hm, hother⟩
        exact ⟨other, List.mem_cons_of_mem _ hm, hother⟩

/-- The first term demands its own position, so that a lead of zero is the highest start as well. -/
theorem highest_eq (h : AllOn 0 walkers rows) (hne : rows ≠ []) {heads : List Occurrence}
    (hheads : heads? rows = some heads) : highest walkers = lead 0 heads := by
  rw [h.heads?_eq, Option.some.injEq] at hheads
  subst hheads
  apply Int.le_antisymm
  · obtain ⟨walker, hm, hstart⟩ := exists_start_eq_highest (h.ne_nil hne)
    rw [← hstart]
    exact h.start_le_lead walker hm
  · rcases h.exists_start_eq_lead with hzero | ⟨walker, hm, hstart⟩
    · rw [hzero]
      cases h with
      | nil => exact absurd rfl hne
      | @cons _ walker walkers _ _ hon _ _ =>
          obtain ⟨a, row, rfl⟩ := List.exists_cons_of_ne_nil hon.ne_nil
          have hstart := hon.start_eq
          have hle := start_le_highest (List.mem_cons_self (a := walker) (l := walkers))
          omega
    · rw [← hstart]
      exact start_le_highest hm

/-- The walkers drop the occurrences below a match that starts at `target`, or else some list has
no others. -/
theorem advanceAll (h : AllOn place walkers rows) (target : Nat) :
    heads? (dropBelow (target + place) rows) = none ∧
        Phrase.advanceAll target place walkers = .ok none ∨
      ∃ moved, Phrase.advanceAll target place walkers = .ok (some moved) ∧
        AllOn place moved (dropBelow (target + place) rows) := by
  induction h with
  | nil => exact .inr ⟨[], rfl, .nil⟩
  | cons hon hcount _ ih =>
      obtain ⟨next, left, hnext, hdrop, ⟨rfl, hlow⟩ | ⟨hhigh, hleft, hcount'⟩⟩ :=
        hon.advance hcount
      · left
        rw [Phrase.advanceAll, hnext, ok_bind, if_pos hlow, dropBelow, hdrop]
        exact ⟨rfl, rfl⟩
      · rw [Phrase.advanceAll, hnext, ok_bind, if_neg (Int.not_lt.2 hhigh), dropBelow, hdrop]
        rcases ih with ⟨hnone, hrest⟩ | ⟨moved, hrest, hmoved⟩
        · left
          obtain ⟨a, left, rfl⟩ := List.exists_cons_of_ne_nil hleft.ne_nil
          rw [heads?, Nat.add_assoc, hnone, hrest]
          exact ⟨rfl, rfl⟩
        · right
          rw [hrest]
          exact ⟨next :: moved, rfl, .cons hleft hcount' hmoved⟩

end AllOn

/-- The walkers start at the first positions, or some stream has none. -/
theorem openAll_eq {sources : List σ} {streams : List (List UInt32)}
    (hsources : List.Forall₂ Gives sources streams)
    (hlengths : ∀ stream ∈ streams, stream.length ≤ UInt32.size) (place : Nat) :
    heads? (streams.map occurrences) = none ∧ openAll place sources = .ok none ∨
      ∃ walkers, openAll place sources = .ok (some walkers) ∧
        AllOn place walkers (streams.map occurrences) := by
  induction hsources generalizing place with
  | nil => exact .inr ⟨[], rfl, .nil⟩
  | @cons source stream sources streams hgives _ ih =>
      rw [List.forall_mem_cons] at hlengths
      simp only [openAll, hgives.atEnd_eq, List.map_cons]
      cases stream with
      | nil => exact .inl ⟨rfl, rfl⟩
      | cons position positions =>
          obtain ⟨walker, hpop, hindex, hon⟩ := Walker.exists_first place 0 hgives
          have hcount : walker.index + (occurrences (position :: positions)).length ≤
              UInt32.size := by
            rw [hindex, occurrences, occurrencesFrom, List.length_map, List.length_zipIdx]
            have := hlengths.1
            omega
          simp only [List.isEmpty_cons, Bool.false_eq_true, if_false, hpop, ok_bind]
          rcases ih hlengths.2 (place + 1) with ⟨hnone, hrest⟩ | ⟨walkers, hrest, hwalkers⟩
          · left
            rw [hrest]
            simp only [occurrences, occurrencesFrom_cons, heads?] at hnone ⊢
            exact ⟨by rw [hnone]; rfl, rfl⟩
          · right
            rw [hrest]
            exact ⟨walker :: walkers, rfl, .cons hon hcount hwalkers⟩

theorem columns_eq_nil_of_heads? (h : heads? rows = none) : columns rows = [] := by
  rw [columns]
  split
  · rfl
  · split
    · rfl
    · next hsome => cases h.symm.trans hsome

theorem gather_of_none (hne : walkers ≠ [])
    (h : advanceAll (highest walkers) 0 walkers = .ok none) : gather walkers = .ok [] := by
  rw [gather, dif_neg hne]
  split <;> simp_all

theorem gather_of_not_agree (hne : walkers ≠ [])
    (h : advanceAll (highest walkers) 0 walkers = .ok (some moved))
    (hagree : ¬ agree (highest walkers) moved) : gather walkers = gather moved := by
  rw [gather, dif_neg hne]
  split <;> simp_all

theorem gather_of_agree_none (hne : walkers ≠ [])
    (h : advanceAll (highest walkers) 0 walkers = .ok (some moved))
    (hagree : agree (highest walkers) moved)
    (h' : advanceAll (highest walkers + 1) 0 moved = .ok none) :
    gather walkers = .ok [column 0 moved] := by
  rw [gather, dif_neg hne]
  split <;> simp_all
  split <;> simp_all

theorem gather_of_agree (hne : walkers ≠ [])
    (h : advanceAll (highest walkers) 0 walkers = .ok (some moved))
    (hagree : agree (highest walkers) moved)
    (h' : advanceAll (highest walkers + 1) 0 moved = .ok (some passed)) :
    gather walkers = (gather passed).map (column 0 moved :: ·) := by
  rw [gather, dif_neg hne]
  split <;> simp_all
  split <;> simp_all

/-- Walkers on lists find the matches of the lists. -/
theorem gather_eq (rows : List (List Occurrence)) :
    ∀ walkers : List (Walker σ), AllOn 0 walkers rows → gather walkers = .ok (columns rows) := by
  fun_induction columns rows with
  | case1 =>
      intro walkers h
      cases h
      rw [gather, dif_pos rfl]
  | case2 rows hne hnone =>
      intro walkers h
      rw [h.heads?_eq] at hnone
      cases hnone
  | case3 rows hne heads hheads target hnone =>
      intro walkers h
      have hhighest : highest walkers = target := h.highest_eq hne hheads
      rcases h.advanceAll target with ⟨-, hmove⟩ | ⟨moved, -, hmoved⟩
      · exact gather_of_none (h.ne_nil hne) (hhighest ▸ hmove)
      · exact absurd (hmoved.heads?_eq.symm.trans hnone) (Option.some_ne_none _)
  | case4 rows hne heads hheads target found hfound hmatch ih =>
      intro walkers h
      have hhighest : highest walkers = target := h.highest_eq hne hheads
      rcases h.advanceAll target with ⟨hnone, -⟩ | ⟨moved, hmove, hmoved⟩
      · exact absurd (hfound.symm.trans hnone) (Option.some_ne_none _)
      · have hcolumn : column 0 moved = found :=
          Option.some.inj (hmoved.heads?_eq.symm.trans hfound)
        have hagree : agree target moved = true := hmoved.agree_iff.2 (hcolumn ▸ hmatch)
        rw [← hhighest] at hmove hagree
        rcases hmoved.advanceAll (target + 1) with ⟨hnone, hpass⟩ | ⟨passed, hpass, hpassed⟩
        · rw [Int.natCast_succ, ← hhighest] at hpass
          have hnil : columns (dropBelow (target + 1) (dropBelow target rows)) = [] :=
            columns_eq_nil_of_heads? hnone
          rw [gather_of_agree_none (h.ne_nil hne) hmove hagree hpass, hcolumn, hnil]
        · rw [Int.natCast_succ, ← hhighest] at hpass
          rw [gather_of_agree (h.ne_nil hne) hmove hagree hpass, ih passed hpassed, hcolumn]
          rfl
  | case5 rows hne heads hheads target found hfound hmatch ih =>
      intro walkers h
      have hhighest : highest walkers = target := h.highest_eq hne hheads
      rcases h.advanceAll target with ⟨hnone, -⟩ | ⟨moved, hmove, hmoved⟩
      · exact absurd (hfound.symm.trans hnone) (Option.some_ne_none _)
      · have hcolumn : column 0 moved = found :=
          Option.some.inj (hmoved.heads?_eq.symm.trans hfound)
        have hagree : ¬ agree target moved = true := by
          rw [hmoved.agree_iff, Nat.add_zero, hcolumn]
          exact hmatch
        rw [← hhighest] at hmove hagree
        rw [gather_of_not_agree (h.ne_nil hne) hmove hagree, ih moved hmoved]

end

section
variable {sources : List σ} {streams : List (List UInt32)}
  (hsources : List.Forall₂ Gives sources streams)
  (hlengths : ∀ stream ∈ streams, stream.length ≤ UInt32.size)

include hsources hlengths in
theorem gatherTable_eq (hne : streams ≠ []) :
    gatherTable sources = .ok (columnTable streams) := by
  have hrows : streams.map occurrences ≠ [] := by simpa using hne
  rw [gatherTable, columnTable, ← hsources.length_eq]
  rcases openAll_eq hsources hlengths 0 with ⟨hnone, hopen⟩ | ⟨walkers, hopen, hwalkers⟩
  · rw [hopen, columns_eq_nil_of_heads? hnone]
    rfl
  · rw [hopen, ok_bind]
    simp only [gather_eq _ walkers hwalkers]
    rfl

end

/-- The table is that of the values the streams give. -/
theorem process_eq {sources : List σ} {streams : List (List UInt32)}
    (hsources : List.Forall₂ Gives sources streams)
    (hlengths : ∀ stream ∈ streams, stream.length ≤ UInt32.size) :
    process sources = .ok (table streams) := by
  match sources, streams, hsources with
  | [], [], _ => rfl
  | [_], [_], hsources => exact gatherTable_eq hsources hlengths (List.cons_ne_nil _ _)
  | [_, _], [_, _], .cons hfirst (.cons hsecond .nil) => exact walkTable_eq hfirst hsecond
  | _ :: _ :: _ :: _, _ :: _ :: _ :: _, hsources =>
      exact gatherTable_eq hsources hlengths (List.cons_ne_nil _ _)

/-- From streams of any kind whose positions do not go down and whose numbers fit a word, a phrase
is matched exactly, by the way that suits the number of its terms and also by the way that suits
any number. -/
theorem process_exact {sources : List σ} {streams : List (List UInt32)}
    (hsources : List.Forall₂ Gives sources streams) (hne : sources ≠ [])
    (hstreams : ∀ stream ∈ streams, stream.Pairwise (· ≤ ·))
    (hlengths : ∀ stream ∈ streams, stream.length ≤ UInt32.size) :
    (∃ table, process sources = .ok table ∧ Exact streams table) ∧
      ∃ table, gatherTable sources = .ok table ∧ Exact streams table := by
  have hne : streams ≠ [] := (ne_nil_of_forall₂ hsources).1 hne
  constructor
  · exact ⟨_, process_eq hsources hlengths, exact_table hne hstreams hlengths⟩
  · exact ⟨_, gatherTable_eq hsources hlengths hne, exact_columnTable hne hstreams hlengths⟩

theorem gives_listStream (values : List UInt32) : Gives (ListStream.mk values) values := by
  induction values with
  | nil => rfl
  | cons value values ih => exact ⟨⟨values⟩, rfl, ih⟩

/-- Positions in order can be written, and a reader gives them again. -/
theorem exists_gives_positions {stream : List UInt32} (h : stream.Pairwise (· ≤ ·)) :
    ∃ reader : PositionReader, Gives reader stream := by
  have hcheck : Posting.checkPositions 0 0 stream = .ok () :=
    Posting.checkPositions_eq_ok_iff.2 ⟨fun position _ => UInt32.zero_le .., h⟩
  obtain ⟨written, hw⟩ := Posting.exists_encodePositions hcheck
  have hat : written.At 0 written := by
    intro i _
    rw [Nat.zero_add]
  exact ⟨_, (PositionRegion.of_at hw hat (Nat.zero_add _)).gives (Nat.le_refl _)⟩

/-- Positions of two terms, with repeated positions in both. -/
def samplePositions : List (List UInt32) := [[0, 5, 5, 7], [0, 1, 6, 6]]

/-- The matches of the two terms. -/
def sampleTable : PositionTable :=
  ⟨[[⟨0, 0⟩, ⟨5, 1⟩, ⟨5, 2⟩], [⟨1, 1⟩, ⟨6, 2⟩, ⟨6, 3⟩]]⟩

/-- Repeated positions are matched exactly, from lists and from written positions. -/
theorem process_exact_repeated :
    (∀ stream ∈ samplePositions, stream.Pairwise (· ≤ ·)) ∧
    (∀ stream ∈ samplePositions, stream.length ≤ UInt32.size) ∧
    List.Forall₂ Gives (samplePositions.map ListStream.mk) samplePositions ∧
    (process (samplePositions.map ListStream.mk) = .ok sampleTable ∧
      Exact samplePositions sampleTable) ∧
    ∃ readers : List PositionReader, List.Forall₂ Gives readers samplePositions ∧
      ∃ table, gatherTable readers = .ok table ∧ Exact samplePositions table := by
  have hordered : ∀ stream ∈ samplePositions, stream.Pairwise (· ≤ ·) := by decide
  have hlengths : ∀ stream ∈ samplePositions, stream.length ≤ UInt32.size := by decide
  have hlists : List.Forall₂ Gives (samplePositions.map ListStream.mk) samplePositions := by
    rw [List.forall₂_map_left_iff, List.forall₂_same]
    exact fun stream _ => gives_listStream stream
  obtain ⟨reader, hreader⟩ := exists_gives_positions (hordered _ (List.mem_cons_self ..))
  obtain ⟨reader', hreader'⟩ := exists_gives_positions
    (hordered _ (List.mem_cons_of_mem _ (List.mem_cons_self ..)))
  have hreaders : List.Forall₂ Gives [reader, reader'] samplePositions :=
    .cons hreader (.cons hreader' .nil)
  obtain ⟨⟨table, htable, hexact⟩, -⟩ :=
    process_exact hlists (List.cons_ne_nil _ _) hordered hlengths
  have hsample : (process (samplePositions.map ListStream.mk)).toOption = some sampleTable := by
    decide +kernel
  rw [htable] at hsample
  cases hsample
  exact ⟨hordered, hlengths, hlists, ⟨htable, hexact⟩, [reader, reader'], hreaders,
    (process_exact hreaders (List.cons_ne_nil _ _) hordered hlengths).2⟩

/-- So many zeros, and then a five. -/
def zerosThenFive (count : Nat) : List UInt32 := List.replicate count 0 ++ [5]

theorem pairs_zerosThenFive (number count : Nat) :
    pairs (occurrencesFrom number (zerosThenFive count)) [⟨6, 0⟩] =
      [(⟨5, (number + count).toUInt32⟩, ⟨6, 0⟩)] := by
  induction count generalizing number with
  | zero => simp [zerosThenFive, occurrencesFrom, pairs]
  | succ count ih =>
      have hrest : zerosThenFive (count + 1) = 0 :: zerosThenFive count := by
        rw [zerosThenFive, List.replicate_succ, List.cons_append, zerosThenFive]
      rw [hrest, occurrencesFrom_cons, pairs, if_pos (show (0 : UInt32).toNat + 1 <
        (6 : UInt32).toNat by decide), ih, Nat.add_assoc, Nat.add_comm 1 count]

/-- The five is matched with a six, and its number is that of the zeros in 32 bits. -/
theorem process_zerosThenFive (count : Nat) :
    process ([zerosThenFive count, [6]].map ListStream.mk) =
      .ok ⟨[[⟨5, count.toUInt32⟩], [⟨6, 0⟩]]⟩ := by
  have htable := walkTable_eq (gives_listStream (zerosThenFive count)) (gives_listStream [6])
  have hpairs : pairs (occurrences (zerosThenFive count)) (occurrences [6]) =
      [(⟨5, (0 + count).toUInt32⟩, ⟨6, 0⟩)] := pairs_zerosThenFive 0 count
  rw [Nat.zero_add] at hpairs
  simp only [pairTable, hpairs] at htable
  exact htable

theorem pairwise_zerosThenFive (count : Nat) : (zerosThenFive count).Pairwise (· ≤ ·) := by
  rw [zerosThenFive, List.pairwise_append, List.pairwise_replicate]
  refine ⟨.inr (UInt32.le_refl 0), List.pairwise_singleton .., ?_⟩
  intro zero hm five _
  rw [List.eq_of_mem_replicate hm]
  exact UInt32.zero_le ..

/-- Behind as many zeros as there are words the five has the number of the first of them, so that
the streams have to be bounded. -/
theorem process_wrapped :
    (∀ stream ∈ [zerosThenFive 4294967296, [6]], stream.Pairwise (· ≤ ·)) ∧
    process ([zerosThenFive 4294967296, [6]].map ListStream.mk) =
      .ok ⟨[[⟨5, 0⟩], [⟨6, 0⟩]]⟩ ∧
    (zerosThenFive 4294967296)[(0 : UInt32).toNat]? = some 0 ∧
    ¬ Exact [zerosThenFive 4294967296, [6]] ⟨[[⟨5, 0⟩], [⟨6, 0⟩]]⟩ := by
  have hhead (count : Nat) : (zerosThenFive (count + 1))[(0 : UInt32).toNat]? = some 0 := rfl
  have hhead := hhead 4294967295
  refine ⟨?_, process_zerosThenFive 4294967296, hhead, ?_⟩
  · intro stream hm
    rcases List.mem_pair.1 hm with rfl | rfl
    · exact pairwise_zerosThenFive 4294967296
    · exact List.pairwise_singleton ..
  · intro hexact
    have hnumber := (hexact.occurrence 0 0 _ _ _ _ rfl rfl rfl rfl).2
    rw [hhead] at hnumber
    exact absurd hnumber (by decide)

end Concordance.Phrase
