import Concordance.Phrase

/-!
# The matches of lists of positions

What the walkers of a phrase find, told by the lists that they go through. Occurrences
that are popped and passed are dropped from their lists, and the search goes on with the
lists that are left: two are walked together by `pairs`, and any number is moved up to
its lead by `columns`.

## Implementation notes

`lead` takes a start below zero for zero; the first term demands its own position, so the
highest start is not changed by that.
-/

namespace Concordance

namespace Phrase

/-- The occurrences of a term at these positions, numbered from `index` on. -/
def occurrencesFrom (index : Nat) (positions : List UInt32) : List Occurrence :=
  (positions.zipIdx index).map fun (position, index) => ⟨position, index.toUInt32⟩

/-- The occurrences of a term at these positions. -/
def occurrences (positions : List UInt32) : List Occurrence := occurrencesFrom 0 positions

/-- The matches of two terms, by walking both lists. -/
def pairs : (first second : List Occurrence) → List (Occurrence × Occurrence)
  | [], _ => []
  | _ :: _, [] => []
  | a :: first, b :: second =>
    if a.position.toNat + 1 < b.position.toNat then pairs first (b :: second)
    else if b.position.toNat < a.position.toNat + 1 then pairs (a :: first) second
    else (a, b) :: pairs first second
termination_by first second => first.length + second.length

/-- The table of two terms. -/
def pairTable (first second : List UInt32) : PositionTable :=
  let found := pairs (occurrences first) (occurrences second)
  ⟨[found.map (·.1), found.map (·.2)]⟩

/-- The first occurrence of every term, unless one has none. -/
def heads? : List (List Occurrence) → Option (List Occurrence)
  | [] => some []
  | [] :: _ => none
  | (occurrence :: _) :: rows => (heads? rows).map (occurrence :: ·)

/-- The highest start that a first occurrence demands, where the first of these terms is
number `place` of the phrase. -/
def lead : (place : Nat) → List Occurrence → Nat
  | _, [] => 0
  | place, occurrence :: column =>
    max (occurrence.position.toNat - place) (lead (place + 1) column)

/-- Drops the occurrences of each term below its place in a match; the first of these
terms has its place at `position`. -/
def dropBelow : (position : Nat) → List (List Occurrence) → List (List Occurrence)
  | _, [] => []
  | position, row :: rows =>
    row.dropWhile (fun occurrence => occurrence.position.toNat < position)
      :: dropBelow (position + 1) rows

/-- The occurrences stand at `position` and those after it. -/
def consecutive : (position : Nat) → List Occurrence → Bool
  | _, [] => true
  | position, occurrence :: column =>
    occurrence.position.toNat == position && consecutive (position + 1) column

/-- Occurrences in all rows. -/
def occurrenceCount (rows : List (List Occurrence)) : Nat := rows.flatten.length

theorem length_dropWhile_le (p : Occurrence → Bool) (row : List Occurrence) :
    (row.dropWhile p).length ≤ row.length :=
  (List.dropWhile_suffix p).length_le

theorem occurrenceCount_dropBelow_le (position : Nat) (rows : List (List Occurrence)) :
    occurrenceCount (dropBelow position rows) ≤ occurrenceCount rows := by
  induction rows generalizing position with
  | nil => exact Nat.le_refl _
  | cons row rows ih =>
      have hrow := length_dropWhile_le (fun o => o.position.toNat < position) row
      have hrows := ih (position + 1)
      simp only [occurrenceCount, dropBelow, List.flatten_cons, List.length_append] at hrows ⊢
      omega

/-- Lists that are not aligned at their lead lose an occurrence when moved up to it. -/
theorem occurrenceCount_dropBelow_lt (place : Nat) {target : Nat} {rows : List (List Occurrence)}
    {column moved : List Occurrence} (hc : heads? rows = some column)
    (hlead : lead place column ≤ target)
    (hm : heads? (dropBelow (target + place) rows) = some moved)
    (hn : consecutive (target + place) moved = false) :
    occurrenceCount (dropBelow (target + place) rows) < occurrenceCount rows := by
  induction rows generalizing place column moved with
  | nil =>
      simp only [dropBelow, heads?, Option.some.injEq] at hm
      subst hm
      cases hn
  | cons row rows ih =>
      have hrows := occurrenceCount_dropBelow_le (target + place + 1) rows
      have hrow := length_dropWhile_le (fun o => o.position.toNat < target + place) row
      cases row with
      | nil => cases hc
      | cons head tail =>
          simp only [heads?, Option.map_eq_some_iff] at hc
          obtain ⟨rest, hrest, rfl⟩ := hc
          simp only [lead, Nat.max_le] at hlead
          simp only [occurrenceCount, dropBelow, List.flatten_cons, List.length_append]
            at hrows hrow ⊢
          by_cases hlt : head.position.toNat < target + place
          · have hdrop : ((head :: tail).dropWhile
                fun o => decide (o.position.toNat < target + place)).length ≤ tail.length := by
              rw [List.dropWhile_cons_of_pos (by simpa using hlt)]
              exact length_dropWhile_le _ tail
            simp only [List.length_cons]
            omega
          · have hkeep : (head :: tail).dropWhile
                (fun o => decide (o.position.toNat < target + place)) = head :: tail :=
              List.dropWhile_cons_of_neg (by simpa using hlt)
            rw [dropBelow, hkeep, heads?, Option.map_eq_some_iff] at hm
            obtain ⟨movedRest, hmovedRest, rfl⟩ := hm
            have hat : head.position.toNat = target + place := by omega
            simp only [consecutive, hat, beq_self_eq_true, Bool.true_and] at hn
            have := ih (place + 1) hrest hlead.2 hmovedRest hn
            rw [hkeep]
            simp only [occurrenceCount, Nat.add_assoc] at this ⊢
            omega

/-- A match that is passed takes an occurrence with it. -/
theorem occurrenceCount_dropBelow_succ_lt {position : Nat} {rows : List (List Occurrence)}
    {column : List Occurrence} (hne : rows ≠ []) (hc : heads? rows = some column)
    (hm : consecutive position column = true) :
    occurrenceCount (dropBelow (position + 1) rows) < occurrenceCount rows := by
  match rows with
  | [] => exact absurd rfl hne
  | [] :: _ => cases hc
  | (head :: tail) :: rows =>
      simp only [heads?, Option.map_eq_some_iff] at hc
      obtain ⟨rest, -, rfl⟩ := hc
      simp only [consecutive, Bool.and_eq_true, beq_iff_eq] at hm
      have hrows := occurrenceCount_dropBelow_le (position + 1 + 1) rows
      have hdrop : ((head :: tail).dropWhile
          fun o => decide (o.position.toNat < position + 1)).length ≤ tail.length := by
        rw [List.dropWhile_cons_of_pos (by simp only [decide_eq_true_eq]; omega)]
        exact length_dropWhile_le _ tail
      simp only [occurrenceCount, dropBelow, List.flatten_cons, List.length_append,
        List.length_cons] at hrows ⊢
      omega

/-- The matches of any number of terms, by moving all lists up to their lead. -/
def columns (rows : List (List Occurrence)) : List (List Occurrence) :=
  if _ : rows = [] then []
  else
    match _ : heads? rows with
    | none => []
    | some column =>
      let target := lead 0 column
      match _ : heads? (dropBelow target rows) with
      | none => []
      | some moved =>
        if _ : consecutive target moved then
          moved :: columns (dropBelow (target + 1) (dropBelow target rows))
        else columns (dropBelow target rows)
termination_by occurrenceCount rows
decreasing_by
  · next hmatch =>
      have hle := occurrenceCount_dropBelow_le (lead 0 column) rows
      have hne : dropBelow (lead 0 column) rows ≠ [] := by
        cases rows with
        | nil => contradiction
        | cons => simp [dropBelow]
      exact Nat.lt_of_lt_of_le (occurrenceCount_dropBelow_succ_lt hne
        ‹heads? (dropBelow _ rows) = _› hmatch) hle
  · next hmatch =>
      exact occurrenceCount_dropBelow_lt 0 ‹heads? rows = _› (Nat.le_refl _)
        ‹heads? (dropBelow _ rows) = _› (by simpa using hmatch)

/-- The table of any number of terms. -/
def columnTable (streams : List (List UInt32)) : PositionTable :=
  ⟨rowsOf streams.length (columns (streams.map occurrences))⟩

/-- The table of the matches of a phrase, from the positions of its terms in phrase order. -/
def table : (streams : List (List UInt32)) → PositionTable
  | [] => .empty
  | [first, second] => pairTable first second
  | streams => columnTable streams

end Phrase

end Concordance
