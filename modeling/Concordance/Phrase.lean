import Concordance.PopStream

/-!
# Phrases

The terms of a phrase occur as a phrase where each stands one position after the
term before it. A match is a column: for every term the position where it stands
and which occurrence of the term this is. The matches of a document form a table
with a row for each term.

The positions of a term come from a stream that is popped only as far as the search
needs it. Two terms are matched by walking both streams together. Any number of terms
is matched by moving all streams up to the highest start that one of them demands,
until all agree.

## Implementation notes

Positions are compared after subtracting the place of the term in the phrase: the
start that the position demands. Starts are integers, since the first position of a
later term may demand one below zero, and since the walk sets out from two starts that
no position demands.
-/

namespace Concordance

/-- Where a term stands, and the number of its occurrences before, in 32 bits. -/
structure Occurrence where
  position : UInt32
  index : UInt32
  deriving DecidableEq, Repr

/-- A row for each term of a phrase, a column for each match. -/
structure PositionTable where
  rows : List (List Occurrence)
  deriving DecidableEq, Repr

namespace PositionTable

def empty : PositionTable := ⟨[]⟩

def rowCount (table : PositionTable) : Nat := table.rows.length

/-- The number of matches. -/
def columnCount (table : PositionTable) : Nat :=
  match table.rows with
  | [] => 0
  | row :: _ => row.length

def isEmpty (table : PositionTable) : Bool := table.columnCount == 0

/-- Where the matches start. -/
def starts (table : PositionTable) : List UInt32 :=
  match table.rows with
  | [] => []
  | row :: _ => row.map (·.position)

end PositionTable

namespace Phrase

/-- Column by column, the rows of a table of `rowCount` rows. -/
def rowsOf (rowCount : Nat) (found : List (List Occurrence)) : List (List Occurrence) :=
  (List.range rowCount).map fun row => found.filterMap (·[row]?)

/-- The positions of a term that are left, the start that the position before them demands,
and the number of that occurrence. -/
structure Walker (σ : Type) where
  stream : σ
  start : Int
  index : Int

variable {σ : Type}

/-- The occurrence at which the term stands. -/
def Walker.occurrence (place : Nat) (walker : Walker σ) : Occurrence :=
  ⟨.ofInt (walker.start + place), .ofInt walker.index⟩

/-- The highest start that one of the walkers demands. -/
def highest (walkers : List (Walker σ)) : Int := (walkers.map (·.start)).max?.getD 0

/-- All walkers demand this start. -/
def agree (target : Int) (walkers : List (Walker σ)) : Bool := walkers.all (·.start == target)

/-- Where the terms stand, the first of them being number `place` of the phrase. -/
def column : (place : Nat) → List (Walker σ) → List Occurrence
  | _, [] => []
  | place, walker :: walkers => walker.occurrence place :: column (place + 1) walkers

theorem start_le_highest {walker : Walker σ} {walkers : List (Walker σ)} (h : walker ∈ walkers) :
    walker.start ≤ highest walkers := by
  have hm : walker.start ∈ walkers.map (·.start) := List.mem_map_of_mem h
  unfold highest
  cases hmax : (walkers.map (·.start)).max? with
  | none => simp [List.max?_eq_none_iff.1 hmax] at hm
  | some start => exact (List.max?_eq_some_iff.1 hmax).2 _ hm

variable [PopStream σ UInt32]

namespace Walker

/-- No position is left. -/
def atEnd (walker : Walker σ) : Bool := PopStream.atEnd walker.stream

def remaining (walker : Walker σ) : Nat := PopStream.remaining walker.stream

/-- Goes to the next position of the term that has this place in the phrase. -/
def pop (place : Nat) (walker : Walker σ) : Except Fault (Walker σ) :=
  match PopStream.pop walker.stream with
  | (.ok position, rest) => .ok ⟨rest, position.toNat - place, walker.index + 1⟩
  | (.error fault, _) => .error fault

/-- Goes to the next position, and counts it in 32 bits. -/
def popCounted (place : Nat) (walker : Walker σ) : Except Fault (Walker σ) :=
  match walker.pop place with
  | .ok next => if next.index < UInt32.size then .ok next else .error .overflow
  | .error fault => .error fault

theorem remaining_lt_of_pop {place : Nat} {walker next : Walker σ}
    (h : walker.pop place = .ok next) : next.remaining < walker.remaining := by
  unfold pop at h
  split at h
  · next hpop =>
      cases h
      exact PopStream.remaining_lt_of_pop hpop
  · cases h

theorem remaining_lt_of_popCounted {place : Nat} {walker next : Walker σ}
    (h : walker.popCounted place = .ok next) : next.remaining < walker.remaining := by
  unfold popCounted at h
  split at h
  · next hpop =>
      split at h
      · cases h
        exact remaining_lt_of_pop hpop
      · cases h
  · cases h

/-- Goes on to the first position that demands at least the start `target`, or else to the last
position. -/
def advance (place : Nat) (target : Int) (walker : Walker σ) : Except Fault (Walker σ) :=
  if walker.atEnd ∨ target ≤ walker.start then .ok walker
  else
    match _h : walker.popCounted place with
    | .ok next => next.advance place target
    | .error fault => .error fault
termination_by walker.remaining
decreasing_by exact remaining_lt_of_popCounted _h

/-- A walker goes on unless it already demands the start. -/
theorem eq_or_remaining_lt_of_advance {place : Nat} {target : Int} {walker next : Walker σ}
    (h : walker.advance place target = .ok next) :
    next = walker ∨ next.remaining < walker.remaining := by
  fun_induction advance place target walker with
  | case1 walker hstays =>
      cases h
      exact .inl rfl
  | case2 walker hgoes popped hpop ih =>
      have hlt := remaining_lt_of_popCounted hpop
      rcases ih h with rfl | hless
      · exact .inr hlt
      · exact .inr (Nat.lt_trans hless hlt)
  | case3 => cases h

end Walker

/-- Walks both streams together: the walker whose start is behind goes on, and both do so from a
match. -/
def walk (first second : Walker σ) : Except Fault (List (Occurrence × Occurrence)) :=
  if first.start < second.start then
    if first.atEnd then .ok []
    else
      match _h : first.pop 0 with
      | .ok next => walk next second
      | .error fault => .error fault
  else if second.start < first.start then
    if second.atEnd then .ok []
    else
      match _h : second.pop 1 with
      | .ok next => walk first next
      | .error fault => .error fault
  else
    let found := (first.occurrence 0, second.occurrence 1)
    if first.atEnd ∨ second.atEnd then .ok [found]
    else
      match _h : first.pop 0 with
      | .error fault => .error fault
      | .ok next =>
        match _h' : second.pop 1 with
        | .error fault => .error fault
        | .ok next' => (walk next next').map (found :: ·)
termination_by first.remaining + second.remaining
decreasing_by
  · have := Walker.remaining_lt_of_pop _h
    omega
  · have := Walker.remaining_lt_of_pop _h
    omega
  · have := Walker.remaining_lt_of_pop _h
    have := Walker.remaining_lt_of_pop _h'
    omega

/-- The table of two terms. The walkers set out from starts that differ and that no position
demands. -/
def walkTable (first second : σ) : Except Fault PositionTable := do
  let found ← walk ⟨first, -100, -1⟩ ⟨second, -200, -1⟩
  return ⟨[found.map (·.1), found.map (·.2)]⟩

/-- Walkers at the first positions, the first of these terms being number `place` of the phrase;
none as soon as a term has no position. -/
def openAll : (place : Nat) → List σ → Except Fault (Option (List (Walker σ)))
  | _, [] => .ok (some [])
  | place, stream :: streams =>
    if PopStream.atEnd stream then .ok none
    else do
      let walker ← Walker.pop place ⟨stream, 0, -1⟩
      let walkers? ← openAll (place + 1) streams
      return walkers?.map (walker :: ·)

/-- Moves the walkers one by one to the start `target`, the first of them being number `place` of
the phrase; none as soon as one cannot get there. -/
def advanceAll (target : Int) : (place : Nat) → List (Walker σ) →
    Except Fault (Option (List (Walker σ)))
  | _, [] => .ok (some [])
  | place, walker :: walkers => do
    let walker ← walker.advance place target
    if walker.start < target then return none
    else
      let walkers? ← advanceAll target (place + 1) walkers
      return walkers?.map (walker :: ·)

/-- Positions that are left in all streams. -/
def remainingAll : List (Walker σ) → Nat
  | [] => 0
  | walker :: walkers => walker.remaining + remainingAll walkers

/-- Walkers that get to a start have passed positions, or stood there before. -/
theorem of_advanceAll {target : Int} {place : Nat} {walkers moved : List (Walker σ)}
    (h : advanceAll target place walkers = .ok (some moved)) :
    moved.length = walkers.length ∧ (∀ walker ∈ moved, target ≤ walker.start) ∧
      (moved = walkers ∨ remainingAll moved < remainingAll walkers) := by
  induction walkers generalizing place moved with
  | nil =>
      cases h
      exact ⟨rfl, fun _ hm => absurd hm List.not_mem_nil, .inl rfl⟩
  | cons walker walkers ih =>
      simp only [advanceAll, bind, Except.bind] at h
      split at h
      · cases h
      · next next hnext =>
          split at h
          · cases h
          · next hge =>
              split at h
              · cases h
              · next rest? hrest =>
                  simp only [pure, Except.pure, Except.ok.injEq, Option.map_eq_some_iff] at h
                  obtain ⟨rest, rfl, rfl⟩ := h
                  obtain ⟨hlength, hstarts, hrest⟩ := ih hrest
                  refine ⟨congrArg Nat.succ hlength,
                    List.forall_mem_cons.2 ⟨Int.not_lt.1 hge, hstarts⟩, ?_⟩
                  simp only [remainingAll]
                  rcases Walker.eq_or_remaining_lt_of_advance hnext with rfl | hless
                  · exact hrest.imp (congrArg _) (by omega)
                  · right
                    rcases hrest with rfl | hless' <;> omega

/-- Walkers that do not agree on the highest start have passed a position on the way to it. -/
theorem remainingAll_lt_of_not_agree {place : Nat} {walkers moved : List (Walker σ)}
    (h : advanceAll (highest walkers) place walkers = .ok (some moved))
    (hagree : ¬ agree (highest walkers) moved) : remainingAll moved < remainingAll walkers := by
  obtain ⟨-, hstarts, hless⟩ := of_advanceAll h
  apply hless.resolve_left
  rintro rfl
  apply hagree
  rw [agree, List.all_eq_true]
  intro walker hm
  exact beq_iff_eq.2 (Int.le_antisymm (start_le_highest hm) (hstarts walker hm))

/-- Walkers that go on from a match all pass a position. -/
theorem remainingAll_lt_of_agree {target : Int} {place : Nat} {walkers moved : List (Walker σ)}
    (hne : walkers ≠ []) (hagree : agree target walkers)
    (h : advanceAll (target + 1) place walkers = .ok (some moved)) :
    remainingAll moved < remainingAll walkers := by
  obtain ⟨-, hstarts, hless⟩ := of_advanceAll h
  apply hless.resolve_left
  rintro rfl
  obtain ⟨walker, hm⟩ := List.exists_mem_of_ne_nil _ hne
  have hat := beq_iff_eq.1 (List.all_eq_true.1 hagree walker hm)
  have hbehind := hstarts walker hm
  omega

/-- The matches of any number of terms, by moving all walkers up to the highest start that one of
them demands. -/
def gather (walkers : List (Walker σ)) : Except Fault (List (List Occurrence)) :=
  if _hne : walkers = [] then .ok []
  else
    match _h : advanceAll (highest walkers) 0 walkers with
    | .error fault => .error fault
    | .ok none => .ok []
    | .ok (some moved) =>
      if _hagree : agree (highest walkers) moved then
        match _h' : advanceAll (highest walkers + 1) 0 moved with
        | .error fault => .error fault
        | .ok none => .ok [column 0 moved]
        | .ok (some passed) => (gather passed).map (column 0 moved :: ·)
      else gather moved
termination_by remainingAll walkers
decreasing_by
  · obtain ⟨hlength, -, hless⟩ := of_advanceAll _h
    have hpassed : remainingAll passed < remainingAll moved := by
      refine remainingAll_lt_of_agree ?_ _hagree _h'
      rintro rfl
      exact _hne (List.length_eq_zero_iff.1 hlength.symm)
    rcases hless with rfl | hless
    · exact hpassed
    · exact Nat.lt_trans hpassed hless
  · exact remainingAll_lt_of_not_agree _h _hagree

/-- The table of any number of terms. -/
def gatherTable (streams : List σ) : Except Fault PositionTable := do
  match ← openAll 0 streams with
  | none => return ⟨rowsOf streams.length []⟩
  | some walkers => return ⟨rowsOf streams.length (← gather walkers)⟩

/-- The table of the matches of a phrase, from streams of the positions of its terms. -/
def process : (streams : List σ) → Except Fault PositionTable
  | [] => .ok .empty
  | [first, second] => walkTable first second
  | streams => gatherTable streams

end Phrase

end Concordance
