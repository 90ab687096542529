import Concordance.PopStream

/-!
# What a stream gives out

A stream gives a list of values if each pop yields the next of them and goes down in
what remains, and nothing remains after the last. Such a stream can be read to its
end without a fault.

Where the states of a stream can be told one by one (`Visits`), it is known how the stream
answers however often it is asked, also past its end (`Serves`).
-/

namespace Concordance.PopStream
variable {σ α : Type} [PopStream σ α]

/-- The stream yields these values, one a pop, and is then at its end. -/
def Gives : σ → List α → Prop
  | stream, [] => remaining stream = 0
  | stream, value :: values =>
    ∃ rest, pop stream = (.ok value, rest) ∧ Gives rest values

theorem atEnd_iff {stream : σ} : atEnd stream = true ↔ remaining stream = 0 := by
  rw [atEnd, beq_iff_eq]

theorem Gives.atEnd_eq {stream : σ} {values : List α} (h : Gives stream values) :
    atEnd stream = values.isEmpty := by
  cases values with
  | nil => exact atEnd_iff.2 h
  | cons value values =>
      obtain ⟨rest, hpop, -⟩ := h
      have hlt := remaining_lt_of_pop hpop
      have hne : ¬ atEnd stream = true := by
        rw [atEnd_iff]
        omega
      simpa using hne

theorem Gives.drainUpTo {stream : σ} {values : List α} (h : Gives stream values) {limit : Nat}
    (hlimit : remaining stream ≤ limit) :
    (drainUpTo limit stream).values = values ∧ (drainUpTo limit stream).fault? = none := by
  induction limit generalizing stream values with
  | zero =>
      cases values with
      | nil => exact ⟨rfl, rfl⟩
      | cons value values =>
          obtain ⟨rest, hpop, -⟩ := h
          have hlt := remaining_lt_of_pop hpop
          omega
  | succ limit ih =>
      cases values with
      | nil =>
          have hend : atEnd stream = true := h.atEnd_eq
          simp [PopStream.drainUpTo, hend]
      | cons value values =>
          have hend : atEnd stream = false := h.atEnd_eq
          obtain ⟨rest, hpop, hrest⟩ := h
          have hlt := remaining_lt_of_pop hpop
          obtain ⟨hvalues, hfault⟩ := ih hrest (by omega)
          simp [PopStream.drainUpTo, hend, hpop, hvalues, hfault]

/-- All values of a stream can be read. -/
theorem Gives.toList {stream : σ} {values : List α} (h : Gives stream values) :
    toList stream = .ok values := by
  obtain ⟨hvalues, hfault⟩ := h.drainUpTo (Nat.le_refl _)
  simp only [PopStream.toList, drain, hfault, hvalues]

/-- A stream gives no more values than remain. -/
theorem Gives.length_le {stream : σ} {values : List α} (h : Gives stream values) :
    values.length ≤ remaining stream := by
  induction values generalizing stream with
  | nil => exact Nat.zero_le _
  | cons value values ih =>
      obtain ⟨rest, hpop, hrest⟩ := h
      have hlt := remaining_lt_of_pop hpop
      have hle := ih hrest
      rw [List.length_cons]
      omega

/-- However often it is asked, the stream gives its values in order, is at its end behind the
last of them and no sooner, and refuses to give more. -/
structure Serves (stream : σ) (values : List α) (past : Fault) : Prop where
  values_take : ∀ count, (take count stream).values = values.take count
  fault?_take : ∀ count,
    (take count stream).fault? = if count ≤ values.length then none else some past
  atEnd_take : ∀ count, atEnd (take count stream).rest = true ↔ values.length ≤ count

/-- The states of a stream, each by the number of values it has given. In the last state it
refuses to give more and stays. -/
structure Visits (state : Nat → σ) (values : List α) (past : Fault) : Prop where
  pop_eq : ∀ {i value}, values[i]? = some value → pop (state i) = (.ok value, state (i + 1))
  pop_end : pop (state values.length) = (.error past, state values.length)
  remaining_iff : ∀ {i}, i ≤ values.length → (remaining (state i) = 0 ↔ values.length ≤ i)

namespace Visits
variable {state : Nat → σ} {values : List α} {past : Fault}

/-- What a stream gives from one of its states on. -/
theorem take_eq (h : Visits state values past) {i : Nat} (hi : i ≤ values.length) (count : Nat) :
    take count (state i) =
      ⟨(values.drop i).take count, if i + count ≤ values.length then none else some past,
        state (min (i + count) values.length)⟩ := by
  induction count generalizing i with
  | zero => simp [take, hi]
  | succ count ih =>
      obtain hlt | rfl := Nat.lt_or_eq_of_le hi
      · have hpop := h.pop_eq (List.getElem?_eq_getElem hlt)
        have hnext := ih (Nat.succ_le_of_lt hlt)
        rw [Nat.succ_add_eq_add_succ] at hnext
        simp only [take, hpop, hnext, List.drop_eq_getElem_cons hlt, List.take_succ_cons]
      · -- Behind the last value the refusal ends the run, however much more is asked for.
        simp [take, h.pop_end]

theorem rest_take (h : Visits state values past) (count : Nat) :
    (take count (state 0)).rest = state (min count values.length) := by
  rw [h.take_eq (Nat.zero_le _), Nat.zero_add]

theorem serves (h : Visits state values past) : Serves (state 0) values past where
  values_take count := by rw [h.take_eq (Nat.zero_le _), List.drop_zero]
  fault?_take count := by rw [h.take_eq (Nat.zero_le _), Nat.zero_add]
  atEnd_take count := by
    rw [h.rest_take, atEnd_iff, h.remaining_iff (Nat.min_le_right ..)]
    omega

end Visits

end Concordance.PopStream
