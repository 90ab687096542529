import Concordance.Fault

/-!
# Streams of values

A stream gives its values one at a time. Asking for a value gives the value or a
fault, and in either case the state the stream is left in: a read that fails
halfway has moved the stream as far as it got.

`drain` takes values until the end or a fault, `take` a given number of times
even past the end, and `toList` gives all values or the fault that stopped it.
-/

namespace Concordance

/-- Values of type `α` given out by a state of type `σ`. What remains is zero exactly at the
end, and goes down with each value given out. -/
class PopStream (σ : Type) (α : outParam Type) where
  remaining : σ → Nat
  pop : σ → Except Fault α × σ
  remaining_lt_of_pop {stream rest : σ} {value : α} (h : pop stream = (.ok value, rest)) :
    remaining rest < remaining stream

namespace PopStream
variable {σ α : Type} [PopStream σ α]

/-- No value is left. -/
def atEnd (stream : σ) : Bool :=
  remaining stream == 0

/-- What a run over a stream gave out, the fault that ended it, if any, and the
stream it left. -/
structure Drained (σ α : Type) where
  values : List α
  fault? : Option Fault
  rest : σ

/-- Asks for `count` values and stops early only at a fault. -/
def take : (count : Nat) → σ → Drained σ α
  | 0, stream => ⟨[], none, stream⟩
  | count + 1, stream =>
    match pop stream with
    | (.ok value, rest) =>
      let drained := take count rest
      { drained with values := value :: drained.values }
    | (.error fault, rest) => ⟨[], some fault, rest⟩

/-- Asks for values until the end, at most `limit` of them. -/
def drainUpTo : (limit : Nat) → σ → Drained σ α
  | 0, stream => ⟨[], none, stream⟩
  | limit + 1, stream =>
    if atEnd stream then ⟨[], none, stream⟩
    else
      match pop stream with
      | (.ok value, rest) =>
        let drained := drainUpTo limit rest
        { drained with values := value :: drained.values }
      | (.error fault, rest) => ⟨[], some fault, rest⟩

/-- Asks for values until the end. -/
def drain (stream : σ) : Drained σ α :=
  drainUpTo (remaining stream) stream

/-- All values, or the fault that stopped the run. -/
def toList (stream : σ) : Except Fault (List α) :=
  let drained := drain stream
  match drained.fault? with
  | none => .ok drained.values
  | some fault => .error fault

end PopStream

/-- The stream of the values of a list. -/
structure ListStream (α : Type) where
  values : List α

instance {α : Type} : PopStream (ListStream α) α where
  remaining stream := stream.values.length
  pop stream :=
    match stream.values with
    | [] => (.error (.exhausted .vector), stream)
    | value :: rest => (.ok value, ⟨rest⟩)
  remaining_lt_of_pop {stream rest value} h := by
    cases hvalues : stream.values with
    | nil => simp [hvalues] at h
    | cons head tail =>
        simp only [hvalues, Prod.mk.injEq] at h ⊢
        rw [← h.2]
        exact Nat.lt_succ_self _

end Concordance
