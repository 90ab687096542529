import Concordance.Fault

/-!
# Caches of answers

A cache keeps at most `capacity` values under their keys and gives up the one that
was not used for longest. Putting a value and finding one are uses; looking for a
key in vain is none. The table of a cache is made for all its values at once, so that
there must be room for them when the cache is made.
-/

namespace Concordance

structure Cache (κ ν : Type) where
  capacity : Nat
  /-- The values kept, the one last used first. -/
  entries : List (κ × ν)
  hits : Nat
  misses : Nat
  /-- The number of values kept, as it was counted when they were last changed. -/
  counted : Nat

namespace Cache

/-- What a cache tells of itself. -/
structure Stats where
  hits : Nat
  misses : Nat
  size : Nat
  capacity : Nat
  deriving DecidableEq, Repr

variable {κ ν : Type} [DecidableEq κ]

/-- A cache for so many values, for one at least. -/
def ofCapacity (capacity : Nat) : Cache κ ν := ⟨max capacity 1, [], 0, 0, 0⟩

/-- What comes of asking for room for so many values. How much room there is, and which fault
the lack of it is, depends on the machine. -/
abbrev Room := Nat → Except Fault Unit

/-- Room for any number of values. -/
def Room.ample : Room := fun _ => .ok ()

/-- A cache for so many values; a fault if there is no room for them. -/
def allocate (room : Room) (capacity : Nat) : Except Fault (Cache κ ν) := do
  room capacity
  return ofCapacity capacity

def size (cache : Cache κ ν) : Nat := cache.entries.length

def isEmpty (cache : Cache κ ν) : Bool := cache.entries.isEmpty

/-- The entries under other keys. -/
def others (cache : Cache κ ν) (key : κ) : List (κ × ν) :=
  cache.entries.filter (·.1 ≠ key)

/-- Looks for a key. -/
def get (cache : Cache κ ν) (key : κ) : Option ν × Cache κ ν :=
  match cache.entries.find? (·.1 = key) with
  | some (_, value) =>
    (some value,
      { cache with entries := (key, value) :: cache.others key, hits := cache.hits + 1 })
  | none => (none, { cache with misses := cache.misses + 1 })

/-- Puts a value under a key, in place of any other there. -/
def put (cache : Cache κ ν) (key : κ) (value : ν) : Cache κ ν :=
  let entries := (key, value) :: (cache.others key).take (cache.capacity - 1)
  { cache with entries, counted := entries.length }

/-- Gives up all values. -/
def clear (cache : Cache κ ν) : Cache κ ν := { cache with entries := [], counted := 0 }

def stats (cache : Cache κ ν) : Stats :=
  ⟨cache.hits, cache.misses, cache.counted, cache.capacity⟩

/-- The part of all searches that found their key; zero before the first. -/
def hitRate (cache : Cache κ ν) : Float :=
  let total := cache.hits + cache.misses
  if total = 0 then 0.0 else Float.ofNat cache.hits / Float.ofNat total

end Cache

end Concordance
