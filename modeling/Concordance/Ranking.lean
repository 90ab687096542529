/-!
# The best of many

`Ranking.best` keeps the `count` best of a list and gives them best first. It keeps
them in a binary heap whose root is the worst of those kept, and a newcomer to a
full heap has to beat the root.

## Implementation notes

Two relations order the entries: `ahead` is a total preorder, "ranked no lower",
by which the heap is arranged, and `beats` decides whether a newcomer replaces the
root. Entries that are ahead of each other come out in an order that is fixed by
the steps of the heap: the newcomer rises past a parent only if it is not ahead of
it; after the root has left, the last entry sinks to a leaf and rises from there;
while sorting, the second of two level children moves up.
-/

namespace Concordance.Ranking
variable {α : Type} (ahead beats : α → α → Bool)

/-- Moves the entry at `place` up until it is ahead of its parent. -/
def rise (heap : Array α) (place : Nat) : Array α :=
  if _ : 0 < place ∧ place < heap.size then
    let parent := (place - 1) / 2
    if ahead heap[place] heap[parent] then heap
    else rise (heap.swap parent place) parent
  else heap
termination_by place

/-- Adds an entry. -/
def push (heap : Array α) (entry : α) : Array α :=
  rise ahead (heap.push entry) heap.size

/-- Moves the entry at `place` down to a leaf, and says to which: the child that others are
ahead of moves up, the second if they are level. -/
def sinkToLeaf (heap : Array α) (place : Nat) : Array α × Nat :=
  let child := 2 * place + 1
  if _ : child + 1 < heap.size then
    if ahead heap[child] heap[child + 1] then
      sinkToLeaf (heap.swap place (child + 1)) (child + 1)
    else sinkToLeaf (heap.swap place child) child
  else if _ : child < heap.size then (heap.swap place child, child)
  else (heap, place)
termination_by heap.size - place
decreasing_by
  all_goals
    rw [Array.size_swap]
    omega

/-- Removes the root: the last entry takes its place, sinks to a leaf and rises. -/
def dropRoot (heap : Array α) : Array α :=
  match heap.back? with
  | none => heap
  | some last =>
    let rest := heap.pop
    if _ : 0 < rest.size then
      let (sunk, place) := sinkToLeaf ahead (rest.set 0 last) 0
      rise ahead sunk place
    else rest

/-- Moves the entry at `place` down among the first `stop` entries until both its children
are ahead of it. -/
def sink (heap : Array α) (stop place : Nat) : Array α :=
  let child := 2 * place + 1
  if _ : child + 1 < stop ∧ stop ≤ heap.size then
    if ahead heap[child] heap[child + 1] then
      if ahead heap[child + 1] heap[place] then heap
      else sink (heap.swap place (child + 1)) stop (child + 1)
    else if ahead heap[child] heap[place] then heap
    else sink (heap.swap place child) stop child
  else if _ : child < stop ∧ stop ≤ heap.size then
    if ahead heap[child] heap[place] then heap else heap.swap place child
  else heap
termination_by stop - place

/-- Sorts a heap: the root goes to the end, and what is before it is a heap again. -/
def sortHeap : (stop : Nat) → Array α → Array α
  | 0, heap => heap
  | stop + 1, heap =>
    if _ : 0 < stop ∧ stop < heap.size then
      sortHeap stop (sink ahead (heap.swap 0 stop) stop 0)
    else heap

/-- Keeps an entry among the `count` best so far, if it is one of them. -/
def offer (count : Nat) (heap : Array α) (entry : α) : Array α :=
  if heap.size < count then push ahead heap entry
  else if _ : 0 < heap.size then
    if beats entry heap[0] then push ahead (dropRoot ahead heap) entry else heap
  else heap

/-- The `count` best entries, best first. -/
def best (count : Nat) (entries : List α) : List α :=
  let heap := entries.foldl (offer ahead beats count) #[]
  (sortHeap ahead heap.size heap).toList

end Concordance.Ranking
