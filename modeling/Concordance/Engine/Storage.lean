import Concordance.Engine
import Concordance.PostingList.Codec
import Concordance.Snapshot

/-!
# Stored engines

An engine is saved as a snapshot and loaded from one. Loading accepts a snapshot
only if its settings are valid, it has a length for each document id, every posting
list can be read to its last byte and refers to documents below the next id, and
there is room for the cache. A loaded engine starts with an empty cache and fresh counters.
-/

namespace Concordance.Engine

/-- What the engine keeps, with the terms in order. -/
def snapshot (engine : Engine) : Except Fault Snapshot := do
  let postings ← engine.index.lists.toList.mapM fun (term, list) => do
    return (term, ← list.encode)
  return ⟨engine.config, engine.nextDocId, engine.lengths, postings⟩

/-- The stored form of the engine. -/
def save (engine : Engine) : Except Fault Bytes := do
  return (← engine.snapshot).encode

/-- The posting list of a term in a snapshot with this next document id. -/
def loadList (nextDocId : UInt32) (term : String) (bytes : Bytes) :
    Except SearchError PostingList := do
  let (list, stop) ← PostingList.decode bytes 0
  if stop ≠ bytes.size then
    throw (.corruption (.trailingBytes term (bytes.size - stop)))
  if 0 < list.size ∧ nextDocId ≤ list.lastDocId then
    throw (.corruption (.unknownDocId term list.lastDocId nextDocId))
  return list

/-- The engine of a snapshot. -/
def ofSnapshot (room : Cache.Room) (snapshot : Snapshot) : Except SearchError Engine :=
  match _ : snapshot.config.validate with
  | .error cause => .error (.config cause)
  | .ok () => do
    have valid := Config.validate_eq_ok_iff.1 ‹snapshot.config.validate = _›
    if snapshot.lengths.size ≠ snapshot.nextDocId.toNat then
      throw (.corruption (.lengthCount snapshot.lengths.size snapshot.nextDocId))
    let lists ← snapshot.postings.mapM fun (term, bytes) => do
      return (term, ← loadList snapshot.nextDocId term bytes)
    ofParts room snapshot.config valid (.ofLists (snapshot.config.span valid) lists)
      snapshot.lengths snapshot.nextDocId

/-- The engine of stored bytes. -/
def load (room : Cache.Room) (bytes : Bytes) : Except SearchError Engine := do
  ofSnapshot room (← Snapshot.decode bytes)

end Concordance.Engine
