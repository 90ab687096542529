import Concordance.Engine.Storage
import Concordance.Proofs.Requests
import Concordance.Proofs.Snapshot

/-!
# Stored engines are loaded back

An engine that was new and took documents can be saved, and loading accepts what it wrote if
the skip span is stored as it is: 32 bits are kept of it. The engine that is loaded then
differs from the saved one in its counters alone and replies to every run of requests alike.
With a longer span, loading depends on what the 32 bits are; `load_saved_iff` says how.

`ofSnapshot_eq_ok_iff` tells loading field by field.
-/

namespace Concordance

open Result

theorem Config.span_congr {config other : Config} (h : config = other) (valid : config.Valid)
    (otherValid : other.Valid) : config.span valid = other.span otherValid := by
  subst h
  rfl

namespace Engine
variable {room : Cache.Room} {engine loaded : Engine} {snapshot : Snapshot} {nextDocId : UInt32}
  {term : String}

theorem loadList_eq_ok_iff {bytes : Bytes} {list : PostingList} :
    loadList nextDocId term bytes = .ok list ↔
      PostingList.decode bytes 0 = .ok (list, bytes.size) ∧
        (0 < list.size → list.lastDocId < nextDocId) := by
  simp only [loadList, throw_eq_error, error_bind, bind_eq_ok_iff, ite_error_eq_ok_iff, pure_eq_ok,
    Prod.exists, Except.ok.injEq, ne_eq, not_not, not_and, UInt32.not_le]
  constructor
  · rintro ⟨found, stop, hdecode, rfl, hbelow, rfl⟩
    exact ⟨hdecode, hbelow⟩
  · rintro ⟨hdecode, hbelow⟩
    exact ⟨list, bytes.size, hdecode, rfl, hbelow, rfl⟩

/-- The engine of a snapshot, if there is one, has its settings, its documents and its lists, and
has done nothing yet. -/
theorem ofSnapshot_eq_ok_iff :
    ofSnapshot room snapshot = .ok engine ↔
      engine.config = snapshot.config ∧
      snapshot.lengths.size = snapshot.nextDocId.toNat ∧
      (∃ lists, List.Forall₂ (fun stored list => list.1 = stored.1 ∧
          loadList snapshot.nextDocId stored.1 stored.2 = .ok list.2) snapshot.postings lists ∧
        engine.index = .ofLists (engine.config.span engine.valid) lists) ∧
      engine.lengths = snapshot.lengths ∧ engine.nextDocId = snapshot.nextDocId ∧
      engine.Unsearched room ∧ engine.counters = ⟨0, 0, 0⟩ := by
  rw [ofSnapshot]
  split
  · next cause hinvalid =>
      constructor
      · intro h
        cases h
      · rintro ⟨hconfig, -⟩
        have hvalid := Config.validate_eq_ok_iff.2 engine.valid
        rw [hconfig, hinvalid] at hvalid
        cases hvalid
  · next hvalid =>
      simp only [throw_eq_error, error_bind, bind_eq_ok_iff, ite_error_eq_ok_iff, ne_eq, not_not,
        liftM_fault_eq_ok_iff, mapM_pair_eq_ok_iff]
      constructor
      · rintro ⟨hcount, lists, hlists, hparts⟩
        rw [ofParts] at hparts
        cases hcache : cacheFor room snapshot.config with
        | error fault =>
            rw [hcache] at hparts
            cases hparts
        | ok cache? =>
            rw [hcache] at hparts
            cases hparts
            exact ⟨rfl, hcount, ⟨lists, hlists, rfl⟩, rfl, rfl, hcache, rfl⟩
      · rintro ⟨hconfig, hcount, ⟨lists, hlists, hindex⟩, hlengths, hnext, hcache, hcounters⟩
        rw [Config.span_congr hconfig engine.valid (Config.validate_eq_ok_iff.1 hvalid)] at hindex
        rw [Unsearched, hconfig] at hcache
        obtain ⟨config, valid, index, lengths, nextDocId, cache?, counters⟩ := engine
        simp only at hconfig hcache hindex hlengths hnext hcounters
        subst hconfig hindex hlengths hnext hcounters
        refine ⟨hcount, lists, hlists, ?_⟩
        rw [ofParts, hcache]
        rfl

section
variable {list : PostingList} {postings : List Posting} {headers : List PostingList.Header} {written : Bytes}

/-- A stored list with postings below the next document is loaded exactly if its span is stored
as it is or what is left of it still has room for all postings. -/
theorem exists_loadList_iff (h : list.Checked postings headers)
    (hdata : list.data.size < UInt32.size) (hpos : 0 < list.size)
    (hlast : list.lastDocId < nextDocId) (hwritten : list.encode = .ok written) :
    (∃ found, loadList nextDocId term written = .ok found) ↔
      list.span.postings < UInt32.size ∨ list.size ≤ list.span.postings % UInt32.size := by
  rw [← h.exists_decode_iff hdata hpos hwritten]
  constructor
  · rintro ⟨found, hfound⟩
    have hdecode := (loadList_eq_ok_iff.1 hfound).1
    have hlist := ((h.decode_stored_iff hdata hwritten).1 hdecode).2.1
    exact ⟨found.span, hlist ▸ hdecode⟩
  · rintro ⟨span, hdecode⟩
    exact ⟨_, loadList_eq_ok_iff.2 ⟨hdecode, fun _ => hlast⟩⟩

theorem loadList_stored (h : list.Checked postings headers)
    (hdata : list.data.size < UInt32.size) (hspan : list.span.postings < UInt32.size)
    (hlast : list.lastDocId < nextDocId) (hwritten : list.encode = .ok written) :
    loadList nextDocId term written = .ok list := by
  have hsame := (Nat.mod_eq_of_lt hspan).symm
  have hdecode := (h.decode_stored_iff hdata hwritten).2 ⟨rfl, rfl, hsame, h.skips_size, h.check⟩
  exact loadList_eq_ok_iff.2 ⟨hdecode, fun _ => hlast⟩

end

theorem snapshot_eq_ok_iff :
    engine.snapshot = .ok snapshot ↔
      ∃ postings, List.Forall₂ (fun entry stored => stored.1 = entry.1 ∧
          entry.2.encode = .ok stored.2) engine.index.lists.toList postings ∧
        snapshot = ⟨engine.config, engine.nextDocId, engine.lengths, postings⟩ := by
  rw [Engine.snapshot, bind_eq_ok_iff]
  simp only [mapM_pair_eq_ok_iff]
  constructor
  · rintro ⟨postings, hpostings, h⟩
    cases h
    exact ⟨postings, hpostings, rfl⟩
  · rintro ⟨postings, hpostings, rfl⟩
    exact ⟨postings, hpostings, rfl⟩

/-- The bytes are a stored form of the engine: the entries of the length table are in some
order. -/
def StoredAs (engine : Engine) (stored : Bytes) : Prop :=
  ∃ snapshot entries, engine.snapshot = .ok snapshot ∧
    entries.Perm snapshot.lengths.lengths.toList ∧ stored = snapshot.encodeIn entries

theorem load_encodeIn {entries : List (UInt32 × UInt32)}
    (hperm : entries.Perm snapshot.lengths.lengths.toList)
    (hsize : (snapshot.encodeIn entries).size < UInt64.size) :
    load room (snapshot.encodeIn entries) = ofSnapshot room snapshot := by
  have hpayload : (snapshot.writePayload entries).size < UInt64.size := by
    rw [Snapshot.encodeIn, Snapshot.size_addHeader] at hsize
    omega
  rw [load, Snapshot.decode_encodeIn hperm hpayload, ok_bind]

namespace Consistent

theorem exists_checked (h : engine.Consistent) (hfits : engine.index.Fits) {list : PostingList}
    (hget : engine.index.get? term = some list) :
    ∃ postings headers, list.Checked postings headers :=
  (h.list term list hget).1.exists_checked (hfits term list hget)

/-- An engine without an outgrown list can be saved. -/
theorem exists_snapshot (h : engine.Consistent) (hfits : engine.index.Fits) :
    ∃ snapshot, engine.snapshot = .ok snapshot := by
  have hstored : ∀ entry ∈ engine.index.lists.toList, ∃ stored : String × Bytes,
      stored.1 = entry.1 ∧ entry.2.encode = .ok stored.2 := by
    rintro ⟨term, list⟩ hm
    have hget := Std.ExtTreeMap.mem_toList_iff_getElem?_eq_some.1 hm
    obtain ⟨postings, headers, hchecked⟩ := h.exists_checked hfits hget
    obtain ⟨written, hwritten, -⟩ := hchecked.decode_encode_iff (hfits term list hget) #[] #[]
    exact ⟨(term, written), rfl, hwritten⟩
  obtain ⟨postings, hpostings⟩ := Sequences.exists_forall₂ hstored
  exact ⟨_, snapshot_eq_ok_iff.2 ⟨postings, hpostings, rfl⟩⟩

/-- The stored lists stand beside the lists of the engine, which were checked. -/
theorem stored_beside (h : engine.Consistent) (hfits : engine.index.Fits)
    {stored : List (String × Bytes)}
    (hstored : List.Forall₂ (fun entry stored => stored.1 = entry.1 ∧
      entry.2.encode = .ok stored.2) engine.index.lists.toList stored) :
    List.Forall₂ (fun stored entry => stored.1 = entry.1 ∧ entry.2.encode = .ok stored.2 ∧
        engine.index.get? entry.1 = some entry.2 ∧
        ∃ postings headers, entry.2.Checked postings headers)
      stored engine.index.lists.toList := by
  have hboth := (List.forall₂_and_left (p := fun entry => entry ∈ engine.index.lists.toList)
    _ _).2 ⟨fun _ hm => hm, hstored⟩
  apply hboth.flip.imp
  rintro stored ⟨term, list⟩ ⟨hm, hterm, hwritten⟩
  have hget := Std.ExtTreeMap.mem_toList_iff_getElem?_eq_some.1 hm
  exact ⟨hterm, hwritten, hget, h.exists_checked hfits hget⟩

/-- With a span that is stored as it is, what is saved is loaded as it was. -/
theorem ofSnapshot_eq (h : engine.Consistent) (hfits : engine.index.Fits)
    (hunsearched : engine.Unsearched room) (hspan : engine.config.skipSpan.toNat < UInt32.size)
    (hsnapshot : engine.snapshot = .ok snapshot) :
    ofSnapshot room snapshot = .ok { engine with counters := ⟨0, 0, 0⟩ } := by
  obtain ⟨stored, hstored, rfl⟩ := snapshot_eq_ok_iff.1 hsnapshot
  apply ofSnapshot_eq_ok_iff.mpr
  refine ⟨rfl, h.size_lengths, ⟨engine.index.lists.toList, ?_, ?_⟩, rfl, rfl, hunsearched, rfl⟩
  · apply (h.stored_beside hfits hstored).imp
    rintro stored ⟨term, list⟩ ⟨hterm, hwritten, hget, postings, headers, hchecked⟩
    obtain ⟨-, hlistSpan, -, hlast⟩ := h.list term list hget
    have hlistSpan : list.span.postings = engine.config.skipSpan.toNat := by
      rw [hlistSpan, h.span_eq]
      rfl
    refine ⟨hterm.symm, loadList_stored hchecked (hfits term list hget) ?_ hlast hwritten⟩
    rwa [hlistSpan]
  · rw [InvertedIndex.ofLists, Table.foldl_insert_of_perm_toList (.refl _), ← h.span_eq]

/-- What is saved can be loaded exactly if the span is stored as it is, or what is left of it
still has room for all postings of each list. -/
theorem exists_ofSnapshot_iff (h : engine.Consistent) (hfits : engine.index.Fits)
    (hunsearched : engine.Unsearched room) (hsnapshot : engine.snapshot = .ok snapshot) :
    (∃ loaded, ofSnapshot room snapshot = .ok loaded) ↔
      ∀ term list, engine.index.get? term = some list →
        engine.config.skipSpan.toNat < UInt32.size ∨
          list.size ≤ engine.config.skipSpan.toNat % UInt32.size := by
  obtain ⟨stored, hstored, rfl⟩ := snapshot_eq_ok_iff.1 hsnapshot
  have hbeside := h.stored_beside hfits hstored
  have hloads {entry : String × PostingList} {stored : String × Bytes}
      (hwritten : entry.2.encode = .ok stored.2) (hget : engine.index.get? entry.1 = some entry.2) :
      (∃ found, loadList engine.nextDocId stored.1 stored.2 = .ok found) ↔
        engine.config.skipSpan.toNat < UInt32.size ∨
          entry.2.size ≤ engine.config.skipSpan.toNat % UInt32.size := by
    obtain ⟨postings, headers, hchecked⟩ := h.exists_checked hfits hget
    obtain ⟨-, hspan, hpos, hlast⟩ := h.list _ _ hget
    rw [exists_loadList_iff hchecked (hfits _ _ hget) hpos hlast hwritten, hspan, h.span_eq]
    rfl
  constructor
  · rintro ⟨loaded, hloaded⟩ term list hget
    obtain ⟨-, -, ⟨lists, hlists, -⟩, -⟩ := ofSnapshot_eq_ok_iff.1 hloaded
    have hm : (term, list) ∈ engine.index.lists.toList :=
      Std.ExtTreeMap.mem_toList_iff_getElem?_eq_some.2 hget
    obtain ⟨stored, hm, -, hwritten, -⟩ := Sequences.exists_beside hbeside.flip hm
    obtain ⟨found, -, -, hfound⟩ := Sequences.exists_beside hlists hm
    exact (hloads hwritten hget).1 ⟨found.2, hfound⟩
  · intro hroom
    have hfound : ∀ pair ∈ stored, ∃ list : String × PostingList, list.1 = pair.1 ∧
        loadList engine.nextDocId pair.1 pair.2 = .ok list.2 := by
      intro pair hm
      obtain ⟨entry, -, -, hwritten, hget, -⟩ := Sequences.exists_beside hbeside hm
      obtain ⟨found, hfound⟩ := (hloads hwritten hget).2 (hroom _ _ hget)
      exact ⟨(pair.1, found), rfl, hfound⟩
    obtain ⟨lists, hlists⟩ := Sequences.exists_forall₂ hfound
    refine ⟨⟨engine.config, engine.valid, .ofLists (engine.config.span engine.valid) lists,
      engine.lengths, engine.nextDocId, engine.cache?, ⟨0, 0, 0⟩⟩, ?_⟩
    apply ofSnapshot_eq_ok_iff.mpr
    exact ⟨rfl, h.size_lengths, ⟨lists, hlists, rfl⟩, rfl, rfl, hunsearched, rfl⟩

theorem exists_save (h : engine.Consistent) (hfits : engine.index.Fits) :
    ∃ stored, engine.save = .ok stored ∧ engine.StoredAs stored := by
  obtain ⟨snapshot, hsnapshot⟩ := h.exists_snapshot hfits
  refine ⟨snapshot.encode, ?_, snapshot, _, hsnapshot, .refl _, rfl⟩
  rw [save, hsnapshot]
  rfl

theorem exists_load_iff (h : engine.Consistent) (hfits : engine.index.Fits)
    (hunsearched : engine.Unsearched room) {stored : Bytes} (hstored : engine.StoredAs stored)
    (hsize : stored.size < UInt64.size) :
    (∃ loaded, load room stored = .ok loaded) ↔
      ∀ term list, engine.index.get? term = some list →
        engine.config.skipSpan.toNat < UInt32.size ∨
          list.size ≤ engine.config.skipSpan.toNat % UInt32.size := by
  obtain ⟨snapshot, entries, hsnapshot, hperm, rfl⟩ := hstored
  rw [load_encodeIn hperm hsize]
  exact h.exists_ofSnapshot_iff hfits hunsearched hsnapshot

end Consistent

section
variable {config : Config} {start : Engine} {additions : List Addition}

theorem grown_of_new (hnew : new room config = .ok start)
    (hgrown : (start.serveAll (additions.map .add)).2 = engine) (hfits : engine.index.Fits) :
    engine.Consistent ∧ engine.Unsearched room ∧ engine.config = config := by
  obtain ⟨hconsistent, hunsearched, hconfig⟩ := consistent_of_new hnew
  subst hgrown
  exact ⟨hconsistent.serveAll hfits, hunsearched.serveAll_add additions,
    (config_serveAll start _).trans hconfig⟩

/-- An engine that was new and took documents can be saved. In whatever order its length table
is stored, what is stored is loaded, and the engine loaded is the one saved with nothing
counted; whatever both are asked for from then on, they reply the same. The stored bytes
have a count of 64 bits, as all that is in memory has. -/
theorem load_eq_saved (hnew : new room config = .ok start)
    (hspan : config.skipSpan.toNat < UInt32.size)
    (hgrown : (start.serveAll (additions.map .add)).2 = engine) (hfits : engine.index.Fits) :
    (∃ stored, engine.save = .ok stored ∧ engine.StoredAs stored) ∧
      ∀ stored, engine.StoredAs stored → stored.size < UInt64.size →
        ∃ loaded, load room stored = .ok loaded ∧ loaded = { engine with counters := ⟨0, 0, 0⟩ } ∧
          ∀ requests, (loaded.serveAll requests).1 = (engine.serveAll requests).1 := by
  obtain ⟨hconsistent, hunsearched, hconfig⟩ := grown_of_new hnew hgrown hfits
  refine ⟨hconsistent.exists_save hfits, ?_⟩
  rintro _ ⟨snapshot, entries, hsnapshot, hperm, rfl⟩ hsize
  refine ⟨_, ?_, rfl, ?_⟩
  · rw [load_encodeIn hperm hsize]
    exact hconsistent.ofSnapshot_eq hfits hunsearched (hconfig ▸ hspan) hsnapshot
  · intro requests
    have halike : engine.Alike { engine with counters := ⟨0, 0, 0⟩ } := ⟨_, rfl⟩
    exact (halike.serveAll requests).symm

/-- The saved bytes have a count of 64 bits; to be decided for an engine without its bytes. -/
theorem size_lt_of_save {stored : Bytes} (hsave : engine.save = .ok stored)
    (h : (engine.snapshot.toOption.all fun snapshot =>
      98 + 8 * snapshot.lengths.lengths.toList.length +
        snapshot.postings.foldr (fun entry size =>
          8 + entry.1.toUTF8.data.size + (8 + entry.2.size) + size) 0 < UInt64.size) = true) :
    stored.size < UInt64.size := by
  obtain ⟨snapshot, hsnapshot, hstored⟩ := bind_eq_ok_iff.1 hsave
  cases hstored
  rw [hsnapshot] at h
  exact Nat.lt_of_le_of_lt snapshot.size_encode_le (of_decide_eq_true h)

/-- The second addition is refused: its offset pair ends before it starts. -/
def sampleAdditions : List Addition :=
  [.text "The quick fox", .document ⟨["fox"], [[⟨4, 2⟩]], [[0]]⟩,
    .document ⟨["fox", "quick"], [[⟨0, 2⟩], []], [[1, 1], [0]]⟩]

/-- A text and a document are stored and loaded, and the next search gives the same. -/
theorem load_eq_saved_fox :
    new .ample .default = .ok sample ∧ Config.default.skipSpan.toNat < UInt32.size ∧
      (sample.serveAll (sampleAdditions.map .add)).2.index.Fits ∧
      ∃ stored loaded, (sample.serveAll (sampleAdditions.map .add)).2.save = .ok stored ∧
        stored.size < UInt64.size ∧ load .ample stored = .ok loaded ∧ loaded.nextDocId = 2 ∧
        (loaded.serveAll [.search ⟨["FOX", "quick"], 3, false, true⟩]).1 =
          ((sample.serveAll (sampleAdditions.map .add)).2.serveAll
            [.search ⟨["FOX", "quick"], 3, false, true⟩]).1 := by
  have hnew : new .ample .default = .ok sample := rfl
  have hspan : Config.default.skipSpan.toNat < UInt32.size := by decide
  have hfits : (sample.serveAll (sampleAdditions.map .add)).2.index.Fits :=
    InvertedIndex.fits_of_all (by decide +kernel)
  obtain ⟨⟨stored, hsave, hstored⟩, hload⟩ := load_eq_saved hnew hspan rfl hfits
  have hsize : stored.size < UInt64.size := size_lt_of_save hsave (by decide +kernel)
  obtain ⟨loaded, hloaded, heq, hreplies⟩ := hload stored hstored hsize
  refine ⟨hnew, hspan, hfits, stored, loaded, hsave, hsize, hloaded, ?_, hreplies _⟩
  rw [heq]
  decide +kernel

/-- An engine that was new and took documents, and of which no list has outgrown the 32-bit
offsets, can be saved. What is stored is loaded exactly if its skip span has 32 bits or the number
of the last 32 bits is no less than the number of postings of any list. -/
theorem load_saved_iff (hnew : new room config = .ok start)
    (hgrown : (start.serveAll (additions.map .add)).2 = engine) (hfits : engine.index.Fits) :
    (∃ stored, engine.save = .ok stored ∧ engine.StoredAs stored) ∧
      ∀ stored, engine.StoredAs stored → stored.size < UInt64.size →
        ((∃ loaded, load room stored = .ok loaded) ↔
          ∀ term list, engine.index.get? term = some list →
            config.skipSpan.toNat < UInt32.size ∨
              list.size ≤ config.skipSpan.toNat % UInt32.size) := by
  obtain ⟨hconsistent, hunsearched, rfl⟩ := grown_of_new hnew hgrown hfits
  refine ⟨hconsistent.exists_save hfits, ?_⟩
  intro stored hstored hsize
  exact hconsistent.exists_load_iff hfits hunsearched hstored hsize

/-- A new engine with this skip span and otherwise the default settings. -/
def ofSpan (skipSpan : UInt64) (positive : 0 < skipSpan.toNat) : Engine where
  config := { skipSpan }
  valid := ⟨positive, valid_default.minTokenLen_pos, valid_default.minTokenLen_le⟩
  index := .empty ⟨skipSpan.toNat, positive⟩
  lengths := .empty
  nextDocId := 0
  cache? := none
  counters := ⟨0, 0, 0⟩

/-- The last 32 bits of the skip span are the number two. -/
def wide : Engine := ofSpan 4294967298 (by decide)

def wideAdditions : List Addition := [.text "a", .text "b a"]

/-- A span of 33 bits is stored as two, which has room for two postings. -/
theorem load_saved_iff_wide :
    new .ample wide.config = .ok wide ∧ (wide.serveAll (wideAdditions.map .add)).2.index.Fits ∧
      ∃ stored, (wide.serveAll (wideAdditions.map .add)).2.save = .ok stored ∧
        stored.size < UInt64.size ∧ ∃ loaded, load .ample stored = .ok loaded := by
  have hnew : new .ample wide.config = .ok wide := rfl
  have hfits : (wide.serveAll (wideAdditions.map .add)).2.index.Fits :=
    InvertedIndex.fits_of_all (by decide +kernel)
  obtain ⟨⟨stored, hsave, hstored⟩, hload⟩ := load_saved_iff hnew rfl hfits
  have hsize : stored.size < UInt64.size := size_lt_of_save hsave (by decide +kernel)
  refine ⟨hnew, hfits, stored, hsave, hsize, (hload stored hstored hsize).2 ?_⟩
  intro term list hget
  have hall : (wide.serveAll (wideAdditions.map .add)).2.index.lists.toList.all
      (fun entry => entry.2.size ≤ 2) = true := by
    decide +kernel
  rw [List.all_eq_true] at hall
  have hsize := hall (term, list) (Std.ExtTreeMap.mem_toList_iff_getElem?_eq_some.2 hget)
  exact .inr (of_decide_eq_true hsize)

/-- The last 32 bits of the skip span are zero. -/
def overwide : Engine := ofSpan 4294967296 (by decide)

/-- A span of 33 bits is stored as zero: the engine takes a text and is saved, and what was
saved is refused. -/
theorem load_saved_overwide :
    new .ample overwide.config = .ok overwide ∧ (overwide.addText "a").1 = .ok 0 ∧
      ∃ stored, (overwide.addText "a").2.save = .ok stored ∧
        ∀ loaded, load .ample stored ≠ .ok loaded := by
  have hnew : new .ample overwide.config = .ok overwide := rfl
  have hadded : (overwide.addText "a").1 = .ok 0 := by decide +kernel
  have hfits : (overwide.addText "a").2.index.Fits :=
    InvertedIndex.fits_of_all (by decide +kernel)
  have hgrown : (overwide.serveAll ([Addition.text "a"].map .add)).2 = (overwide.addText "a").2 :=
    rfl
  obtain ⟨hconsistent, hunsearched, hconfig⟩ := grown_of_new hnew hgrown hfits
  obtain ⟨stored, hsave, hstored⟩ := hconsistent.exists_save hfits
  have hsize : stored.size < UInt64.size := size_lt_of_save hsave (by decide +kernel)
  have hlist : ((overwide.addText "a").2.index.get? "a").map PostingList.size = some 1 := by
    decide +kernel
  obtain ⟨list, hget, hlist⟩ := Option.map_eq_some_iff.1 hlist
  refine ⟨hnew, hadded, stored, hsave, ?_⟩
  intro loaded hloaded
  have hroom := (hconsistent.exists_load_iff hfits hunsearched hstored hsize).1 ⟨loaded, hloaded⟩
    "a" list hget
  rw [hconfig, hlist] at hroom
  exact absurd hroom (by decide)

end

end Engine

end Concordance
