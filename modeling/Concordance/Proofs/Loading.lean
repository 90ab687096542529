import Concordance.Proofs.Failure
import Concordance.Proofs.Storage

/-!
# What loading admits

Loading counts the entries of the length table and compares the last document of each list with
the next id. It looks at neither the ids of the table nor the last id that the table has seen.
Where these are below the next document, every document of the lists has its length and no
search fails for want of one; and an addition that is refused leaves no trace, unless it runs
into a list without an offset left. Where they are not, a document can be without a length, and
an addition is refused after its postings were appended.
-/

namespace Concordance.Engine

open Result PostingList

section
variable {room : Cache.Room} {engine : Engine} {bytes : Bytes} {term : String} {list : PostingList}

theorem load_eq_ok_iff : load room bytes = .ok engine ↔
    ∃ snapshot, Snapshot.decode bytes = .ok snapshot ∧ ofSnapshot room snapshot = .ok engine :=
  bind_eq_ok_iff

/-- The lists of a loaded engine were decoded, and their last documents are below the next. -/
theorem list_of_load (hload : load room bytes = .ok engine)
    (hget : engine.index.get? term = some list) :
    (∃ stored stop, PostingList.decode stored 0 = .ok (list, stop)) ∧
      (0 < list.size → list.lastDocId < engine.nextDocId) := by
  obtain ⟨snapshot, -, hsnapshot⟩ := load_eq_ok_iff.1 hload
  obtain ⟨-, -, ⟨lists, hlists, hindex⟩, -, hnext, -⟩ := ofSnapshot_eq_ok_iff.1 hsnapshot
  rw [hindex, InvertedIndex.get?, InvertedIndex.ofLists] at hget
  have hm : (term, list) ∈ lists := by
    rcases Table.mem_of_getElem?_foldl_insert hget with hm | hempty
    · exact hm
    · rw [Std.ExtTreeMap.getElem?_empty] at hempty
      cases hempty
  obtain ⟨stored, -, -, hstored⟩ := Sequences.exists_beside hlists.flip hm
  obtain ⟨hdecode, hlast⟩ := loadList_eq_ok_iff.1 hstored
  exact ⟨⟨stored.2, stored.2.size, hdecode⟩, hnext ▸ hlast⟩

/-- The lists of a loaded engine hold postings of documents below the next. -/
theorem exists_presents_of_load (hload : load room bytes = .ok engine) :
    ∃ contents, engine.index.Presents contents ∧
      ∀ term, ∀ posting ∈ contents term, posting.docId < engine.nextDocId := by
  have hterm (term : String) : ∃ postings : List Posting,
      (engine.index.get? term = none → postings = []) ∧
      (∀ list, engine.index.get? term = some list → ∃ headers, list.Layout postings headers) ∧
      ∀ posting ∈ postings, posting.docId < engine.nextDocId := by
    cases hget : engine.index.get? term with
    | none => exact ⟨[], by simp⟩
    | some list =>
        obtain ⟨⟨stored, stop, hdecode⟩, hlast⟩ := list_of_load hload hget
        obtain ⟨postings, headers, hchecked⟩ := exists_checked_of_decode hdecode
        refine ⟨postings, by simp, ?_, ?_⟩
        · rintro _ ⟨⟩
          exact ⟨headers, hchecked.toLayout⟩
        · intro posting hm
          apply UInt32.lt_of_le_of_lt (hchecked.docId_le_last hm)
          apply hlast
          rw [hchecked.size_eq]
          exact List.length_pos_of_mem hm
  choose contents heqNil hlayout hbelow using hterm
  exact ⟨contents, ⟨heqNil, hlayout⟩, hbelow⟩

/-- The length table of a loaded engine has as many entries as there are documents. -/
theorem size_lengths_of_load (hload : load room bytes = .ok engine) :
    engine.lengths.size = engine.nextDocId.toNat := by
  obtain ⟨snapshot, -, hsnapshot⟩ := load_eq_ok_iff.1 hload
  obtain ⟨-, hcount, -, hlengths, hnext, -⟩ := ofSnapshot_eq_ok_iff.1 hsnapshot
  rw [hlengths, hnext, hcount]

theorem cacheSound_of_load (hload : load room bytes = .ok engine) : engine.CacheSound := by
  obtain ⟨snapshot, -, hsnapshot⟩ := load_eq_ok_iff.1 hload
  obtain ⟨-, -, -, -, -, hunsearched, -⟩ := ofSnapshot_eq_ok_iff.1 hsnapshot
  intro cache hcache
  rw [Unsearched, hcache] at hunsearched
  exact sound_of_cacheFor hunsearched

/-- The postings of a loaded engine can all be read, their documents are below the next, and the
length table has as many entries as there are documents. If the documents of the table are
below the next as well, they are those that the lists refer to, and no search misses one,
whatever was searched before. -/
theorem lengths_of_load (hload : load room bytes = .ok engine) :
    (∀ term list, engine.index.get? term = some list →
      ∃ postings, list.postings = .ok postings ∧
        ∀ posting ∈ postings, posting.docId < engine.nextDocId) ∧
      engine.lengths.size = engine.nextDocId.toNat ∧
      ((∀ docId ∈ engine.lengths.lengths, docId < engine.nextDocId) →
        (∀ term list postings, engine.index.get? term = some list →
          list.postings = .ok postings →
            ∀ posting ∈ postings, posting.docId ∈ engine.lengths.lengths) ∧
        ∀ earlier query docId, ((engine.searchAll earlier).2.search query).1 ≠
          .error (.unknownDocument docId)) := by
  obtain ⟨contents, hpresents, hbelow⟩ := exists_presents_of_load hload
  have hpostings {term : String} {list : PostingList} (hget : engine.index.get? term = some list) :
      list.postings = .ok (contents term) := by
    obtain ⟨headers, hlayout⟩ := hpresents.layout term list hget
    exact hlayout.postings_eq
  have hsize := size_lengths_of_load hload
  refine ⟨?_, hsize, ?_⟩
  · intro term list hget
    exact ⟨contents term, hpostings hget, hbelow term⟩
  · intro htable
    have hmem (term : String) (posting : Posting) (hm : posting ∈ contents term) :
        posting.docId ∈ engine.lengths.lengths :=
      Table.mem_of_size_eq hsize htable (hbelow term posting hm)
    constructor
    · intro term list postings hget hread posting hm
      rw [hpostings hget, Except.ok.injEq] at hread
      exact hmem term posting (hread ▸ hm)
    · intro earlier query docId herror
      have hfails := fails_search (cacheSound_of_load hload) hpresents (by
        intro term posting hm
        obtain ⟨length, hlength⟩ := Option.isSome_iff_exists.1
          (Std.ExtTreeMap.mem_iff_isSome_getElem?.1 (hmem term posting hm))
        exact ⟨length, DocLengths.length_eq_ok_iff.2 hlength⟩) earlier query
      obtain ⟨_, _, hshortage⟩ := hfails _ herror
      cases hshortage

end

/-- A stored list of one posting, of document zero. -/
def oneBytes : Bytes := #[0, 1, 100, 7, 6, 0, 1, 2, 0, 0, 0, 3, 1, 0, 0]

def oneList : PostingList where
  data := #[6, 0, 1, 2, 0, 0, 0]
  skips := ⟨#[⟨0, 0⟩]⟩
  span := Config.default.span valid_default
  lastDocId := 0
  size := 1

/-- The snapshot of one document, whose length is stored under this id. -/
def oneSnapshot (docId : UInt32) : Snapshot where
  config := .default
  nextDocId := 1
  lengths := ⟨(∅ : Std.ExtTreeMap UInt32 UInt32).insert docId 1, ⟨0x3ff0000000000000⟩, some docId⟩
  postings := [("a", oneBytes)]

/-- The engine of the snapshot. -/
def one (docId : UInt32) : Engine where
  config := .default
  valid := valid_default
  index := .ofLists (Config.default.span valid_default) [("a", oneList)]
  lengths := (oneSnapshot docId).lengths
  nextDocId := 1
  cache? := none
  counters := ⟨0, 0, 0⟩

/-- Loading does not look at the id under which the length is stored. -/
theorem load_one (docId : UInt32) : load .ample (oneSnapshot docId).encode = .ok (one docId) := by
  have hlengths : (oneSnapshot docId).lengths.lengths.size = 1 := by
    rw [oneSnapshot, Std.ExtTreeMap.size_insert]
    simp
  have hpostings : (oneSnapshot docId).postings = [("a", oneBytes)] := rfl
  have hsize : (oneSnapshot docId).encode.size < UInt64.size := by
    apply Nat.lt_of_le_of_lt (oneSnapshot docId).size_encode_le
    rw [Std.ExtTreeMap.length_toList, hlengths, hpostings]
    decide
  rw [Snapshot.encode, load_encodeIn (.refl _) hsize]
  apply ofSnapshot_eq_ok_iff.mpr
  have hlist : loadList 1 "a" oneBytes = .ok oneList := by
    with_unfolding_all rfl
  exact ⟨rfl, hlengths, ⟨[("a", oneList)], .cons ⟨rfl, hlist⟩ .nil, rfl⟩, rfl, rfl, rfl, rfl⟩

/-- The document of the list has its length. -/
theorem lengths_of_load_one :
    load .ample (oneSnapshot 0).encode = .ok (one 0) ∧
      (∀ docId ∈ (one 0).lengths.lengths, docId < (one 0).nextDocId) ∧
      0 ∈ (one 0).lengths.lengths ∧
      (((one 0).searchAll [⟨["b"], 1, false, false⟩]).2.search ⟨["a"], 10, false, true⟩).1 ≠
        .error (.unknownDocument 0) := by
  have hload : load .ample (oneSnapshot 0).encode = .ok (one 0) := load_one _
  have hbelow : ∀ docId ∈ (one 0).lengths.lengths, docId < (one 0).nextDocId := by
    intro docId hm
    simp only [one, oneSnapshot, Std.ExtTreeMap.mem_insert, Std.compare_eq_iff_eq,
      Std.ExtTreeMap.not_mem_empty, or_false] at hm
    rw [← hm]
    decide
  obtain ⟨-, -, hconsistent⟩ := lengths_of_load hload
  obtain ⟨hlengths, hsearch⟩ := hconsistent hbelow
  have hpostings : oneList.postings = .ok [⟨0, 1, [⟨0, 0⟩], [0]⟩] := by with_unfolding_all rfl
  have hget : (one 0).index.get? "a" = some oneList := by with_unfolding_all rfl
  exact ⟨hload, hbelow, hlengths "a" oneList _ hget hpostings _ (List.mem_cons_self ..),
    hsearch _ _ _⟩

/-- A length that is stored under another id is counted but not found. -/
theorem lengths_of_load_five :
    load .ample (oneSnapshot 5).encode = .ok (one 5) ∧
      oneList.postings = .ok [⟨0, 1, [⟨0, 0⟩], [0]⟩] ∧
      (one 5).index.get? "a" = some oneList ∧ 0 ∉ (one 5).lengths.lengths ∧
      ((one 5).search ⟨["a"], 10, false, false⟩).1 = .error (.unknownDocument 0) := by
  refine ⟨load_one _, by with_unfolding_all rfl, by with_unfolding_all rfl, ?_,
    by with_unfolding_all rfl⟩
  simp only [one, oneSnapshot, Std.ExtTreeMap.mem_insert, Std.compare_eq_iff_eq,
    Std.ExtTreeMap.not_mem_empty, or_false]
  decide

/-! An addition that is refused. -/
section
variable {start engine : Engine} {requests : List Request} {addition : Addition}
  {error : SearchError}

/-- Since the start no document was added, or the last one of the length table is below the
next. -/
def Follows (start engine : Engine) : Prop :=
  (engine.lengths.lastDocId? = start.lengths.lastDocId? ∧
      engine.nextDocId = start.nextDocId) ∨
    ∀ last, engine.lengths.lastDocId? = some last → last < engine.nextDocId

theorem Follows.serve (h : start.Follows engine) (request : Request) :
    start.Follows (engine.serve request).2 := by
  cases request with
  | add addition =>
      simp only [Engine.serve, take_eq]
      have hadds := engine.adds (addition.toDocument engine.config.tokenizer)
      generalize engine.add (addition.toDocument engine.config.tokenizer) = added at hadds
      cases hadds with
      | refused | full | behind => exact h
      | @added postings index lengths next hnext _ _ hlengths =>
          right
          intro last hlast
          rw [(DocLengths.of_add hlengths).1, Option.some.injEq] at hlast
          rw [← hlast, UInt32.lt_iff_toNat_lt, ← Word.sum?_eq_some_iff.1 hnext]
          exact Nat.lt_succ_self _
  | search query =>
      obtain ⟨cache?, counters, hsearched⟩ := exists_search engine query
      simp only [Engine.serve, hsearched]
      exact h

theorem Follows.serveAll (h : start.Follows engine) (requests : List Request) :
    start.Follows (engine.serveAll requests).2 := by
  induction requests generalizing engine with
  | nil => exact h
  | cons request requests ih => exact ih (h.serve request)

/-- Whatever an engine was asked for since the start, an addition that is refused leaves it as it
is, unless a list has no offset left or the length table had seen the next document at the
start. Even then it leaves all but the index as it is. A new engine has seen none. -/
theorem take_refused (hreached : (start.serveAll requests).2 = engine)
    (herror : (engine.take addition).1 = .error error) :
    (engine.take addition).2 = engine ∨
      ∃ index, (engine.take addition).2 = { engine with index } ∧
        (error = .construction .bufferFull ∧ ¬ engine.index.Fits ∨
          ∃ last, start.lengths.lastDocId? = some last ∧ start.nextDocId ≤ last ∧
            error = .construction (.lengthOrder start.nextDocId last)) := by
  have hfollows : start.Follows engine := hreached ▸ Follows.serveAll (.inl ⟨rfl, rfl⟩) requests
  rw [take_eq] at herror ⊢
  have hadds := engine.adds (addition.toDocument engine.config.tokenizer)
  generalize engine.add (addition.toDocument engine.config.tokenizer) = added at hadds herror
  cases hadds with
  | refused => exact .inl rfl
  | full hfull index =>
      cases herror
      exact .inr ⟨index, rfl, .inl ⟨rfl, hfull⟩⟩
  | @behind last hlast hle index =>
      cases herror
      refine .inr ⟨index, rfl, .inr ?_⟩
      rcases hfollows with ⟨hlastEq, hnext⟩ | hbelow
      · exact ⟨last, hlastEq ▸ hlast, hnext ▸ hle, by rw [hnext]⟩
      · exact absurd (hbelow last hlast) (UInt32.not_lt.2 hle)
  | added => cases herror

/-- A document with a row too few is refused after a text was added, and nothing is left of
it. -/
theorem take_refused_row :
    ((sample.serveAll [.add (.text "a b"), .search ⟨["a"], 1, false, false⟩]).2.take
        (.document ⟨["b", "c"], [[⟨0, 0⟩]], [[0], [1]]⟩)).1 =
      .error (.construction (.rowCounts 1 2 1 2)) ∧
    ((sample.serveAll [.add (.text "a b"), .search ⟨["a"], 1, false, false⟩]).2.take
        (.document ⟨["b", "c"], [[⟨0, 0⟩]], [[0], [1]]⟩)).2 =
      (sample.serveAll [.add (.text "a b"), .search ⟨["a"], 1, false, false⟩]).2 := by
  have herror : ((sample.serveAll [.add (.text "a b"), .search ⟨["a"], 1, false, false⟩]).2.take
      (.document ⟨["b", "c"], [[⟨0, 0⟩]], [[0], [1]]⟩)).1 =
        .error (.construction (.rowCounts 1 2 1 2)) := by
    decide +kernel
  refine ⟨herror, ?_⟩
  rcases take_refused rfl herror with hsame | ⟨index, -, ⟨hfull, -⟩ | ⟨last, -, -, hlast⟩⟩
  · exact hsame
  · cases hfull
  · cases hlast

/-- The snapshot of an engine without documents, whose length table has seen document seven. -/
def aheadSnapshot : Snapshot := ⟨.default, 0, ⟨∅, .zero, some 7⟩, []⟩

def ahead : Engine := { sample with lengths := aheadSnapshot.lengths }

/-- The engine that is loaded refuses a text, and its index holds the text's term from then
on. -/
theorem take_refused_ahead :
    load .ample aheadSnapshot.encode = .ok ahead ∧
      (ahead.take (.text "a")).1 = .error (.construction (.lengthOrder 0 7)) ∧
      ahead.index.terms = [] ∧ (ahead.take (.text "a")).2.index.terms = ["a"] := by
  refine ⟨?_, by with_unfolding_all rfl, by with_unfolding_all rfl, by with_unfolding_all rfl⟩
  have hsize : aheadSnapshot.encode.size < UInt64.size :=
    Nat.lt_of_le_of_lt aheadSnapshot.size_encode_le (by decide)
  rw [Snapshot.encode, load_encodeIn (.refl _) hsize]
  apply ofSnapshot_eq_ok_iff.mpr
  exact ⟨rfl, by decide, ⟨[], .nil, rfl⟩, rfl, rfl, rfl, rfl⟩

end

end Concordance.Engine
