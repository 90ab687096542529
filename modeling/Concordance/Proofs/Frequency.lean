import Concordance.Proofs.Records
import Concordance.Proofs.Table
import Mathlib.Algebra.BigOperators.Group.List.Basic
import Mathlib.Data.List.Nodup

/-!
# Lengths are frequencies

The length table and the posting lists are written by different parts of an addition, and both
say how long a document is: the table outright, the lists by the frequencies that they store
for the document. An engine that was new and was called for whatever has both in step.
-/

namespace Concordance

open Sequences Result

/-- Where no key comes twice, what is found under all keys is all there is. -/
theorem Sequences.foldl_find? {β : Type} {rows : List (String × β)} {keys : List String}
    (weight : String × β → Nat) (hkeys : keys.Nodup) (hrows : (rows.map (·.1)).Nodup)
    (hmem : ∀ row ∈ rows, row.1 ∈ keys) :
    keys.foldl (fun total key => total + (rows.find? (·.1 = key)).elim 0 weight) 0 =
      rows.foldl (fun total row => total + weight row) 0 := by
  have hsum {γ : Type} (f : γ → Nat) (xs : List γ) :
      xs.foldl (fun total x => total + f x) 0 = (xs.map f).sum := by
    rw [List.sum_eq_foldl, List.foldl_map]
  rw [hsum, hsum]
  induction rows generalizing keys with
  | nil => simp
  | cons row rows ih =>
      rw [List.map_cons, List.nodup_cons] at hrows
      rw [List.forall_mem_cons] at hmem
      have hother : ∀ other ∈ rows, other.1 ∈ keys.erase row.1 := by
        intro other hm
        have hne : other.1 ≠ row.1 :=
          ne_of_mem_of_not_mem (List.mem_map_of_mem (f := Prod.fst) hm) hrows.1
        exact hkeys.mem_erase_iff.2 ⟨hne, hmem.2 other hm⟩
      have hrest := ih (hkeys.erase _) hrows.2 hother
      have hfind : ∀ key ∈ keys.erase row.1, ((row :: rows).find? (·.1 = key)).elim 0 weight =
          (rows.find? (·.1 = key)).elim 0 weight := by
        intro key hm
        have hne := (hkeys.mem_erase_iff.1 hm).1
        rw [List.find?_cons_of_neg (by simpa using hne.symm)]
      calc
        _ = ((row.1 :: keys.erase row.1).map fun key =>
              ((row :: rows).find? (·.1 = key)).elim 0 weight).sum :=
            ((List.perm_cons_erase hmem.1).map _).sum_eq
        _ = weight row + (rows.map weight).sum := by
            rw [List.map_cons, List.sum_cons, List.map_congr_left hfind, hrest]
            simp
        _ = ((row :: rows).map weight).sum := List.sum_cons.symm

/-- The frequency that a list stores for a document; zero if it does not have the document. -/
def PostingList.frequency (list : PostingList) (docId : UInt32) : Nat :=
  match list.postings with
  | .ok postings => (postings.find? (·.docId = docId)).elim 0 (·.termFreq.toNat)
  | .error _ => 0

/-- The frequencies that the lists of all terms store for a document, summed. -/
def InvertedIndex.frequency (index : InvertedIndex) (docId : UInt32) : Nat :=
  index.lists.foldl (fun total _ list => total + list.frequency docId) 0

namespace Engine

/-- The parts of an engine that additions write are in step. -/
structure InStep (engine : Engine) : Prop where
  docCount_eq : engine.docCount = engine.nextDocId.toNat
  mem_lengths_iff : ∀ docId, docId ∈ engine.lengths.lengths ↔ docId < engine.nextDocId
  list : ∀ term list, engine.index.get? term = some list →
    0 < list.size ∧ list.span = engine.config.span engine.valid ∧
      ∃ postings, list.postings = .ok postings ∧
        postings.Pairwise (fun posting other => posting.docId < other.docId) ∧
        ∀ posting ∈ postings, posting.docId < engine.nextDocId
  length_eq_frequency : ∀ docId, docId < engine.nextDocId →
    ∃ length, engine.lengths.length docId = .ok length ∧
      length.toNat = engine.index.frequency docId

section
variable {engine : Engine} {documents : List Document} {document : Document} {docId : UInt32}
  {term : String} {list : PostingList}

/-- The list of a term can be read, and its postings are those of the documents. -/
theorem Records.postings_eq (h : engine.Records documents)
    (hget : engine.index.get? term = some list) : list.postings = .ok (contentsOf documents term) := by
  obtain ⟨-, headers, hlayout⟩ := h.index.layout hget
  exact hlayout.postings_eq

/-- The offset pairs of a document are those of its rows. -/
theorem Regular.map_rows (h : Regular document) : document.rows.map (·.2.1) = document.offsets := by
  have hle : (document.offsets.zip document.positions).length ≤ document.terms.length := by
    rw [List.length_zip, ← h.length_offsets, ← h.length_positions, Nat.min_self]
  calc
    document.rows.map (·.2.1) = (document.rows.map Prod.snd).map Prod.fst := by rw [List.map_map]; rfl
    _ = (document.offsets.zip document.positions).map Prod.fst := by
      rw [Document.rows, List.map_snd_zip hle]
    _ = document.offsets :=
      List.map_fst_zip (Nat.le_of_eq (h.length_offsets.symm.trans h.length_positions))

/-- A list stores for a document the number of offset pairs in the row of its term. -/
theorem Records.frequency_eq (h : engine.Records documents)
    (hget : engine.index.get? term = some list) (hdocument : documents[docId.toNat]? = some document)
    (hlength : document.offsets.flatten.length < UInt32.size) :
    list.frequency docId = (document.rows.find? (·.1 = term)).elim 0 (·.2.1.length) := by
  have hcount : documents.length < UInt32.size := h.nextDocId_eq ▸ engine.nextDocId.toNat_lt
  obtain ⟨-, headers, hlayout⟩ := h.index.layout hget
  rw [PostingList.frequency, h.postings_eq hget]
  simp only
  cases hrow : document.rows.find? (·.1 = term) with
  | none =>
      have hnone : (contentsOf documents term).find? (·.docId = docId) = none := by
        rw [List.find?_eq_none] at hrow ⊢
        intro posting hm hdocId
        obtain ⟨other, hother, row, hmem, hterm, -⟩ := mem_contentsOf hcount hm
        rw [of_decide_eq_true hdocId, hdocument, Option.some.injEq] at hother
        exact hrow row (hother ▸ hmem) (decide_eq_true hterm)
      rw [hnone]
      rfl
  | some row =>
      obtain ⟨hm, hterm⟩ : row ∈ document.rows ∧ row.1 = term :=
        ⟨List.mem_of_find?_eq_some hrow, by simpa using List.find?_some hrow⟩
      have hnumber : docId.toNat.toUInt32 = docId := by rw [Nat.toUInt32_eq, UInt32.ofNat_toNat]
      have hposting : (InvertedIndex.rowPosting docId row).2 ∈ contentsOf documents term :=
        mem_contentsOf_iff.2 ⟨docId.toNat, document, hdocument, row, hm, hterm, by rw [hnumber]⟩
      have hfound : (contentsOf documents term).find? (·.docId = docId) =
          some (InvertedIndex.rowPosting docId row).2 := by
        have hnodup : ((contentsOf documents term).map (·.docId)).Nodup :=
          List.pairwise_map.2 (hlayout.ordered.imp UInt32.ne_of_lt)
        have hsome : ((contentsOf documents term).find? (·.docId = docId)).isSome = true :=
          List.find?_isSome.2 ⟨_, hposting, decide_eq_true rfl⟩
        obtain ⟨found, hfound⟩ := Option.isSome_iff_exists.1 hsome
        have hdocId : found.docId = docId := by simpa using List.find?_some hfound
        rw [hfound]
        exact congrArg some
          (List.inj_on_of_nodup_map hnodup (List.mem_of_find?_eq_some hfound) hposting hdocId)
      have hpairs : row.2.1.length < UInt32.size := by
        have hoffsets : row.2.1 ∈ document.offsets := by
          rw [← (h.regular document (List.mem_of_getElem? hdocument)).map_rows]
          exact List.mem_map_of_mem hm
        calc
          row.2.1.length ≤ document.offsets.flatten.length :=
            (List.sublist_flatten_of_mem hoffsets).length_le
          _ < UInt32.size := hlength
      rw [hfound]
      exact UInt32.toNat_ofNat_of_lt' hpairs

theorem Records.index_frequency_eq (h : engine.Records documents)
    (hdocument : documents[docId.toNat]? = some document)
    (hlength : document.offsets.flatten.length < UInt32.size) :
    engine.index.frequency docId = document.offsets.flatten.length := by
  have hregular := h.regular document (List.mem_of_getElem? hdocument)
  have hkeys : (engine.index.lists.toList.map (·.1)).Nodup := by
    rw [Std.ExtTreeMap.map_fst_toList_eq_keys]
    exact Std.ExtTreeMap.nodup_keys
  have hmem : ∀ row ∈ document.rows, row.1 ∈ engine.index.lists.toList.map (·.1) := by
    intro row hm
    have hposting : (InvertedIndex.rowPosting docId.toNat.toUInt32 row).2 ∈
        contentsOf documents row.1 :=
      mem_contentsOf_iff.2 ⟨docId.toNat, document, hdocument, row, hm, rfl, rfl⟩
    obtain ⟨list, hget, -⟩ := h.index.presents.exists_list (List.ne_nil_of_mem hposting)
    exact List.mem_map.2 ⟨(row.1, list), Std.ExtTreeMap.mem_toList_iff_getElem?_eq_some.2 hget, rfl⟩
  rw [InvertedIndex.frequency, Std.ExtTreeMap.foldl_eq_foldl_toList]
  have hlists := foldl_find? (fun row => row.2.1.length) hkeys hregular.nodup hmem
  calc
    _ = (engine.index.lists.toList.map (·.1)).foldl (fun total key =>
          total + (document.rows.find? (·.1 = key)).elim 0 fun row => row.2.1.length) 0 := by
        rw [List.foldl_map]
        apply List.foldl_ext
        intro total entry hm
        have hget : engine.index.get? entry.1 = some entry.2 :=
          Std.ExtTreeMap.mem_toList_iff_getElem?_eq_some.1 hm
        rw [h.frequency_eq hget hdocument hlength]
    _ = document.offsets.foldl (fun total pairs => total + pairs.length) 0 := by
        rw [hlists, ← hregular.map_rows, List.foldl_map]
    _ = document.offsets.flatten.length := by
        rw [List.length_flatten, List.sum_eq_foldl, List.foldl_map]

variable {start : Engine} {room : Cache.Room} {config : Config} {calls : List (Call × Response)}

/-- Whatever a new engine was called for, its parts are in step then, the documents that it
accepted have the ids from zero on, and it misses no document in any search. -/
theorem inStep_of_calls (hnew : new room config = .ok start) (hcalls : start.Calls calls engine)
    (hfits : engine.index.Fits)
    (hlengths : ∀ document ∈ accepted config.tokenizer calls,
      document.offsets.flatten.length < UInt32.size) :
    engine.InStep ∧
      (ids calls).map (·.toNat) = List.range (accepted config.tokenizer calls).length ∧
      engine.nextDocId.toNat = (accepted config.tokenizer calls).length ∧
      (∀ call ∈ calls, ∀ result ∈ call.2.results, ∀ docId,
        result ≠ .error (.unknownDocument docId)) ∧
      ∀ query docId, (engine.search query).1 ≠ .error (.unknownDocument docId) := by
  obtain ⟨hconsistent, -, rfl⟩ := consistent_of_new hnew
  obtain ⟨hrecords, hids, hresults⟩ := (records_of_new hnew).of_calls hcalls hfits
  rw [List.nil_append] at hrecords
  rw [List.length_nil, ← List.range_eq_range'] at hids
  have hunknown {result : Except SearchError (List Answer)}
      (hfails : Fails Hit.OffsetShortage result) (docId : UInt32) :
      result ≠ .error (.unknownDocument docId) := by
    intro herror
    obtain ⟨_, _, hshortage⟩ := hfails _ herror
    cases hshortage
  have hlast := hconsistent.of_calls hcalls hfits
  refine ⟨⟨hlast.size_lengths, ?_, ?_, ?_⟩, hids, hrecords.nextDocId_eq, ?_, ?_⟩
  · intro docId
    exact ⟨hlast.lt_of_mem docId, Table.mem_of_size_eq hlast.size_lengths hlast.lt_of_mem⟩
  · intro term list hget
    obtain ⟨-, hspan, hpos, hbelow⟩ := hlast.list term list hget
    obtain ⟨-, headers, hlayout⟩ := hrecords.index.layout hget
    refine ⟨hpos, hspan.trans hlast.span_eq, contentsOf _ term, hrecords.postings_eq hget,
      hlayout.ordered, ?_⟩
    intro posting hm
    exact UInt32.lt_of_le_of_lt (hlayout.docId_le_last hm) hbelow
  · intro docId hlt
    rw [UInt32.lt_iff_toNat_lt, hrecords.nextDocId_eq] at hlt
    have hdocument := List.getElem?_eq_getElem hlt
    have hlength := hlengths _ (List.getElem_mem hlt)
    refine ⟨_, DocLengths.length_eq_ok_iff.2 (by rw [hrecords.lengths, hdocument]; rfl), ?_⟩
    rw [hrecords.index_frequency_eq hdocument hlength]
    exact UInt32.toNat_ofNat_of_lt' hlength
  · exact fun call hm result hresult => hunknown (hresults call hm result hresult)
  · intro query
    rw [(hrecords.cacheSound.search query).1]
    exact hunknown (hrecords.fails_answer query)

/-- The third call is refused: its offset pair ends before it starts. -/
def sampleCalls : List Call :=
  [.request (.add (.text "The quick fox")),
    .batch [⟨["QUICK", "fox"], 1, true, true⟩, ⟨["dog"], 1, false, false⟩],
    .request (.add (.document ⟨["fox"], [[⟨4, 2⟩]], [[0]]⟩)), .save,
    .request (.add (.document ⟨["fox", "quick"], [[⟨0, 2⟩], []], [[1, 1], [0]]⟩))]

/-- A text and a document are accepted, with the ids zero and one. -/
theorem inStep_of_calls_fox :
    new .ample .default = .ok sample ∧
      sample.Calls (sample.respondAll sampleCalls).1 (sample.respondAll sampleCalls).2 ∧
      (sample.respondAll sampleCalls).2.index.Fits ∧
      (∀ document ∈ accepted Config.default.tokenizer (sample.respondAll sampleCalls).1,
        document.offsets.flatten.length < UInt32.size) ∧
      (sample.respondAll sampleCalls).2.InStep ∧
      (ids (sample.respondAll sampleCalls).1).map (·.toNat) = [0, 1] := by
  have hnew : new .ample .default = .ok sample := rfl
  have hcalls := calls_respondAll sample sampleCalls
  have hfits : (sample.respondAll sampleCalls).2.index.Fits :=
    InvertedIndex.fits_of_all (by decide +kernel)
  have hlengths : ∀ document ∈ accepted Config.default.tokenizer (sample.respondAll sampleCalls).1,
      document.offsets.flatten.length < UInt32.size := by decide +kernel
  obtain ⟨hinStep, hids, -⟩ := inStep_of_calls hnew hcalls hfits hlengths
  refine ⟨hnew, hcalls, hfits, hlengths, hinStep, hids.trans ?_⟩
  decide +kernel

end

end Engine

end Concordance
