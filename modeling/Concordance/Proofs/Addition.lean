import Concordance.Proofs.Engine
import Concordance.Proofs.RoundTrip

/-!
# What an addition can come to

A document is checked before its postings are appended, so that there are few ways for an
addition to fail behind the check: a list without an offset left, and a length table whose
last document is not below the next one. `InvertedIndex.Adds` and `Engine.Adds` have a case
for each outcome; what additions keep is proved from these cases.
-/

namespace Concordance

open Result PostingList

namespace InvertedIndex
variable {index next : InvertedIndex} {docId : UInt32} {document : Document} {term : String}
  {postings : List (String × Posting)}

/-- Postings that were checked are all appended, unless the list of one of their terms has no
offset left. -/
theorem appendAll_eq_ok_or_full (hcheck : ∀ entry ∈ postings, entry.2.check = .ok ())
    (horder : ∀ entry ∈ postings, index.checkOrder entry.2.docId entry.1 = .ok ())
    (hnodup : (postings.map (·.1)).Nodup) :
    (index.appendAll postings).1 = .ok () ∨
      (index.appendAll postings).1 = .error (.construction .bufferFull) ∧
        ∃ entry ∈ postings, ∃ list, index.get? entry.1 = some list ∧
          UInt32.size ≤ list.data.size := by
  fun_induction appendAll index postings with
  | case1 index => exact .inl rfl
  | case2 index term posting rest list happend ih =>
      rw [List.forall_mem_cons] at hcheck horder
      rw [List.map_cons, List.nodup_cons] at hnodup
      -- The lists of the other terms are those from before.
      have hother : ∀ entry ∈ rest,
          ({ index with lists := index.lists.insert term list } : InvertedIndex).get? entry.1 =
            index.get? entry.1 := by
        intro entry hm
        have hne : entry.1 ≠ term :=
          ne_of_mem_of_not_mem (List.mem_map_of_mem (f := Prod.fst) hm) hnodup.1
        rw [get?_insert, if_neg hne.symm]
      rcases ih hcheck.2 (by
        intro entry hm
        have h := horder.2 entry hm
        rw [checkOrder_eq_ok_iff] at h ⊢
        rwa [hother entry hm]) hnodup.2 with hok | ⟨herror, entry, hm, full, hget, hfull⟩
      · exact .inl hok
      · rw [hother entry hm] at hget
        exact .inr ⟨herror, entry, List.mem_cons_of_mem _ hm, full, hget, hfull⟩
  | case3 index term posting rest error happend =>
      rw [List.forall_mem_cons] at hcheck horder
      have habove := checkOrder_eq_ok_iff.1 horder.1
      have hlast : 0 < ((index.get? term).getD (.empty index.span)).size →
          ((index.get? term).getD (.empty index.span)).lastDocId < posting.docId := by
        cases hget : index.get? term with
        | none => exact fun hpos => absurd hpos (Nat.lt_irrefl 0)
        | some list => exact habove list hget
      rcases append_eq_ok_or_full hlast hcheck.1 with ⟨list, hok⟩ | ⟨hfull, herror⟩
      · rw [happend] at hok
        cases hok
      · rw [happend] at herror
        cases herror
        cases hget : index.get? term with
        | none =>
            rw [hget] at hfull
            exact absurd hfull (Nat.not_le.2 (show 0 < UInt32.size by decide))
        | some list =>
            rw [hget] at hfull
            exact .inr ⟨rfl, (term, posting), List.mem_cons_self .., list, hget, hfull⟩

/-- What adding a document to an index can come to. -/
inductive Adds (index : InvertedIndex) (docId : UInt32) (document : Document) :
    Except SearchError Unit × InvertedIndex → Prop
  | refused {refusal : Refusal} (hrefusal : index.postings docId document = .error refusal) :
      Adds index docId document (.error (.construction refusal), index)
  | full (hfull : ¬ index.Fits) (next : InvertedIndex) :
      Adds index docId document (.error (.construction .bufferFull), next)
  | appended {postings : List (String × Posting)} {next : InvertedIndex}
      (hpostings : index.postings docId document = .ok postings)
      (happend : index.appendAll postings = (.ok (), next)) :
        Adds index docId document (.ok (), next)

theorem adds (index : InvertedIndex) (docId : UInt32) (document : Document) :
    index.Adds docId document (index.add docId document) := by
  rw [add]
  cases hpostings : index.postings docId document with
  | error refusal => exact .refused hpostings
  | ok postings =>
      obtain ⟨-, hrows, hnodup, hall⟩ := postings_eq_ok_iff.1 hpostings
      have hspec : (index.appendAll postings).1 = .ok () ∨
          (index.appendAll postings).1 = .error (.construction .bufferFull) ∧
            ∃ entry ∈ postings, ∃ list, index.get? entry.1 = some list ∧
              UInt32.size ≤ list.data.size := by
        rw [hrows]
        apply appendAll_eq_ok_or_full
        · rw [List.forall_mem_map]
          exact fun row hm => (hall row hm).1
        · rw [List.forall_mem_map]
          exact fun row hm => (hall row hm).2
        · rwa [List.map_map]
      simp only
      cases happend : index.appendAll postings with
      | mk result next =>
          rw [happend] at hspec
          rcases hspec with hok | ⟨herror, entry, -, list, hget, hfull⟩
          · cases hok
            exact .appended hpostings happend
          · cases herror
            exact .full (fun hfits => Nat.not_lt.2 hfull (hfits entry.1 list hget)) next

/-- What is true of the lists of an index, and of a list to which a posting is appended, is true
of the lists after postings were appended. -/
theorem forall_get?_appendAll {p : PostingList → Prop}
    (hold : ∀ term list, index.get? term = some list → p list)
    (happend : ∀ entry ∈ postings, ∀ list next, list = .empty index.span ∨ p list →
      list.append entry.2 = .ok next → p next) :
    (index.appendAll postings).2.span = index.span ∧
      ∀ term list, (index.appendAll postings).2.get? term = some list → p list := by
  fun_induction appendAll index postings with
  | case1 index => exact ⟨rfl, hold⟩
  | case2 index other posting rest longer hlonger ih =>
      rw [List.forall_mem_cons] at happend
      apply ih _ happend.2
      intro term list hget
      rw [get?_insert] at hget
      split at hget
      · cases hget
        apply happend.1 _ _ _ hlonger
        cases hother : index.get? other with
        | none => exact .inl rfl
        | some list => exact .inr (hold other list hother)
      · exact hold term list hget
  | case3 index => exact ⟨rfl, hold⟩

theorem docId_of_postings (h : index.postings docId document = .ok postings) :
    ∀ entry ∈ postings, entry.2.docId = docId := by
  rw [(postings_eq_ok_iff.1 h).2.1, List.forall_mem_map]
  exact fun _ _ => rfl

end InvertedIndex

namespace DocLengths
variable {table next : DocLengths} {docId length : UInt32}

/-- Only a document above the last one is taken. -/
theorem add_eq_ok_or_behind (table : DocLengths) (docId length : UInt32) :
    (∃ next, table.add docId length = .ok next ∧ next.lastDocId? = some docId ∧
        next.lengths = table.lengths.insert docId length) ∨
      ∃ last, table.lastDocId? = some last ∧ docId ≤ last ∧
        table.add docId length = .error (.construction (.lengthOrder docId last)) := by
  by_cases habove : ∀ last, table.lastDocId? = some last → last < docId
  · exact .inl (exists_add table docId length habove)
  · simp only [not_forall, UInt32.not_lt] at habove
    obtain ⟨last, hlast, hle⟩ := habove
    refine .inr ⟨last, hlast, hle, ?_⟩
    simp only [add, hlast, if_pos hle, throw_eq_error, error_bind]

theorem of_add (h : table.add docId length = .ok next) :
    next.lastDocId? = some docId ∧ next.lengths = table.lengths.insert docId length := by
  rcases add_eq_ok_or_behind table docId length with ⟨made, hok, hmade⟩ | ⟨last, -, -, herror⟩
  · rw [h] at hok
    cases hok
    exact hmade
  · rw [h] at herror
    cases herror

theorem size_of_add (h : table.add docId length = .ok next) (hnew : docId ∉ table.lengths) :
    next.size = table.size + 1 := by
  rw [size, size, (of_add h).2, Std.ExtTreeMap.size_insert,
    if_neg (mt Std.ExtTreeMap.mem_iff_contains.2 hnew)]

end DocLengths

namespace Engine
variable {engine next : Engine} {document : Document}

/-- The reason against a document that is found before a posting is appended. -/
def refusal? (engine : Engine) (document : Document) : Option Refusal :=
  match Word.sum? engine.nextDocId 1 with
  | none => some .docIdsExhausted
  | some _ =>
    match engine.index.postings engine.nextDocId document with
    | .error refusal => some refusal
    | .ok _ => none

/-- What adding a document can come to. -/
inductive Adds (engine : Engine) (document : Document) : Except SearchError UInt32 × Engine → Prop
  | refused {refusal : Refusal} (hrefusal : engine.refusal? document = some refusal) :
      Adds engine document (.error (.construction refusal), engine)
  | full (hfull : ¬ engine.index.Fits) (index : InvertedIndex) :
      Adds engine document (.error (.construction .bufferFull), { engine with index })
  | behind {last : UInt32} (hlast : engine.lengths.lastDocId? = some last)
      (hle : engine.nextDocId ≤ last) (index : InvertedIndex) :
      Adds engine document
        (.error (.construction (.lengthOrder engine.nextDocId last)), { engine with index })
  | added {postings : List (String × Posting)} {index : InvertedIndex} {lengths : DocLengths}
      {next : UInt32} (hnext : Word.sum? engine.nextDocId 1 = some next)
      (hpostings : engine.index.postings engine.nextDocId document = .ok postings)
      (happend : engine.index.appendAll postings = (.ok (), index))
      (hlengths : engine.lengths.add engine.nextDocId document.length = .ok lengths) :
      Adds engine document (.ok engine.nextDocId,
        { engine with
          index
          lengths
          nextDocId := next
          cache? := engine.cache?.map Cache.clear
          counters.documentsIndexed := engine.counters.documentsIndexed + 1 })

theorem adds (engine : Engine) (document : Document) :
    engine.Adds document (engine.add document) := by
  rw [add]
  cases hnext : Word.sum? engine.nextDocId 1 with
  | none => exact .refused (by rw [refusal?, hnext])
  | some next =>
      have hindex := engine.index.adds engine.nextDocId document
      simp only
      generalize engine.index.add engine.nextDocId document = added at hindex
      cases hindex with
      | refused hrefusal => exact .refused (by rw [refusal?, hnext, hrefusal])
      | full hfull index => exact .full hfull index
      | @appended postings index hpostings happend =>
          simp only
          rcases engine.lengths.add_eq_ok_or_behind engine.nextDocId document.length with
            ⟨lengths, hlengths, -⟩ | ⟨last, hlast, hle, herror⟩
          · rw [hlengths]
            exact .added hnext hpostings happend hlengths
          · rw [herror]
            exact .behind hlast hle index

/-- What an engine is as long as it was given documents and searched only: the lists are those
that come about by appending, none is without postings, and all documents, those of the lists
as well as those of the length table, are below the next one. -/
structure Consistent (engine : Engine) : Prop where
  span_eq : engine.index.span = engine.config.span engine.valid
  list : ∀ term list, engine.index.get? term = some list →
    Built list ∧ list.span = engine.index.span ∧ 0 < list.size ∧
      list.lastDocId < engine.nextDocId
  size_lengths : engine.lengths.size = engine.nextDocId.toNat
  lt_of_mem : ∀ docId ∈ engine.lengths.lengths, docId < engine.nextDocId
  lastDocId_lt : ∀ last, engine.lengths.lastDocId? = some last → last < engine.nextDocId

/-- A list that a posting was appended to has postings, the last one of the posting's document. -/
theorem of_append {span : SkipSpan} {list longer : PostingList} {posting : Posting}
    {docId : UInt32} (h : Built list ∧ list.span = span)
    (hlonger : list.append posting = .ok longer) (hdocId : posting.docId < docId) :
    Built longer ∧ longer.span = span ∧ 0 < longer.size ∧ longer.lastDocId < docId := by
  have hbuilt := h.1.append hlonger
  obtain ⟨written, rfl⟩ := exists_extend_of_append hlonger
  exact ⟨hbuilt, h.2, Nat.succ_pos _, hdocId⟩

/-- As long as no list has outgrown its offsets, an addition leaves a consistent engine. -/
theorem Consistent.add (h : engine.Consistent) (hfits : engine.index.Fits) (document : Document) :
    (engine.add document).2.Consistent := by
  have hadds := engine.adds document
  generalize engine.add document = added at hadds
  cases hadds with
  | refused => exact h
  | full hfull => exact absurd hfits hfull
  | behind hlast hle => exact absurd (h.lastDocId_lt _ hlast) (UInt32.not_lt.2 hle)
  | @added postings index lengths next hnext hpostings happend hlengths =>
      obtain ⟨hlast, htable⟩ := DocLengths.of_add hlengths
      have hlt : engine.nextDocId < next := by
        rw [UInt32.lt_iff_toNat_lt, ← Word.sum?_eq_some_iff.1 hnext]
        exact Nat.lt_succ_self _
      have hstart : ∀ term list, engine.index.get? term = some list →
          Built list ∧ list.span = engine.index.span ∧ 0 < list.size ∧ list.lastDocId < next := by
        intro term list hget
        obtain ⟨hbuilt, hspan, hpos, hbelow⟩ := h.list term list hget
        exact ⟨hbuilt, hspan, hpos, UInt32.lt_trans hbelow hlt⟩
      have hstep : ∀ entry ∈ postings, ∀ list longer, list = .empty engine.index.span ∨
          Built list ∧ list.span = engine.index.span ∧ 0 < list.size ∧ list.lastDocId < next →
            list.append entry.2 = .ok longer →
              Built longer ∧ longer.span = engine.index.span ∧ 0 < longer.size ∧
                longer.lastDocId < next := by
        intro entry hm list longer hlist hlonger
        have hdocId := InvertedIndex.docId_of_postings hpostings entry hm
        have hbefore : Built list ∧ list.span = engine.index.span := by
          rcases hlist with rfl | ⟨hbuilt, hspan, -⟩
          · exact ⟨.empty _, rfl⟩
          · exact ⟨hbuilt, hspan⟩
        exact of_append hbefore hlonger (hdocId ▸ hlt)
      obtain ⟨hspan, hlists⟩ := InvertedIndex.forall_get?_appendAll hstart hstep
      rw [happend] at hspan hlists
      constructor
      case span_eq => exact hspan.trans h.span_eq
      case list => exact fun term list hget => hspan ▸ hlists term list hget
      case size_lengths =>
          have hnew : engine.nextDocId ∉ engine.lengths.lengths := fun hm =>
            UInt32.lt_irrefl _ (h.lt_of_mem _ hm)
          rw [DocLengths.size_of_add hlengths hnew, h.size_lengths]
          exact Word.sum?_eq_some_iff.1 hnext
      case lt_of_mem =>
          intro docId hm
          simp only [htable, Std.ExtTreeMap.mem_insert, Std.compare_eq_iff_eq] at hm
          rcases hm with rfl | hm
          · exact hlt
          · exact UInt32.lt_trans (h.lt_of_mem _ hm) hlt
      case lastDocId_lt =>
          intro last hsome
          rw [hlast, Option.some.injEq] at hsome
          exact hsome ▸ hlt

end Engine

end Concordance
