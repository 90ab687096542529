import Concordance.Proofs.Cursor
import Concordance.Proofs.Sequences

/-!
# Alignments are the documents that all lists hold

A cursor shows the postings that are left from it on. A document is in a column of
several lists if each has a posting of it left, and `Meets` lists all columns by their
documents. The loops over two and over many lists move cursors only past documents
that some list does not have, so that the columns stay, and give one alignment for
each column.
-/

namespace Concordance

open Sequences Result PostingList PopStream

namespace Cursor

/-- The cursor has these postings left. -/
def Shows (whole : Prop) (cursor : Cursor) (left : List Posting) : Prop :=
  ∃ postings headers, cursor.Stands whole postings headers ∧ left = postings.drop cursor.index

/-- The cursor is on this posting. -/
def StandsOn (whole : Prop) (cursor : Cursor) (posting : Posting) : Prop :=
  ∃ rest, cursor.Shows whole (posting :: rest)

/-- The cursor is on the first of these postings, which are all of its list. -/
def Opens (cursor : Cursor) (postings : List Posting) : Prop :=
  ∃ headers, cursor.Stands True postings headers ∧ cursor.index = 0

theorem Opens.shows {cursor : Cursor} {postings : List Posting} (h : cursor.Opens postings) :
    cursor.Shows True postings := by
  obtain ⟨headers, hstands, hindex⟩ := h
  exact ⟨postings, headers, hstands, by rw [hindex, List.drop_zero]⟩

theorem Opens.size_eq {cursor : Cursor} {postings : List Posting} (h : cursor.Opens postings) :
    cursor.list.size = postings.length := by
  obtain ⟨headers, hstands, -⟩ := h
  exact hstands.outline.size_eq

namespace Shows
variable {whole : Prop} {cursor : Cursor} {left rest : List Posting} {posting : Posting}

theorem ordered (h : cursor.Shows whole left) : left.Pairwise fun p q => p.docId < q.docId := by
  obtain ⟨postings, headers, hstands, rfl⟩ := h
  exact hstands.outline.ordered.sublist (List.drop_sublist ..)

theorem lt_size_iff (h : cursor.Shows whole left) :
    cursor.index < cursor.list.size ↔ left ≠ [] := by
  obtain ⟨postings, headers, hstands, rfl⟩ := h
  rw [hstands.lt_size_iff, ← List.length_pos_iff, List.length_drop]
  omega

theorem atEnd_iff (h : cursor.Shows whole left) : cursor.atEnd = true ↔ left = [] := by
  rw [atEnd, decide_eq_true_eq, ← Nat.not_lt, h.lt_size_iff, not_not]

theorem getElem?_index {postings : List Posting}
    (h : posting :: rest = postings.drop cursor.index) :
    postings[cursor.index]? = some posting ∧ rest = postings.drop (cursor.index + 1) := by
  constructor
  · have := congrArg (·[0]?) h
    simpa using this.symm
  · have := congrArg List.tail h
    simpa using this

theorem names (h : cursor.Shows whole (posting :: rest)) :
    cursor.header.Names cursor.list.data posting := by
  obtain ⟨postings, headers, hstands, hleft⟩ := h
  exact (hstands.names (getElem?_index hleft).1).2

theorem describes (h : cursor.Shows whole (posting :: rest)) (hwhole : whole) :
    cursor.header.Describes cursor.list.data posting := by
  obtain ⟨postings, headers, hstands, hleft⟩ := h
  exact hstands.describes hwhole (getElem?_index hleft).1

theorem docId_eq (h : cursor.Shows whole (posting :: rest)) : cursor.header.docId = posting.docId :=
  h.names.docId_eq

/-- Advancing drops the posting under the cursor. -/
theorem advance (h : cursor.Shows whole (posting :: rest)) :
    ∃ next, cursor.advance = .ok next ∧ next.Shows whole rest := by
  obtain ⟨postings, headers, hstands, hleft⟩ := h
  obtain ⟨hp, hrest⟩ := getElem?_index hleft
  obtain ⟨next, hnext, hnextStands, hindex⟩ := hstands.advance
  have hlt := (List.getElem?_eq_some_iff.1 hp).1
  refine ⟨next, hnext, postings, headers, hnextStands, ?_⟩
  rw [hrest, hindex, Nat.min_eq_left hlt]

theorem advance_ne_error (h : cursor.Shows whole (posting :: rest)) (fault : Fault) :
    cursor.advance ≠ .error fault := by
  obtain ⟨next, hnext, -⟩ := h.advance
  rw [hnext]
  exact nofun

theorem of_advance {next : Cursor} (h : cursor.Shows whole (posting :: rest))
    (hnext : cursor.advance = .ok next) : next.Shows whole rest := by
  obtain ⟨next', hnext', hshows⟩ := h.advance
  rw [hnext] at hnext'
  cases hnext'
  exact hshows

end Shows

/-- Seeking drops the postings below the id sought. -/
theorem Shows.seek {whole : Prop} {cursor : Cursor} {left : List Posting}
    (h : cursor.Shows whole left)
    (target : UInt32) :
    ∃ next, cursor.seek target = .ok next ∧
      next.Shows whole (left.dropWhile fun posting => decide (posting.docId < target)) := by
  obtain ⟨postings, headers, hstands, rfl⟩ := h
  obtain ⟨next, hnext, hnextStands, hsought⟩ := hstands.seek target
  have hle := hsought.le
  refine ⟨next, hnext, postings, headers, hnextStands, ?_⟩
  rw [dropWhile_eq_drop (next.index - cursor.index), List.drop_drop]
  · congr 1
    omega
  · intro i posting hi hp
    rw [List.getElem?_drop] at hp
    exact decide_eq_true (hsought.below _ posting (by omega) (by omega) hp)
  · intro posting hp
    rw [List.getElem?_drop, Nat.add_sub_cancel' hle] at hp
    exact decide_eq_false (UInt32.not_lt.2 (hsought.reached posting hp))

theorem Shows.seek_ne_error {whole : Prop} {cursor : Cursor} {left : List Posting}
    (h : cursor.Shows whole left)
    (target : UInt32) (fault : Fault) : cursor.seek target ≠ .error fault := by
  obtain ⟨next, hnext, -⟩ := h.seek target
  rw [hnext]
  exact nofun

theorem Shows.of_seek {whole : Prop} {cursor next : Cursor} {left : List Posting} {target : UInt32}
    (h : cursor.Shows whole left) (hnext : cursor.seek target = .ok next) :
    next.Shows whole (left.dropWhile fun posting => decide (posting.docId < target)) := by
  obtain ⟨next', hnext', hshows⟩ := h.seek target
  rw [hnext] at hnext'
  cases hnext'
  exact hshows

/-! What a cursor reads on a posting. -/

namespace StandsOn
variable {whole : Prop} {cursor : Cursor} {posting : Posting}

theorem atEnd_eq (h : cursor.StandsOn whole posting) : cursor.atEnd = false := by
  obtain ⟨rest, hshows⟩ := h
  rw [Bool.eq_false_iff, Ne, hshows.atEnd_iff]
  exact List.cons_ne_nil _ _

theorem docId (h : cursor.StandsOn whole posting) : cursor.docId = .ok posting.docId := by
  rw [Cursor.docId, h.atEnd_eq]
  obtain ⟨rest, hshows⟩ := h
  simp [hshows.docId_eq]

theorem termFreq (h : cursor.StandsOn whole posting) :
    cursor.termFreq = .ok posting.termFreq := by
  rw [Cursor.termFreq, h.atEnd_eq]
  obtain ⟨rest, hshows⟩ := h
  simp [hshows.names.termFreq_eq]

theorem offsets (h : cursor.StandsOn whole posting) :
    ∃ reader, cursor.offsets = .ok reader ∧
      (whole ∨ posting.OffsetsSized → Gives reader posting.offsets) := by
  rw [Cursor.offsets, h.atEnd_eq]
  obtain ⟨rest, hshows⟩ := h
  refine ⟨_, rfl, ?_⟩
  rintro (hwhole | hsized)
  · exact (hshows.describes hwhole).offsets
  · exact hshows.names.offsets hsized

theorem positions (h : cursor.StandsOn whole posting) (hwhole : whole) :
    ∃ reader, cursor.positions = .ok reader ∧ Gives reader posting.positions := by
  rw [Cursor.positions, h.atEnd_eq]
  obtain ⟨rest, hshows⟩ := h
  exact ⟨_, rfl, (hshows.describes hwhole).positions⟩

theorem length_positions_le (h : cursor.StandsOn whole posting) (hwhole : whole) :
    posting.positions.length ≤ UInt32.size := by
  obtain ⟨rest, postings, headers, hstands, hleft⟩ := h
  have hm : posting ∈ postings := by
    apply List.mem_of_mem_drop (i := cursor.index)
    rw [← hleft]
    exact List.mem_cons_self ..
  exact Nat.le_of_lt ((hstands.layout hwhole).lengths_lt hm).2

end StandsOn

end Cursor

namespace Conjunction

/-- The postings of a document, one from each list. -/
def Column (docId : UInt32) (lefts : List (List Posting)) (column : List Posting) : Prop :=
  List.Forall₂ (fun left posting => posting ∈ left ∧ posting.docId = docId) lefts column

/-- All columns of the lists with their documents, in the order of these. -/
structure Meets (lefts : List (List Posting)) (found : List (UInt32 × List Posting)) :
    Prop where
  ordered : found.Pairwise fun a b => a.1 < b.1
  mem_iff : ∀ docId column, (docId, column) ∈ found ↔ Column docId lefts column

/-- There is one list of all columns. -/
theorem Meets.unique {lefts : List (List Posting)} {found others : List (UInt32 × List Posting)}
    (h : Meets lefts found) (h' : Meets lefts others) : found = others := by
  have hnodup {found : List (UInt32 × List Posting)} (h : Meets lefts found) : found.Nodup :=
    h.ordered.imp fun hlt heq => UInt32.ne_of_lt hlt (congrArg Prod.fst heq)
  have hperm : found.Perm others := by
    rw [List.perm_ext_iff_of_nodup (hnodup h) (hnodup h')]
    rintro ⟨docId, column⟩
    rw [h.mem_iff, h'.mem_iff]
  apply hperm.eq_of_pairwise _ h.ordered h'.ordered
  intro a b _ _ hlt hlt'
  exact absurd hlt' (UInt32.lt_asymm hlt)

/-- The list is left as it is or loses postings below an id. -/
def Passes (target : UInt32) (left moved : List Posting) : Prop :=
  moved = left ∨ moved = left.dropWhile fun posting => decide (posting.docId < target)

variable {whole : Prop} {docId target : UInt32} {lefts moved : List (List Posting)}
  {column : List Posting} {found : List (UInt32 × List Posting)}

theorem column_iff_of_passes (h : List.Forall₂ (Passes target) lefts moved)
    (hle : target ≤ docId) : Column docId moved column ↔ Column docId lefts column := by
  induction h generalizing column with
  | nil => rfl
  | @cons left left' lefts moved hpass htail ih =>
      have hmem (posting : Posting) (hp : posting.docId = docId) :
          posting ∈ left' ↔ posting ∈ left := by
        rcases hpass with rfl | rfl
        · rfl
        · constructor
          · intro hm
            exact (List.dropWhile_sublist _).subset hm
          · intro hm
            apply mem_dropWhile_of_not hm
            apply decide_eq_false
            exact UInt32.not_lt.2 (hp ▸ hle)
      cases column with
      | nil => simp [Column]
      | cons posting column =>
          simp only [Column, List.forall₂_cons] at ih ⊢
          rw [ih]
          constructor
          · rintro ⟨⟨hm, hp⟩, hrest⟩
            exact ⟨⟨(hmem posting hp).1 hm, hp⟩, hrest⟩
          · rintro ⟨⟨hm, hp⟩, hrest⟩
            exact ⟨⟨(hmem posting hp).2 hm, hp⟩, hrest⟩

theorem Column.exists_mem (h : Column docId lefts column) {left : List Posting}
    (hl : left ∈ lefts) : ∃ posting ∈ left, posting.docId = docId := by
  obtain ⟨posting, -, hp⟩ := exists_beside h hl
  exact ⟨posting, hp⟩

/-- A document has a column where every list has a posting of it. -/
theorem exists_column_iff : (∃ column, Column docId lefts column) ↔
    ∀ left ∈ lefts, ∃ posting ∈ left, posting.docId = docId := by
  constructor
  · rintro ⟨column, h⟩ left hl
    exact h.exists_mem hl
  · intro h
    induction lefts with
    | nil => exact ⟨[], List.Forall₂.nil⟩
    | cons left lefts ih =>
        obtain ⟨⟨posting, hp⟩, hrest⟩ := List.forall_mem_cons.1 h
        obtain ⟨column, hcolumn⟩ := ih hrest
        exact ⟨posting :: column, List.Forall₂.cons hp hcolumn⟩

theorem Column.exists_cons (h : Column docId lefts column) (hne : lefts ≠ []) :
    ∃ first rest, column = first :: rest ∧ first.docId = docId := by
  cases h with
  | nil => exact absurd rfl hne
  | cons hp _ => exact ⟨_, _, rfl, hp.2⟩

theorem Meets.length_eq {entry : UInt32 × List Posting} (h : Meets lefts found)
    (hm : entry ∈ found) : entry.2.length = lefts.length := by
  have hcolumn : Column entry.1 lefts entry.2 := (h.mem_iff ..).1 hm
  exact hcolumn.length_eq.symm

theorem Meets.exists_cons {entry : UInt32 × List Posting} (h : Meets lefts found)
    (hm : entry ∈ found) (hne : lefts ≠ []) :
    ∃ first rest, entry.2 = first :: rest ∧ first.docId = entry.1 :=
  Column.exists_cons ((h.mem_iff ..).1 hm) hne

/-- No document has a column below an id that one list has reached. -/
theorem Column.le (h : Column docId lefts column) {left : List Posting} (hl : left ∈ lefts)
    (hle : ∀ posting ∈ left, target ≤ posting.docId) : target ≤ docId := by
  obtain ⟨posting, hp, rfl⟩ := h.exists_mem hl
  exact hle posting hp

theorem Passes.subset {left left' : List Posting} (h : Passes target left left') :
    ∀ posting ∈ left', posting ∈ left := by
  rcases h with rfl | rfl
  · exact fun _ hp => hp
  · exact fun _ hp => (List.dropWhile_sublist _).subset hp

/-- Lists may lose postings below an id that one of them has reached: the columns stay. -/
theorem Meets.of_passes (h : Meets moved found) (hpass : List.Forall₂ (Passes target) lefts moved)
    {left : List Posting} (hl : left ∈ lefts) (hle : ∀ posting ∈ left, target ≤ posting.docId) :
    Meets lefts found := by
  refine ⟨h.ordered, ?_⟩
  intro docId column
  rw [h.mem_iff]
  obtain ⟨left', hl', hleft⟩ := exists_beside hpass hl
  constructor
  · intro hc
    apply (column_iff_of_passes hpass ?_).1 hc
    apply hc.le hl'
    intro posting hp
    exact hle posting (hleft.subset posting hp)
  · intro hc
    apply (column_iff_of_passes hpass ?_).2 hc
    exact hc.le hl hle

/-- Where a list has no posting left, no document has a column. -/
theorem meets_nil (h : [] ∈ lefts) : Meets lefts [] := by
  refine ⟨List.Pairwise.nil, ?_⟩
  intro docId column
  simp only [List.not_mem_nil, false_iff]
  intro hc
  obtain ⟨posting, hp, -⟩ := hc.exists_mem h
  cases hp

/-- The next posting of each list. -/
def heads (lefts : List (List Posting)) : List Posting := lefts.filterMap List.head?

/-- Every list has its next posting for this document. -/
def AllAt (docId : UInt32) (lefts : List (List Posting)) : Prop :=
  ∀ left ∈ lefts, ∃ posting rest, left = posting :: rest ∧ posting.docId = docId

theorem column_heads (h : AllAt docId lefts) : Column docId lefts (heads lefts) := by
  induction lefts with
  | nil => exact List.Forall₂.nil
  | cons left lefts ih =>
      obtain ⟨⟨posting, rest, rfl, hp⟩, htail⟩ := List.forall_mem_cons.1 h
      exact List.Forall₂.cons ⟨List.mem_cons_self .., hp⟩ (ih htail)

theorem eq_heads_of_column (hat : AllAt docId lefts)
    (hord : ∀ left ∈ lefts, left.Pairwise fun p q => p.docId < q.docId)
    (hc : Column docId lefts column) : column = heads lefts := by
  induction hc with
  | nil => rfl
  | @cons left posting lefts column hp _ ih =>
      obtain ⟨⟨first, rest, rfl, hfirst⟩, htail⟩ := List.forall_mem_cons.1 hat
      obtain ⟨hleft, hlefts⟩ := List.forall_mem_cons.1 hord
      have heq : posting = first := by
        rcases List.mem_cons.1 hp.1 with rfl | hm
        · rfl
        · have hlt := (List.pairwise_cons.1 hleft).1 posting hm
          rw [hp.2, hfirst] at hlt
          exact absurd hlt (UInt32.lt_irrefl _)
      rw [heq, ih htail hlefts]
      rfl

theorem column_tail_iff {other : UInt32} (hat : AllAt docId lefts) (hne : other ≠ docId) :
    Column other (lefts.map List.tail) column ↔ Column other lefts column := by
  induction lefts generalizing column with
  | nil => rfl
  | cons left lefts ih =>
      obtain ⟨⟨first, rest, rfl, hfirst⟩, htail⟩ := List.forall_mem_cons.1 hat
      cases column with
      | nil => simp [Column]
      | cons posting column =>
          simp only [Column, List.map_cons, List.tail_cons, List.forall₂_cons] at ih ⊢
          rw [ih htail]
          constructor
          · rintro ⟨⟨hm, hp⟩, hrest⟩
            exact ⟨⟨List.mem_cons_of_mem _ hm, hp⟩, hrest⟩
          · rintro ⟨⟨hm, hp⟩, hrest⟩
            rcases List.mem_cons.1 hm with rfl | hm
            · exact absurd (hp.symm.trans hfirst) hne
            · exact ⟨⟨hm, hp⟩, hrest⟩

/-- Lists that are all at a document give its column first, then those of their tails. -/
theorem Meets.cons (h : Meets (lefts.map List.tail) found) (hne : lefts ≠ [])
    (hat : AllAt docId lefts)
    (hord : ∀ left ∈ lefts, left.Pairwise fun p q => p.docId < q.docId) :
    Meets lefts ((docId, heads lefts) :: found) := by
  obtain ⟨left, hl⟩ := List.exists_mem_of_ne_nil lefts hne
  obtain ⟨first, rest, hleft, hfirst⟩ := hat left hl
  have hlt : ∀ {other column}, Column other (lefts.map List.tail) column → docId < other := by
    intro other column hc
    obtain ⟨posting, hp, rfl⟩ := hc.exists_mem (List.mem_map_of_mem hl)
    have hlt := hord left hl
    rw [hleft] at hp hlt
    exact hfirst ▸ (List.pairwise_cons.1 hlt).1 posting hp
  constructor
  · apply List.pairwise_cons.2
    refine ⟨?_, h.ordered⟩
    intro entry hm
    exact hlt ((h.mem_iff entry.1 entry.2).1 hm)
  · intro other column
    rw [List.mem_cons, h.mem_iff]
    constructor
    · rintro (heq | hc)
      · cases heq
        exact column_heads hat
      · exact (column_tail_iff hat (UInt32.ne_of_lt (hlt hc)).symm).1 hc
    · intro hc
      by_cases heq : other = docId
      · subst heq
        exact Or.inl (by rw [eq_heads_of_column hat hord hc])
      · exact Or.inr ((column_tail_iff hat heq).2 hc)

/-- Each alignment stands on the postings of the column of its place. -/
def Aligned (whole : Prop) (alignments : List (List Cursor))
    (found : List (UInt32 × List Posting)) : Prop :=
  List.Forall₂ (fun alignment entry => List.Forall₂ (Cursor.StandsOn whole) alignment entry.2)
    alignments found

/-- A walk stands on each of the postings left. -/
theorem walk_spec {cursor : Cursor} {left : List Posting} (h : cursor.Shows whole left) :
    ∃ places, cursor.walk = .ok places ∧ List.Forall₂ (Cursor.StandsOn whole) places left := by
  obtain ⟨postings, headers, hstands, rfl⟩ := h
  obtain ⟨places, hwalk, hlength, hplaces⟩ := hstands.walk
  refine ⟨places, hwalk, ?_⟩
  rw [List.forall₂_iff_get]
  refine ⟨by rw [hlength, List.length_drop], ?_⟩
  intro i hi hi'
  obtain ⟨hplace, hindex⟩ := hplaces i places[i] (List.getElem?_eq_getElem hi)
  refine ⟨postings.drop (cursor.index + i + 1), postings, headers, hplace, ?_⟩
  rw [List.get_eq_getElem, List.get_eq_getElem, hindex, List.getElem_drop,
    ← List.drop_eq_getElem_cons]

/-- One list has a column for each posting left. -/
theorem meets_singleton {left : List Posting}
    (hord : left.Pairwise fun p q => p.docId < q.docId) :
    Meets [left] (left.map fun posting => (posting.docId, [posting])) := by
  constructor
  · apply List.pairwise_map.mpr
    exact hord
  · intro docId column
    simp only [List.mem_map, Prod.mk.injEq, Column, List.forall₂_cons_left_iff,
      List.forall₂_nil_left_iff]
    constructor
    · rintro ⟨posting, hp, rfl, rfl⟩
      exact ⟨posting, [], ⟨hp, rfl⟩, rfl, rfl⟩
    · rintro ⟨posting, -, ⟨hp, hdoc⟩, rfl, rfl⟩
      exact ⟨posting, hp, hdoc, rfl⟩

/-- What is left from a posting on is at or above its document. -/
theorem docId_le_of_ordered {first : Posting} {rest : List Posting}
    (h : (first :: rest).Pairwise fun p q => p.docId < q.docId) :
    ∀ posting ∈ first :: rest, first.docId ≤ posting.docId := by
  intro posting hp
  rcases List.mem_cons.1 hp with rfl | hp
  · exact UInt32.le_refl _
  · exact UInt32.le_of_lt ((List.pairwise_cons.1 h).1 posting hp)

/-- Walking two lists together, the one behind seeking the other, gives their columns. -/
theorem alignTwo_spec {first second : Cursor} {left left' : List Posting}
    (h : first.Shows whole left) (h' : second.Shows whole left') :
    ∃ pairs found, alignTwo first second = .ok pairs ∧ Meets [left, left'] found ∧
      Aligned whole (pairs.map fun (a, b) => [a, b]) found := by
  fun_induction alignTwo first second generalizing left left' with
  | case1 first second hlt hbehind fault hfault =>
      exact absurd hfault (h'.seek_ne_error _ fault)
  | case2 first second hlt hbehind next hnext ih =>
      obtain ⟨pairs, found, hpairs, hmeets, haligned⟩ := ih h (h'.of_seek hnext)
      refine ⟨pairs, found, hpairs, ?_, haligned⟩
      obtain ⟨posting, rest, rfl⟩ := List.exists_cons_of_ne_nil (h.lt_size_iff.1 hlt.1)
      rw [h.docId_eq] at hmeets
      apply hmeets.of_passes (.cons (.inl rfl) (.cons (.inr rfl) .nil)) (List.mem_cons_self ..)
      exact docId_le_of_ordered h.ordered
  | case3 first second hlt hnot hbehind fault hfault =>
      exact absurd hfault (h.seek_ne_error _ fault)
  | case4 first second hlt hnot hbehind next hnext ih =>
      obtain ⟨pairs, found, hpairs, hmeets, haligned⟩ := ih (h.of_seek hnext) h'
      refine ⟨pairs, found, hpairs, ?_, haligned⟩
      obtain ⟨posting, rest, rfl⟩ := List.exists_cons_of_ne_nil (h'.lt_size_iff.1 hlt.2)
      rw [h'.docId_eq] at hmeets
      apply hmeets.of_passes (.cons (.inr rfl) (.cons (.inl rfl) .nil))
        (List.mem_cons_of_mem _ (List.mem_cons_self ..))
      exact docId_le_of_ordered h'.ordered
  | case5 first second hlt hnot hnot' fault hfault =>
      obtain ⟨posting, rest, rfl⟩ := List.exists_cons_of_ne_nil (h.lt_size_iff.1 hlt.1)
      exact absurd hfault (h.advance_ne_error fault)
  | case6 first second hlt hnot hnot' next hnext fault hfault =>
      obtain ⟨posting, rest, rfl⟩ := List.exists_cons_of_ne_nil (h'.lt_size_iff.1 hlt.2)
      exact absurd hfault (h'.advance_ne_error fault)
  | case7 first second hlt hnot hnot' next hnext next' hnext' fault hfault ih =>
      obtain ⟨posting, rest, rfl⟩ := List.exists_cons_of_ne_nil (h.lt_size_iff.1 hlt.1)
      obtain ⟨posting', rest', rfl⟩ := List.exists_cons_of_ne_nil (h'.lt_size_iff.1 hlt.2)
      obtain ⟨pairs, found, hpairs, -⟩ := ih (h.of_advance hnext) (h'.of_advance hnext')
      rw [hfault] at hpairs
      cases hpairs
  | case8 first second hlt hnot hnot' next hnext next' hnext' pairs hrest ih =>
      obtain ⟨posting, rest, rfl⟩ := List.exists_cons_of_ne_nil (h.lt_size_iff.1 hlt.1)
      obtain ⟨posting', rest', rfl⟩ := List.exists_cons_of_ne_nil (h'.lt_size_iff.1 hlt.2)
      obtain ⟨pairs', found, hpairs, hmeets, haligned⟩ :=
        ih (h.of_advance hnext) (h'.of_advance hnext')
      rw [hrest] at hpairs
      cases hpairs
      rw [h.docId_eq, h'.docId_eq] at hnot hnot'
      have heq : posting'.docId = posting.docId := by
        apply UInt32.le_antisymm
        · exact UInt32.not_lt.1 hnot'
        · exact UInt32.not_lt.1 hnot
      have htails : Meets ([posting :: rest, posting' :: rest'].map List.tail) found := hmeets
      have hheads : List.Forall₂ (Cursor.StandsOn whole) [first, second] [posting, posting'] :=
        .cons ⟨rest, h⟩ (.cons ⟨rest', h'⟩ .nil)
      refine ⟨_, (posting.docId, [posting, posting']) :: found, rfl, ?_, .cons hheads haligned⟩
      apply htails.cons (List.cons_ne_nil _ _)
      · simp [AllAt, heq]
      · simpa using ⟨List.pairwise_cons.1 h.ordered, List.pairwise_cons.1 h'.ordered⟩
  | case9 first second hend =>
      refine ⟨[], [], rfl, meets_nil ?_, List.Forall₂.nil⟩
      rw [h.lt_size_iff, h'.lt_size_iff, not_and_or, not_not, not_not] at hend
      rcases hend with rfl | rfl
      · exact List.mem_cons_self ..
      · exact List.mem_cons_of_mem _ (List.mem_cons_self ..)

/-- The highest document is that of one of the cursors. -/
theorem exists_docId_of_highest? {cursors : List Cursor} {target : UInt32} (hne : cursors ≠ [])
    (h : highest? cursors = some target) : ∃ cursor ∈ cursors, cursor.header.docId = target := by
  induction cursors generalizing target with
  | nil => exact absurd rfl hne
  | cons cursor cursors ih =>
      rw [highest?] at h
      split at h
      · cases h
      · obtain ⟨highest, hrest, rfl⟩ := Option.map_eq_some_iff.1 h
        split
        · exact ⟨cursor, List.mem_cons_self .., rfl⟩
        · next hle =>
            cases cursors with
            | nil =>
                cases hrest
                refine ⟨cursor, List.mem_cons_self .., ?_⟩
                exact UInt32.le_antisymm (UInt32.not_lt.1 hle) (UInt32.zero_le ..)
            | cons second cursors =>
                obtain ⟨found, hm, hdoc⟩ := ih (List.cons_ne_nil _ _) hrest
                exact ⟨found, List.mem_cons_of_mem _ hm, hdoc⟩

theorem exists_atEnd_of_highest? {cursors : List Cursor} (h : highest? cursors = none) :
    ∃ cursor ∈ cursors, cursor.atEnd = true := by
  induction cursors with
  | nil => cases h
  | cons cursor cursors ih =>
      rw [highest?] at h
      split at h
      · next hend => exact ⟨cursor, List.mem_cons_self .., hend⟩
      · obtain ⟨found, hm, hend⟩ := ih (Option.map_eq_none_iff.1 h)
        exact ⟨found, List.mem_cons_of_mem _ hm, hend⟩

/-- What is known of the lists when a round of seeking ends. -/
def Round.Holds (target : UInt32) (lefts : List (List Posting)) : Round → Prop
  | .ended => [] ∈ lefts
  | .missed => True
  | .met => AllAt target lefts

/-- A round of seeking passes only postings below the document sought. -/
theorem seekAll_spec {cursors : List Cursor} {lefts : List (List Posting)}
    (h : List.Forall₂ (Cursor.Shows whole) cursors lefts) (target : UInt32) :
    ∃ next round moved, seekAll target cursors = .ok (next, round) ∧
      List.Forall₂ (Cursor.Shows whole) next moved ∧ List.Forall₂ (Passes target) lefts moved ∧
      round.Holds target moved := by
  induction h with
  | nil => exact ⟨[], .met, [], rfl, .nil, .nil, by simp [Round.Holds, AllAt]⟩
  | @cons cursor left cursors lefts h htail ih =>
      obtain ⟨next, hnext, hshows⟩ := h.seek target
      generalize hleft : (left.dropWhile fun posting => decide (posting.docId < target)) = left'
        at hshows
      have hpass : Passes target left left' := Or.inr hleft.symm
      have hsame : List.Forall₂ (Passes target) lefts lefts :=
        List.forall₂_same.2 fun _ _ => Or.inl rfl
      rw [seekAll, hnext]
      by_cases hend : next.atEnd = true
      · refine ⟨next :: cursors, .ended, left' :: lefts, ?_, .cons hshows htail,
          .cons hpass hsame, ?_⟩
        · simp [hend]
        · rw [hshows.atEnd_iff] at hend
          rw [hend]
          exact List.mem_cons_self ..
      · obtain ⟨posting, rest, hrest⟩ :=
          List.exists_cons_of_ne_nil fun hnil => hend (hshows.atEnd_iff.2 hnil)
        by_cases hdoc : next.header.docId = target
        · obtain ⟨nexts, round, moved, hseek, hnexts, hpasses, hround⟩ := ih
          refine ⟨next :: nexts, round, left' :: moved, ?_, .cons hshows hnexts,
            .cons hpass hpasses, ?_⟩
          · simp [hend, hdoc, hseek]
          · cases round with
            | ended => exact List.mem_cons_of_mem _ hround
            | missed => trivial
            | met =>
                intro other hm
                rcases List.mem_cons.1 hm with rfl | hm
                · rw [hrest] at hshows ⊢
                  exact ⟨posting, rest, rfl, hshows.docId_eq.symm.trans hdoc⟩
                · exact hround other hm
        · refine ⟨next :: cursors, .missed, left' :: lefts, ?_, .cons hshows htail,
            .cons hpass hsame, trivial⟩
          simp [hend, hdoc]

theorem of_seekAll {cursors next : List Cursor} {round : Round}
    (h : List.Forall₂ (Cursor.Shows whole) cursors lefts)
    (hseek : seekAll target cursors = .ok (next, round)) :
    ∃ moved, List.Forall₂ (Cursor.Shows whole) next moved ∧
      List.Forall₂ (Passes target) lefts moved ∧
      round.Holds target moved := by
  obtain ⟨next', round', moved, hseek', hspec⟩ := seekAll_spec h target
  rw [hseek] at hseek'
  cases hseek'
  exact ⟨moved, hspec⟩

/-- Advancing all cursors drops the posting under each. -/
theorem advanceAll_spec {cursors : List Cursor} {lefts : List (List Posting)}
    (h : List.Forall₂ (Cursor.Shows whole) cursors lefts) (hat : AllAt docId lefts) :
    ∃ next, advanceAll cursors = .ok next ∧
      List.Forall₂ (Cursor.Shows whole) next (lefts.map List.tail) ∧
      List.Forall₂ (Cursor.StandsOn whole) cursors (heads lefts) := by
  induction h with
  | nil => exact ⟨[], rfl, .nil, .nil⟩
  | @cons cursor left cursors lefts h htail ih =>
      obtain ⟨⟨posting, rest, rfl, -⟩, hatTail⟩ := List.forall_mem_cons.1 hat
      obtain ⟨next, hnext, hshows⟩ := h.advance
      obtain ⟨nexts, hnexts, hrest, hheads⟩ := ih hatTail
      refine ⟨next :: nexts, ?_, .cons hshows hrest, .cons ⟨rest, h⟩ hheads⟩
      rw [advanceAll, hnext, ok_bind, hnexts]
      rfl

theorem of_advanceAll {cursors next : List Cursor}
    (h : List.Forall₂ (Cursor.Shows whole) cursors lefts) (hat : AllAt docId lefts)
    (hnext : advanceAll cursors = .ok next) :
    List.Forall₂ (Cursor.Shows whole) next (lefts.map List.tail) ∧
      List.Forall₂ (Cursor.StandsOn whole) cursors (heads lefts) := by
  obtain ⟨next', hnext', hspec⟩ := advanceAll_spec h hat
  rw [hnext] at hnext'
  cases hnext'
  exact hspec

theorem ordered_of_shows {cursors : List Cursor} {lefts : List (List Posting)}
    (h : List.Forall₂ (Cursor.Shows whole) cursors lefts) :
    ∀ left ∈ lefts, left.Pairwise fun p q => p.docId < q.docId := by
  induction h with
  | nil => exact nofun
  | cons h _ ih => exact List.forall_mem_cons.2 ⟨h.ordered, ih⟩

/-- The highest document under cursors has been reached by one of their lists. -/
theorem exists_reached {cursors : List Cursor} {lefts : List (List Posting)}
    (h : List.Forall₂ (Cursor.Shows whole) cursors lefts) (hne : cursors ≠ [])
    (hhighest : highest? cursors = some target) :
    ∃ left ∈ lefts, ∀ posting ∈ left, target ≤ posting.docId := by
  obtain ⟨cursor, hc, hdoc⟩ := exists_docId_of_highest? hne hhighest
  obtain ⟨left, hl, hshows⟩ := exists_beside h hc
  refine ⟨left, hl, ?_⟩
  obtain ⟨posting, rest, rfl⟩ :=
    List.exists_cons_of_ne_nil (hshows.lt_size_iff.1 (le_of_highest? hhighest hc).1)
  rw [← hdoc, hshows.docId_eq]
  exact docId_le_of_ordered hshows.ordered

/-- Rounds of seeking the highest document give the columns of the lists. -/
theorem alignAll_spec {cursors : List Cursor} {lefts : List (List Posting)}
    (h : List.Forall₂ (Cursor.Shows whole) cursors lefts) (hne : cursors ≠ []) :
    ∃ alignments found, alignAll cursors = .ok alignments ∧ Meets lefts found ∧
      Aligned whole alignments found := by
  fun_induction alignAll cursors generalizing lefts with
  | case1 => exact absurd rfl hne
  | case2 cursors _ hhighest =>
      obtain ⟨cursor, hc, hend⟩ := exists_atEnd_of_highest? hhighest
      obtain ⟨left, hl, hshows⟩ := exists_beside h hc
      rw [hshows.atEnd_iff] at hend
      exact ⟨[], [], rfl, meets_nil (hend ▸ hl), List.Forall₂.nil⟩
  | case3 cursors _ target hhighest fault hfault =>
      obtain ⟨next, round, moved, hseek, -⟩ := seekAll_spec h target
      rw [hfault] at hseek
      cases hseek
  | case4 cursors _ target hhighest next hseek =>
      obtain ⟨moved, -, hpass, hround⟩ := of_seekAll h hseek
      obtain ⟨left, hl, hreached⟩ := exists_reached h hne hhighest
      exact ⟨[], [], rfl, (meets_nil hround).of_passes hpass hl hreached, List.Forall₂.nil⟩
  | case5 cursors _ target hhighest next hseek ih =>
      obtain ⟨moved, hshows, hpass, -⟩ := of_seekAll h hseek
      obtain ⟨left, hl, hreached⟩ := exists_reached h hne hhighest
      have hnext : next ≠ [] := by
        rw [ne_nil_of_forall₂ hshows, ← ne_nil_of_forall₂ hpass, ← ne_nil_of_forall₂ h]
        exact hne
      obtain ⟨alignments, found, halign, hmeets, haligned⟩ := ih hshows hnext
      exact ⟨alignments, found, halign, hmeets.of_passes hpass hl hreached, haligned⟩
  | case6 cursors _ target hhighest met hseek fault hfault =>
      obtain ⟨moved, hshows, -, hat⟩ := of_seekAll h hseek
      obtain ⟨next, hnext, -⟩ := advanceAll_spec hshows hat
      rw [hfault] at hnext
      cases hnext
  | case7 cursors _ target hhighest met hseek next hnext fault hfault ih =>
      obtain ⟨moved, hshows, hpass, hat⟩ := of_seekAll h hseek
      obtain ⟨htails, -⟩ := of_advanceAll hshows hat hnext
      have hne' : next ≠ [] := by
        rw [ne_nil_of_forall₂ htails, Ne, List.map_eq_nil_iff, ← Ne, ← ne_nil_of_forall₂ hpass,
          ← ne_nil_of_forall₂ h]
        exact hne
      obtain ⟨alignments, found, halign, -⟩ := ih htails hne'
      rw [hfault] at halign
      cases halign
  | case8 cursors _ target hhighest met hseek next hnext rest hrest ih =>
      obtain ⟨moved, hshows, hpass, hat⟩ := of_seekAll h hseek
      obtain ⟨htails, hheads⟩ := of_advanceAll hshows hat hnext
      have hmoved : moved ≠ [] := by
        rw [← ne_nil_of_forall₂ hpass, ← ne_nil_of_forall₂ h]
        exact hne
      have hne' : next ≠ [] := by
        rw [ne_nil_of_forall₂ htails, Ne, List.map_eq_nil_iff]
        exact hmoved
      obtain ⟨alignments, found, halign, hmeets, haligned⟩ := ih htails hne'
      rw [hrest] at halign
      cases halign
      obtain ⟨left, hl, hreached⟩ := exists_reached h hne hhighest
      have hcons := hmeets.cons hmoved hat (ordered_of_shows hshows)
      exact ⟨_, _, rfl, hcons.of_passes hpass hl hreached, .cons hheads haligned⟩

/-- The alignments of lists are the columns of the documents that all of them have left. -/
theorem alignments_spec {cursors : List Cursor} {lefts : List (List Posting)}
    (h : List.Forall₂ (Cursor.Shows whole) cursors lefts) (hne : cursors ≠ []) :
    ∃ alignments found, Conjunction.alignments cursors = .ok alignments ∧ Meets lefts found ∧
      Aligned whole alignments found := by
  match cursors, lefts, h with
  | [], _, _ => exact absurd rfl hne
  | [cursor], [left], .cons h .nil =>
      obtain ⟨places, hwalk, hstands⟩ := walk_spec h
      refine ⟨places.map fun place => [place], _, ?_, meets_singleton h.ordered, ?_⟩
      · rw [Conjunction.alignments, hwalk]
        rfl
      · rw [Aligned, List.forall₂_map_left_iff, List.forall₂_map_right_iff]
        exact hstands.imp fun place posting hp => .cons hp .nil
  | [first, second], [left, left'], .cons h (.cons h' .nil) =>
      obtain ⟨pairs, found, hpairs, hmeets, haligned⟩ := alignTwo_spec h h'
      refine ⟨_, found, ?_, hmeets, haligned⟩
      rw [Conjunction.alignments, hpairs]
      rfl
  | first :: second :: third :: rest, _, h =>
      obtain ⟨alignments, found, halign, hspec⟩ := alignAll_spec h hne
      exact ⟨alignments, found, halign, hspec⟩

end Conjunction

end Concordance
