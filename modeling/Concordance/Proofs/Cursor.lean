import Concordance.Conjunction
import Concordance.Proofs.PostingList

/-!
# Cursors stand on the postings of their list

`Cursor.Stands` says that a cursor has the header of the posting of its number, or,
past the last, that of the last one. Every move of a cursor keeps this, so whatever
the moves before, a cursor shows the posting of its number, and seeking ends where
advancing one posting at a time would end. For the moves the outline of the list is enough;
that the list is `whole` is a proposition that is carried along for the occurrences.
-/

namespace Concordance

open Result PostingList

namespace Cursor

/-- The cursor is on the posting of its number, or past the last. A whole list holds its
postings, and any other has their outline. -/
structure Stands (whole : Prop) (cursor : Cursor) (postings : List Posting)
    (headers : List Header) : Prop where
  outline : cursor.list.Outline postings headers
  layout : whole → cursor.list.Layout postings headers
  index_le : cursor.index ≤ postings.length
  header_eq : headers[min cursor.index (postings.length - 1)]? = some cursor.header

theorem goto_of_readHeader {list : PostingList} {index offset : Nat} {previousDocId : UInt32}
    {header : Header} (h : readHeader list.data previousDocId offset = .ok header) :
    goto list index previousDocId offset = .ok ⟨list, index, header⟩ := by
  rw [goto, h]
  rfl

/-- Going to the start of a posting, with the base of its difference, ends on it. -/
theorem exists_goto {whole : Prop} {list : PostingList} {postings : List Posting}
    {headers : List Header} (h : list.Outline postings headers)
    (hlayout : whole → list.Layout postings headers) {index : Nat}
    (hi : index < postings.length) :
    ∃ next, goto list index (baseOf postings index) (startOf headers index) = .ok next ∧
      next.Stands whole postings headers ∧ next.index = index := by
  obtain ⟨header, hheader⟩ := h.exists_getElem?_headers hi
  have hread := (h.header (List.getElem?_eq_getElem hi) hheader).1
  refine ⟨⟨list, index, header⟩, goto_of_readHeader hread, ⟨h, hlayout, by simp only; omega, ?_⟩,
    rfl⟩
  simp only
  rw [show min index (postings.length - 1) = index by omega, hheader]

namespace Stands
variable {whole : Prop} {cursor other : Cursor} {postings : List Posting} {headers : List Header}

/-- Cursors of one list on the same number are the same. -/
theorem ext (h : cursor.Stands whole postings headers) (h' : other.Stands whole postings headers)
    (hlist : cursor.list = other.list) (hindex : cursor.index = other.index) :
    cursor = other := by
  have hheader : cursor.header = other.header := by
    have := h.header_eq
    rw [hindex, h'.header_eq] at this
    exact (Option.some.inj this).symm
  cases cursor
  cases other
  cases hlist
  cases hindex
  cases hheader
  rfl

theorem atEnd_iff (h : cursor.Stands whole postings headers) :
    cursor.atEnd = true ↔ cursor.index = postings.length := by
  have := h.index_le
  rw [atEnd, decide_eq_true_eq, h.outline.size_eq]
  omega

theorem lt_size_iff (h : cursor.Stands whole postings headers) :
    cursor.index < cursor.list.size ↔ cursor.index < postings.length := by
  rw [h.outline.size_eq]

theorem names (h : cursor.Stands whole postings headers) {posting : Posting}
    (hp : postings[cursor.index]? = some posting) :
    headers[cursor.index]? = some cursor.header ∧
      cursor.header.Names cursor.list.data posting := by
  have hlt := (List.getElem?_eq_some_iff.1 hp).1
  have hheader := h.header_eq
  rw [show min cursor.index (postings.length - 1) = cursor.index by omega] at hheader
  exact ⟨hheader, (h.outline.header hp hheader).2⟩

theorem describes (h : cursor.Stands whole postings headers) (hwhole : whole) {posting : Posting}
    (hp : postings[cursor.index]? = some posting) :
    cursor.header.Describes cursor.list.data posting :=
  (h.layout hwhole).describes hp (h.names hp).1

/-- Advancing moves on by one, up to the end. -/
theorem advance (h : cursor.Stands whole postings headers) :
    ∃ next, cursor.advance = .ok next ∧ next.Stands whole postings headers ∧
      next.index = min (cursor.index + 1) postings.length := by
  have hle := h.index_le
  have hsize := h.outline.size_eq
  by_cases hend : cursor.index = postings.length
  · refine ⟨cursor, ?_, h, by omega⟩
    rw [Cursor.advance, if_pos (by omega)]
  · by_cases hlast : cursor.index + 1 = postings.length
    · refine ⟨{ cursor with index := cursor.index + 1 }, ?_,
        ⟨h.outline, h.layout, Nat.le_of_eq hlast, ?_⟩, ?_⟩
      · rw [Cursor.advance, if_neg (by omega), if_pos (by omega)]
      · have hheader := h.header_eq
        simp only
        rwa [show min (cursor.index + 1) (postings.length - 1) =
          min cursor.index (postings.length - 1) by omega]
      · simp only
        omega
    · have hp := List.getElem?_eq_getElem (l := postings) (i := cursor.index) (by omega)
      obtain ⟨hheader, hnames⟩ := h.names hp
      have hnextLt : cursor.index + 1 < postings.length := by omega
      obtain ⟨next, hgoto, hnext, hindex⟩ := exists_goto h.outline h.layout hnextLt
      refine ⟨next, ?_, hnext, by omega⟩
      have hbase : baseOf postings (cursor.index + 1) = cursor.header.docId := by
        rw [baseOf, Nat.add_sub_cancel, hp, hnames.docId_eq]
        rfl
      have hstart : startOf headers (cursor.index + 1) = cursor.header.next := by
        rw [startOf, hheader]
        rfl
      rw [hbase, hstart] at hgoto
      rw [Cursor.advance, if_neg (by omega), if_neg (by omega), hgoto]

/-- A span can be passed from its first posting, if another follows it. -/
theorem hasSkip_iff (h : cursor.Stands whole postings headers) :
    cursor.hasSkip = true ↔ cursor.list.span.postings ∣ cursor.index ∧
      cursor.index + cursor.list.span.postings < postings.length := by
  rw [hasSkip, Bool.and_eq_true, beq_iff_eq, decide_eq_true_eq, h.outline.lt_skips_iff, nextSpan,
    Nat.dvd_iff_mod_eq_zero]
  constructor
  · rintro ⟨hmod, hlt⟩
    have := Nat.div_mul_cancel (Nat.dvd_of_mod_eq_zero hmod)
    rw [Nat.add_mul, Nat.one_mul] at hlt
    omega
  · rintro ⟨hmod, hlt⟩
    have := Nat.div_mul_cancel (Nat.dvd_of_mod_eq_zero hmod)
    rw [Nat.add_mul, Nat.one_mul]
    omega

theorem nextSpan_mul (h : cursor.Stands whole postings headers) (hskip : cursor.hasSkip = true) :
    cursor.nextSpan * cursor.list.span.postings =
      cursor.index + cursor.list.span.postings := by
  rw [nextSpan, Nat.add_mul, Nat.one_mul, Nat.div_mul_cancel (h.hasSkip_iff.1 hskip).1]

/-- Passing a span moves on by its length. -/
theorem skipSpan (h : cursor.Stands whole postings headers) (hskip : cursor.hasSkip = true) :
    ∃ next, cursor.skipSpan = .ok next ∧ next.Stands whole postings headers ∧
      next.index = cursor.index + cursor.list.span.postings := by
  have hlt := (h.hasSkip_iff.1 hskip).2
  have hmul := h.nextSpan_mul hskip
  have hentry : cursor.nextSpan < cursor.list.skips.size := by
    rw [h.outline.lt_skips_iff]
    omega
  have hget : cursor.list.skips.get? cursor.nextSpan =
      some cursor.list.skips.entries[cursor.nextSpan] :=
    Array.getElem?_eq_getElem hentry
  obtain ⟨hbase, hstart⟩ := h.outline.skip hget
  have hnextLt : cursor.nextSpan * cursor.list.span.postings < postings.length := by omega
  obtain ⟨next, hgoto, hnext, hindex⟩ := exists_goto h.outline h.layout hnextLt
  refine ⟨next, ?_, hnext, by omega⟩
  rw [Cursor.skipSpan, hget]
  simp only
  rw [hbase, hstart, hgoto]

/-- Where the span's postings may be passed on the way to an id, they are all below it. -/
theorem docId_lt_of_skips (h : cursor.Stands whole postings headers) {target : UInt32}
    (hskips : cursor.skips target = true) {k : Nat} {posting : Posting}
    (hk : k < cursor.index + cursor.list.span.postings) (hp : postings[k]? = some posting) :
    posting.docId < target := by
  rw [skips, Bool.and_eq_true, Option.any_eq_true] at hskips
  obtain ⟨hskip, entry, hget, hlt⟩ := hskips
  have hbound := (h.hasSkip_iff.1 hskip).2
  have hbase := (h.outline.skip hget).1
  rw [h.nextSpan_mul hskip] at hbase
  have hle := docId_le_baseOf h.outline.ordered hp hk (by omega)
  rw [← hbase] at hle
  apply UInt32.lt_of_le_of_lt hle
  simpa using hlt

/-- One move on the way to an id passes only postings below it. -/
theorem approach (h : cursor.Stands whole postings headers) {target : UInt32}
    (hi : cursor.index < postings.length) (hdoc : cursor.header.docId < target) :
    ∃ next, cursor.approach target = .ok next ∧ next.Stands whole postings headers ∧
      cursor.index ≤ next.index ∧
      ∀ k posting, k < next.index → cursor.index ≤ k → postings[k]? = some posting →
        posting.docId < target := by
  rw [Cursor.approach]
  split
  · next hskips =>
      have hskip : cursor.hasSkip = true := by
        rw [skips, Bool.and_eq_true] at hskips
        exact hskips.1
      obtain ⟨next, hnext, hstands, hindex⟩ := h.skipSpan hskip
      refine ⟨next, hnext, hstands, by omega, ?_⟩
      intro k posting hk _ hp
      exact h.docId_lt_of_skips hskips (by omega) hp
  · obtain ⟨next, hnext, hstands, hindex⟩ := h.advance
    refine ⟨next, hnext, hstands, by omega, ?_⟩
    intro k posting hk hle hp
    have heq : k = cursor.index := by omega
    subst heq
    rwa [← (h.names hp).2.docId_eq]

end Stands

/-- `next` is the first number from `index` on whose posting has an id of at least `target`;
the number behind the last if there is none. -/
structure Sought (postings : List Posting) (target : UInt32) (index next : Nat) : Prop where
  le : index ≤ next
  le_length : next ≤ postings.length
  below : ∀ k posting, index ≤ k → k < next → postings[k]? = some posting →
    posting.docId < target
  reached : ∀ posting, postings[next]? = some posting → target ≤ posting.docId

/-- Seeking ends where a scan for the first id of at least `target` ends. -/
theorem Stands.seek {whole : Prop} {cursor : Cursor} {postings : List Posting}
    {headers : List Header}
    (h : cursor.Stands whole postings headers) (target : UInt32) :
    ∃ next, cursor.seek target = .ok next ∧ next.Stands whole postings headers ∧
      Sought postings target cursor.index next.index := by
  fun_induction Cursor.seek cursor target with
  | case1 cursor hc middle hmiddle ih =>
      obtain ⟨middle', hmiddle', hstands, hle, hbelow⟩ := h.approach (h.lt_size_iff.1 hc.1) hc.2
      rw [hmiddle] at hmiddle'
      cases hmiddle'
      obtain ⟨next, hnext, hnextStands, hsought⟩ := ih hstands
      refine ⟨next, hnext, hnextStands, Nat.le_trans hle hsought.le, hsought.le_length, ?_,
        hsought.reached⟩
      intro k posting hk hlt hp
      by_cases hm : k < middle.index
      · exact hbelow k posting hm hk hp
      · exact hsought.below k posting (by omega) hlt hp
  | case2 cursor hc fault hfault =>
      obtain ⟨middle, hmiddle, -⟩ := h.approach (h.lt_size_iff.1 hc.1) hc.2
      rw [hfault] at hmiddle
      cases hmiddle
  | case3 cursor hc =>
      refine ⟨cursor, rfl, h, Nat.le_refl _, h.index_le, fun k posting hk hlt => by omega, ?_⟩
      intro posting hp
      rw [← (h.names hp).2.docId_eq]
      have hi := (List.getElem?_eq_some_iff.1 hp).1
      exact UInt32.not_lt.1 fun hlt => hc ⟨h.lt_size_iff.2 hi, hlt⟩

/-- A cursor before the end of a whole list shows its posting. -/
theorem Stands.posting {whole : Prop} {cursor : Cursor} {postings : List Posting}
    {headers : List Header} (h : cursor.Stands whole postings headers) (hwhole : whole)
    {posting : Posting} (hp : postings[cursor.index]? = some posting) :
    cursor.posting = .ok posting := by
  have hdescribes := h.describes hwhole hp
  have hend : cursor.atEnd = false := by
    have hlt := (List.getElem?_eq_some_iff.1 hp).1
    rw [Bool.eq_false_iff, Ne, h.atEnd_iff]
    omega
  simp only [Cursor.posting, docId, termFreq, offsets, positions, hend, Bool.false_eq_true,
    if_false, ok_bind, hdescribes.offsets.toList, hdescribes.positions.toList, pure_eq_ok,
    hdescribes.docId_eq, hdescribes.termFreq_eq]

/-- A move of a cursor. -/
inductive Move where
  | advance
  /-- Passes the span where a span can be passed, and stays elsewhere. -/
  | skipSpan
  | seek (target : UInt32)
  deriving DecidableEq, Repr

/-- The cursor after a move. -/
def move (cursor : Cursor) : Move → Except Fault Cursor
  | .advance => cursor.advance
  | .skipSpan => if cursor.hasSkip then cursor.skipSpan else .ok cursor
  | .seek target => cursor.seek target

/-- The cursor after moves in turn. -/
def moves (cursor : Cursor) : List Move → Except Fault Cursor
  | [] => .ok cursor
  | first :: rest => do (← cursor.move first).moves rest

theorem list_eq_of_move {cursor next : Cursor} {move : Move} (h : cursor.move move = .ok next) :
    next.list = cursor.list := by
  cases move with
  | advance => exact (advance_eq_ok h).1
  | skipSpan =>
      rw [Cursor.move] at h
      split at h
      · rw [skipSpan] at h
        split at h
        · cases h
          rfl
        · exact (goto_eq_ok h).1
      · cases h
        rfl
  | seek target => exact (seek_eq_ok h).1

theorem list_eq_of_moves {cursor next : Cursor} {run : List Move}
    (h : cursor.moves run = .ok next) : next.list = cursor.list := by
  induction run generalizing cursor with
  | nil =>
      cases h
      rfl
  | cons first rest ih =>
      obtain ⟨middle, hmiddle, hrest⟩ := bind_eq_ok_iff.1 h
      exact (ih hrest).trans (list_eq_of_move hmiddle)

namespace Stands
variable {whole : Prop} {cursor : Cursor} {postings : List Posting} {headers : List Header}

theorem move (h : cursor.Stands whole postings headers) (move : Move) :
    ∃ next, cursor.move move = .ok next ∧ next.Stands whole postings headers := by
  cases move with
  | advance =>
      obtain ⟨next, hnext, hstands, -⟩ := h.advance
      exact ⟨next, hnext, hstands⟩
  | skipSpan =>
      rw [Cursor.move]
      split
      · next hskip =>
          obtain ⟨next, hnext, hstands, -⟩ := h.skipSpan hskip
          exact ⟨next, hnext, hstands⟩
      · exact ⟨cursor, rfl, h⟩
  | seek target =>
      obtain ⟨next, hnext, hstands, -⟩ := h.seek target
      exact ⟨next, hnext, hstands⟩

/-- No run of moves fails, and each ends on a posting of the list or past the last. -/
theorem moves (h : cursor.Stands whole postings headers) (run : List Move) :
    ∃ next, cursor.moves run = .ok next ∧ next.Stands whole postings headers := by
  induction run generalizing cursor with
  | nil => exact ⟨cursor, rfl, h⟩
  | cons first rest ih =>
      obtain ⟨middle, hmiddle, hstands⟩ := h.move first
      obtain ⟨next, hnext, hnextStands⟩ := ih hstands
      exact ⟨next, by rw [Cursor.moves, hmiddle, ok_bind, hnext], hnextStands⟩

/-- A walk goes over all postings from the cursor on. -/
theorem walk (h : cursor.Stands whole postings headers) :
    ∃ places, cursor.walk = .ok places ∧ places.length = postings.length - cursor.index ∧
      ∀ i place, places[i]? = some place →
        place.Stands whole postings headers ∧ place.index = cursor.index + i := by
  fun_induction Cursor.walk cursor with
  | case1 cursor hlt fault hfault =>
      obtain ⟨next, hnext, -⟩ := h.advance
      rw [hfault] at hnext
      cases hnext
  | case2 cursor hlt next hnext fault hfault ih =>
      obtain ⟨next', hnext', hstands, -⟩ := h.advance
      rw [hnext] at hnext'
      cases hnext'
      obtain ⟨places, hplaces, -⟩ := ih hstands
      rw [hfault] at hplaces
      cases hplaces
  | case3 cursor hlt next hnext rest hrest ih =>
      obtain ⟨next', hnext', hstands, hindex⟩ := h.advance
      rw [hnext] at hnext'
      cases hnext'
      obtain ⟨places, hplaces, hlength, hall⟩ := ih hstands
      rw [hrest] at hplaces
      cases hplaces
      have hi := h.lt_size_iff.1 hlt
      refine ⟨cursor :: rest, rfl, by simp only [List.length_cons]; omega, ?_⟩
      intro i place hplace
      cases i with
      | zero =>
          cases hplace
          exact ⟨h, rfl⟩
      | succ i =>
          obtain ⟨hplace, hplaceIndex⟩ := hall i place hplace
          exact ⟨hplace, by omega⟩
  | case4 cursor hlt =>
      rw [h.lt_size_iff] at hlt
      exact ⟨[], rfl, by simp only [List.length_nil]; omega, fun i place hplace => by
        simp at hplace⟩

/-- Advancing time and again moves on by as many postings, up to the end. -/
theorem moves_replicate_advance (h : cursor.Stands whole postings headers) (count : Nat) :
    ∃ next, cursor.moves (List.replicate count .advance) = .ok next ∧
      next.Stands whole postings headers ∧
        next.index = min (cursor.index + count) postings.length := by
  induction count generalizing cursor with
  | zero =>
      have := h.index_le
      exact ⟨cursor, rfl, h, by omega⟩
  | succ count ih =>
      obtain ⟨middle, hmiddle, hstands, hindex⟩ := h.advance
      obtain ⟨next, hnext, hnextStands, hnextIndex⟩ := ih hstands
      refine ⟨next, ?_, hnextStands, by omega⟩
      rw [List.replicate_succ, Cursor.moves, Cursor.move, hmiddle, ok_bind, hnext]

end Stands

end Cursor

namespace PostingList

section Outline
variable {whole : Prop} {list : PostingList} {postings : List Posting} {headers : List Header}

/-- The cursor on the first posting of a list that has one. -/
theorem Outline.cursor (h : list.Outline postings headers)
    (hlayout : whole → list.Layout postings headers) (hne : postings ≠ []) :
    ∃ first, list.cursor = .ok first ∧ first.Stands whole postings headers ∧ first.index = 0 := by
  have hpos := List.length_pos_iff.2 hne
  have hempty : list.isEmpty = false := by
    rw [PostingList.isEmpty, beq_eq_false_iff_ne, h.size_eq]
    omega
  have hentry : 0 < list.skips.size := by
    rw [h.lt_skips_iff]
    omega
  have hget : list.skips.get? 0 = some list.skips.entries[0] := Array.getElem?_eq_getElem hentry
  obtain ⟨hbase, hstart⟩ := h.skip hget
  rw [Nat.zero_mul] at hbase hstart
  obtain ⟨first, hgoto, hfirst, hindex⟩ := Cursor.exists_goto h hlayout hpos
  refine ⟨first, ?_, hfirst, hindex⟩
  rw [PostingList.cursor, hempty, hget]
  simp only [Bool.false_eq_true, if_false]
  rw [hbase, hstart, hgoto]

theorem Outline.ne_nil_of_cursor (h : list.Outline postings headers) {first : Cursor}
    (hfirst : list.cursor = .ok first) : postings ≠ [] := by
  rintro rfl
  have hempty : list.isEmpty = true := by
    rw [PostingList.isEmpty, h.size_eq]
    rfl
  rw [PostingList.cursor, hempty] at hfirst
  cases hfirst

/-- Wherever moves took a cursor, it stands there. -/
theorem Outline.stands_of_moves (h : list.Outline postings headers)
    (hlayout : whole → list.Layout postings headers) {run : List Cursor.Move} {cursor : Cursor}
    (hreached : list.cursor >>= (·.moves run) = .ok cursor) :
    cursor.Stands whole postings headers := by
  obtain ⟨first, hfirst, hmoves⟩ := bind_eq_ok_iff.1 hreached
  obtain ⟨first', hfirst', hstands, -⟩ := h.cursor hlayout (h.ne_nil_of_cursor hfirst)
  rw [hfirst, Except.ok.injEq] at hfirst'
  subst hfirst'
  obtain ⟨next, hnext, hnextStands⟩ := hstands.moves run
  rw [hmoves, Except.ok.injEq] at hnext
  exact hnext ▸ hnextStands

theorem Layout.cursor (h : list.Layout postings headers) (hne : postings ≠ []) :
    ∃ first, list.cursor = .ok first ∧ first.Stands True postings headers ∧ first.index = 0 :=
  h.toOutline.cursor (fun _ => h) hne

end Outline

theorem list_eq_of_cursor {list : PostingList} {first : Cursor} (h : list.cursor = .ok first) :
    first.list = list := by
  rw [PostingList.cursor] at h
  split at h
  · cases h
  · split at h
    · exact (Cursor.goto_eq_ok h).1
    · cases h
      rfl

/-- Appending fails only by refusing; no difference is negative. -/
theorem append_ne_fault (list : PostingList) (posting : Posting) (fault : Fault) :
    list.append posting ≠ .error (.fault fault) := by
  by_cases ha : list.Accepts posting
  · obtain ⟨delta, written, -, -, heq⟩ := append_of_accepts ha
    rw [heq]
    exact nofun
  · obtain ⟨refusal, heq⟩ := append_of_not_accepts ha
    rw [heq]
    exact nofun

/-- Whatever postings are offered to a list and however a cursor moves over it, the cursor
shows the accepted posting of its number, and its moves go to the numbers they should. -/
theorem cursor_refines_accepted (span : SkipSpan) (offered : List Posting)
    (hroom : ((empty span).offerAll offered).data.size < UInt32.size)
    (hne : (empty span).accepted offered ≠ []) :
    (∀ tried posting rest, offered = tried ++ posting :: rest →
      ∀ fault, ((empty span).offerAll tried).append posting ≠ .error (.fault fault)) ∧
    ∃ first, ((empty span).offerAll offered).cursor = .ok first ∧ first.index = 0 ∧
      ∀ run, ∃ cursor, first.moves run = .ok cursor ∧
        cursor.index ≤ ((empty span).accepted offered).length ∧
        (cursor.atEnd = true ↔ cursor.index = ((empty span).accepted offered).length) ∧
        (∀ posting, ((empty span).accepted offered)[cursor.index]? = some posting →
          cursor.posting = .ok posting ∧
          ∃ next, cursor.advance = .ok next ∧ next.index = cursor.index + 1) ∧
        (cursor.hasSkip = true ↔ span.postings ∣ cursor.index ∧
          cursor.index + span.postings < ((empty span).accepted offered).length) ∧
        (cursor.hasSkip = true → ∃ next, cursor.skipSpan = .ok next ∧
          next.index = cursor.index + span.postings) := by
  refine ⟨fun tried posting rest _ fault => append_ne_fault _ _ _, ?_⟩
  obtain ⟨headers, hlayout⟩ := (layout_empty span).offerAll hroom
  rw [List.nil_append] at hlayout
  obtain ⟨first, hfirst, hstands, hindex⟩ := hlayout.cursor hne
  refine ⟨first, hfirst, hindex, ?_⟩
  intro run
  obtain ⟨cursor, hcursor, hcursorStands⟩ := hstands.moves run
  have hspan : cursor.list.span = span := by
    rw [Cursor.list_eq_of_moves hcursor, list_eq_of_cursor hfirst, span_offerAll]
    rfl
  refine ⟨cursor, hcursor, hcursorStands.index_le, hcursorStands.atEnd_iff, ?_, ?_, ?_⟩
  · intro posting hp
    obtain ⟨next, hnext, -, hnextIndex⟩ := hcursorStands.advance
    have hlt := (List.getElem?_eq_some_iff.1 hp).1
    exact ⟨hcursorStands.posting trivial hp, next, hnext, by omega⟩
  · rw [hcursorStands.hasSkip_iff, hspan]
  · intro hskip
    obtain ⟨next, hnext, -, hnextIndex⟩ := hcursorStands.skipSpan hskip
    exact ⟨next, hnext, by rw [hnextIndex, hspan]⟩

/-- Offers to a list of spans of two, which refuses the third of them. -/
def sampleOffers : List Posting :=
  [⟨3, 1, [⟨0, 4⟩], [0]⟩, ⟨9, 2, [⟨1, 1⟩, ⟨300, 301⟩], [7, 200]⟩, ⟨9, 1, [], []⟩,
    ⟨10, 1, [], []⟩, ⟨42, 1, [⟨2, 5⟩], [1]⟩, ⟨70000, 1, [⟨6, 6⟩], [2]⟩]

/-- The first of three spans is passed, and the cursor is on the third posting. -/
theorem cursor_refines_accepted_second_span :
    ((empty ⟨2, by decide⟩).offerAll sampleOffers).data.size < UInt32.size ∧
    (empty ⟨2, by decide⟩).accepted sampleOffers ≠ [] ∧
    ∃ first next, ((empty ⟨2, by decide⟩).offerAll sampleOffers).cursor = .ok first ∧
      first.skipSpan = .ok next ∧ next.index = 2 := by
  have hroom : ((empty ⟨2, by decide⟩).offerAll sampleOffers).data.size < UInt32.size := by
    decide +kernel
  have hlength : ((empty ⟨2, by decide⟩).accepted sampleOffers).length = 5 := by decide +kernel
  have hne : (empty ⟨2, by decide⟩).accepted sampleOffers ≠ [] :=
    List.ne_nil_of_length_pos (by omega)
  obtain ⟨-, first, hfirst, hindex, hruns⟩ :=
    cursor_refines_accepted ⟨2, by decide⟩ sampleOffers hroom hne
  obtain ⟨cursor, hcursor, -, -, -, hskip, hpass⟩ := hruns []
  cases hcursor
  rw [hlength, hindex] at hskip
  obtain ⟨next, hnext, hnextIndex⟩ := hpass (hskip.2 (by decide))
  rw [hindex] at hnextIndex
  exact ⟨hroom, hne, first, next, hfirst, hnext, hnextIndex⟩

/-- Seeking an id ends, after any moves, where advancing one posting at a time ends: on the
first posting at or above the id, or past the last. A cursor that is there does not move. -/
theorem seek_eq_scan (span : SkipSpan) (offered : List Posting)
    (hroom : ((empty span).offerAll offered).data.size < UInt32.size)
    (hne : (empty span).accepted offered ≠ []) (run : List Cursor.Move) (target : UInt32) :
    ∃ first cursor next, ((empty span).offerAll offered).cursor = .ok first ∧
      first.moves run = .ok cursor ∧ cursor.seek target = .ok next ∧
      Cursor.Sought ((empty span).accepted offered) target cursor.index next.index ∧
      cursor.moves (List.replicate (next.index - cursor.index) .advance) = .ok next ∧
      (∀ posting, ((empty span).accepted offered)[next.index]? = some posting →
        next.posting = .ok posting) ∧
      (cursor.index = ((empty span).accepted offered).length ∨
          (∃ posting, ((empty span).accepted offered)[cursor.index]? = some posting ∧
            target ≤ posting.docId) →
        next = cursor) := by
  obtain ⟨headers, hlayout⟩ := (layout_empty span).offerAll hroom
  rw [List.nil_append] at hlayout
  obtain ⟨first, hfirst, hfirstStands, -⟩ := hlayout.cursor hne
  obtain ⟨cursor, hcursor, hstands⟩ := hfirstStands.moves run
  obtain ⟨next, hnext, hnextStands, hsought⟩ := hstands.seek target
  obtain ⟨scanned, hscanned, hscannedStands, hscannedIndex⟩ :=
    hstands.moves_replicate_advance (next.index - cursor.index)
  have hle := hsought.le
  have hlength := hsought.le_length
  have heq : scanned = next := by
    apply hscannedStands.ext hnextStands
    · rw [Cursor.list_eq_of_moves hscanned, (Cursor.seek_eq_ok hnext).1]
    · omega
  refine ⟨first, cursor, next, hfirst, hcursor, hnext, hsought, heq ▸ hscanned, ?_, ?_⟩
  · intro posting hp
    exact hnextStands.posting trivial hp
  · intro hstay
    apply hnextStands.ext hstands (Cursor.seek_eq_ok hnext).1
    rcases hstay with hend | ⟨posting, hp, hge⟩
    · omega
    · by_contra hne
      apply UInt32.not_lt.mpr hge
      exact hsought.below _ posting (Nat.le_refl _) (by omega) hp

/-- From the middle of the first span, seeking passes the second and ends in the last. -/
theorem seek_eq_scan_last_span :
    ((empty ⟨2, by decide⟩).offerAll sampleOffers).data.size < UInt32.size ∧
    (empty ⟨2, by decide⟩).accepted sampleOffers ≠ [] ∧
    ∃ first cursor next, ((empty ⟨2, by decide⟩).offerAll sampleOffers).cursor = .ok first ∧
      first.moves [.advance] = .ok cursor ∧ cursor.seek 43 = .ok next ∧
      cursor.moves (List.replicate (next.index - cursor.index) .advance) = .ok next := by
  have hroom : ((empty ⟨2, by decide⟩).offerAll sampleOffers).data.size < UInt32.size := by
    decide +kernel
  have hne : (empty ⟨2, by decide⟩).accepted sampleOffers ≠ [] := by decide +kernel
  obtain ⟨first, cursor, next, hfirst, hcursor, hnext, -, hscan, -⟩ :=
    seek_eq_scan ⟨2, by decide⟩ sampleOffers hroom hne [.advance] 43
  exact ⟨hroom, hne, first, cursor, next, hfirst, hcursor, hnext, hscan⟩

end PostingList

end Concordance
