import Concordance.Proofs.Header
import Concordance.Proofs.Sequences

/-!
# What a posting list holds

A list that was built by appending holds the postings it accepted: each is found
where the one before it ends, and the skip index has the start and the base of every
span. `Layout` states this about the readers of the list, not about its bytes.
Appending keeps it unless the posting is so long that 32 bits do not hold its size.
Such a posting fills the data, so that it stays the last, and every header still names its
posting: that is the `Outline` of the list.
-/

namespace Concordance.PostingList

open Result Posting Sequences

/-- The list takes the posting: its id is above the last one, its occurrences are in order
and the data still has an offset for it. -/
structure Accepts (list : PostingList) (posting : Posting) : Prop where
  lastDocId_lt : 0 < list.size → list.lastDocId < posting.docId
  check : posting.check = .ok ()
  room : list.data.size < UInt32.size

/-- The list with a posting that is written as `written` behind it. -/
def extend (list : PostingList) (posting : Posting) (written : Bytes) : PostingList where
  data := list.data ++ written
  skips :=
    if list.size % list.span.postings = 0 then
      list.skips.push ⟨list.baseDocId posting.docId, list.data.size.toUInt32⟩
    else list.skips
  span := list.span
  lastDocId := posting.docId
  size := list.size + 1

/-- What is accepted can be written, with a difference that is not negative. -/
theorem append_of_accepts {list : PostingList} {posting : Posting} (h : list.Accepts posting) :
    ∃ delta written,
      Word.difference posting.docId (list.baseDocId posting.docId) = .ok delta ∧
        posting.encode delta = .ok written ∧
        list.append posting = .ok (list.extend posting written) := by
  have hbase : list.baseDocId posting.docId ≤ posting.docId := by
    unfold baseDocId isEmpty
    split
    · exact UInt32.le_refl _
    · next hsize =>
        rw [beq_iff_eq] at hsize
        exact UInt32.le_of_lt (h.lastDocId_lt (by omega))
  have hdelta := difference_of_le hbase
  obtain ⟨content, hcontent⟩ :=
    exists_content h.check (posting.docId - list.baseDocId posting.docId)
  obtain ⟨written, hw⟩ : ∃ written,
      posting.encode (posting.docId - list.baseDocId posting.docId) = .ok written :=
    ⟨_, encode_eq_ok_iff.2 ⟨content, hcontent, rfl⟩⟩
  have horder : ¬ (0 < list.size ∧ posting.docId ≤ list.lastDocId) := by
    rintro ⟨hpos, hle⟩
    exact UInt32.not_lt.2 hle (h.lastDocId_lt hpos)
  refine ⟨_, written, hdelta, hw, ?_⟩
  unfold append
  simp only [if_neg horder, if_neg (Nat.not_le.2 h.room), h.check, hdelta, hw, liftM_fault_ok,
    liftM_refusal_ok, ok_bind, pure_eq_ok]
  rfl

/-- What is not accepted is refused; no sum, difference or read fails. -/
theorem append_of_not_accepts {list : PostingList} {posting : Posting}
    (h : ¬ list.Accepts posting) :
    ∃ refusal, list.append posting = .error (.construction refusal) := by
  unfold append
  by_cases horder : 0 < list.size ∧ posting.docId ≤ list.lastDocId
  · exact ⟨.postingOrder posting.docId list.lastDocId,
      by simp only [if_pos horder, throw_eq_error, error_bind]⟩
  · simp only [if_neg horder]
    cases hcheck : posting.check with
    | error refusal => exact ⟨refusal, by simp only [liftM_refusal_error, error_bind]⟩
    | ok _ =>
        have hfull : UInt32.size ≤ list.data.size := by
          by_contra hroom
          apply h
          refine ⟨?_, hcheck, Nat.not_le.1 hroom⟩
          intro hpos
          exact UInt32.not_le.1 fun hle => horder ⟨hpos, hle⟩
        exact ⟨.bufferFull, by simp only [if_pos hfull, liftM_refusal_ok, ok_bind,
          throw_eq_error, error_bind]⟩

/-- A posting in order above the others is refused only where there is no offset for it. -/
theorem append_eq_ok_or_full {list : PostingList} {posting : Posting}
    (horder : 0 < list.size → list.lastDocId < posting.docId) (hcheck : posting.check = .ok ()) :
    (∃ next, list.append posting = .ok next) ∨
      UInt32.size ≤ list.data.size ∧
        list.append posting = .error (.construction .bufferFull) := by
  by_cases hroom : list.data.size < UInt32.size
  · obtain ⟨delta, written, -, -, hok⟩ := append_of_accepts ⟨horder, hcheck, hroom⟩
    exact .inl ⟨_, hok⟩
  · have hnot : ¬ (0 < list.size ∧ posting.docId ≤ list.lastDocId) := by
      rintro ⟨hpos, hle⟩
      exact UInt32.not_lt.2 hle (horder hpos)
    refine .inr ⟨Nat.not_lt.1 hroom, ?_⟩
    simp only [append, if_neg hnot, hcheck, if_pos (Nat.not_lt.1 hroom), liftM_refusal_ok, ok_bind,
      throw_eq_error, error_bind]

theorem accepts_of_append {list next : PostingList} {posting : Posting}
    (h : list.append posting = .ok next) : list.Accepts posting := by
  by_contra hn
  obtain ⟨refusal, hr⟩ := append_of_not_accepts hn
  rw [hr] at h
  cases h

/-- Where the posting of a number starts: where the one before it ends. -/
def startOf (headers : List Header) : Nat → Nat
  | 0 => 0
  | i + 1 => (headers[i]?.map Header.next).getD 0

/-- The id from which the difference of a posting counts: that of the posting before, or
its own for the first. -/
def baseOf (postings : List Posting) (i : Nat) : UInt32 :=
  (postings[i - 1]?.map Posting.docId).getD 0

/-- The list has these postings in order, and each is named by its header. -/
structure Outline (list : PostingList) (postings : List Posting) (headers : List Header) :
    Prop where
  size_eq : list.size = postings.length
  length_headers : headers.length = postings.length
  ordered : postings.Pairwise fun p q => p.docId < q.docId
  lastDocId_eq : postings ≠ [] → list.lastDocId = baseOf postings postings.length
  header : ∀ {i posting header}, postings[i]? = some posting → headers[i]? = some header →
    readHeader list.data (baseOf postings i) (startOf headers i) = .ok header ∧
      header.Names list.data posting
  lt_skips_iff : ∀ span, span < list.skips.size ↔ span * list.span.postings < postings.length
  skip : ∀ {span entry}, list.skips.get? span = some entry →
    entry.previousDocId = baseOf postings (span * list.span.postings) ∧
      entry.start.toNat = startOf headers (span * list.span.postings)

/-- The list holds these postings, with these headers. -/
structure Layout (list : PostingList) (postings : List Posting) (headers : List Header) : Prop
    extends list.Outline postings headers where
  stop_eq : startOf headers postings.length = list.data.size
  describes : ∀ {i : Nat} {posting} {header : Header},
    postings[i]? = some posting → headers[i]? = some header →
    header.Describes list.data posting

theorem layout_empty (span : SkipSpan) : (empty span).Layout [] [] where
  size_eq := rfl
  length_headers := rfl
  ordered := List.Pairwise.nil
  lastDocId_eq := fun h => absurd rfl h
  stop_eq := rfl
  header := fun h => by simp at h
  describes := fun h => by simp at h
  lt_skips_iff := fun number => by simp [empty, SkipIndex.empty, SkipIndex.size]
  skip := fun h => by simp [empty, SkipIndex.empty, SkipIndex.get?] at h

theorem startOf_append {headers : List Header} {i : Nat} (header : Header)
    (hi : i ≤ headers.length) : startOf (headers ++ [header]) i = startOf headers i := by
  cases i with
  | zero => rfl
  | succ i => rw [startOf, startOf, List.getElem?_append_left (by omega)]

theorem baseOf_append {postings : List Posting} {i : Nat} (posting : Posting)
    (hne : postings ≠ []) (hi : i ≤ postings.length) :
    baseOf (postings ++ [posting]) i = baseOf postings i := by
  have := List.length_pos_iff.2 hne
  rw [baseOf, baseOf, List.getElem?_append_left (by omega)]

theorem baseOf_append_length (postings : List Posting) (posting : Posting) :
    baseOf (postings ++ [posting]) (postings.length + 1) = posting.docId := by
  simp [baseOf]

/-- What holds of each posting with its base, start and header, and of one more behind them,
holds of all. -/
theorem of_concat {p : UInt32 → Nat → Posting → Header → Prop} {postings : List Posting}
    {headers : List Header} (hlen : headers.length = postings.length)
    (hold : ∀ {i posting header}, postings[i]? = some posting → headers[i]? = some header →
      p (baseOf postings i) (startOf headers i) posting header)
    {posting : Posting} {header : Header}
    (hnew : p (baseOf (postings ++ [posting]) postings.length)
      (startOf headers postings.length) posting header)
    {i : Nat} {posting' : Posting} {header' : Header}
    (hp : (postings ++ [posting])[i]? = some posting')
    (hheader : (headers ++ [header])[i]? = some header') :
    p (baseOf (postings ++ [posting]) i) (startOf (headers ++ [header]) i) posting' header' := by
  rw [getElem?_concat_eq_some_iff] at hp hheader
  rcases hp with hp | ⟨hi, rfl⟩
  · have hlt := (List.getElem?_eq_some_iff.1 hp).1
    rw [or_iff_left (by omega)] at hheader
    rw [startOf_append header (by omega),
      baseOf_append posting (List.ne_nil_of_length_pos (by omega)) (by omega)]
    exact hold hp hheader
  · rw [hi, ← hlen, List.getElem?_length, or_iff_right nofun] at hheader
    rw [hi, startOf_append header (by omega), ← hheader.2]
    exact hnew

/-- The base of a posting is no lower than the ids before. -/
theorem docId_le_baseOf {postings : List Posting}
    (h : postings.Pairwise fun p q => p.docId < q.docId) {i k : Nat} {p : Posting}
    (hp : postings[k]? = some p) (hk : k < i) (hi : i ≤ postings.length) :
    p.docId ≤ baseOf postings i := by
  obtain ⟨hlt, rfl⟩ := List.getElem?_eq_some_iff.1 hp
  rw [baseOf, List.getElem?_eq_getElem (by omega)]
  simp only [Option.map_some, Option.getD_some]
  by_cases hlast : k = i - 1
  · subst hlast
    exact UInt32.le_refl _
  · exact UInt32.le_of_lt (List.pairwise_iff_getElem.1 h k (i - 1) hlt (by omega) (by omega))

theorem docId_le_baseOf_length {postings : List Posting}
    (h : postings.Pairwise fun p q => p.docId < q.docId) {p : Posting} (hp : p ∈ postings) :
    p.docId ≤ baseOf postings postings.length := by
  obtain ⟨k, hk⟩ := List.mem_iff_getElem?.1 hp
  exact docId_le_baseOf h hk (List.getElem?_eq_some_iff.1 hk).1 (Nat.le_refl _)

theorem Outline.exists_getElem?_headers {list : PostingList} {postings : List Posting}
    {headers : List Header} (h : list.Outline postings headers) {i : Nat}
    (hi : i < postings.length) : ∃ header, headers[i]? = some header := by
  rw [← h.length_headers] at hi
  exact ⟨_, List.getElem?_eq_getElem hi⟩

namespace Layout
variable {list next : PostingList} {postings : List Posting} {headers : List Header}
  {posting : Posting}

/-- The base of a posting that is appended is the base that its number has from then on. -/
theorem baseDocId_eq (h : list.Layout postings headers) :
    list.baseDocId posting.docId = baseOf (postings ++ [posting]) postings.length := by
  unfold baseDocId isEmpty
  rw [h.size_eq]
  cases hp : postings with
  | nil => simp [baseOf]
  | cons first rest =>
      have hne : postings ≠ [] := by simp [hp]
      rw [if_neg (by simp), h.lastDocId_eq hne, ← hp, baseOf_append posting hne (Nat.le_refl _)]

theorem docId_lt (h : list.Layout postings headers) (ha : list.Accepts posting)
    {p : Posting} (hp : p ∈ postings) : p.docId < posting.docId := by
  have hpos : 0 < list.size := by
    rw [h.size_eq]
    exact List.length_pos_of_mem hp
  have hle := docId_le_baseOf_length h.ordered hp
  rw [← h.lastDocId_eq (List.ne_nil_of_mem hp)] at hle
  apply UInt32.lt_of_le_of_lt hle
  exact ha.lastDocId_lt hpos

/-- A span starts with the next posting exactly if the spans before are full. -/
theorem skips_size_of_mod_eq_zero (h : list.Layout postings headers)
    (hmod : list.size % list.span.postings = 0) :
    list.skips.size * list.span.postings = postings.length := by
  have hpos := list.span.positive
  rw [h.size_eq] at hmod
  obtain ⟨q, hq⟩ := Nat.dvd_of_mod_eq_zero hmod
  have hle : ¬ q < list.skips.size := by
    rw [h.lt_skips_iff, hq, Nat.mul_comm]
    omega
  have hge : ¬ list.skips.size < q := by
    intro hlt
    have := (h.lt_skips_iff list.skips.size).2 (by
      rw [hq, Nat.mul_comm]
      exact Nat.mul_lt_mul_of_pos_left hlt hpos)
    omega
  rw [hq, Nat.mul_comm]
  congr 1
  omega

/-- The spans after a posting is appended are those that begin at or before it. -/
theorem lt_skips_extend_iff (h : list.Layout postings headers) (written : Bytes) (span : Nat) :
    span < (list.extend posting written).skips.size ↔
      span * list.span.postings < postings.length + 1 := by
  have hiff := h.lt_skips_iff span
  simp only [extend]
  split
  · next hmod =>
      have hfull := h.skips_size_of_mod_eq_zero hmod
      rw [← hfull, Nat.lt_succ_iff,
        Nat.mul_le_mul_right_iff list.span.positive, ← Nat.lt_succ_iff]
      simp [SkipIndex.push, SkipIndex.size]
  · next hmod =>
      have hne : span * list.span.postings ≠ postings.length := by
        intro heq
        rw [h.size_eq, ← heq, Nat.mul_mod_left] at hmod
        exact hmod rfl
      omega

theorem skip_extend (h : list.Layout postings headers) {written : Bytes} {header : Header}
    (hroom : list.data.size < UInt32.size) {span : Nat} {entry : SkipEntry}
    (hget : (list.extend posting written).skips.get? span = some entry) :
    entry.previousDocId = baseOf (postings ++ [posting]) (span * list.span.postings) ∧
      entry.start.toNat = startOf (headers ++ [header]) (span * list.span.postings) := by
  have hlen := h.length_headers
  -- An entry that was there before keeps its base and its start.
  have hold (hget : list.skips.get? span = some entry) :
      entry.previousDocId = baseOf (postings ++ [posting]) (span * list.span.postings) ∧
        entry.start.toNat = startOf (headers ++ [header]) (span * list.span.postings) := by
    have hlt : span * list.span.postings < postings.length :=
      (h.lt_skips_iff span).1 (Array.getElem?_eq_some_iff.1 hget).1
    rw [startOf_append header (by omega),
      baseOf_append posting (List.ne_nil_of_length_pos (by omega)) (by omega)]
    exact h.skip hget
  simp only [extend] at hget
  split at hget
  · next hmod =>
      by_cases hspan : span = list.skips.size
      · have hfull := h.skips_size_of_mod_eq_zero hmod
        subst hspan
        simp only [SkipIndex.get?, SkipIndex.push, SkipIndex.size, Array.getElem?_push_size,
          Option.some.injEq] at hget
        subst hget
        rw [hfull, startOf_append header (by omega), h.stop_eq]
        exact ⟨h.baseDocId_eq, UInt32.toNat_ofNat_of_lt' hroom⟩
      · apply hold
        simpa [SkipIndex.get?, SkipIndex.push, Array.getElem?_push, show
          span ≠ list.skips.entries.size from hspan] using hget
  · exact hold hget

/-- A posting that is accepted comes after those before, which stay, with the header that is read
at its start. -/
theorem outline_append (h : list.Layout postings headers) {written : Bytes} {header : Header}
    (ha : list.Accepts posting)
    (hread : readHeader (list.data ++ written) (baseOf (postings ++ [posting]) postings.length)
      list.data.size = .ok header)
    (hnames : header.Names (list.data ++ written) posting) :
    (list.extend posting written).Outline (postings ++ [posting]) (headers ++ [header]) := by
  have hlen := h.length_headers
  constructor
  case size_eq => simp [extend, h.size_eq]
  case length_headers => simp [hlen]
  case ordered =>
      rw [List.pairwise_append]
      refine ⟨h.ordered, List.pairwise_singleton .., ?_⟩
      intro p hp q hq
      rw [List.mem_singleton.1 hq]
      exact h.docId_lt ha hp
  case lastDocId_eq =>
      intro _
      rw [List.length_append, List.length_singleton, baseOf_append_length]
      rfl
  case header =>
      apply of_concat (p := fun base start posting header =>
        readHeader (list.data ++ written) base start = .ok header ∧
          header.Names (list.data ++ written) posting) hlen
      · intro i p header' hp hheader
        obtain ⟨hread, hnames⟩ := h.header hp hheader
        exact ⟨readHeader_append hread written, hnames.append written⟩
      · rw [h.stop_eq]
        exact ⟨hread, hnames⟩
  case lt_skips_iff =>
      intro span
      rw [List.length_append, List.length_singleton]
      exact h.lt_skips_extend_iff written span
  case skip =>
      intro span entry hget
      exact h.skip_extend ha.room hget

/-- Whatever its size, an accepted posting and those before it are named by their headers. -/
theorem exists_outline_append (h : list.Layout postings headers)
    (happend : list.append posting = .ok next) :
    ∃ header, next.Outline (postings ++ [posting]) (headers ++ [header]) := by
  have ha := accepts_of_append happend
  obtain ⟨delta, written, hdelta, hw, heq⟩ := append_of_accepts ha
  rw [heq] at happend
  cases happend
  rw [h.baseDocId_eq] at hdelta
  obtain ⟨header, hread, hnames⟩ := exists_header list.data (sum_of_difference hdelta) hw
  exact ⟨header, h.outline_append ha hread hnames⟩

/-- A posting that is accepted is held after those before, which stay, if 32 bits hold its
size. -/
theorem append (h : list.Layout postings headers) (happend : list.append posting = .ok next)
    (hsized : posting.Sized (posting.docId - list.baseDocId posting.docId)) :
    ∃ header, next.Layout (postings ++ [posting]) (headers ++ [header]) := by
  have ha := accepts_of_append happend
  obtain ⟨delta, written, hdelta, hw, heq⟩ := append_of_accepts ha
  rw [heq] at happend
  cases happend
  rw [← eq_sub_of_difference hdelta] at hsized
  rw [h.baseDocId_eq] at hdelta
  obtain ⟨header, hwritten, hnext⟩ := exists_written list.data hw hsized
  have hlen := h.length_headers
  have hdescribes := hwritten.describes
  refine ⟨header, h.outline_append ha (hwritten.readHeader (sum_of_difference hdelta))
    hdescribes.names, ?_, ?_⟩
  · simp [startOf, ← hlen, hnext, extend]
  · apply of_concat (p := fun _ _ posting header =>
      header.Describes (list.data ++ written) posting) hlen
    · intro i p header' hp hheader
      exact (h.describes hp hheader).append written
    · exact hdescribes

/-- The sizes of the regions are words, so that there are no more pairs and positions. -/
theorem lengths_lt (h : list.Layout postings headers) (hm : posting ∈ postings) :
    posting.offsets.length < UInt32.size ∧ posting.positions.length < UInt32.size := by
  obtain ⟨i, hp⟩ := List.mem_iff_getElem?.1 hm
  obtain ⟨header, hheader⟩ := h.exists_getElem?_headers (List.getElem?_eq_some_iff.1 hp).1
  exact (h.describes hp hheader).lengths_lt (h.header hp hheader).1

end Layout

/-- The list after postings were offered in turn; one that is refused leaves nothing behind. -/
def offerAll (list : PostingList) : List Posting → PostingList
  | [] => list
  | posting :: rest =>
    match list.append posting with
    | .ok next => next.offerAll rest
    | .error _ => list.offerAll rest

/-- Those of the postings offered in turn that the list takes. -/
def accepted (list : PostingList) : List Posting → List Posting
  | [] => []
  | posting :: rest =>
    match list.append posting with
    | .ok next => posting :: next.accepted rest
    | .error _ => list.accepted rest

/-- Appending puts the posting behind the others. -/
theorem exists_extend_of_append {list next : PostingList} {posting : Posting}
    (h : list.append posting = .ok next) : ∃ written, next = list.extend posting written := by
  obtain ⟨delta, written, -, -, heq⟩ := append_of_accepts (accepts_of_append h)
  rw [heq, Except.ok.injEq] at h
  exact ⟨written, h.symm⟩

theorem size_data_le_of_append {list next : PostingList} {posting : Posting}
    (h : list.append posting = .ok next) : list.data.size ≤ next.data.size := by
  obtain ⟨written, rfl⟩ := exists_extend_of_append h
  simp only [extend, Array.size_append]
  omega

theorem span_eq_of_append {list next : PostingList} {posting : Posting}
    (h : list.append posting = .ok next) : next.span = list.span := by
  obtain ⟨written, rfl⟩ := exists_extend_of_append h
  rfl

theorem size_data_le_offerAll (list : PostingList) (offered : List Posting) :
    list.data.size ≤ (list.offerAll offered).data.size := by
  fun_induction offerAll list offered with
  | case1 => exact Nat.le_refl _
  | case2 list posting rest next happend ih =>
      calc
        list.data.size ≤ next.data.size := size_data_le_of_append happend
        _ ≤ (next.offerAll rest).data.size := ih
  | case3 list posting rest error happend ih => exact ih

theorem span_offerAll (list : PostingList) (offered : List Posting) :
    (list.offerAll offered).span = list.span := by
  fun_induction offerAll list offered with
  | case1 => rfl
  | case2 list posting rest next happend ih => rw [ih, span_eq_of_append happend]
  | case3 list posting rest error happend ih => exact ih

/-- The size of every posting that is taken is a number of 32 bits. -/
def Sized (list : PostingList) : List Posting → Prop
  | [] => True
  | posting :: rest =>
    match list.append posting with
    | .ok next =>
      posting.Sized (posting.docId - list.baseDocId posting.docId) ∧ next.Sized rest
    | .error _ => list.Sized rest

/-- A posting takes more bytes than its size counts. -/
theorem sized_of_append {list next : PostingList} {posting : Posting}
    (happend : list.append posting = .ok next)
    (hsize : next.data.size < list.data.size + UInt32.size) :
    posting.Sized (posting.docId - list.baseDocId posting.docId) := by
  obtain ⟨delta, written, hdelta, hw, heq⟩ := append_of_accepts (accepts_of_append happend)
  rw [heq] at happend
  cases happend
  obtain rfl := eq_sub_of_difference hdelta
  obtain ⟨content, hcontent, rfl⟩ := encode_eq_ok_iff.1 hw
  intro content' hcontent'
  rw [hcontent, Except.ok.injEq] at hcontent'
  subst hcontent'
  simp only [extend, Array.size_append] at hsize
  omega

/-- A posting that is not sized leaves no room for another. -/
theorem size_data_of_not_sized {list next : PostingList} {posting : Posting}
    (happend : list.append posting = .ok next)
    (hsized : ¬ posting.Sized (posting.docId - list.baseDocId posting.docId)) :
    UInt32.size ≤ next.data.size := by
  by_contra hlt
  exact hsized (sized_of_append happend (by omega))

/-- Data that stays below the 32-bit offsets has no posting that is too long. -/
theorem sized_of_room {list : PostingList} {offered : List Posting}
    (hroom : (list.offerAll offered).data.size < UInt32.size) : list.Sized offered := by
  fun_induction offerAll list offered with
  | case1 => trivial
  | case2 list posting rest next happend ih =>
      have hle := size_data_le_offerAll next rest
      simp only [Sized, happend]
      exact ⟨sized_of_append happend (by omega), ih hroom⟩
  | case3 list posting rest error happend ih =>
      simp only [Sized, happend]
      exact ih hroom

/-- A list whose data has no offset left takes no posting. -/
theorem offerAll_of_full {list : PostingList} (hfull : UInt32.size ≤ list.data.size)
    (offered : List Posting) : list.offerAll offered = list ∧ list.accepted offered = [] := by
  induction offered with
  | nil => exact ⟨rfl, rfl⟩
  | cons posting rest ih =>
      have hrefuses : ¬ list.Accepts posting := fun ha => absurd ha.room (Nat.not_lt.2 hfull)
      obtain ⟨refusal, hrefused⟩ := append_of_not_accepts hrefuses
      simp only [offerAll, accepted, hrefused]
      exact ih

/-- A list has what it held before and what it accepts, each named by its header, and holds them
all if no posting is too long. -/
theorem Layout.exists_outline {list : PostingList} {postings : List Posting}
    {headers : List Header} (h : list.Layout postings headers) (offered : List Posting) :
    ∃ headers, (list.offerAll offered).Outline (postings ++ list.accepted offered) headers ∧
      (list.Sized offered →
        (list.offerAll offered).Layout (postings ++ list.accepted offered) headers) := by
  induction offered generalizing list postings headers with
  | nil =>
      rw [PostingList.offerAll, accepted, List.append_nil]
      exact ⟨headers, h.toOutline, fun _ => h⟩
  | cons posting rest ih =>
      rw [Sized, PostingList.offerAll, accepted]
      cases happend : list.append posting with
      | error error => exact ih h
      | ok next =>
          simp only
          by_cases hsized : posting.Sized (posting.docId - list.baseDocId posting.docId)
          · obtain ⟨header, hnext⟩ := h.append happend hsized
            obtain ⟨found, houtline, hlayout⟩ := ih hnext
            rw [List.append_assoc] at houtline hlayout
            exact ⟨found, houtline, fun hs => hlayout hs.2⟩
          · obtain ⟨hsame, hnone⟩ :=
              offerAll_of_full (size_data_of_not_sized happend hsized) rest
            obtain ⟨header, houtline⟩ := h.exists_outline_append happend
            rw [hsame, hnone]
            exact ⟨_, houtline, fun hs => absurd hs.1 hsized⟩

/-- Below the 32-bit offsets a list holds what it held before and what it accepts. -/
theorem Layout.offerAll {list : PostingList} {postings : List Posting} {headers : List Header}
    (h : list.Layout postings headers) {offered : List Posting}
    (hsize : (list.offerAll offered).data.size < UInt32.size) :
    ∃ headers, (list.offerAll offered).Layout (postings ++ list.accepted offered) headers := by
  obtain ⟨headers, -, hlayout⟩ := h.exists_outline offered
  exact ⟨headers, hlayout (sized_of_room hsize)⟩

end Concordance.PostingList
