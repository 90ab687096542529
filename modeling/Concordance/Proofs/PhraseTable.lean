import Concordance.Proofs.Phrase
import Concordance.Proofs.Posting

/-!
# Phrase tables are exact

A table of the matches of a phrase has a column for each place where the phrase starts
and no other column, and each row gives the occurrences of its term that are used there,
in order. Walking two lists and moving any number of them both give such a table.
-/

namespace Concordance.Phrase

open Sequences Result PopStream

variable {streams : List (List UInt32)} {rows found : List (List Occurrence)}
  {column first second : List Occurrence} {occurrence : Occurrence} {start i : Nat}

/-- The table holds just the matches of the phrase whose terms stand at these positions. -/
structure Exact (streams : List (List UInt32)) (table : PositionTable) : Prop where
  rowCount_eq : table.rowCount = streams.length
  length_row : ∀ row ∈ table.rows, row.length = table.columnCount
  mem_starts_iff : ∀ start, start ∈ table.starts ↔ ∀ (i : Nat) stream,
    streams[i]? = some stream → ∃ value ∈ stream, value.toNat = start.toNat + i
  occurrence : ∀ (i j : Nat) row stream start occurrence, table.rows[i]? = some row →
    streams[i]? = some stream → table.starts[j]? = some start → row[j]? = some occurrence →
    occurrence.position.toNat = start.toNat + i ∧
      stream[occurrence.index.toNat]? = some occurrence.position
  starts_ordered : table.starts.Pairwise (· ≤ ·)
  indices_ordered : ∀ row ∈ table.rows, (row.map (·.index)).Pairwise (· < ·)
  starts_nodup : (∀ stream ∈ streams, stream.Pairwise (· < ·)) → table.starts.Nodup

theorem map_index_occurrences {stream : List UInt32} (h : stream.length ≤ UInt32.size) :
    (occurrences stream).map (·.index.toNat) = List.range stream.length := by
  rw [occurrences, occurrencesFrom, List.map_map, List.range_eq_range',
    ← List.zipIdx_map_snd 0 stream]
  apply List.map_congr_left
  rintro ⟨position, number⟩ hm
  have hlt := (List.getElem?_eq_some_iff.1 (List.mem_zipIdx_iff_getElem?.1 hm)).1
  exact UInt32.toNat_ofNat_of_lt' (Nat.lt_of_lt_of_le hlt h)

theorem position_of_consecutive (h : consecutive start column = true)
    (hi : column[i]? = some occurrence) : occurrence.position.toNat = start + i := by
  induction column generalizing start i with
  | nil => cases hi
  | cons head column ih =>
      rw [consecutive, Bool.and_eq_true, beq_iff_eq] at h
      cases i with
      | zero =>
          cases hi
          exact h.1
      | succ i =>
          have := ih h.2 hi
          omega

/-- Columns that take their occurrences from the rows, in order. -/
structure Matching (rows found : List (List Occurrence)) : Prop where
  within : ∀ column ∈ found, Within column rows
  consecutive : ∀ column ∈ found, ∃ start, consecutive start column = true
  complete : ∀ start, StandsAt start rows → ∃ column ∈ found, Phrase.consecutive start column = true
  sublist : ∀ (i : Nat) row, rows[i]? = some row → (found.filterMap (·[i]?)).Sublist row

theorem getElem?_rowsOf_eq_some_iff {count : Nat} {row : List Occurrence} :
    (rowsOf count found)[i]? = some row ↔ i < count ∧ found.filterMap (·[i]?) = row := by
  rw [rowsOf, List.getElem?_map, Option.map_eq_some_iff]
  constructor
  · rintro ⟨place, hplace, hrow⟩
    obtain ⟨hlt, rfl⟩ := List.getElem?_eq_some_iff.1 hplace
    rw [List.getElem_range] at hrow
    rw [List.length_range] at hlt
    exact ⟨hlt, hrow⟩
  · rintro ⟨hlt, hrow⟩
    exact ⟨i, List.getElem?_range hlt, hrow⟩

theorem length_starts (table : PositionTable) : table.starts.length = table.columnCount := by
  cases table with
  | mk rows =>
      cases rows with
      | nil => rfl
      | cons row rows => exact List.length_map _

theorem starts_eq_of_row {row : List Occurrence} (h : rows[0]? = some row) :
    PositionTable.starts ⟨rows⟩ = row.map (·.position) ∧
      PositionTable.columnCount ⟨rows⟩ = row.length := by
  cases rows with
  | nil => cases h
  | cons first rest =>
      cases h
      exact ⟨rfl, rfl⟩

namespace Matching

theorem cell_isSome (h : Matching rows found) (hi : i < rows.length) :
    ∀ column ∈ found, column[i]?.isSome = true := by
  intro column hm
  rw [isSome_getElem?, (h.within column hm).length_eq]
  exact hi

theorem length_row (h : Matching rows found) (hi : i < rows.length) :
    (found.filterMap (·[i]?)).length = found.length :=
  List.filterMap_length_eq_length.2 (h.cell_isSome hi)

/-- Each column found stands at its number in every row. -/
theorem exists_column (h : Matching rows found) (hi : i < rows.length) {j : Nat}
    (hj : (found.filterMap (·[i]?))[j]? = some occurrence) :
    ∃ column ∈ found, found[j]? = some column ∧ column[i]? = some occurrence := by
  rw [getElem?_filterMap_of_forall (h.cell_isSome hi), Option.bind_eq_some_iff] at hj
  obtain ⟨column, hcolumn, hocc⟩ := hj
  exact ⟨column, List.mem_of_getElem? hcolumn, hcolumn, hocc⟩

end Matching

/-- A table of such columns is exact. -/
theorem Matching.exact (h : Matching (streams.map occurrences) found) (hne : streams ≠ [])
    (hstreams : ∀ stream ∈ streams, stream.Pairwise (· ≤ ·))
    (hlengths : ∀ stream ∈ streams, stream.length ≤ UInt32.size) :
    Exact streams ⟨rowsOf streams.length found⟩ := by
  have hpos := List.length_pos_iff.2 hne
  have hlength : (streams.map occurrences).length = streams.length := List.length_map ..
  obtain ⟨first, hfirst⟩ : ∃ first, streams[0]? = some first :=
    ⟨_, List.getElem?_eq_getElem hpos⟩
  have hsub := h.sublist 0 (occurrences first) (by rw [List.getElem?_map, hfirst]; rfl)
  have hrow : (rowsOf streams.length found)[0]? = some (found.filterMap (·[0]?)) :=
    getElem?_rowsOf_eq_some_iff.2 ⟨hpos, rfl⟩
  obtain ⟨hstarts, hcount⟩ := starts_eq_of_row hrow
  have hstartsSub : PositionTable.starts ⟨rowsOf streams.length found⟩ |>.Sublist first := by
    rw [hstarts, ← map_position_occurrences first]
    exact hsub.map _
  constructor
  case rowCount_eq => simp [PositionTable.rowCount, rowsOf]
  case length_row =>
      intro row hm
      obtain ⟨i, hi⟩ := List.mem_iff_getElem?.1 hm
      obtain ⟨hlt, rfl⟩ := getElem?_rowsOf_eq_some_iff.1 hi
      rw [hcount, h.length_row (by omega), h.length_row (by omega)]
  case mem_starts_iff =>
      intro start
      rw [hstarts, List.mem_map, ← standsAt_occurrences_iff]
      constructor
      · rintro ⟨occurrence, hm, rfl⟩
        obtain ⟨column, hcolumn, hocc⟩ := List.mem_filterMap.1 hm
        obtain ⟨place, hplace⟩ := h.consecutive column hcolumn
        rw [position_of_consecutive hplace hocc]
        exact standsAt_of_consecutive (h.within column hcolumn) hplace
      · intro hstands
        obtain ⟨column, hcolumn, hplace⟩ := h.complete _ hstands
        obtain ⟨occurrence, hocc⟩ := Option.isSome_iff_exists.1
          (h.cell_isSome (i := 0) (by omega) column hcolumn)
        refine ⟨occurrence, List.mem_filterMap.2 ⟨column, hcolumn, hocc⟩, ?_⟩
        exact UInt32.toNat_inj.1 (position_of_consecutive hplace hocc)
  case occurrence =>
      intro i j row stream start occurrence hrow hstream hstart hocc
      obtain ⟨hi, rfl⟩ := getElem?_rowsOf_eq_some_iff.1 hrow
      obtain ⟨column, hm, hcolumn, hcell⟩ := h.exists_column (by omega) hocc
      rw [hstarts, List.getElem?_map, Option.map_eq_some_iff] at hstart
      obtain ⟨head, hhead, rfl⟩ := hstart
      obtain ⟨column', -, hcolumn', hcell'⟩ := h.exists_column (by omega) hhead
      rw [hcolumn] at hcolumn'
      cases hcolumn'
      obtain ⟨place, hplace⟩ := h.consecutive column hm
      have hat := position_of_consecutive hplace hcell
      have hat' := position_of_consecutive hplace hcell'
      obtain ⟨row, hrow, hin⟩ := exists_getElem?_beside (h.within column hm) hcell
      rw [List.getElem?_map, hstream] at hrow
      cases hrow
      exact ⟨by omega,
        getElem?_of_mem_occurrences hin (hlengths stream (List.mem_of_getElem? hstream))⟩
  case starts_ordered => exact (hstreams first (List.mem_of_getElem? hfirst)).sublist hstartsSub
  case indices_ordered =>
      intro row hm
      obtain ⟨i, hi⟩ := List.mem_iff_getElem?.1 hm
      obtain ⟨hlt, rfl⟩ := getElem?_rowsOf_eq_some_iff.1 hi
      have hrow := h.sublist i (occurrences streams[i])
        (by rw [List.getElem?_map, List.getElem?_eq_getElem hlt]; rfl)
      have hindices := hrow.map (·.index.toNat)
      rw [map_index_occurrences (hlengths _ (List.getElem_mem hlt))] at hindices
      have hordered := List.pairwise_map.1 (List.pairwise_lt_range.sublist hindices)
      exact List.pairwise_map.2 (hordered.imp UInt32.lt_iff_toNat_lt.2)
  case starts_nodup =>
      intro hstrict
      have hnodup : first.Nodup := by
        apply (hstrict first (List.mem_of_getElem? hfirst)).imp
        intro a b hlt
        exact UInt32.ne_of_lt hlt
      exact hnodup.sublist hstartsSub

/-- Walking two lists uses each occurrence once at most, in order. -/
theorem map_fst_pairs_sublist (first second : List Occurrence) :
    ((pairs first second).map (·.1)).Sublist first := by
  fun_induction pairs first second with
  | case1 => exact List.Sublist.slnil
  | case2 => exact List.nil_sublist _
  | case3 a first b second hlt ih => exact ih.cons a
  | case4 a first b second hge hlt ih => exact ih
  | case5 a first b second hge hle ih => exact ih.cons_cons a

theorem map_snd_pairs_sublist (first second : List Occurrence) :
    ((pairs first second).map (·.2)).Sublist second := by
  fun_induction pairs first second with
  | case1 => exact List.nil_sublist _
  | case2 => exact List.nil_sublist _
  | case3 a first b second hlt ih => exact ih
  | case4 a first b second hge hlt ih => exact ih.cons b
  | case5 a first b second hge hle ih => exact ih.cons_cons b

/-- The matches of two terms as columns. -/
def pairColumns (first second : List Occurrence) : List (List Occurrence) :=
  (pairs first second).map fun (a, b) => [a, b]

theorem matching_pairColumns (hfirst : InOrder first) (hsecond : InOrder second) :
    Matching [first, second] (pairColumns first second) := by
  constructor
  case within =>
      intro column hm
      obtain ⟨pair, hpair, rfl⟩ := List.mem_map.1 hm
      obtain ⟨ha, hb, -⟩ := mem_pairs hpair
      exact .cons ha (.cons hb .nil)
  case consecutive =>
      intro column hm
      obtain ⟨pair, hpair, rfl⟩ := List.mem_map.1 hm
      exact ⟨pair.1.position.toNat, by simp [Phrase.consecutive, (mem_pairs hpair).2.2]⟩
  case complete =>
      rintro start ⟨⟨a, ha, hstart⟩, ⟨b, hb, hab⟩, -⟩
      obtain ⟨pair, hpair, hat⟩ := exists_mem_pairs hfirst hsecond ha hb (by omega)
      refine ⟨_, List.mem_map_of_mem hpair, ?_⟩
      have hnext := (mem_pairs hpair).2.2
      simp only [Phrase.consecutive, Bool.and_true, Bool.and_eq_true, beq_iff_eq]
      omega
  case sublist =>
      intro i row hrow
      rw [pairColumns, List.filterMap_map]
      rcases i with _ | _ | i
      · cases hrow
        simpa [Function.comp_def] using map_fst_pairs_sublist first second
      · cases hrow
        simpa [Function.comp_def] using map_snd_pairs_sublist first second
      · cases hrow

theorem pairTable_eq (first second : List UInt32) :
    pairTable first second = ⟨rowsOf 2 (pairColumns (occurrences first) (occurrences second))⟩ := by
  simp [pairTable, pairColumns, rowsOf, List.range_succ, List.filterMap_map]

theorem getElem?_heads? (h : heads? rows = some column) {row : List Occurrence}
    (hrow : rows[i]? = some row) :
    ∃ head tail, row = head :: tail ∧ column[i]? = some head := by
  induction rows generalizing column i with
  | nil => cases hrow
  | cons other rows ih =>
      cases other with
      | nil => cases h
      | cons head tail =>
          rw [heads?, Option.map_eq_some_iff] at h
          obtain ⟨rest, hrest, rfl⟩ := h
          cases i with
          | zero =>
              cases hrow
              exact ⟨head, tail, rfl, rfl⟩
          | succ i =>
              obtain ⟨next, others, heq, hnext⟩ := ih hrest hrow
              exact ⟨next, others, heq, hnext⟩

theorem getElem?_dropBelow (position : Nat) {row : List Occurrence} (hrow : rows[i]? = some row) :
    (dropBelow position rows)[i]? =
      some (row.dropWhile fun occurrence => occurrence.position.toNat < position + i) := by
  induction rows generalizing position i with
  | nil => cases hrow
  | cons other rows ih =>
      cases i with
      | zero =>
          cases hrow
          rfl
      | succ i =>
          rw [dropBelow, List.getElem?_cons_succ, ih (position + 1) hrow, Nat.add_assoc,
            Nat.add_comm 1 i]

/-- Moving lists up to their lead uses each occurrence once at most, in order. -/
theorem filterMap_columns_sublist (rows : List (List Occurrence)) (i : Nat) :
    ∀ row, rows[i]? = some row → ((columns rows).filterMap (·[i]?)).Sublist row := by
  fun_induction columns rows with
  | case1 => exact fun row _ => List.nil_sublist row
  | case2 => exact fun row _ => List.nil_sublist row
  | case3 => exact fun row _ => List.nil_sublist row
  | case4 rows hne first hfirst target moved hmoved hmatch ih =>
      intro row hrow
      have hdrop := getElem?_dropBelow target hrow
      obtain ⟨head, tail, htail, hhead⟩ := getElem?_heads? hmoved hdrop
      have hposition := position_of_consecutive hmatch hhead
      have hrest := ih _ (getElem?_dropBelow (target + 1) hdrop)
      rw [htail, List.dropWhile_cons_of_pos (by simp only [decide_eq_true_eq]; omega)] at hrest
      simp only [List.filterMap_cons, hhead]
      have hsub := (hrest.trans (List.dropWhile_sublist _)).cons_cons head
      rw [← htail] at hsub
      exact hsub.trans (List.dropWhile_sublist _)
  | case5 rows hne first hfirst target moved hmoved hmatch ih =>
      intro row hrow
      exact (ih _ (getElem?_dropBelow target hrow)).trans (List.dropWhile_sublist _)

theorem matching_columns (hrows : ∀ row ∈ rows, InOrder row) (hne : rows ≠ []) :
    Matching rows (columns rows) where
  within _ hm := (of_mem_columns hm).1
  consecutive _ hm := (of_mem_columns hm).2
  complete _ h := exists_mem_columns hrows hne h
  sublist i row hrow := filterMap_columns_sublist rows i row hrow

section InOrder
variable (hne : streams ≠ []) (hstreams : ∀ stream ∈ streams, stream.Pairwise (· ≤ ·))
  (hlengths : ∀ stream ∈ streams, stream.length ≤ UInt32.size)

include hstreams in
theorem inOrder_rows : ∀ row ∈ streams.map occurrences, InOrder row := by
  simpa using fun stream hm => inOrder_occurrences (hstreams stream hm)

include hne hstreams hlengths in
theorem exact_columnTable : Exact streams (columnTable streams) :=
  (matching_columns (inOrder_rows hstreams) (by simpa using hne)).exact hne hstreams hlengths

include hne hstreams hlengths in
theorem exact_table : Exact streams (table streams) := by
  match streams with
  | [] => exact absurd rfl hne
  | [stream] => exact exact_columnTable hne hstreams hlengths
  | [first, second] =>
      have hrows := inOrder_rows hstreams
      simp only [List.map_cons, List.map_nil, List.forall_mem_cons] at hrows
      have hmatching : Matching ([first, second].map occurrences) _ :=
        matching_pairColumns hrows.1 hrows.2.1
      rw [table, pairTable_eq]
      exact hmatching.exact hne hstreams hlengths
  | _ :: _ :: _ :: _ => exact exact_columnTable hne hstreams hlengths

end InOrder

end Concordance.Phrase
