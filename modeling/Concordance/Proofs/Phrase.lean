import Concordance.Phrase.Matches
import Concordance.Proofs.Sequences

/-!
# Phrase tables hold the places where a phrase starts

Of position lists in order, neither the walk over two lists nor the moves over any
number of them passes a place where all terms of the phrase stand next to each other,
and each column that they give is such a place.
-/

namespace Concordance.Phrase

open Sequences

/-- The positions do not go down. -/
def InOrder (row : List Occurrence) : Prop := row.Pairwise fun a b => a.position ≤ b.position

/-- Each row has an occurrence at its place of the phrase, the first of them at `position`. -/
def StandsAt : (position : Nat) → List (List Occurrence) → Prop
  | _, [] => True
  | position, row :: rows =>
    (∃ occurrence ∈ row, occurrence.position.toNat = position) ∧ StandsAt (position + 1) rows

variable {rows : List (List Occurrence)} {row first second : List Occurrence}
  {column : List Occurrence} {occurrence : Occurrence} {position start : Nat}

theorem mem_occurrences {stream : List UInt32} :
    occurrence ∈ occurrences stream ↔
      ∃ number : Nat, stream[number]? = some occurrence.position ∧
        number.toUInt32 = occurrence.index := by
  rw [occurrences, occurrencesFrom, List.mem_map]
  constructor
  · rintro ⟨⟨position, number⟩, hm, rfl⟩
    exact ⟨number, List.mem_zipIdx_iff_getElem?.1 hm, rfl⟩
  · rintro ⟨number, hnumber, hindex⟩
    refine ⟨(occurrence.position, number), List.mem_zipIdx_iff_getElem?.2 hnumber, ?_⟩
    simp only [hindex]

/-- An occurrence whose number fits a word is found by it. -/
theorem getElem?_of_mem_occurrences {stream : List UInt32} (h : occurrence ∈ occurrences stream)
    (hlength : stream.length ≤ UInt32.size) :
    stream[occurrence.index.toNat]? = some occurrence.position := by
  obtain ⟨number, hnumber, hindex⟩ := mem_occurrences.1 h
  have hlt := (List.getElem?_eq_some_iff.1 hnumber).1
  rw [← hindex, show number.toUInt32.toNat = number from
    UInt32.toNat_ofNat_of_lt' (Nat.lt_of_lt_of_le hlt hlength), hnumber]

theorem map_position_occurrences (stream : List UInt32) :
    (occurrences stream).map (·.position) = stream := by
  rw [occurrences, occurrencesFrom, List.map_map]
  exact List.zipIdx_map_fst ..

theorem inOrder_occurrences {stream : List UInt32} (h : stream.Pairwise (· ≤ ·)) :
    InOrder (occurrences stream) := by
  rw [← map_position_occurrences stream, List.pairwise_map] at h
  exact h

theorem InOrder.dropWhile (h : InOrder row) (p : Occurrence → Bool) :
    InOrder (row.dropWhile p) :=
  h.sublist (List.dropWhile_sublist _)

theorem InOrder.head_le (h : InOrder (occurrence :: row)) {other : Occurrence}
    (hm : other ∈ occurrence :: row) : occurrence.position ≤ other.position := by
  rcases List.mem_cons.1 hm with rfl | hm
  · exact UInt32.le_refl _
  · exact (List.pairwise_cons.1 h).1 other hm

theorem exists_position_iff {stream : List UInt32} :
    (∃ occurrence ∈ occurrences stream, occurrence.position.toNat = position) ↔
      ∃ value ∈ stream, value.toNat = position := by
  constructor
  · rintro ⟨occurrence, hm, hp⟩
    obtain ⟨number, hnumber, -⟩ := mem_occurrences.1 hm
    exact ⟨_, List.mem_of_getElem? hnumber, hp⟩
  · rintro ⟨value, hm, hp⟩
    obtain ⟨number, hnumber⟩ := List.mem_iff_getElem?.1 hm
    exact ⟨⟨value, number.toUInt32⟩, mem_occurrences.2 ⟨number, hnumber, rfl⟩, hp⟩

/-- The terms stand next to each other from a place on. -/
theorem standsAt_occurrences_iff {streams : List (List UInt32)} :
    StandsAt start (streams.map occurrences) ↔
      ∀ (i : Nat) stream, streams[i]? = some stream →
        ∃ value ∈ stream, value.toNat = start + i := by
  induction streams generalizing start with
  | nil => simp [StandsAt]
  | cons stream streams ih =>
      rw [List.map_cons, StandsAt, ih, exists_position_iff]
      constructor
      · rintro ⟨hhead, hrest⟩ i other hi
        cases i with
        | zero =>
            cases hi
            exact hhead
        | succ i =>
            obtain ⟨value, hm, hv⟩ := hrest i other hi
            exact ⟨value, hm, by omega⟩
      · intro h
        refine ⟨h 0 stream rfl, ?_⟩
        intro i other hi
        obtain ⟨value, hm, hv⟩ := h (i + 1) other hi
        exact ⟨value, hm, by omega⟩

/-- A pair stands on two positions next to each other. -/
theorem mem_pairs {pair : Occurrence × Occurrence} (h : pair ∈ pairs first second) :
    pair.1 ∈ first ∧ pair.2 ∈ second ∧
      pair.2.position.toNat = pair.1.position.toNat + 1 := by
  fun_induction pairs first second with
  | case1 => cases h
  | case2 => cases h
  | case3 a first b second hlt ih =>
      obtain ⟨ha, hb, hab⟩ := ih h
      exact ⟨List.mem_cons_of_mem _ ha, hb, hab⟩
  | case4 a first b second hge hlt ih =>
      obtain ⟨ha, hb, hab⟩ := ih h
      exact ⟨ha, List.mem_cons_of_mem _ hb, hab⟩
  | case5 a first b second hge hle ih =>
      rcases List.mem_cons.1 h with rfl | h
      · exact ⟨List.mem_cons_self .., List.mem_cons_self .., by simp only; omega⟩
      · obtain ⟨ha, hb, hab⟩ := ih h
        exact ⟨List.mem_cons_of_mem _ ha, List.mem_cons_of_mem _ hb, hab⟩

/-- The walk over two lists passes no two positions next to each other. -/
theorem exists_mem_pairs (hfirst : InOrder first) (hsecond : InOrder second) {a b : Occurrence}
    (ha : a ∈ first) (hb : b ∈ second) (hab : b.position.toNat = a.position.toNat + 1) :
    ∃ pair ∈ pairs first second, pair.1.position.toNat = a.position.toNat := by
  fun_induction pairs first second with
  | case1 => cases ha
  | case2 => cases hb
  | case3 c first d second hlt ih =>
      have hd := UInt32.le_iff_toNat_le.1 (hsecond.head_le hb)
      rcases List.mem_cons.1 ha with rfl | ha
      · omega
      · exact ih hfirst.of_cons hsecond ha hb
  | case4 c first d second hge hlt ih =>
      have hc := UInt32.le_iff_toNat_le.1 (hfirst.head_le ha)
      rcases List.mem_cons.1 hb with rfl | hb
      · omega
      · exact ih hfirst hsecond.of_cons ha hb
  | case5 c first d second hge hle ih =>
      by_cases heq : c.position.toNat = a.position.toNat
      · exact ⟨(c, d), List.mem_cons_self .., heq⟩
      · rcases List.mem_cons.1 ha with rfl | ha
        · exact absurd rfl heq
        · rcases List.mem_cons.1 hb with rfl | hb
          · omega
          · obtain ⟨pair, hm, hp⟩ := ih hfirst.of_cons hsecond.of_cons ha hb
            exact ⟨pair, List.mem_cons_of_mem _ hm, hp⟩

/-- The occurrences of a column are in their rows. -/
def Within (column : List Occurrence) (rows : List (List Occurrence)) : Prop :=
  List.Forall₂ (fun occurrence row => occurrence ∈ row) column rows

theorem within_of_heads? (h : heads? rows = some column) : Within column rows := by
  induction rows generalizing column with
  | nil =>
      cases h
      exact List.Forall₂.nil
  | cons row rows ih =>
      cases row with
      | nil => cases h
      | cons first row =>
          rw [heads?, Option.map_eq_some_iff] at h
          obtain ⟨rest, hrest, rfl⟩ := h
          exact List.Forall₂.cons (List.mem_cons_self ..) (ih hrest)

theorem Within.of_dropBelow (h : Within column (dropBelow position rows)) :
    Within column rows := by
  induction rows generalizing position column with
  | nil => exact h
  | cons row rows ih =>
      obtain ⟨occurrence, rest, hm, hrest, rfl⟩ := List.forall₂_cons_right_iff.1 h
      exact List.Forall₂.cons ((List.dropWhile_sublist _).subset hm) (ih hrest)

theorem inOrder_dropBelow (h : ∀ row ∈ rows, InOrder row) :
    ∀ row ∈ dropBelow position rows, InOrder row := by
  induction rows generalizing position with
  | nil => exact h
  | cons row rows ih =>
      rw [List.forall_mem_cons] at h
      rw [dropBelow, List.forall_mem_cons]
      exact ⟨h.1.dropWhile _, ih h.2⟩

theorem dropBelow_eq_nil_iff : dropBelow position rows = [] ↔ rows = [] := by
  cases rows with
  | nil => rfl
  | cons row rows => exact iff_of_false (List.cons_ne_nil _ _) (List.cons_ne_nil _ _)

theorem StandsAt.heads?_ne_none (h : StandsAt start rows) : heads? rows ≠ none := by
  induction rows generalizing start with
  | nil => exact nofun
  | cons row rows ih =>
      obtain ⟨⟨occurrence, hm, -⟩, hrest⟩ := h
      cases row with
      | nil => cases hm
      | cons first row =>
          rw [heads?, Ne, Option.map_eq_none_iff]
          exact ih hrest

/-- No place where a phrase starts is below the lead of the lists. -/
theorem lead_le (hrows : ∀ row ∈ rows, InOrder row) (place : Nat)
    (h : StandsAt (start + place) rows) (hc : heads? rows = some column) :
    lead place column ≤ start := by
  induction rows generalizing place column with
  | nil =>
      cases hc
      exact Nat.zero_le _
  | cons row rows ih =>
      obtain ⟨⟨occurrence, hm, hp⟩, hrest⟩ := h
      rw [List.forall_mem_cons] at hrows
      cases row with
      | nil => cases hm
      | cons first row =>
          rw [heads?, Option.map_eq_some_iff] at hc
          obtain ⟨rest, hr, rfl⟩ := hc
          have hle := UInt32.le_iff_toNat_le.1 (hrows.1.head_le hm)
          have hlead := ih hrows.2 (place + 1) hrest hr
          rw [lead]
          omega

theorem StandsAt.dropBelow (h : StandsAt start rows) (hle : position ≤ start) :
    StandsAt start (dropBelow position rows) := by
  induction rows generalizing start position with
  | nil => trivial
  | cons row rows ih =>
      obtain ⟨⟨occurrence, hm, hp⟩, hrest⟩ := h
      refine ⟨⟨occurrence, mem_dropWhile_of_not hm ?_, hp⟩, ih hrest (by omega)⟩
      rw [decide_eq_false_iff_not]
      omega

/-- A column that is found is in the rows and stands at a place. -/
theorem of_mem_columns (h : column ∈ columns rows) :
    Within column rows ∧ ∃ start, consecutive start column = true := by
  fun_induction columns rows with
  | case1 => cases h
  | case2 => cases h
  | case3 => cases h
  | case4 rows hne first hfirst target moved hmoved hmatch ih =>
      rcases List.mem_cons.1 h with rfl | h
      · exact ⟨(within_of_heads? hmoved).of_dropBelow, target, hmatch⟩
      · obtain ⟨hwithin, hstart⟩ := ih h
        exact ⟨hwithin.of_dropBelow.of_dropBelow, hstart⟩
  | case5 rows hne first hfirst target moved hmoved hmatch ih =>
      obtain ⟨hwithin, hstart⟩ := ih h
      exact ⟨hwithin.of_dropBelow, hstart⟩

/-- No place where a phrase starts is passed. -/
theorem exists_mem_columns (hrows : ∀ row ∈ rows, InOrder row) (hne : rows ≠ [])
    (h : StandsAt start rows) : ∃ column ∈ columns rows, consecutive start column = true := by
  fun_induction columns rows with
  | case1 => exact absurd rfl hne
  | case2 rows hne hnone => exact absurd hnone h.heads?_ne_none
  | case3 rows hne first hfirst target hnone =>
      have hle := lead_le hrows 0 h hfirst
      exact absurd hnone (h.dropBelow hle).heads?_ne_none
  | case4 rows hne first hfirst target moved hmoved hmatch ih =>
      have hle : target ≤ start := lead_le hrows 0 h hfirst
      by_cases heq : target = start
      · exact ⟨moved, List.mem_cons_self .., heq ▸ hmatch⟩
      · obtain ⟨column, hm, hstart⟩ := ih (inOrder_dropBelow (inOrder_dropBelow hrows))
          (by simpa [dropBelow_eq_nil_iff] using hne)
          ((h.dropBelow hle).dropBelow (by omega))
        exact ⟨column, List.mem_cons_of_mem _ hm, hstart⟩
  | case5 rows hne first hfirst target moved hmoved hmatch ih =>
      have hle := lead_le hrows 0 h hfirst
      exact ih (inOrder_dropBelow hrows) (by simpa [dropBelow_eq_nil_iff] using hne)
        (h.dropBelow hle)

theorem standsAt_of_consecutive (hwithin : Within column rows)
    (h : consecutive start column = true) : StandsAt start rows := by
  induction hwithin generalizing start with
  | nil => trivial
  | cons hm _ ih =>
      rw [consecutive, Bool.and_eq_true, beq_iff_eq] at h
      exact ⟨⟨_, hm, h.1⟩, ih h.2⟩

theorem columns_ne_nil_iff (hrows : ∀ row ∈ rows, InOrder row) (hne : rows ≠ []) :
    columns rows ≠ [] ↔ ∃ start, StandsAt start rows := by
  constructor
  · intro h
    obtain ⟨column, hm⟩ := List.exists_mem_of_ne_nil _ h
    obtain ⟨hwithin, start, hstart⟩ := of_mem_columns hm
    exact ⟨start, standsAt_of_consecutive hwithin hstart⟩
  · rintro ⟨start, h⟩
    obtain ⟨column, hm, -⟩ := exists_mem_columns hrows hne h
    exact List.ne_nil_of_mem hm

theorem pairs_ne_nil_iff (hfirst : InOrder first) (hsecond : InOrder second) :
    pairs first second ≠ [] ↔ ∃ start, StandsAt start [first, second] := by
  constructor
  · intro h
    obtain ⟨pair, hm⟩ := List.exists_mem_of_ne_nil _ h
    obtain ⟨ha, hb, hab⟩ := mem_pairs hm
    exact ⟨_, ⟨_, ha, rfl⟩, ⟨_, hb, hab⟩, trivial⟩
  · rintro ⟨start, ⟨a, ha, hstart⟩, ⟨b, hb, hab⟩, -⟩
    obtain ⟨pair, hm, -⟩ := exists_mem_pairs hfirst hsecond ha hb (by omega)
    exact List.ne_nil_of_mem hm

/-- Each row of the matches of two terms holds occurrences of its term. -/
theorem pairTable_rows (first second : List UInt32) :
    List.Forall₂ (fun row stream => ∀ occurrence ∈ row, occurrence ∈ occurrences stream)
      (pairTable first second).rows [first, second] := by
  refine .cons ?_ (.cons ?_ .nil)
  · intro occurrence hm
    obtain ⟨pair, hpair, rfl⟩ := List.mem_map.1 hm
    exact (mem_pairs hpair).1
  · intro occurrence hm
    obtain ⟨pair, hpair, rfl⟩ := List.mem_map.1 hm
    exact (mem_pairs hpair).2.1

/-- Each row of the matches of any number of terms holds occurrences of its term. -/
theorem columnTable_rows (streams : List (List UInt32)) :
    List.Forall₂ (fun row stream => ∀ occurrence ∈ row, occurrence ∈ occurrences stream)
      (columnTable streams).rows streams := by
  rw [List.forall₂_iff_get]
  refine ⟨by simp [columnTable, rowsOf], ?_⟩
  intro i hi hi' occurrence hm
  simp only [columnTable, rowsOf, List.get_eq_getElem, List.getElem_map, List.getElem_range,
    List.mem_filterMap] at hm
  obtain ⟨column, hcolumn, hm⟩ := hm
  obtain ⟨row, hrow, hm⟩ := exists_getElem?_beside (of_mem_columns hcolumn).1 hm
  rw [List.getElem?_map, List.getElem?_eq_getElem hi', Option.map_some] at hrow
  cases hrow
  exact hm

/-- A table has a row for each term, of occurrences of the term. -/
theorem table_rows (streams : List (List UInt32)) :
    List.Forall₂ (fun row stream => ∀ occurrence ∈ row, occurrence ∈ occurrences stream)
      (table streams).rows streams := by
  match streams with
  | [] => exact List.Forall₂.nil
  | [stream] => exact columnTable_rows _
  | [first, second] => exact pairTable_rows ..
  | _ :: _ :: _ :: _ => exact columnTable_rows _

theorem columnTable_isEmpty_iff {streams : List (List UInt32)} (hne : streams ≠ []) :
    (columnTable streams).isEmpty = false ↔ columns (streams.map occurrences) ≠ [] := by
  obtain ⟨stream, rest, rfl⟩ := List.exists_cons_of_ne_nil hne
  have hcount : (columnTable (stream :: rest)).columnCount =
      ((columns ((stream :: rest).map occurrences)).filterMap (·[0]?)).length := by
    simp only [PositionTable.columnCount, columnTable, rowsOf, List.length_cons,
      List.range_succ_eq_map, List.map_cons]
  rw [PositionTable.isEmpty, hcount, beq_eq_false_iff_ne, Ne, List.length_eq_zero_iff,
    List.filterMap_eq_nil_iff, not_iff_not]
  constructor
  · intro hnone
    rw [List.eq_nil_iff_forall_not_mem]
    intro column hm
    have hlength := (of_mem_columns hm).1.length_eq
    have hzero := hnone column hm
    rw [List.getElem?_eq_none_iff, hlength] at hzero
    simp at hzero
  · intro hnil
    rw [hnil]
    exact nofun

theorem pairTable_isEmpty_iff {first second : List UInt32} :
    (pairTable first second).isEmpty = false ↔
      pairs (occurrences first) (occurrences second) ≠ [] := by
  simp [PositionTable.isEmpty, PositionTable.columnCount, pairTable]

/-- A table has a match exactly if the phrase starts somewhere. -/
theorem table_isEmpty_iff {streams : List (List UInt32)} (hne : streams ≠ [])
    (hstreams : ∀ stream ∈ streams, stream.Pairwise (· ≤ ·)) :
    (table streams).isEmpty = false ↔
      ∃ start, ∀ (i : Nat) stream, streams[i]? = some stream →
        ∃ value ∈ stream, value.toNat = start + i := by
  simp only [← standsAt_occurrences_iff]
  have hrows : ∀ row ∈ streams.map occurrences, InOrder row := by
    simpa using fun stream hm => inOrder_occurrences (hstreams stream hm)
  have hcolumns : (columnTable streams).isEmpty = false ↔
      ∃ start, StandsAt start (streams.map occurrences) := by
    rw [columnTable_isEmpty_iff hne, columns_ne_nil_iff hrows (by simpa using hne)]
  match streams with
  | [] => exact absurd rfl hne
  | [stream] => exact hcolumns
  | [first, second] =>
      simp only [List.map_cons, List.map_nil, List.forall_mem_cons] at hrows
      rw [table, pairTable_isEmpty_iff, pairs_ne_nil_iff hrows.1 hrows.2.1]
      rfl
  | _ :: _ :: _ :: _ => exact hcolumns

end Concordance.Phrase
