import Concordance.PostingList.Cursor

/-!
# Documents that all lists hold

An alignment is a list of cursors, one for each term of a query, that stand on the
same document. `Conjunction.alignments` gives all alignments from given cursors on, in
the order of document ids.

One list is walked. Of two lists, the one that is behind seeks the document of the
other. More lists meet at the highest document id among them: each seeks it in turn,
until one has passed it, or all are there.
-/

namespace Concordance

namespace Cursor

/-- Postings left under all cursors. -/
def remainingAll : List Cursor → Nat
  | [] => 0
  | cursor :: cursors => cursor.remaining + remainingAll cursors

/-- Seeking stays in the list, never goes back, and goes on if the document id is above the
cursor's. -/
theorem seek_eq_ok {cursor next : Cursor} {target : UInt32} (h : cursor.seek target = .ok next) :
    next.list = cursor.list ∧ cursor.index ≤ next.index ∧
      (cursor.index < cursor.list.size ∧ cursor.header.docId < target →
        cursor.index < next.index) := by
  fun_induction seek cursor target with
  | case1 cursor hc middle hm ih =>
      obtain ⟨hl, hlt⟩ := approach_eq_ok hm
      obtain ⟨hl', hle', -⟩ := ih h
      have := hlt hc.1
      exact ⟨hl'.trans hl, by omega, fun _ => by omega⟩
  | case2 => cases h
  | case3 cursor hc =>
      cases h
      exact ⟨rfl, Nat.le_refl _, fun hc' => absurd hc' hc⟩

theorem remaining_seek_le {cursor next : Cursor} {target : UInt32}
    (h : cursor.seek target = .ok next) : next.remaining ≤ cursor.remaining := by
  obtain ⟨hl, hle, -⟩ := seek_eq_ok h
  unfold remaining
  rw [hl]
  omega

theorem remaining_seek_lt {cursor next : Cursor} {target : UInt32}
    (h : cursor.seek target = .ok next) (hi : cursor.index < cursor.list.size)
    (ht : cursor.header.docId < target) : next.remaining < cursor.remaining := by
  obtain ⟨hl, -, hlt⟩ := seek_eq_ok h
  have := hlt ⟨hi, ht⟩
  unfold remaining
  rw [hl]
  omega

theorem remaining_advance_lt {cursor next : Cursor} (h : cursor.advance = .ok next)
    (hi : cursor.index < cursor.list.size) : next.remaining < cursor.remaining := by
  obtain ⟨hl, hn⟩ := advance_eq_ok h
  unfold remaining
  rw [hl, hn, if_pos hi]
  omega

end Cursor

namespace Conjunction

/-- The alignments of two lists. -/
def alignTwo (first second : Cursor) : Except Fault (List (Cursor × Cursor)) :=
  if _ : first.index < first.list.size ∧ second.index < second.list.size then
    if _ : second.header.docId < first.header.docId then
      match _ : second.seek first.header.docId with
      | .error fault => .error fault
      | .ok next => alignTwo first next
    else if _ : first.header.docId < second.header.docId then
      match _ : first.seek second.header.docId with
      | .error fault => .error fault
      | .ok next => alignTwo next second
    else
      match _ : first.advance with
      | .error fault => .error fault
      | .ok nextFirst =>
        match _ : second.advance with
        | .error fault => .error fault
        | .ok nextSecond =>
          match alignTwo nextFirst nextSecond with
          | .error fault => .error fault
          | .ok rest => .ok ((first, second) :: rest)
  else .ok []
termination_by first.remaining + second.remaining
decreasing_by
  · have := Cursor.remaining_seek_lt ‹second.seek _ = _› (And.right ‹_ ∧ _›) ‹_ < _›
    omega
  · have := Cursor.remaining_seek_lt ‹first.seek _ = _› (And.left ‹_ ∧ _›)
      ‹first.header.docId < _›
    omega
  · have := Cursor.remaining_advance_lt ‹first.advance = _› (And.left ‹_ ∧ _›)
    have := Cursor.remaining_advance_lt ‹second.advance = _› (And.right ‹_ ∧ _›)
    omega

/-- The highest document id under the cursors; none if one is past its list. -/
def highest? : List Cursor → Option UInt32
  | [] => some 0
  | cursor :: cursors =>
    if cursor.atEnd then none
    else (highest? cursors).map fun highest =>
      if highest < cursor.header.docId then cursor.header.docId else highest

/-- How a round of seeking a document ended. -/
inductive Round where
  /-- One cursor is past its list. -/
  | ended
  /-- One cursor has passed the document. -/
  | missed
  /-- All cursors stand on the document. -/
  | met
  deriving DecidableEq, Repr

/-- Seeks a document with each cursor in turn, until one has passed it or its list. -/
def seekAll (target : UInt32) : List Cursor → Except Fault (List Cursor × Round)
  | [] => .ok ([], .met)
  | cursor :: cursors => do
    let next ← cursor.seek target
    if next.atEnd then return (next :: cursors, .ended)
    if next.header.docId ≠ target then return (next :: cursors, .missed)
    let (rest, round) ← seekAll target cursors
    return (next :: rest, round)

/-- Advances every cursor. -/
def advanceAll : List Cursor → Except Fault (List Cursor)
  | [] => .ok []
  | cursor :: cursors => do
    let next ← cursor.advance
    let rest ← advanceAll cursors
    return next :: rest

theorem le_of_highest? {cursors : List Cursor} {target : UInt32}
    (h : highest? cursors = some target) {cursor : Cursor} (hc : cursor ∈ cursors) :
    cursor.index < cursor.list.size ∧ cursor.header.docId ≤ target := by
  induction cursors generalizing target with
  | nil => cases hc
  | cons first cursors ih =>
      unfold highest? at h
      split at h
      · cases h
      · next hend =>
          obtain ⟨rest, hrest, rfl⟩ := Option.map_eq_some_iff.1 h
          simp only [UInt32.le_iff_toNat_le, UInt32.lt_iff_toNat_lt] at ih ⊢
          rcases List.mem_cons.1 hc with rfl | hc
          · exact ⟨by simpa [Cursor.atEnd] using hend, by split <;> omega⟩
          · obtain ⟨hi, hle⟩ := ih hrest hc
            exact ⟨hi, by split <;> omega⟩

theorem remainingAll_seekAll_le {target : UInt32} {cursors moved : List Cursor} {round : Round}
    (h : seekAll target cursors = .ok (moved, round)) :
    Cursor.remainingAll moved ≤ Cursor.remainingAll cursors := by
  induction cursors generalizing moved round with
  | nil => cases h; exact Nat.le_refl _
  | cons cursor cursors ih =>
      cases hs : cursor.seek target with
      | error => simp [seekAll, hs, bind, Except.bind] at h
      | ok next =>
          have hle := Cursor.remaining_seek_le hs
          simp only [seekAll, hs, bind, Except.bind, pure, Except.pure] at h
          split at h
          · cases h
            simp only [Cursor.remainingAll]
            omega
          · split at h
            · cases h
              simp only [Cursor.remainingAll]
              omega
            · split at h
              · cases h
              · next hrest =>
                  cases h
                  have := ih hrest
                  simp only [Cursor.remainingAll] at this ⊢
                  omega

/-- A round that misses the document moves a cursor on, if none stood above it. -/
theorem remainingAll_seekAll_lt {target : UInt32} {cursors moved : List Cursor}
    (h : seekAll target cursors = .ok (moved, .missed))
    (hc : ∀ cursor ∈ cursors, cursor.index < cursor.list.size ∧ cursor.header.docId ≤ target) :
    Cursor.remainingAll moved < Cursor.remainingAll cursors := by
  induction cursors generalizing moved with
  | nil => cases h
  | cons cursor cursors ih =>
      obtain ⟨hi, hdoc⟩ := hc cursor (List.mem_cons_self ..)
      cases hs : cursor.seek target with
      | error => simp [seekAll, hs, bind, Except.bind] at h
      | ok next =>
          have hle := Cursor.remaining_seek_le hs
          simp only [seekAll, hs, bind, Except.bind, pure, Except.pure] at h
          split at h
          · cases h
          · split at h
            · next hne =>
                cases h
                have hlt : cursor.header.docId < target := by
                  by_cases hlt : cursor.header.docId < target
                  · exact hlt
                  · have hn : next = cursor := by
                      rw [Cursor.seek, if_neg (fun hc => hlt hc.2)] at hs
                      exact (Except.ok.inj hs).symm
                    exact absurd (UInt32.le_antisymm hdoc (UInt32.not_lt.1 hlt)) (hn ▸ hne)
                have := Cursor.remaining_seek_lt hs hi hlt
                simp only [Cursor.remainingAll]
                omega
            · split at h
              · cases h
              · next last hrest =>
                  obtain ⟨rest, round⟩ := last
                  cases h
                  have := ih hrest fun c hm => hc c (List.mem_cons_of_mem _ hm)
                  simp only [Cursor.remainingAll] at this ⊢
                  omega

/-- Cursors that met are before the ends of their lists. -/
theorem lt_size_of_met {target : UInt32} {cursors moved : List Cursor}
    (h : seekAll target cursors = .ok (moved, .met)) :
    moved.length = cursors.length ∧ ∀ cursor ∈ moved, cursor.index < cursor.list.size := by
  induction cursors generalizing moved with
  | nil => cases h; simp
  | cons cursor cursors ih =>
      cases hs : cursor.seek target with
      | error => simp [seekAll, hs, bind, Except.bind] at h
      | ok next =>
          simp only [seekAll, hs, bind, Except.bind, pure, Except.pure] at h
          split at h
          · cases h
          · next hend =>
              split at h
              · cases h
              · split at h
                · cases h
                · next last hrest =>
                    obtain ⟨rest, round⟩ := last
                    cases h
                    obtain ⟨hl, hm⟩ := ih hrest
                    have hi : next.index < next.list.size := by
                      simpa [Cursor.atEnd] using hend
                    exact ⟨by simp [hl], by simpa [hi] using hm⟩

theorem remainingAll_advanceAll_lt {cursors next : List Cursor} (hne : cursors ≠ [])
    (h : advanceAll cursors = .ok next)
    (hc : ∀ cursor ∈ cursors, cursor.index < cursor.list.size) :
    Cursor.remainingAll next < Cursor.remainingAll cursors := by
  induction cursors generalizing next with
  | nil => exact absurd rfl hne
  | cons cursor cursors ih =>
      cases ha : cursor.advance with
      | error => simp [advanceAll, ha, bind, Except.bind] at h
      | ok first =>
          have hlt := Cursor.remaining_advance_lt ha (hc cursor (List.mem_cons_self ..))
          simp only [advanceAll, ha, bind, Except.bind, pure, Except.pure] at h
          split at h
          · cases h
          · next rest hrest =>
              cases h
              simp only [Cursor.remainingAll]
              by_cases hnil : cursors = []
              · subst hnil
                cases hrest
                simp only [Cursor.remainingAll]
                omega
              · have := ih hnil hrest fun c hm => hc c (List.mem_cons_of_mem _ hm)
                omega

/-- The alignments of any number of lists. -/
def alignAll (cursors : List Cursor) : Except Fault (List (List Cursor)) :=
  if _ : cursors = [] then .ok []
  else
    match _ : highest? cursors with
    | none => .ok []
    | some target =>
      match _ : seekAll target cursors with
      | .error fault => .error fault
      | .ok (_, .ended) => .ok []
      | .ok (moved, .missed) => alignAll moved
      | .ok (met, .met) =>
        match _ : advanceAll met with
        | .error fault => .error fault
        | .ok next =>
          match alignAll next with
          | .error fault => .error fault
          | .ok rest => .ok (met :: rest)
termination_by Cursor.remainingAll cursors
decreasing_by
  · exact remainingAll_seekAll_lt ‹seekAll _ _ = _› fun _ hc =>
      le_of_highest? ‹highest? cursors = _› hc
  · have hmet := lt_size_of_met ‹seekAll _ _ = _›
    have hne : met ≠ [] := by
      intro hnil
      rw [hnil] at hmet
      exact absurd (List.length_eq_zero_iff.1 hmet.1.symm) ‹cursors ≠ []›
    exact Nat.lt_of_lt_of_le (remainingAll_advanceAll_lt hne ‹advanceAll _ = _› hmet.2)
      (remainingAll_seekAll_le ‹seekAll _ _ = _›)

/-- All alignments of the lists, from the cursors on. -/
def alignments : List Cursor → Except Fault (List (List Cursor))
  | [] => .ok []
  | [cursor] => return (← cursor.walk).map fun place => [place]
  | [first, second] => return (← alignTwo first second).map fun (a, b) => [a, b]
  | cursors => alignAll cursors

end Conjunction

end Concordance
