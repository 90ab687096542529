import Concordance.Proofs.Best
import Concordance.Proofs.Retrieval

/-!
# Retrieval selects the best scores

Where the scores of the documents found can be told apart, the heap keeps the best of
them whatever the order they come in and however many are level. The scores of the hits
are then the first of all scores sorted, and the hits are documents with these scores.
Scores that are numbers can be told apart unless two are zeros of opposite signs.
-/

namespace Concordance

open Result Sequences

namespace Binary64
variable {first second third : Binary64}

/-- No two bit patterns have the same place in the total order. -/
theorem place_inj (h : first.place = second.place) : first = second := by
  have hfirst := first.bits.toNat_lt
  have hsecond := second.bits.toNat_lt
  have hbits : first.bits = second.bits := by
    rw [← UInt64.toNat_inj]
    simp only [place, isNegative, decide_eq_true_eq, UInt64.le_iff_toNat_le] at h
    simp only [UInt64.reduceToNat] at h
    split at h <;> split at h <;> omega
  cases first
  cases second
  exact congrArg Binary64.mk hbits

theorem atMost_iff : first.atMost second = true ↔ first.place ≤ second.place := by
  rw [atMost, decide_eq_true_eq]

theorem atMost_total (first second : Binary64) :
    first.atMost second = true ∨ second.atMost first = true := by
  rw [atMost_iff, atMost_iff]
  exact Nat.le_total _ _

theorem atMost_trans (h : first.atMost second = true) (h' : second.atMost third = true) :
    first.atMost third = true := by
  rw [atMost_iff] at *
  exact Nat.le_trans h h'

theorem atMost_antisymm (h : first.atMost second = true) (h' : second.atMost first = true) :
    first = second := by
  rw [atMost_iff] at *
  exact place_inj (Nat.le_antisymm h h')

theorem totalOrder_eq_gt_iff : first.totalOrder second = .gt ↔ ¬ first.atMost second = true := by
  rw [totalOrder, Nat.compare_eq_gt, atMost_iff, Nat.not_le]

/-- Numbers, without zeros of opposite signs, exceed each other as in the total order. -/
theorem exceeds_iff_totalOrder (hfirst : first.isNaN = false) (hsecond : second.isNaN = false)
    (hzero : first.isZero = true → second.isZero = true → first = second) :
    first.exceeds second = true ↔ first.totalOrder second = .gt := by
  rw [totalOrder, Nat.compare_eq_gt, exceeds, hfirst, hsecond]
  simp only [Bool.not_false, Bool.true_and, Bool.and_eq_true, Bool.not_eq_true',
    Bool.and_eq_false_iff, decide_eq_true_eq, and_iff_right_iff_imp]
  intro hlt
  by_contra hboth
  rw [not_or, Bool.not_eq_false, Bool.not_eq_false] at hboth
  rw [hzero hboth.1 hboth.2] at hlt
  exact Nat.lt_irrefl _ hlt

end Binary64

namespace Hit

theorem ranks_ahead : Ranking.Ranks ahead where
  total x y := Binary64.atMost_total y.score x.score
  trans hxy hyz := Binary64.atMost_trans hyz hxy

/-- Of hits whose scores can be told apart, the best are in order, as many as are wanted, and
none that is left out exceeds them; their scores are the first of all scores sorted. -/
theorem best_spec (count : Nat) {found : List Hit}
    (hscores : ∀ x ∈ found, ∀ y ∈ found,
      (x.score.exceeds y.score = true ↔ x.score.totalOrder y.score = .gt)) :
    ∃ dropped, (best count found ++ dropped).Perm found ∧
      (best count found).length = min count found.length ∧
      (best count found).Pairwise (fun x y => y.score.atMost x.score = true) ∧
      (∀ x ∈ best count found, ∀ y ∈ dropped, y.score.atMost x.score = true) ∧
      (best count found).map (·.score) =
        ((found.map (·.score)).mergeSort fun a b => b.atMost a).take count := by
  have hbeats : ∀ x ∈ found, ∀ y ∈ found, beats y x = true ↔ ¬ ahead x y = true := by
    intro x hx y hy
    rw [beats, hscores y hy x hx, Binary64.totalOrder_eq_gt_iff, ahead]
  obtain ⟨dropped, hperm, hlength, hordered, hahead⟩ :=
    Ranking.best_spec ranks_ahead count hbeats
  refine ⟨dropped, hperm, hlength, hordered, hahead, ?_⟩
  have hmap : ((best count found).map (·.score) ++ dropped.map (·.score)).Perm
      (found.map (·.score)) := by
    rw [← List.map_append]
    exact hperm.map _
  apply eq_take_mergeSort _ _ _ hmap
  · rw [List.length_map, List.length_map]
    exact hlength
  · rw [List.pairwise_map]
    exact hordered
  · intro a ha b hb
    obtain ⟨x, hx, rfl⟩ := List.mem_map.1 ha
    obtain ⟨y, hy, rfl⟩ := List.mem_map.1 hb
    exact hahead x hx y hy
  · intro a b
    rw [Bool.or_eq_true]
    exact Binary64.atMost_total b a
  · intro a b c hab hbc
    exact Binary64.atMost_trans hbc hab
  · intro a b hab hba
    exact Binary64.atMost_antisymm hba hab

end Hit

namespace Retrieval
variable {retrieval : Retrieval}

/-- The document is found, with this score. -/
def Scores (retrieval : Retrieval) (starts : List Start) (docId : UInt32) (score : Binary64) :
    Prop :=
  ∃ column length, retrieval.Finds starts docId column ∧
    retrieval.lengths.length docId = .ok length ∧
    score = .ofFloat ((List.zipWith (fun start posting => Similarity.share
      (Similarity.rarity retrieval.docCount start.postings.length)
      posting.termFreq length retrieval.lengths.average.toFloat) starts column).foldl
        (· + ·) (-0.0))

/-- Before the best are selected, each document found is there once, with its score. -/
theorem exists_found (retrieval : Retrieval) (starts : List Start)
    (hsized : retrieval.isPhrase = true → 1 < starts.length → ∀ start ∈ starts, start.Sized)
    (hlengths : ∀ docId, retrieval.Matches starts docId →
      ∃ length, retrieval.lengths.length docId = .ok length) :
    ∃ found, retrieval.run (starts.map (·.cursor)) = .ok (Hit.best retrieval.count found) ∧
      (found.map (·.docId)).Nodup ∧
      ∀ docId score, retrieval.Scores starts docId score ↔
        ∃ hit ∈ found, hit.docId = docId ∧ hit.score = score := by
  by_cases hne : starts = []
  · subst hne
    refine ⟨[], ?_, List.nodup_nil, ?_⟩
    · rw [run]
      split <;> rfl
    · intro docId score
      constructor
      · rintro ⟨column, length, hfinds, -⟩
        exact absurd rfl hfinds.ne_nil
      · rintro ⟨hit, hm, -⟩
        cases hm
  obtain ⟨found, hrun, hnodup, hall, hgains⟩ := found_spec retrieval
    (Start.shows_all fun hsized => hsized) (by simpa using hne)
    (sized_of_phraseActive hsized)
    (fun docId column hcolumn hselects =>
      hlengths docId ⟨column, finds_iff.2 ⟨hne, hcolumn, hselects⟩⟩)
  refine ⟨found, hrun, hnodup, ?_⟩
  intro docId score
  constructor
  · rintro ⟨column, length, hfinds, hlength, rfl⟩
    obtain ⟨-, hcolumn, hselects⟩ := finds_iff.1 hfinds
    obtain ⟨hit, hm, rfl, hgain⟩ := hall docId column hcolumn hselects
    obtain ⟨length', hlength', hscore⟩ := hgain.score
    rw [hlength, Except.ok.injEq] at hlength'
    subst hlength'
    exact ⟨hit, hm, rfl, hscore.trans (scoreOf_starts ..)⟩
  · rintro ⟨hit, hm, rfl, rfl⟩
    obtain ⟨column, hcolumn, hselects, hgain⟩ := hgains hit hm
    obtain ⟨length, hlength, hscore⟩ := hgain.score
    exact ⟨column, length, finds_iff.2 ⟨hne, hcolumn, hselects⟩, hlength,
      hscore.trans (scoreOf_starts ..)⟩

/-- The hits of a retrieval are the best of the documents found: as many as are wanted, each
document once, the best first, and no document that is left out has a score that exceeds that
of a hit. Their scores are the first of all scores sorted. The size of a posting has to be a
number of 32 bits where a phrase is asked for. -/
theorem run_selects_best (retrieval : Retrieval) (starts : List Start)
    (hsized : retrieval.isPhrase = true → 1 < starts.length → ∀ start ∈ starts, start.Sized)
    (hlengths : ∀ docId, retrieval.Matches starts docId →
      ∃ length, retrieval.lengths.length docId = .ok length)
    (hscores : ∀ docId docId' score score', retrieval.Scores starts docId score →
      retrieval.Scores starts docId' score' →
      (score.exceeds score' = true ↔ score.totalOrder score' = .gt)) :
    ∃ hits, ∃ all : List (UInt32 × Binary64),
      retrieval.run (starts.map (·.cursor)) = .ok hits ∧ (all.map Prod.fst).Nodup ∧
      (∀ docId score, (docId, score) ∈ all ↔ retrieval.Scores starts docId score) ∧
      hits.length = min retrieval.count all.length ∧
      (hits.map (·.docId)).Nodup ∧
      (∀ hit ∈ hits, retrieval.Scores starts hit.docId hit.score) ∧
      (hits.Pairwise fun first second => second.score.atMost first.score = true) ∧
      (∀ docId score, retrieval.Scores starts docId score → docId ∉ hits.map (·.docId) →
        ∀ hit ∈ hits, score.exceeds hit.score = false) ∧
      hits.map (·.score) =
        ((all.map Prod.snd).mergeSort fun a b => b.atMost a).take retrieval.count := by
  obtain ⟨found, hrun, hnodup, hfound⟩ := exists_found retrieval starts hsized hlengths
  have hscored : ∀ hit ∈ found, retrieval.Scores starts hit.docId hit.score :=
    fun hit hm => (hfound _ _).2 ⟨hit, hm, rfl, rfl⟩
  obtain ⟨dropped, hperm, hlength, hordered, hahead, hsorted⟩ :=
    Hit.best_spec retrieval.count fun x hx y hy =>
      hscores _ _ _ _ (hscored x hx) (hscored y hy)
  have hbest : ∀ hit ∈ Hit.best retrieval.count found, hit ∈ found :=
    fun hit hm => hperm.subset (List.mem_append_left _ hm)
  refine ⟨Hit.best retrieval.count found, found.map fun hit => (hit.docId, hit.score), hrun, ?_,
    ?_, ?_, ?_, ?_, hordered, ?_, ?_⟩
  · rw [List.map_map]
    exact hnodup
  · intro docId score
    simp only [hfound, List.mem_map, Prod.mk.injEq]
  · rw [hlength, List.length_map]
  · have hall := (hperm.map Hit.docId).nodup_iff.2 hnodup
    rw [List.map_append] at hall
    exact (List.nodup_append.1 hall).1
  · intro hit hm
    exact hscored hit (hbest hit hm)
  · intro docId score hdoc hout hit hm
    obtain ⟨other, hother, rfl, rfl⟩ := (hfound _ _).1 hdoc
    have hdropped : other ∈ dropped := by
      rcases List.mem_append.1 (hperm.mem_iff.2 hother) with hin | hdropped
      · exact absurd (List.mem_map_of_mem hin) hout
      · exact hdropped
    rw [Bool.eq_false_iff, Ne, hscores _ _ _ _ hdoc (hscored hit (hbest hit hm)),
      Binary64.totalOrder_eq_gt_iff, not_not]
    exact hahead hit hm other hdropped
  · rw [hsorted, List.map_map]
    rfl

/-- The lengths of three documents, all the same. -/
def levelLengths : DocLengths :=
  ⟨(∅ : Std.ExtTreeMap UInt32 UInt32).insert 10 3 |>.insert 42 3 |>.insert 70000 3, .zero,
    some 70000⟩

theorem levelLengths_length {docId : UInt32} (h : docId ∈ [10, 42, 70000]) :
    levelLengths.length docId = .ok 3 := by
  simp only [List.mem_cons, List.not_mem_nil, or_false] at h
  rcases h with rfl | rfl | rfl <;>
    simp [DocLengths.length, levelLengths, Std.ExtTreeMap.getElem_insert]

/-- Two of the documents are wanted. -/
def levelRetrieval : Retrieval := ⟨levelLengths, 5, 2, false⟩

/-- Two terms read the same list from behind its first span on: what is found has the score of
two shares of the same numbers. -/
theorem finds_level {start : Start} (hleft : start.left =
      [⟨10, 1, [], []⟩, ⟨42, 1, [⟨2, 5⟩], [1]⟩, ⟨70000, 1, [⟨6, 6⟩], [2]⟩])
    {docId : UInt32} {column : List Posting}
    (h : levelRetrieval.Finds [start, start] docId column) :
    docId ∈ [10, 42, 70000] ∧ ∃ p q, column = [p, q] ∧ p.termFreq = 1 ∧ q.termFreq = 1 := by
  have hlefts := h.lefts
  simp only [Start.Column, List.forall₂_cons_left_iff, List.forall₂_nil_left_iff] at hlefts
  obtain ⟨p, _, ⟨hp, rfl⟩, ⟨q, _, ⟨hq, -⟩, rfl, rfl⟩, rfl⟩ := hlefts
  have hlevel : ∀ posting ∈ start.left,
      posting.docId ∈ [(10 : UInt32), 42, 70000] ∧ posting.termFreq = 1 := by
    rw [hleft]
    simp
  exact ⟨(hlevel p hp).1, p, q, rfl, (hlevel p hp).2, (hlevel q hq).2⟩

theorem exists_finds_level {start : Start} (hleft : start.left =
      [⟨10, 1, [], []⟩, ⟨42, 1, [⟨2, 5⟩], [1]⟩, ⟨70000, 1, [⟨6, 6⟩], [2]⟩])
    {docId : UInt32} (h : docId ∈ [10, 42, 70000]) :
    levelRetrieval.Matches [start, start] docId := by
  obtain ⟨posting, hm, hdocId⟩ : ∃ posting ∈ start.left, posting.docId = docId := by
    rw [hleft]
    simp only [List.mem_cons, List.not_mem_nil, or_false] at h
    rcases h with rfl | rfl | rfl <;> simp
  refine ⟨[posting, posting], List.cons_ne_nil _ _, .cons ⟨hm, hdocId⟩ (.cons ⟨hm, hdocId⟩ .nil),
    ?_⟩
  exact nofun

theorem scores_level {start : Start} (hleft : start.left =
      [⟨10, 1, [], []⟩, ⟨42, 1, [⟨2, 5⟩], [1]⟩, ⟨70000, 1, [⟨6, 6⟩], [2]⟩])
    {docId : UInt32} {score : Binary64} (h : levelRetrieval.Scores [start, start] docId score) :
    score = .ofFloat ((List.replicate 2 (Similarity.share
      (Similarity.rarity 5 start.postings.length) 1 3 levelLengths.average.toFloat)).foldl
        (· + ·) (-0.0)) := by
  obtain ⟨column, length, hfinds, hlength, rfl⟩ := h
  obtain ⟨hdocId, p, q, rfl, hp, hq⟩ := finds_level hleft hfinds
  rw [show levelRetrieval.lengths = levelLengths from rfl, levelLengths_length hdocId,
    Except.ok.injEq] at hlength
  simp only [List.zipWith_cons_cons, List.zipWith_nil_left, hp, hq, ← hlength]
  rfl

/-- Of three documents of the same score two are hits, and the third does not exceed them. -/
theorem run_selects_best_level :
    ∃ start : Start, start.Sized ∧
      (∀ docId, levelRetrieval.Matches [start, start] docId →
        ∃ length, levelRetrieval.lengths.length docId = .ok length) ∧
      (∀ docId docId' score score', levelRetrieval.Scores [start, start] docId score →
        levelRetrieval.Scores [start, start] docId' score' →
        (score.exceeds score' = true ↔ score.totalOrder score' = .gt)) ∧
      ∃ hits, levelRetrieval.run [start.cursor, start.cursor] = .ok hits ∧ hits.length = 2 ∧
        (∀ hit ∈ hits, hit.docId ∈ [(10 : UInt32), 42, 70000]) ∧
        ∃ docId score, docId ∈ [(10 : UInt32), 42, 70000] ∧ docId ∉ hits.map (·.docId) ∧
          levelRetrieval.Scores [start, start] docId score ∧
          ∀ hit ∈ hits, score.exceeds hit.score = false := by
  obtain ⟨start, -, hsized, hleft⟩ := Start.exists_level
  have hlengths (docId : UInt32) (h : levelRetrieval.Matches [start, start] docId) :
      ∃ length, levelRetrieval.lengths.length docId = .ok length := by
    obtain ⟨column, hfinds⟩ := h
    exact ⟨3, levelLengths_length (finds_level hleft hfinds).1⟩
  have hscores (docId docId' : UInt32) (score score' : Binary64)
      (h : levelRetrieval.Scores [start, start] docId score)
      (h' : levelRetrieval.Scores [start, start] docId' score') :
      score.exceeds score' = true ↔ score.totalOrder score' = .gt := by
    rw [scores_level hleft h, scores_level hleft h']
    simp [Binary64.exceeds, Binary64.totalOrder]
  obtain ⟨hits, all, hrun, hnodup, hscored, hcount, hdistinct, hhits, -, hleast, -⟩ :=
    run_selects_best levelRetrieval [start, start] (fun _ _ => by simpa using hsized) hlengths
      hscores
  have hscore (docId : UInt32) (h : docId ∈ [10, 42, 70000]) :
      ∃ score, levelRetrieval.Scores [start, start] docId score := by
    obtain ⟨column, hfinds⟩ := exists_finds_level hleft h
    obtain ⟨length, hlength⟩ := hlengths docId ⟨column, hfinds⟩
    exact ⟨_, column, length, hfinds, hlength, rfl⟩
  have hall : [(10 : UInt32), 42, 70000] ⊆ all.map Prod.fst := by
    intro docId h
    obtain ⟨score, hscore⟩ := hscore docId h
    exact List.mem_map_of_mem ((hscored docId score).2 hscore)
  have hthree := (List.subperm_of_subset (by decide) hall).length_le
  rw [List.length_map] at hthree
  have htwo : hits.length = 2 := by
    rw [hcount]
    exact Nat.min_eq_left (Nat.le_of_succ_le hthree)
  obtain ⟨docId, hdocId, hout⟩ : ∃ docId ∈ [(10 : UInt32), 42, 70000],
      docId ∉ hits.map (·.docId) := by
    by_contra hnone
    simp only [not_exists, not_and, not_not] at hnone
    have hsubset : [(10 : UInt32), 42, 70000] ⊆ hits.map (·.docId) := hnone
    have hle := (List.subperm_of_subset (by decide) hsubset).length_le
    rw [List.length_map, htwo] at hle
    exact absurd hle (by decide)
  obtain ⟨score, hscore⟩ := hscore docId hdocId
  refine ⟨start, hsized, hlengths, hscores, hits, hrun, htwo, ?_, docId, score, hdocId, hout,
    hscore, hleast docId score hscore hout⟩
  intro hit hm
  obtain ⟨column, length, hfinds, -⟩ := hhits hit hm
  exact (finds_level hleft hfinds).1

/-- Postings whose size takes more than 32 bits have to be left out for a phrase: the only
document that matches has a length and a score, but the run ends with a fault. -/
theorem run_selects_best_oversize :
    ∃ first second : Start, first.Alone (.repeated UInt32.size) ∧ second.Alone following ∧
      (∀ docId, (singleRetrieval true).Matches [first, second] docId →
        ∃ length, (singleRetrieval true).lengths.length docId = .ok length) ∧
      (∃ score, (singleRetrieval true).Scores [first, second] 0 score) ∧
      (∀ docId docId' score score', (singleRetrieval true).Scores [first, second] docId score →
        (singleRetrieval true).Scores [first, second] docId' score' →
        (score.exceeds score' = true ↔ score.totalOrder score' = .gt)) ∧
      (singleRetrieval true).run [first.cursor, second.cursor] = .error (.fault .outOfBounds) := by
  obtain ⟨first, second, hfirst, hsecond, hrun⟩ := exists_run_repeated
  have hfinds (docId : UInt32) (column : List Posting) :
      (singleRetrieval true).Finds [first, second] docId column ↔
        docId = 0 ∧ column = [.repeated UInt32.size, following] :=
    finds_repeated_iff (by decide) hfirst hsecond
  have hlength := singleRetrieval_length true
  refine ⟨first, second, hfirst, hsecond, ?_, ?_, ?_, hrun _ rfl Nat.one_pos⟩
  · rintro docId ⟨column, h⟩
    obtain ⟨rfl, -⟩ := (hfinds _ _).1 h
    exact ⟨1, hlength⟩
  · exact ⟨_, _, 1, (hfinds _ _).2 ⟨rfl, rfl⟩, hlength, rfl⟩
  · rintro docId docId' _ _ ⟨column, length, h, hone, rfl⟩ ⟨column', length', h', hone', rfl⟩
    obtain ⟨rfl, rfl⟩ := (hfinds _ _).1 h
    obtain ⟨rfl, rfl⟩ := (hfinds _ _).1 h'
    rw [hone, Except.ok.injEq] at hone'
    subst hone'
    simp [Binary64.exceeds, Binary64.totalOrder]

end Retrieval

end Concordance
