import Concordance.Proofs.Highlighting
import Concordance.Proofs.PhraseTable
import Mathlib.Data.List.Induction
import Mathlib.Data.List.Sort

/-!
# What is highlighted

A search over texts highlights the tokens that match, and nothing else: where a phrase was
asked for, those at each place where it starts, and else every token of a term.

## Implementation notes

A match of a phrase knows which occurrence of its term is used, and the pair of that occurrence
is looked up by its number. Since the rows of offset pairs and of positions come from the same
tokens, the pair is that of the token which stands at the position.
-/

namespace Concordance

open Sequences Result Document

/-- The numbers of the tokens at which a phrase of these terms starts, in ascending order. -/
def phraseStarts (terms : List String) (tokens : List Token) : List Nat :=
  (List.range tokens.length).filter fun start =>
    terms.isPrefixOf ((tokens.drop start).map (·.text))

/-- The rows highlight a text for a query of normalized terms: for a phrase of several terms, row
`i` has for each start the bytes of the token that stands `i` tokens behind it, and else those of
all tokens of term `i`. What a row highlights is cut out of the text and is its term. -/
structure Query.Highlights (query : Query) (tokenizer : Tokenizer) (text : String)
    (rows : List (List Span)) : Prop where
  length_eq : rows.length = query.terms.length
  phrase : query.isPhrase = true → 1 < query.terms.length →
    ∀ (i : Nat) row, rows[i]? = some row →
      row.map some = (phraseStarts query.terms (tokenizer.tokens text)).map fun start =>
        (tokenizer.tokens text)[start + i]?.map Token.span
  plain : ¬ (query.isPhrase = true ∧ 1 < query.terms.length) →
    ∀ (i : Nat) row term, rows[i]? = some row → query.terms[i]? = some term →
      row = ((tokenizer.tokens text).filter (·.text = term)).map Token.span
  cut : ∀ (i : Nat) row term, rows[i]? = some row → query.terms[i]? = some term →
    ∀ span ∈ row, ∃ before cut after, text = before ++ cut ++ after ∧
      before.utf8ByteSize = span.start.toNat ∧
      before.utf8ByteSize + cut.utf8ByteSize = span.stop.toNat + 1 ∧
      tokenizer.normalize cut = term

section
variable {tokenizer : Tokenizer} {text term : String} {terms : List String} {docId : UInt32}

theorem mem_phraseStarts {tokens : List Token} (hne : terms ≠ []) {start : Nat} :
    start ∈ phraseStarts terms tokens ↔ ∀ (i : Nat) term, terms[i]? = some term →
      tokens[start + i]?.map (·.text) = some term := by
  have hprefix : terms.isPrefixOf ((tokens.drop start).map (·.text)) = true ↔
      ∀ (i : Nat) term, terms[i]? = some term → tokens[start + i]?.map (·.text) = some term := by
    rw [List.isPrefixOf_iff_prefix, List.prefix_iff_getElem?]
    constructor
    · intro h i term hterm
      obtain ⟨hlt, rfl⟩ := List.getElem?_eq_some_iff.1 hterm
      rw [← h i hlt, List.getElem?_map, List.getElem?_drop]
    · intro h i hlt
      rw [List.getElem?_map, List.getElem?_drop]
      exact h i _ (List.getElem?_eq_getElem hlt)
  rw [phraseStarts, List.mem_filter, List.mem_range, hprefix, and_iff_right_iff_imp]
  intro h
  obtain ⟨first, rest, rfl⟩ := List.exists_cons_of_ne_nil hne
  obtain ⟨token, htoken, -⟩ := Option.map_eq_some_iff.1 (h 0 first rfl)
  exact (List.getElem?_eq_some_iff.1 htoken).1

theorem positions_strict (hbytes : text.utf8ByteSize < UInt32.size) (docId : UInt32)
    (term : String) :
    (posting docId (tokenizer.tokens text) term).positions.Pairwise (· < ·) := by
  apply List.pairwise_map.mpr
  exact ((Tokenizer.tokens_ordered tokenizer hbytes).filter _).imp And.right

theorem length_positions_le (hbytes : text.utf8ByteSize < UInt32.size) (docId : UInt32)
    (term : String) :
    (posting docId (tokenizer.tokens text) term).positions.length ≤ UInt32.size :=
  calc
    (posting docId (tokenizer.tokens text) term).positions.length
      ≤ (tokenizer.tokens text).length := by
        rw [posting, List.length_map]
        exact List.length_filter_le ..
    _ ≤ text.utf8ByteSize := Tokenizer.length_tokens_le tokenizer text
    _ ≤ UInt32.size := Nat.le_of_lt hbytes

/-- The matches of a phrase in a text are exact. -/
theorem exact_table_of_text (tokenizer : Tokenizer) (hbytes : text.utf8ByteSize < UInt32.size)
    (hne : terms ≠ []) (docId : UInt32) :
    Phrase.Exact ((terms.map (posting docId (tokenizer.tokens text))).map (·.positions))
      (Phrase.table ((terms.map (posting docId (tokenizer.tokens text))).map (·.positions))) :=
  Phrase.exact_table (by simpa using hne)
    (by simpa using fun term _ => positions_ordered hbytes docId term)
    (by simpa using fun term _ => length_positions_le hbytes docId term)

/-- A phrase has a match in a text for each place where it starts. -/
theorem map_starts_table (hbytes : text.utf8ByteSize < UInt32.size) (hne : terms ≠ [])
    (docId : UInt32) :
    (Phrase.table ((terms.map (posting docId (tokenizer.tokens text))).map
        (·.positions))).starts.map UInt32.toNat = phraseStarts terms (tokenizer.tokens text) := by
  have hstrict : ∀ stream ∈ (terms.map (posting docId (tokenizer.tokens text))).map (·.positions),
      stream.Pairwise (· < ·) := by
    simpa using fun term _ => positions_strict hbytes docId term
  have hexact := exact_table_of_text tokenizer hbytes hne docId
  apply List.Pairwise.eq_of_mem_iff (r := (· < ·))
  · apply List.pairwise_map.mpr
    apply (hexact.starts_ordered.and (hexact.starts_nodup hstrict)).imp
    rintro a b ⟨hle, hne⟩
    exact UInt32.lt_iff_toNat_lt.1 (UInt32.lt_of_le_of_ne hle hne)
  · exact List.pairwise_lt_range.filter _
  · intro start
    have hstart (place : UInt32) : place ∈ (Phrase.table ((terms.map (posting docId
          (tokenizer.tokens text))).map (·.positions))).starts ↔
        place.toNat ∈ phraseStarts terms (tokenizer.tokens text) := by
      rw [hexact.mem_starts_iff, mem_phraseStarts hne]
      simp only [List.getElem?_map, Option.map_map, Option.map_eq_some_iff, Function.comp_apply,
        forall_exists_index, and_imp, forall_apply_eq_imp_iff₂, exists_position_iff hbytes]
    rw [List.mem_map]
    constructor
    · rintro ⟨place, hplace, rfl⟩
      exact (hstart place).1 hplace
    · intro hm
      have hlt := (List.mem_filter.1 hm).1
      have hle := Tokenizer.length_tokens_le tokenizer text
      rw [List.mem_range] at hlt
      have hword : start.toUInt32.toNat = start := UInt32.toNat_ofNat_of_lt' (by omega)
      exact ⟨start.toUInt32, (hstart _).2 (hword.symm ▸ hm), hword⟩

/-- The pair of an occurrence is that of the token at its position. -/
theorem exists_token_of_position (hbytes : text.utf8ByteSize < UInt32.size) {index : Nat}
    {position : UInt32}
    (h : (posting docId (tokenizer.tokens text) term).positions[index]? = some position) :
    ∃ token, (tokenizer.tokens text)[position.toNat]? = some token ∧
      (posting docId (tokenizer.tokens text) term).offsets[index]? = some token.span := by
  rw [posting, List.getElem?_map, Option.map_eq_some_iff] at h
  obtain ⟨token, htoken, rfl⟩ := h
  obtain ⟨i, hi⟩ := List.mem_iff_getElem?.1 (mem_occurrencesOf.1 (List.mem_of_getElem? htoken)).1
  refine ⟨token, ?_, ?_⟩
  · rw [Tokenizer.toNat_position hbytes hi, hi]
  · rw [posting, List.getElem?_map, htoken, Option.map_some]

/-- Row `i` of a phrase highlights the tokens that stand `i` tokens behind its starts. -/
theorem map_some_pick_table (hbytes : text.utf8ByteSize < UInt32.size) (docId : UInt32)
    {i : Nat} (hterm : terms[i]? = some term) {row : List Occurrence}
    (hrow : (Phrase.table ((terms.map (posting docId (tokenizer.tokens text))).map
      (·.positions))).rows[i]? = some row) :
    (Hit.pick row (posting docId (tokenizer.tokens text) term).offsets).map some =
      (phraseStarts terms (tokenizer.tokens text)).map fun start =>
        (tokenizer.tokens text)[start + i]?.map Token.span := by
  have hne : terms ≠ [] := List.ne_nil_of_mem (List.mem_of_getElem? hterm)
  have hexact := exact_table_of_text tokenizer hbytes hne docId
  have hstream : ((terms.map (posting docId (tokenizer.tokens text))).map (·.positions))[i]? =
      some (posting docId (tokenizer.tokens text) term).positions := by
    rw [List.getElem?_map, List.getElem?_map, hterm]
    rfl
  rw [← map_starts_table hbytes hne docId]
  generalize Phrase.table ((terms.map (posting docId (tokenizer.tokens text))).map
    (·.positions)) = table at *
  have hlength : row.length = table.starts.length := by
    rw [hexact.length_row row (List.mem_of_getElem? hrow), Phrase.length_starts]
  have hcell {j : Nat} {occurrence : Occurrence} {start : UInt32}
      (hoccurrence : row[j]? = some occurrence) (hstart : table.starts[j]? = some start) :
      ∃ token, (tokenizer.tokens text)[start.toNat + i]? = some token ∧
        (posting docId (tokenizer.tokens text) term).offsets[occurrence.index.toNat]? =
          some token.span := by
    obtain ⟨hplace, hposition⟩ :=
      hexact.occurrence i j row _ start occurrence hrow hstream hstart hoccurrence
    rw [← hplace]
    exact exists_token_of_position hbytes hposition
  have hpaired : Hit.Paired row (posting docId (tokenizer.tokens text) term).offsets := by
    intro occurrence hm
    obtain ⟨j, hj⟩ := List.mem_iff_getElem?.1 hm
    obtain ⟨start, hstart⟩ : ∃ start, table.starts[j]? = some start :=
      ⟨_, List.getElem?_eq_getElem (hlength ▸ (List.getElem?_eq_some_iff.1 hj).1)⟩
    obtain ⟨token, -, hoffset⟩ := hcell hj hstart
    exact (List.getElem?_eq_some_iff.1 hoffset).1
  rw [Hit.map_some_pick hpaired, List.map_map]
  apply List.ext_getElem (by simpa using hlength)
  intro j hj hj'
  rw [List.length_map] at hj hj'
  obtain ⟨token, htoken, hoffset⟩ :=
    hcell (List.getElem?_eq_getElem hj) (List.getElem?_eq_getElem hj')
  rw [List.getElem_map, List.getElem_map, Function.comp_apply, hoffset, htoken]
  rfl

/-- What a phrase highlights of a term are tokens of the term. -/
theorem exists_token_of_phrase {tokens : List Token} {i : Nat} {row : List Span}
    (hrow : row.map some = (phraseStarts terms tokens).map fun start =>
      tokens[start + i]?.map Token.span) (hterm : terms[i]? = some term) {span : Span}
    (hm : span ∈ row) : ∃ token ∈ tokens, token.text = term ∧ token.span = span := by
  have hne : terms ≠ [] := List.ne_nil_of_mem (List.mem_of_getElem? hterm)
  have hsome : some span ∈ row.map some := List.mem_map_of_mem hm
  rw [hrow, List.mem_map] at hsome
  obtain ⟨start, hstart, hspan⟩ := hsome
  obtain ⟨token, htoken, rfl⟩ := Option.map_eq_some_iff.1 hspan
  have htext := (mem_phraseStarts hne).1 hstart i term hterm
  rw [htoken, Option.map_some, Option.some.injEq] at htext
  exact ⟨token, List.mem_of_getElem? htoken, htext, rfl⟩

end

/-- A hit for a text is highlighted with just what matches. -/
theorem Hit.highlights_of_text {tokenizer : Tokenizer} {text : String} {docId : UInt32}
    (hbytes : text.utf8ByteSize < UInt32.size) {retrieval : Retrieval} {rarities : List Float}
    {query : Query} (hphrase : retrieval.isPhrase = query.isPhrase) (hne : query.terms ≠ [])
    {hit : Hit} (h : retrieval.Gains True rarities hit
      (query.terms.map (posting docId (tokenizer.tokens text)))) :
    ∃ rows, hit.highlights = .ok rows ∧ query.Highlights tokenizer text rows := by
  have hexact := exact_table_of_text tokenizer hbytes hne docId
  have hrows := Hit.highlights_eq_pick h (by simp [posting]) fun row hm =>
    List.pairwise_map.1 ((hexact.indices_ordered row hm).imp UInt32.le_of_lt)
  have hactive : retrieval.phraseActive (query.terms.map
      (posting docId (tokenizer.tokens text))).length = true ↔
        query.isPhrase = true ∧ 1 < query.terms.length := by
    rw [Retrieval.phraseActive_iff, List.length_map, hphrase]
  have hoffsets {i : Nat} {pairs : List Span} :
      ((query.terms.map (posting docId (tokenizer.tokens text))).map (·.offsets))[i]? =
        some pairs ↔ ∃ term, query.terms[i]? = some term ∧
          (posting docId (tokenizer.tokens text) term).offsets = pairs := by
    simp
  have hcut {term : String} {span : Span}
      (htoken : ∃ token ∈ tokenizer.tokens text, token.text = term ∧ token.span = span) :
      ∃ before cut after, text = before ++ cut ++ after ∧
        before.utf8ByteSize = span.start.toNat ∧
        before.utf8ByteSize + cut.utf8ByteSize = span.stop.toNat + 1 ∧
        tokenizer.normalize cut = term := by
    obtain ⟨token, hm, rfl, rfl⟩ := htoken
    obtain ⟨before, cut, after, hpermits, hmarks⟩ := Tokenizer.exists_permits hbytes hm
    exact ⟨before, cut, after, hpermits.text_eq, hmarks.start_eq.symm, hmarks.stop_eq.symm,
      hmarks.text_eq.symm⟩
  refine ⟨_, hrows, ?_⟩
  by_cases hasked : query.isPhrase = true ∧ 1 < query.terms.length
  · rw [if_pos (hactive.2 hasked)]
    generalize htable : Phrase.table _ = table at *
    have hrow : ∀ (i : Nat) row, (List.zipWith Hit.pick table.rows ((query.terms.map
          (posting docId (tokenizer.tokens text))).map (·.offsets)))[i]? = some row →
        row.map some = (phraseStarts query.terms (tokenizer.tokens text)).map fun start =>
          (tokenizer.tokens text)[start + i]?.map Token.span := by
      intro i row hget
      obtain ⟨found, pairs, hfound, hpairs, rfl⟩ := List.getElem?_zipWith_eq_some.1 hget
      obtain ⟨term, hterm, rfl⟩ := hoffsets.1 hpairs
      exact map_some_pick_table hbytes docId hterm (htable ▸ hfound)
    constructor
    case length_eq =>
        have hcount := hexact.rowCount_eq
        rw [PositionTable.rowCount, List.length_map, List.length_map] at hcount
        rw [List.length_zipWith, hcount, List.length_map, List.length_map, Nat.min_self]
    case phrase => exact fun _ _ => hrow
    case plain => exact fun hplain => absurd hasked hplain
    case cut =>
        intro i row term hget hterm span hm
        exact hcut (exists_token_of_phrase (hrow i row hget) hterm hm)
  · rw [if_neg (mt hactive.1 hasked)]
    have hrow : ∀ (i : Nat) row term, ((query.terms.map
          (posting docId (tokenizer.tokens text))).map (·.offsets))[i]? = some row →
        query.terms[i]? = some term →
        row = ((tokenizer.tokens text).filter (·.text = term)).map Token.span := by
      intro i row term hget hterm
      obtain ⟨other, hother, rfl⟩ := hoffsets.1 hget
      rw [hterm, Option.some.injEq] at hother
      rw [hother]
      rfl
    constructor
    case length_eq => rw [List.length_map, List.length_map]
    case phrase => exact fun hphrase hcount => absurd ⟨hphrase, hcount⟩ hasked
    case plain => exact fun _ => hrow
    case cut =>
        intro i row term hget hterm span hm
        rw [hrow i row term hget hterm] at hm
        obtain ⟨token, htoken, rfl⟩ := List.mem_map.1 hm
        obtain ⟨hmem, htext⟩ := mem_occurrencesOf.1 htoken
        exact hcut ⟨token, hmem, htext, rfl⟩

namespace Engine
variable {engine start : Engine} {room : Cache.Room} {config : Config}
  {calls : List (Call × Response)}

/-- The text that was added by a call. -/
def text? : Call × Response → Option String
  | (.request (.add (.text text)), .replied (.added (.ok _))) => some text
  | _ => none

/-- The texts that were added by calls, in order. -/
def texts (calls : List (Call × Response)) : List String := calls.filterMap text?

/-- All that was to be added were texts whose bytes can be numbered. -/
def TextsOnly (calls : List (Call × Response)) : Prop :=
  ∀ call ∈ calls, ∀ addition, call.1 = .request (.add addition) →
    ∃ text, addition = .text text ∧ text.utf8ByteSize < UInt32.size

theorem accepted_eq_map_texts (h : TextsOnly calls) (tokenizer : Tokenizer) :
    accepted tokenizer calls = (texts calls).map (ofText tokenizer) := by
  rw [accepted, texts, List.map_filterMap]
  apply List.filterMap_congr
  rintro ⟨call, response⟩ hm
  cases call with
  | batch | save => rfl
  | request request =>
      cases request with
      | search query => rfl
      | add addition =>
          obtain ⟨text, rfl, -⟩ := h _ hm addition rfl
          cases response with
          | found | saved => rfl
          | replied reply =>
              cases reply with
              | found => rfl
              | added result => cases result <;> rfl

theorem utf8ByteSize_lt_of_mem_texts (h : TextsOnly calls) {text : String}
    (hm : text ∈ texts calls) : text.utf8ByteSize < UInt32.size := by
  obtain ⟨⟨call, response⟩, hcall, htext⟩ := List.mem_filterMap.1 hm
  rw [text?.eq_def] at htext
  split at htext
  · next given docId heq =>
      obtain ⟨other, hother, hlt⟩ := h _ hcall (.text given) (congrArg Prod.fst heq)
      cases hother
      cases htext
      exact hlt
  · cases htext

/-- The postings of documents of texts are those of the texts. -/
theorem contentsOf_map_ofText (tokenizer : Tokenizer) (texts : List String) :
    contentsOf (texts.map (ofText tokenizer)) = postingsOf tokenizer texts := by
  induction texts using List.reverseRecOn with
  | nil => rfl
  | append_singleton texts text ih =>
      rw [List.map_append, List.map_singleton, contentsOf_concat, ih, List.length_map,
        extend_postingsOf]

/-- The hits of a query over texts are highlighted with just what matches. -/
theorem Records.execute_highlights {texts : List String}
    (h : engine.Records (texts.map (ofText engine.config.tokenizer)))
    (hbytes : ∀ text ∈ texts, text.utf8ByteSize < UInt32.size) {query : Query}
    (hterms : query.terms ≠ []) :
    ∃ answers, engine.execute { query with snippets := true } = .ok answers ∧
      ∀ answer ∈ answers, ∃ text, texts[answer.docId.toNat]? = some text ∧
        query.Highlights engine.config.tokenizer text answer.highlights := by
  have hlength : texts.length < UInt32.size := by
    rw [← List.length_map (ofText engine.config.tokenizer), ← h.nextDocId_eq]
    exact engine.nextDocId.toNat_lt
  obtain ⟨hits, hexecute, hgains⟩ :=
    exists_hits h.index.presents (fun _ _ => h.exists_length) hterms
  rw [contentsOf_map_ofText] at hgains
  have hhit : ∀ hit ∈ hits, ∃ answer, hit.answer true = .ok answer ∧
      ∃ text, texts[answer.docId.toNat]? = some text ∧
        query.Highlights engine.config.tokenizer text answer.highlights := by
    intro hit hm
    obtain ⟨column, hcolumn, rarities, hgain⟩ := hgains hit hm
    obtain ⟨text, htext, -, rfl⟩ := (column_postingsOf_iff hlength hterms).1 hcolumn
    obtain ⟨rows, hrows, hhighlights⟩ :=
      Hit.highlights_of_text (hbytes text (List.mem_of_getElem? htext)) rfl hterms hgain
    refine ⟨⟨hit.docId, hit.score, rows⟩, ?_, text, htext, hhighlights⟩
    rw [Hit.answer, if_pos rfl, hrows]
    rfl
  obtain ⟨answers, hanswers⟩ := exists_mapM_iff.2 fun hit hm =>
    (hhit hit hm).imp fun _ => And.left
  refine ⟨answers, (hexecute true).trans hanswers, ?_⟩
  intro answer hm
  obtain ⟨hit, hhitMem, hsame⟩ := exists_beside (mapM_eq_ok_iff.1 hanswers).flip hm
  obtain ⟨other, hother, hshown⟩ := hhit hit hhitMem
  rw [hsame, Except.ok.injEq] at hother
  exact hother ▸ hshown

/-- Whatever a new engine was called for, where only texts were added, a search that shows
its answers highlights of each text just what matches. -/
theorem highlights_of_calls (hnew : new room config = .ok start) (hcalls : start.Calls calls engine)
    (hfits : engine.index.Fits) (htexts : TextsOnly calls) (query : Query) :
    ∃ answers, (engine.search { query with snippets := true }).1 = .ok answers ∧
      ∀ answer ∈ answers, ∃ text, (texts calls)[answer.docId.toNat]? = some text ∧
        (query.normalize config.tokenizer).Highlights config.tokenizer text
          answer.highlights := by
  obtain ⟨-, -, rfl⟩ := consistent_of_new hnew
  obtain ⟨hrecords, -⟩ := (records_of_new hnew).of_calls hcalls hfits
  rw [List.nil_append, accepted_eq_map_texts htexts, ← config_of_calls hcalls] at hrecords
  rw [← config_of_calls hcalls, (hrecords.cacheSound.search _).1]
  by_cases hempty : query.count = 0 ∨ query.terms = []
  · exact ⟨[], if_pos hempty, List.forall_mem_nil _⟩
  · rw [if_neg hempty]
    have hterms : (query.normalize engine.config.tokenizer).terms ≠ [] := by
      simpa [Query.normalize] using (not_or.1 hempty).2
    exact hrecords.execute_highlights (fun _ => utf8ByteSize_lt_of_mem_texts htexts) hterms

/-- A term stands three times in a row. -/
def repeatedCalls : List Call := [.request (.add (.text "Go go, go!"))]

/-- The phrase of a term with itself starts twice, and the starts share a token. -/
theorem highlights_of_calls_repeated :
    new .ample .default = .ok sample ∧
      sample.Calls (sample.respondAll repeatedCalls).1 (sample.respondAll repeatedCalls).2 ∧
      (sample.respondAll repeatedCalls).2.index.Fits ∧
      TextsOnly (sample.respondAll repeatedCalls).1 ∧
      ∃ answer, ((sample.respondAll repeatedCalls).2.search ⟨["go", "GO"], 3, true, true⟩).1 =
          .ok [answer] ∧
        answer.highlights = [[⟨0, 1⟩, ⟨3, 4⟩], [⟨3, 4⟩, ⟨7, 8⟩]] ∧
        Query.Highlights ⟨["go", "go"], 3, true, true⟩ Tokenizer.default "Go go, go!"
          answer.highlights := by
  have hnew : new .ample .default = .ok sample := rfl
  have hcalls := calls_respondAll sample repeatedCalls
  have hfits : (sample.respondAll repeatedCalls).2.index.Fits :=
    InvertedIndex.fits_of_all (by decide +kernel)
  have htexts : TextsOnly (sample.respondAll repeatedCalls).1 := by
    intro call hm addition hadd
    have hcall : call.1 ∈ repeatedCalls :=
      map_fst_respondAll sample repeatedCalls ▸ List.mem_map_of_mem hm
    rw [hadd, repeatedCalls, List.mem_singleton] at hcall
    cases hcall
    exact ⟨_, rfl, by decide⟩
  obtain ⟨answers, hanswers, hall⟩ :=
    highlights_of_calls hnew hcalls hfits htexts ⟨["go", "GO"], 3, true, true⟩
  have hfound : ((sample.respondAll repeatedCalls).2.search
      ⟨["go", "GO"], 3, true, true⟩).1.toOption.map (·.map fun answer =>
        (answer.docId, answer.highlights)) =
      some [(0, [[⟨0, 1⟩, ⟨3, 4⟩], [⟨3, 4⟩, ⟨7, 8⟩]])] := by
    decide +kernel
  rw [hanswers] at hfound
  simp only [Except.toOption, Option.map_some, Option.some.injEq, List.map_eq_singleton_iff,
    Prod.mk.injEq] at hfound
  obtain ⟨answer, rfl, hdocId, hhighlights⟩ := hfound
  obtain ⟨text, htext, hshown⟩ := hall answer (List.mem_singleton_self _)
  have hbodies : texts (sample.respondAll repeatedCalls).1 = ["Go go, go!"] := by decide +kernel
  have hquery : Query.normalize ⟨["go", "GO"], 3, true, true⟩ Config.default.tokenizer =
      ⟨["go", "go"], 3, true, true⟩ := by
    decide +kernel
  rw [hbodies, hdocId] at htext
  cases htext
  rw [hquery] at hshown
  exact ⟨hnew, hcalls, hfits, htexts, answer, hanswers, hhighlights, hshown⟩

end Engine

end Concordance
