import Concordance.Proofs.Sequences
import Concordance.Token

/-!
# Tokens are in order

The runs of a text are its longest runs of token characters, which `Run.Longest` says of
characters between others (`Run.mem_ofChars_iff`). They follow each other without overlap,
and there are no more of them than bytes. In a text whose bytes can be numbered with 32
bits, tokens therefore have their number as position, and positions and bytes go up from
token to token.
-/

namespace Concordance

namespace Run
variable {offset : Nat} {chars before cut after : List Char} {char : Char} {run : Run}

/-- The characters `cut` are a longest run of token characters between those before and after
them: the last character before and the first one after are none. -/
structure Longest (before cut after : List Char) : Prop where
  ne_nil : cut ≠ []
  inside : ∀ char ∈ cut, isTokenChar char = true
  before : ∀ char, before.getLast? = some char → isTokenChar char = false
  after : ∀ char, after.head? = some char → isTokenChar char = false

theorem byteCount_append (first second : List Char) :
    byteCount (first ++ second) = byteCount first + byteCount second := by
  induction first with
  | nil => exact (Nat.zero_add _).symm
  | cons char first ih => simp only [List.cons_append, byteCount, ih, Nat.add_assoc]

theorem byteCount_pos (h : chars ≠ []) : 0 < byteCount chars := by
  obtain ⟨char, rest, rfl⟩ := List.exists_cons_of_ne_nil h
  have := char.utf8Size_pos
  rw [byteCount]
  omega

theorem byteCount_ofList (chars : List Char) :
    (String.ofList chars).utf8ByteSize = byteCount chars := by
  induction chars with
  | nil => rfl
  | cons char chars ih =>
      rw [String.ofList_cons, String.utf8ByteSize_append, String.utf8ByteSize_singleton, ih,
        byteCount]

theorem byteCount_toList (text : String) : byteCount text.toList = text.utf8ByteSize := by
  rw [← byteCount_ofList, String.ofList_toList]

/-- The bytes of a run and of what is behind it are those of the text from the run on. -/
theorem byteCount_split (char : Char) (rest : List Char) :
    byteCount (char :: rest.takeWhile isTokenChar) + byteCount (rest.dropWhile isTokenChar) =
      byteCount (char :: rest) := by
  rw [← byteCount_append, List.cons_append, List.takeWhile_append_dropWhile]

/-- Only the last character before a run matters. -/
theorem longest_append_iff (more : List Char) (hne : before ≠ []) :
    Longest (more ++ before) cut after ↔ Longest before cut after := by
  have hlast : (more ++ before).getLast? = before.getLast? := by
    rw [List.getLast?_append, List.getLast?_eq_some_getLast hne, Option.some_or]
  constructor
  · intro h
    exact { h with before := hlast ▸ h.before }
  · intro h
    exact { h with before := hlast ▸ h.before }

theorem longest_cons_iff (hchar : isTokenChar char = false) :
    Longest (char :: before) cut after ↔ Longest before cut after := by
  cases before with
  | nil =>
      constructor
      · intro h
        exact { h with before := nofun }
      · intro h
        refine { h with before := ?_ }
        rintro _ ⟨⟩
        exact hchar
  | cons first before => exact longest_append_iff [char] (List.cons_ne_nil _ _)

theorem Longest.takeWhile_eq (h : Longest before cut after) :
    (cut ++ after).takeWhile isTokenChar = cut := by
  rw [List.takeWhile_append_of_pos h.inside]
  cases after with
  | nil => simp
  | cons char after => simp [h.after char rfl]

/-- Behind a token character a run starts only if there is another character between them. -/
theorem Longest.dropWhile_ne_nil (h : Longest (char :: before) cut after)
    (hchar : isTokenChar char = true) : before.dropWhile isTokenChar ≠ [] := by
  have hcons := List.cons_ne_nil char before
  have hlast := h.before _ (List.getLast?_eq_some_getLast hcons)
  rcases List.mem_cons.1 (List.getLast_mem hcons) with heq | hm
  · rw [heq, hchar] at hlast
    cases hlast
  · exact List.ne_nil_of_mem (Sequences.mem_dropWhile_of_not hm hlast)

theorem not_isTokenChar_of_head?_dropWhile
    (h : (chars.dropWhile isTokenChar).head? = some char) : isTokenChar char = false := by
  have hhead := List.head?_dropWhile_not isTokenChar chars
  rwa [h] at hhead

theorem exists_longest_of_mem_ofChars (h : run ∈ ofChars offset chars) :
    ∃ before after, chars = before ++ run.chars ++ after ∧
      run.offset = offset + byteCount before ∧ Longest before run.chars after := by
  fun_induction ofChars offset chars with
  | case1 => cases h
  | case2 offset char rest hchar chars ih =>
      have hsplit : chars ++ rest.dropWhile isTokenChar = char :: rest := by
        rw [List.cons_append, List.takeWhile_append_dropWhile]
      rcases List.mem_cons.1 h with rfl | h
      · refine ⟨[], rest.dropWhile isTokenChar, hsplit.symm, rfl, ?_⟩
        constructor
        case ne_nil => exact List.cons_ne_nil char _
        case inside => exact List.forall_mem_cons.2 ⟨hchar, fun _ => List.mem_takeWhile_imp⟩
        case before => exact nofun
        case after => exact fun _ => not_isTokenChar_of_head?_dropWhile
      · obtain ⟨before, after, hrest, hoffset, hlongest⟩ := ih h
        -- Right behind the first run no other one starts.
        have hne : before ≠ [] := by
          rintro rfl
          obtain ⟨first, others, hcut⟩ := List.exists_cons_of_ne_nil hlongest.ne_nil
          have hhead : (rest.dropWhile isTokenChar).head? = some first := by
            rw [hrest, hcut]
            rfl
          have hfirst := hlongest.inside first (by simp [hcut])
          rw [not_isTokenChar_of_head?_dropWhile hhead] at hfirst
          cases hfirst
        refine ⟨chars ++ before, after, ?_, ?_, (longest_append_iff chars hne).2 hlongest⟩
        · rw [← hsplit, hrest]
          simp only [List.append_assoc]
        · rw [hoffset, byteCount_append, Nat.add_assoc]
  | case3 offset char rest hchar ih =>
      obtain ⟨before, after, hrest, hoffset, hlongest⟩ := ih h
      rw [Bool.not_eq_true] at hchar
      refine ⟨char :: before, after, ?_, ?_, (longest_cons_iff hchar).2 hlongest⟩
      · rw [hrest]
        rfl
      · rw [hoffset, byteCount, Nat.add_assoc]

theorem mem_ofChars_of_longest (h : ∃ before after, chars = before ++ run.chars ++ after ∧
    run.offset = offset + byteCount before ∧ Longest before run.chars after) :
    run ∈ ofChars offset chars := by
  fun_induction ofChars offset chars with
  | case1 =>
      obtain ⟨before, after, hchars, -, hlongest⟩ := h
      simp [hlongest.ne_nil] at hchars
  | case2 offset char rest hchar chars ih =>
      obtain ⟨before, after, hchars, hoffset, hlongest⟩ := h
      cases before with
      | nil =>
          rw [List.nil_append] at hchars
          have hrun : chars = run.chars := by
            rw [← hlongest.takeWhile_eq, ← hchars, List.takeWhile_cons_of_pos hchar]
          apply List.mem_cons.mpr
          left
          obtain ⟨start, cut⟩ := run
          rw [Run.mk.injEq]
          exact ⟨hoffset, hrun.symm⟩
      | cons first before =>
          simp only [List.cons_append, List.cons.injEq] at hchars
          obtain ⟨rfl, hrest⟩ := hchars
          have hne := hlongest.dropWhile_ne_nil hchar
          have hbefore : char :: before =
              (char :: before.takeWhile isTokenChar) ++ before.dropWhile isTokenChar := by
            rw [List.cons_append, List.takeWhile_append_dropWhile]
          have hdrop : rest.dropWhile isTokenChar =
              before.dropWhile isTokenChar ++ run.chars ++ after := by
            rw [hrest, List.append_assoc, List.dropWhile_append, if_neg (by simpa using hne),
              List.append_assoc]
          have hbytes : byteCount chars + byteCount (rest.dropWhile isTokenChar) =
              byteCount (char :: rest) := byteCount_split char rest
          rw [hdrop, hrest] at hbytes
          simp only [byteCount_append, byteCount] at hbytes hoffset
          rw [hbefore, longest_append_iff _ hne] at hlongest
          exact List.mem_cons_of_mem _ (ih ⟨_, after, hdrop, by omega, hlongest⟩)
  | case3 offset char rest hchar ih =>
      obtain ⟨before, after, hchars, hoffset, hlongest⟩ := h
      rw [Bool.not_eq_true] at hchar
      cases before with
      | nil =>
          exfalso
          obtain ⟨first, others, hcut⟩ := List.exists_cons_of_ne_nil hlongest.ne_nil
          rw [List.nil_append, hcut, List.cons_append, List.cons.injEq] at hchars
          have hfirst := hlongest.inside first (by simp [hcut])
          rw [← hchars.1, hchar] at hfirst
          cases hfirst
      | cons first before =>
          simp only [List.cons_append, List.cons.injEq] at hchars
          obtain ⟨rfl, hrest⟩ := hchars
          rw [byteCount, ← Nat.add_assoc] at hoffset
          exact ih ⟨before, after, hrest, hoffset, (longest_cons_iff hchar).1 hlongest⟩

/-- The runs are the longest ones, each with the number of the bytes before it. -/
theorem mem_ofChars_iff : run ∈ ofChars offset chars ↔
    ∃ before after, chars = before ++ run.chars ++ after ∧
      run.offset = offset + byteCount before ∧ Longest before run.chars after :=
  ⟨exists_longest_of_mem_ofChars, mem_ofChars_of_longest⟩

/-- A run holds a character and lies in its text. -/
theorem of_mem_ofChars (h : run ∈ ofChars offset chars) :
    run.chars ≠ [] ∧ offset ≤ run.offset ∧
      run.offset + byteCount run.chars ≤ offset + byteCount chars := by
  obtain ⟨before, after, rfl, hoffset, hlongest⟩ := mem_ofChars_iff.1 h
  simp only [byteCount_append]
  exact ⟨hlongest.ne_nil, by omega, by omega⟩

/-- Runs follow each other. -/
theorem ofChars_ordered (offset : Nat) (chars : List Char) :
    (ofChars offset chars).Pairwise fun a b => a.offset + byteCount a.chars ≤ b.offset := by
  fun_induction ofChars offset chars with
  | case1 => exact List.Pairwise.nil
  | case2 offset char rest hchar chars ih =>
      apply List.pairwise_cons.2
      refine ⟨?_, ih⟩
      intro run hm
      exact (of_mem_ofChars hm).2.1
  | case3 offset char rest hchar ih => exact ih

theorem length_ofChars_le (offset : Nat) (chars : List Char) :
    (ofChars offset chars).length ≤ byteCount chars := by
  fun_induction ofChars offset chars with
  | case1 => exact Nat.zero_le _
  | case2 offset char rest hchar chars ih =>
      have hsplit : byteCount chars + byteCount (rest.dropWhile isTokenChar) =
          byteCount (char :: rest) := byteCount_split char rest
      have hpos : 0 < byteCount chars := byteCount_pos (List.cons_ne_nil _ _)
      rw [List.length_cons]
      omega
  | case3 offset char rest hchar ih =>
      rw [byteCount]
      omega

end Run

namespace Tokenizer
variable {tokenizer : Tokenizer} {text : String} {token : Token}

theorem length_tokens_le (tokenizer : Tokenizer) (text : String) :
    (tokenizer.tokens text).length ≤ text.utf8ByteSize := by
  rw [tokens, List.length_mapIdx, ← Run.byteCount_toList]
  calc
    ((Run.ofText text).filter tokenizer.keeps).length ≤ (Run.ofText text).length :=
      List.length_filter_le ..
    _ ≤ Run.byteCount text.toList := Run.length_ofChars_le ..

/-- A token is that of a run of the text. -/
theorem getElem?_tokens_eq_some_iff {i : Nat} : (tokenizer.tokens text)[i]? = some token ↔
    ∃ run, ((Run.ofText text).filter tokenizer.keeps)[i]? = some run ∧
      tokenizer.token i run = token := by
  rw [tokens, List.getElem?_mapIdx, Option.map_eq_some_iff]

theorem of_getElem?_keeps {i : Nat} {run : Run}
    (h : ((Run.ofText text).filter tokenizer.keeps)[i]? = some run) : run ∈ Run.ofText text :=
  (List.mem_filter.1 (List.mem_of_getElem? h)).1

/-- The bytes of a token are those of its run. -/
theorem token_bytes (tokenizer : Tokenizer) (h : text.utf8ByteSize < UInt32.size) {run : Run}
    (hrun : run ∈ Run.ofText text) (i : Nat) :
    (tokenizer.token i run).start.toNat = run.offset ∧
      (tokenizer.token i run).stop.toNat + 1 = run.offset + Run.byteCount run.chars := by
  obtain ⟨hne, -, hstop⟩ := Run.of_mem_ofChars hrun
  have hpos := Run.byteCount_pos hne
  rw [Nat.zero_add, Run.byteCount_toList] at hstop
  constructor
  · exact UInt32.toNat_ofNat_of_lt' (by omega)
  · have hlast : (tokenizer.token i run).stop.toNat =
        run.offset + Run.byteCount run.chars - 1 := UInt32.toNat_ofNat_of_lt' (by omega)
    omega

/-- The text is cut into `before`, `cut` and `after`, and `cut` is a longest run of token
characters with a number of characters that the tokenizer permits. -/
structure Permits (tokenizer : Tokenizer) (text before cut after : String) : Prop where
  text_eq : text = before ++ cut ++ after
  longest : Run.Longest before.toList cut.toList after.toList
  minLen_le : tokenizer.minLen ≤ cut.length
  le_maxLen : cut.length ≤ tokenizer.maxLen

/-- The token has the bytes of `cut`, which stands behind `before`, and its text, in lower case
unless the tokenizer is case-sensitive. -/
structure Marks (tokenizer : Tokenizer) (before cut : String) (token : Token) : Prop where
  start_eq : token.start.toNat = before.utf8ByteSize
  stop_eq : token.stop.toNat + 1 = before.utf8ByteSize + cut.utf8ByteSize
  text_eq : token.text = if tokenizer.caseSensitive then cut else Text.lowercase cut

/-- The runs that are kept are those that the tokenizer permits. -/
theorem mem_filter_keeps_iff {run : Run} : run ∈ (Run.ofText text).filter tokenizer.keeps ↔
    ∃ before cut after, tokenizer.Permits text before cut after ∧
      run = ⟨before.utf8ByteSize, cut.toList⟩ := by
  rw [List.mem_filter, Run.ofText, Run.mem_ofChars_iff, keeps, Bool.and_eq_true, decide_eq_true_eq,
    decide_eq_true_eq]
  constructor
  · rintro ⟨⟨before, after, hsplit, hoffset, hlongest⟩, hmin, hmax⟩
    refine ⟨.ofList before, .ofList run.chars, .ofList after, ?_, ?_⟩
    · constructor
      case text_eq =>
          rw [← String.ofList_append, ← String.ofList_append, ← hsplit, String.ofList_toList]
      case longest => simpa only [String.toList_ofList] using hlongest
      case minLen_le => rwa [String.length_ofList]
      case le_maxLen => rwa [String.length_ofList]
    · rw [Run.byteCount_ofList, String.toList_ofList, ← Nat.zero_add (Run.byteCount before),
        ← hoffset]
  · rintro ⟨before, cut, after, hpermits, rfl⟩
    refine ⟨⟨before.toList, after.toList, ?_, ?_, hpermits.longest⟩, ?_, ?_⟩
    · rw [hpermits.text_eq, String.toList_append, String.toList_append]
    · rw [Run.byteCount_toList, Nat.zero_add]
    · rw [String.length_toList]
      exact hpermits.minLen_le
    · rw [String.length_toList]
      exact hpermits.le_maxLen

theorem marks_token (tokenizer : Tokenizer) (h : text.utf8ByteSize < UInt32.size)
    {before cut after : String} (hpermits : tokenizer.Permits text before cut after) (i : Nat) :
    tokenizer.Marks before cut (tokenizer.token i ⟨before.utf8ByteSize, cut.toList⟩) := by
  have hmem := mem_filter_keeps_iff.2 ⟨before, cut, after, hpermits, rfl⟩
  obtain ⟨hstart, hstop⟩ := token_bytes tokenizer h (List.mem_filter.1 hmem).1 i
  rw [Run.byteCount_toList] at hstop
  refine ⟨hstart, hstop, ?_⟩
  rw [Tokenizer.token, String.ofList_toList, normalize]

/-- Each token is that of a run that the tokenizer permits. -/
theorem exists_permits (h : text.utf8ByteSize < UInt32.size)
    (htoken : token ∈ tokenizer.tokens text) :
    ∃ before cut after, tokenizer.Permits text before cut after ∧
      tokenizer.Marks before cut token := by
  obtain ⟨i, hi⟩ := List.mem_iff_getElem?.1 htoken
  obtain ⟨run, hrun, rfl⟩ := getElem?_tokens_eq_some_iff.1 hi
  obtain ⟨before, cut, after, hpermits, rfl⟩ :=
    mem_filter_keeps_iff.1 (List.mem_of_getElem? hrun)
  exact ⟨before, cut, after, hpermits, marks_token tokenizer h hpermits i⟩

/-- Each run that the tokenizer permits has a token. -/
theorem exists_token_of_permits (h : text.utf8ByteSize < UInt32.size) {before cut after : String}
    (hpermits : tokenizer.Permits text before cut after) :
    ∃ (i : Nat) (token : Token), (tokenizer.tokens text)[i]? = some token ∧
      tokenizer.Marks before cut token := by
  have hmem := mem_filter_keeps_iff.2 ⟨before, cut, after, hpermits, rfl⟩
  obtain ⟨i, hi⟩ := List.mem_iff_getElem?.1 hmem
  exact ⟨i, _, getElem?_tokens_eq_some_iff.2 ⟨_, hi, rfl⟩, marks_token tokenizer h hpermits i⟩

/-- Positions number the tokens. -/
theorem toNat_position (h : text.utf8ByteSize < UInt32.size) {i : Nat}
    (htoken : (tokenizer.tokens text)[i]? = some token) : token.position.toNat = i := by
  have hlt := (List.getElem?_eq_some_iff.1 htoken).1
  have hle := length_tokens_le tokenizer text
  obtain ⟨run, -, rfl⟩ := getElem?_tokens_eq_some_iff.1 htoken
  exact UInt32.toNat_ofNat_of_lt' (by omega)

theorem start_le_stop (h : text.utf8ByteSize < UInt32.size)
    (htoken : token ∈ tokenizer.tokens text) : token.start ≤ token.stop := by
  obtain ⟨i, hi⟩ := List.mem_iff_getElem?.1 htoken
  obtain ⟨run, hrun, rfl⟩ := getElem?_tokens_eq_some_iff.1 hi
  have hmem := of_getElem?_keeps hrun
  obtain ⟨hstart, hstop⟩ := token_bytes tokenizer h hmem i
  have hpos := Run.byteCount_pos (Run.of_mem_ofChars hmem).1
  rw [UInt32.le_iff_toNat_le]
  omega

/-- Each token is behind the tokens before it. -/
theorem tokens_ordered (tokenizer : Tokenizer) (h : text.utf8ByteSize < UInt32.size) :
    (tokenizer.tokens text).Pairwise fun a b => a.stop < b.start ∧ a.position < b.position := by
  rw [List.pairwise_iff_getElem]
  intro i j hi hj hij
  have hti := List.getElem?_eq_getElem hi
  have htj := List.getElem?_eq_getElem hj
  have hpi := toNat_position h hti
  have hpj := toNat_position h htj
  obtain ⟨a, ha, hai⟩ := getElem?_tokens_eq_some_iff.1 hti
  obtain ⟨b, hb, hbj⟩ := getElem?_tokens_eq_some_iff.1 htj
  obtain ⟨hlt, rfl⟩ := List.getElem?_eq_some_iff.1 ha
  obtain ⟨hlt', rfl⟩ := List.getElem?_eq_some_iff.1 hb
  have hordered : (Run.ofText text).Pairwise fun a b =>
      a.offset + Run.byteCount a.chars ≤ b.offset := Run.ofChars_ordered 0 text.toList
  have hruns := List.pairwise_iff_getElem.1 (hordered.filter tokenizer.keeps) i j hlt hlt' hij
  have hstop := (token_bytes tokenizer h (of_getElem?_keeps ha) i).2
  have hstart := (token_bytes tokenizer h (of_getElem?_keeps hb) j).1
  rw [hai] at hstop
  rw [hbj] at hstart
  rw [UInt32.lt_iff_toNat_lt, UInt32.lt_iff_toNat_lt]
  exact ⟨by omega, by omega⟩

end Tokenizer

end Concordance
