import Concordance.Proofs.Token

/-!
# Tokens are the permitted runs

The tokens of a text and its longest runs of token characters with a permitted number of
characters are the same, one token for each run: every token is cut out of the text where
such a run stands, every such run is found at exactly one number, and the numbers go up
with the bytes. A run that is not permitted leaves no gap in the positions. The runs
themselves are found in one pass over the characters, with at most one run open.
-/

namespace Concordance

namespace Run

/-- The runs from `offset` bytes on in one pass, where a run of the characters right before may
still be open. -/
def scan (offset : Nat) : (opened : Option Run) → List Char → List Run
  | none, [] => []
  | some run, [] => [run]
  | none, char :: rest =>
    if isTokenChar char then scan (offset + char.utf8Size) (some ⟨offset, [char]⟩) rest
    else scan (offset + char.utf8Size) none rest
  | some run, char :: rest =>
    if isTokenChar char then
      scan (offset + char.utf8Size) (some { run with chars := run.chars ++ [char] }) rest
    else run :: scan (offset + char.utf8Size) none rest

/-- An open run takes in the token characters that follow, and the runs behind them are as if no
run had been open. -/
theorem scan_eq (offset : Nat) (chars : List Char) :
    scan offset none chars = ofChars offset chars ∧
      ∀ run, scan offset (some run) chars =
        { run with chars := run.chars ++ chars.takeWhile isTokenChar } ::
          ofChars (offset + byteCount (chars.takeWhile isTokenChar))
            (chars.dropWhile isTokenChar) := by
  induction chars generalizing offset with
  | nil => simp [scan, ofChars]
  | cons char rest ih =>
      obtain ⟨hnone, hsome⟩ := ih (offset + char.utf8Size)
      by_cases hchar : isTokenChar char = true
      · constructor
        · rw [scan, if_pos hchar, hsome, ofChars, if_pos hchar]
          simp only [byteCount, Nat.add_assoc, List.singleton_append]
        · intro run
          rw [scan, if_pos hchar, hsome, List.takeWhile_cons_of_pos hchar,
            List.dropWhile_cons_of_pos hchar, byteCount, ← Nat.add_assoc, List.append_assoc]
          rfl
      · constructor
        · rw [scan, if_neg hchar, hnone, ofChars, if_neg hchar]
        · intro run
          rw [scan, if_neg hchar, hnone, List.takeWhile_cons_of_neg hchar,
            List.dropWhile_cons_of_neg hchar, ofChars, if_neg hchar, List.append_nil]
          rfl

/-- The runs of a text are found in one pass. -/
theorem ofText_eq_scan (text : String) : ofText text = scan 0 none text.toList :=
  (scan_eq 0 text.toList).1.symm

end Run

namespace Tokenizer
variable {tokenizer : Tokenizer} {text before cut after : String} {token : Token}

/-- The bytes of a token are those of its run. -/
theorem Marks.extract_eq (hmarks : tokenizer.Marks before cut token)
    (htext : text = before ++ cut ++ after) :
    text.toUTF8.extract token.start.toNat (token.stop.toNat + 1) = cut.toUTF8 := by
  rw [hmarks.start_eq, hmarks.stop_eq, htext]
  simp only [String.toUTF8_eq_toByteArray, String.toByteArray_append]
  rw [ByteArray.extract_append, ByteArray.extract_append_eq_right String.size_toByteArray.symm
    (by simp only [String.size_toByteArray])]
  simp

/-- No two tokens start at the same byte. -/
theorem index_eq_of_start_eq (h : text.utf8ByteSize < UInt32.size) {i j : Nat} {a b : Token}
    (hi : (tokenizer.tokens text)[i]? = some a) (hj : (tokenizer.tokens text)[j]? = some b)
    (hstart : a.start = b.start) : i = j := by
  obtain ⟨hlt, rfl⟩ := List.getElem?_eq_some_iff.1 hi
  obtain ⟨hlt', rfl⟩ := List.getElem?_eq_some_iff.1 hj
  have hordered := List.pairwise_iff_getElem.1 (tokens_ordered tokenizer h)
  have hstop {k : Nat} (hk : k < (tokenizer.tokens text).length) :=
    UInt32.le_iff_toNat_le.1 (start_le_stop h (List.getElem_mem hk))
  have hi := hstop hlt
  have hj := hstop hlt'
  rw [← UInt32.toNat_inj] at hstart
  rcases Nat.lt_trichotomy i j with hij | hij | hij
  · have := UInt32.lt_iff_toNat_lt.1 (hordered i j hlt hlt' hij).1
    omega
  · exact hij
  · have := UInt32.lt_iff_toNat_lt.1 (hordered j i hlt' hlt hij).1
    omega

/-- In a text whose bytes can be numbered with 32 bits, each token has its number as position and
marks a permitted run, whose bytes are cut out of the text; each permitted run is marked by
exactly one token; and each token ends before the next one starts. -/
theorem tokens_exact (h : text.utf8ByteSize < UInt32.size) :
    (∀ (i : Nat) (token : Token), (tokenizer.tokens text)[i]? = some token →
      token.position.toNat = i ∧ ∃ before cut after, tokenizer.Permits text before cut after ∧
        tokenizer.Marks before cut token ∧
        text.toUTF8.extract token.start.toNat (token.stop.toNat + 1) = cut.toUTF8) ∧
    (∀ before cut after, tokenizer.Permits text before cut after →
      ∃! i : Nat, ∃ token, (tokenizer.tokens text)[i]? = some token ∧
        tokenizer.Marks before cut token) ∧
    (tokenizer.tokens text).Pairwise fun a b => a.stop < b.start := by
  refine ⟨?_, ?_, (tokens_ordered tokenizer h).imp And.left⟩
  · intro i token htoken
    obtain ⟨before, cut, after, hpermits, hmarks⟩ :=
      exists_permits h (List.mem_of_getElem? htoken)
    exact ⟨toNat_position h htoken, before, cut, after, hpermits, hmarks,
      hmarks.extract_eq hpermits.text_eq⟩
  · intro before cut after hpermits
    obtain ⟨i, token, htoken, hmarks⟩ := exists_token_of_permits h hpermits
    refine ⟨i, ⟨token, htoken, hmarks⟩, ?_⟩
    rintro j ⟨other, hother, hothers⟩
    apply index_eq_of_start_eq h hother htoken
    rw [← UInt32.toNat_inj, hothers.start_eq, hmarks.start_eq]

/-- A run of wide characters at the end of the text, behind one that is too short. -/
theorem tokens_exact_wide :
    "Éa_ x Öl9".utf8ByteSize < UInt32.size ∧
    (⟨false, 2, 3⟩ : Tokenizer).Permits "Éa_ x Öl9" "Éa_ x " "Öl9" "" ∧
    ∃! i : Nat, ∃ token, ((⟨false, 2, 3⟩ : Tokenizer).tokens "Éa_ x Öl9")[i]? = some token ∧
      (⟨false, 2, 3⟩ : Tokenizer).Marks "Éa_ x " "Öl9" token := by
  have hsize : "Éa_ x Öl9".utf8ByteSize < UInt32.size := by decide +kernel
  have hpermits : (⟨false, 2, 3⟩ : Tokenizer).Permits "Éa_ x Öl9" "Éa_ x " "Öl9" "" := by
    constructor
    case text_eq => decide +kernel
    case longest =>
        constructor
        case ne_nil => decide +kernel
        case inside =>
            have hall : "Öl9".toList.all Run.isTokenChar = true := by decide +kernel
            exact List.all_eq_true.1 hall
        case before =>
            intro char hchar
            rw [show "Éa_ x ".toList.getLast? = some ' ' by decide +kernel,
              Option.some.injEq] at hchar
            rw [← hchar]
            decide +kernel
        case after => exact nofun
    case minLen_le => decide +kernel
    case le_maxLen => decide +kernel
  exact ⟨hsize, hpermits, (tokens_exact hsize).2.1 _ _ _ hpermits⟩

end Tokenizer

end Concordance
