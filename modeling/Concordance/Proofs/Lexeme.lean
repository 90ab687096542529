import Concordance.Json.Lexeme
import Mathlib.Data.List.Chain

/-!
# The lexemes of a JSON text

A JSON text is made of lexemes with blanks before, between and behind them. How each lexeme may be
written is told here first, for strings with all escapes. What is scanned of a text written so is
the lexemes it was made of: a string ends at the first quote that is not escaped, and the digits
of a number end where it does, as long as no two numbers stand side by side.
-/

namespace Concordance.Json

/-- The character may stand in a string as it is. -/
def isPlain (char : Char) : Bool := 0x20 ≤ char.toNat && char ≠ '"' && char ≠ '\\'

/-- The ways to write a character of a string: as it is, as a letter behind a backslash, as its code
unit, or as the two code units of its surrogate pair. -/
inductive WritesChar (char : Char) : List Char → Prop
  | plain (hplain : isPlain char = true) : WritesChar char [char]
  | letter {letter : Char} (hletter : Lexeme.escaped? letter = some char) :
      WritesChar char ['\\', letter]
  | code {a b c d : Char} (hcode : Lexeme.codeUnit? a b c d = some char.toNat) :
      WritesChar char ['\\', 'u', a, b, c, d]
  | pair {a b c d e f g h : Char} {high low : Nat}
      (hhigh : Lexeme.codeUnit? a b c d = some high) (hlow : Lexeme.codeUnit? e f g h = some low)
      (hfirst : Lexeme.isHighSurrogate high = true) (hsecond : Lexeme.isLowSurrogate low = true)
      (hchar : Char.ofNat (0x10000 + (high - 0xd800) * 0x400 + (low - 0xdc00)) = char) :
      WritesChar char ['\\', 'u', a, b, c, d, '\\', 'u', e, f, g, h]

/-- The ways to write the content of a string between its quotes. -/
inductive WritesText : List Char → List Char → Prop
  | nil : WritesText [] []
  | cons {char : Char} {content text rest : List Char} (hchar : WritesChar char text)
      (hrest : WritesText content rest) : WritesText (char :: content) (text ++ rest)

namespace Lexeme

/-- The text of a lexeme that is always written alike. -/
def sign? : Lexeme → Option String
  | leftBrace => some "\x7b"
  | rightBrace => some "\x7d"
  | leftBracket => some "["
  | rightBracket => some "]"
  | colon => some ":"
  | comma => some ","
  | null => some "null"
  | bool true => some "true"
  | bool false => some "false"
  | natural _ => none
  | otherNumber => none
  | text _ => none

/-- The ways to write a lexeme, numbers with a sign, a fraction or an exponent left out. -/
inductive Writes : Lexeme → List Char → Prop
  | sign {lexeme : Lexeme} {text : String} (hsign : lexeme.sign? = some text) :
      Writes lexeme text.toList
  | natural (value : Nat) : Writes (.natural value) (Nat.toDigits 10 value)
  | text {content written : List Char} (hcontent : WritesText content written) :
      Writes (.text (some (String.ofList content))) ('"' :: (written ++ ['"']))

/-- The ways to write lexemes one behind the other, with blanks anywhere. -/
inductive WritesAll : List Lexeme → List Char → Prop
  | nil : WritesAll [] []
  | blank {lexemes : List Lexeme} {char : Char} {rest : List Char} (hblank : isBlank char = true)
      (hrest : WritesAll lexemes rest) : WritesAll lexemes (char :: rest)
  | cons {lexeme : Lexeme} {lexemes : List Lexeme} {text rest : List Char}
      (hlexeme : lexeme.Writes text) (hrest : WritesAll lexemes rest) :
      WritesAll (lexeme :: lexemes) (text ++ rest)

def isNatural : Lexeme → Bool
  | natural _ => true
  | _ => false

/-- No two numbers stand side by side. -/
def Apart (lexemes : List Lexeme) : Prop :=
  lexemes.IsChain fun first second => first.isNatural = true → second.isNatural = false

/-- A number goes on with the character. -/
def prolongs (char : Char) : Bool := char.isDigit || char = '.' || char = 'e' || char = 'E'

/-- No number goes on with the characters. -/
def EndsNumber (rest : List Char) : Prop := ∀ char, rest.head? = some char → prolongs char = false

/-! What is scanned of a string. -/
section
variable {char : Char} {content written : List Char}

theorem not_surrogate (char : Char) :
    isHighSurrogate char.toNat = false ∧ isLowSurrogate char.toNat = false := by
  have hvalid : char.toNat < 0xd800 ∨ 0xdfff < char.toNat ∧ char.toNat < 0x110000 := char.valid
  simp only [isHighSurrogate, isLowSurrogate, Bool.and_eq_false_iff, decide_eq_false_iff_not]
  omega

/-- The code unit of a character stands for it, whatever comes behind. -/
theorem joinUnits_code (char : Char) (units : List TextUnit) :
    joinUnits (.code char.toNat :: units) = (joinUnits units).map (char :: ·) := by
  obtain ⟨hhigh, hlow⟩ := not_surrogate char
  cases units with
  | nil => simp [joinUnits, hhigh, hlow]
  | cons unit units => cases unit <;> simp [joinUnits, hhigh, hlow]

/-- However a character is written, it is scanned and joined to what comes behind. -/
theorem exists_units_char (h : WritesChar char written) :
    ∃ first : List TextUnit,
      (∀ units, joinUnits (first ++ units) = (joinUnits units).map (char :: ·)) ∧
      ∀ rest units after, scanText rest = some (units, after) →
        scanText (written ++ rest) = some (first ++ units, after) := by
  cases h with
  | plain hplain =>
      simp only [isPlain, Bool.and_eq_true, decide_eq_true_eq] at hplain
      obtain ⟨⟨hprinted, hquote⟩, hbackslash⟩ := hplain
      refine ⟨[.char char], fun _ => rfl, ?_⟩
      intro rest units after hrest
      rw [List.singleton_append, scanText]
      · rw [if_neg (by simp [hbackslash]; omega), hrest]
        rfl
      · exact hquote
      all_goals
        intros
        contradiction
  | @letter letter hletter =>
      refine ⟨[.char char], fun _ => rfl, ?_⟩
      intro rest units after hrest
      change scanText ('\\' :: letter :: rest) = _
      rw [scanText]
      · rw [hletter, hrest]
        rfl
      · rintro a b c d others rfl
        cases hletter
  | code hcode =>
      refine ⟨[.code char.toNat], joinUnits_code char, ?_⟩
      intro rest units after hrest
      simp [scanText, hcode, hrest]
  | @pair a b c d e f g h high low hhigh hlow hfirst hsecond hchar =>
      refine ⟨[.code high, .code low], ?_, ?_⟩
      · intro units
        simp [joinUnits, hfirst, hsecond, hchar]
      · intro rest units after hrest
        simp [scanText, hhigh, hlow, hrest]

theorem exists_units (h : WritesText content written) :
    ∃ units, joinUnits units = some content ∧
      ∀ rest, scanText (written ++ '"' :: rest) = some (units, rest) := by
  induction h with
  | nil => exact ⟨[], rfl, fun rest => rfl⟩
  | cons hchar _ ih =>
      obtain ⟨units, hjoin, hscan⟩ := ih
      obtain ⟨head, hjoins, hscans⟩ := exists_units_char hchar
      refine ⟨head ++ units, ?_, ?_⟩
      · rw [hjoins, hjoin]
        rfl
      · intro rest
        rw [List.append_assoc]
        exact hscans _ _ _ (hscan rest)

end

/-! What is scanned of a number. -/
section
variable {rest : List Char}

theorem exists_toDigits_eq_cons (value : Nat) :
    ∃ first digits, Nat.toDigits 10 value = first :: digits ∧ first.isDigit = true := by
  obtain ⟨first, digits, heq⟩ := List.exists_cons_of_ne_nil (@Nat.toDigits_ne_nil value 10)
  have hm : first ∈ Nat.toDigits 10 value := heq ▸ List.mem_cons_self
  exact ⟨first, digits, heq, Nat.isDigit_of_mem_toDigits (by decide) (by decide) hm⟩

theorem head?_toDigits_ne_zero {value : Nat} (h : value ≠ 0) :
    (Nat.toDigits 10 value).head? ≠ some '0' := by
  induction value using Nat.strongRecOn with
  | ind value ih =>
      rcases Nat.lt_or_ge value 10 with hlt | hle
      · rw [Nat.toDigits_of_lt_base hlt]
        have hdigit : ∀ digit < 10, digit ≠ 0 → [digit.digitChar].head? ≠ some '0' := by decide
        exact hdigit value hlt h
      · rw [Nat.toDigits_of_base_le (by decide) hle,
          List.head?_append_of_ne_nil _ Nat.toDigits_ne_nil]
        exact ih (value / 10) (by omega) (by omega)

theorem scanDigits_append {digits : List Char} (hdigits : ∀ char ∈ digits, char.isDigit = true)
    (hends : EndsNumber rest) :
    scanDigits (digits ++ rest) = (digits, rest) := by
  have hstop : rest.takeWhile Char.isDigit = [] ∧ rest.dropWhile Char.isDigit = rest := by
    cases rest with
    | nil => exact ⟨rfl, rfl⟩
    | cons char rest =>
        have hchar : char.isDigit = false := by
          have hends := hends char rfl
          simp only [prolongs, Bool.or_eq_false_iff] at hends
          exact hends.1.1.1
        have hchar : ¬ char.isDigit = true := by rw [hchar]; exact Bool.false_ne_true
        exact ⟨List.takeWhile_cons_of_neg hchar, List.dropWhile_cons_of_neg hchar⟩
  rw [scanDigits, List.takeWhile_append_of_pos hdigits, List.dropWhile_append_of_pos hdigits,
    hstop.1, hstop.2, List.append_nil]

theorem scanWhole_toDigits (value : Nat) (hends : EndsNumber rest) :
    scanWhole (Nat.toDigits 10 value ++ rest) = some (Nat.toDigits 10 value, rest) := by
  rcases Nat.eq_zero_or_pos value with rfl | hpos
  · rfl
  · have hhead := head?_toDigits_ne_zero hpos.ne'
    have hdigits : ∀ char ∈ Nat.toDigits 10 value, char.isDigit = true :=
      fun char => Nat.isDigit_of_mem_toDigits (by decide) (by decide)
    have hscan := scanDigits_append hdigits hends
    obtain ⟨first, digits, heq, hdigit⟩ := exists_toDigits_eq_cons value
    rw [heq] at hhead hscan ⊢
    rw [List.cons_append] at hscan ⊢
    rw [scanWhole, if_pos hdigit, hscan]
    exact fun hzero => hhead (congrArg some hzero)

theorem scanNumber_toDigits (value : Nat) (hends : EndsNumber rest) :
    scanNumber false (Nat.toDigits 10 value ++ rest) = some (.natural value, rest) := by
  have hfraction : scanFraction rest = some (false, rest) := by
    rw [scanFraction]
    rintro after rfl
    exact absurd (hends '.' rfl) (by decide)
  have hexponent : scanExponent rest = some (false, rest) := by
    cases rest with
    | nil => rfl
    | cons char rest =>
        rw [scanExponent.eq_def]
        dsimp only
        rw [if_neg]
        rintro (rfl | rfl)
        · exact absurd (hends 'e' rfl) (by decide)
        · exact absurd (hends 'E' rfl) (by decide)
  rw [scanNumber, scanWhole_toDigits value hends, Option.bind_eq_bind, Option.bind_some]
  simp only [hfraction, hexponent, Option.bind_eq_bind, Option.bind_some,
    Nat.ofDigitChars_ten_toDigits]
  rfl

theorem scan_of_isDigit {char : Char} (h : char.isDigit = true) (rest : List Char) :
    scan (char :: rest) = scanNumber false (char :: rest) := by
  rw [scan]
  case x_1 => exact List.cons_ne_nil char rest
  all_goals
    rintro after ⟨⟩
    exact absurd h (by decide)

end

/-! What is scanned of a text. -/
section
variable {lexeme : Lexeme} {lexemes : List Lexeme} {text rest : List Char}

theorem exists_first (h : lexeme.Writes text) :
    ∃ first others, text = first :: others ∧ isBlank first = false ∧
      (lexeme.isNatural = false → prolongs first = false) := by
  cases h with
  | sign hsign =>
      cases lexeme with
      | bool value =>
          cases value
          all_goals
            cases hsign
            exact ⟨_, _, rfl, by decide, fun _ => by decide⟩
      | natural _ | otherNumber | text _ => cases hsign
      | _ =>
          cases hsign
          exact ⟨_, _, rfl, by decide, fun _ => by decide⟩
  | natural value =>
      obtain ⟨first, digits, heq, hdigit⟩ := exists_toDigits_eq_cons value
      refine ⟨first, digits, heq, ?_, fun h => Bool.noConfusion h⟩
      simp only [isBlank, Bool.or_eq_false_iff, decide_eq_false_iff_not]
      refine ⟨⟨⟨?_, ?_⟩, ?_⟩, ?_⟩
      all_goals
        rintro rfl
        exact absurd hdigit (by decide)
  | text _ => exact ⟨_, _, rfl, by decide, fun _ => by decide⟩

theorem scan_of_writes (h : lexeme.Writes text)
    (hends : lexeme.isNatural = true → EndsNumber rest) :
    scan (text ++ rest) = some (lexeme, rest) := by
  cases h with
  | sign hsign =>
      cases lexeme with
      | bool value =>
          cases value
          all_goals
            cases hsign
            rfl
      | natural _ | otherNumber | text _ => cases hsign
      | _ =>
          cases hsign
          rfl
  | natural value =>
      obtain ⟨first, digits, heq, hdigit⟩ := exists_toDigits_eq_cons value
      have hscan := scanNumber_toDigits value (hends rfl)
      rw [heq, List.cons_append] at hscan ⊢
      rw [scan_of_isDigit hdigit, hscan]
  | text hcontent =>
      obtain ⟨units, hjoin, hscan⟩ := exists_units hcontent
      rw [List.cons_append, List.append_assoc, List.singleton_append, scan, hscan]
      simp only [hjoin, Option.map_some]

/-- Where no number comes first, a number before has ended. -/
theorem WritesAll.endsNumber (h : WritesAll lexemes text)
    (hfirst : ∀ lexeme, lexemes.head? = some lexeme → lexeme.isNatural = false) :
    EndsNumber text := by
  cases h with
  | nil => rintro char ⟨⟩
  | @blank _ char rest hblank hrest =>
      rintro _ ⟨⟩
      simp only [isBlank, Bool.or_eq_true, decide_eq_true_eq] at hblank
      rcases hblank with ((rfl | rfl) | rfl) | rfl
      all_goals decide
  | cons hlexeme hrest =>
      obtain ⟨first, others, rfl, -, hprolongs⟩ := exists_first hlexeme
      rintro _ ⟨⟩
      exact hprolongs (hfirst _ rfl)

theorem scanAll_of_writesAll (h : WritesAll lexemes text) (hapart : Apart lexemes) {limit : Nat}
    (hlimit : text.length ≤ limit) : scanAll limit text = some lexemes := by
  induction h generalizing limit with
  | nil => rw [scanAll]
  | @blank lexemes char rest hblank hrest ih =>
      obtain ⟨limit, rfl⟩ := Nat.exists_eq_add_of_le' (Nat.le_of_add_left_le hlimit)
      rw [scanAll, if_pos hblank]
      exact ih hapart (Nat.le_of_add_le_add_right hlimit)
  | @cons lexeme lexemes text rest hlexeme hrest ih =>
      obtain ⟨hnext, hapart⟩ := List.isChain_cons.1 hapart
      have hscan : scan (text ++ rest) = some (lexeme, rest) :=
        scan_of_writes hlexeme fun hnatural =>
          hrest.endsNumber fun next hhead => hnext next hhead hnatural
      obtain ⟨first, others, rfl, hblank, -⟩ := exists_first hlexeme
      rw [List.cons_append] at hscan hlimit ⊢
      obtain ⟨limit, rfl⟩ := Nat.exists_eq_add_of_le' (Nat.le_of_add_left_le hlimit)
      have hlimit : rest.length ≤ limit := by
        simp only [List.length_cons, List.length_append] at hlimit
        omega
      rw [scanAll, if_neg (Bool.not_eq_true _ ▸ hblank)]
      simp only [hscan, ih hapart hlimit, Option.map_some]

/-- The lexemes of a text are those that it was written with. -/
theorem ofText?_of_writesAll {text : String} (h : WritesAll lexemes text.toList)
    (hapart : Apart lexemes) : ofText? text = some lexemes :=
  scanAll_of_writesAll h hapart (Nat.le_of_eq String.length_toList)

end

/-- A lexeme that is no number keeps numbers apart. -/
theorem Apart.append_cons {first rest : List Lexeme} {mark : Lexeme} (h : Apart first)
    (hmark : mark.isNatural = false) (hrest : Apart rest) : Apart (first ++ mark :: rest) := by
  refine List.isChain_append.2 ⟨h, List.isChain_cons.2 ⟨?_, hrest⟩, ?_⟩
  · intro next _ hnatural
    rw [hmark] at hnatural
    cases hnatural
  · rintro last _ next ⟨⟩ _
    exact hmark

/-! Texts put together. -/
section
variable {lexemes more : List Lexeme} {text rest : List Char}

theorem writesText_of_plain {content : List Char} (h : content.all isPlain = true) :
    WritesText content content := by
  induction content with
  | nil => exact .nil
  | cons char content ih =>
      rw [List.all_cons, Bool.and_eq_true] at h
      exact .cons (.plain h.1) (ih h.2)

theorem Writes.writesAll {lexeme : Lexeme} (h : lexeme.Writes text) : WritesAll [lexeme] text := by
  have hall := WritesAll.cons h .nil
  rwa [List.append_nil] at hall

theorem writesAll_nil_of_blank (h : ∀ char ∈ text, isBlank char = true) : WritesAll [] text := by
  induction text with
  | nil => exact .nil
  | cons char text ih =>
      obtain ⟨hblank, hrest⟩ := List.forall_mem_cons.1 h
      exact .blank hblank (ih hrest)

theorem WritesAll.append (h : WritesAll lexemes text) (hrest : WritesAll more rest) :
    WritesAll (lexemes ++ more) (text ++ rest) := by
  induction h with
  | nil => exact hrest
  | blank hblank _ ih => exact .blank hblank ih
  | cons hlexeme _ ih =>
      rw [List.append_assoc]
      exact .cons hlexeme ih

theorem WritesAll.intercalate {parts : List (List Lexeme)} {texts : List (List Char)}
    (hsep : WritesAll lexemes text) (h : List.Forall₂ WritesAll parts texts) :
    WritesAll (lexemes.intercalate parts) (text.intercalate texts) := by
  induction h with
  | nil => exact .nil
  | @cons part text' parts texts hpart hrest ih =>
      cases hrest with
      | nil =>
          rw [List.intercalate_singleton, List.intercalate_singleton]
          exact hpart
      | cons =>
          rw [List.intercalate_cons_cons, List.intercalate_cons_cons]
          exact (hpart.append hsep).append ih

end

end Lexeme

end Concordance.Json
