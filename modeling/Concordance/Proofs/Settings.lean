import Concordance.Config.File
import Concordance.Proofs.Lexeme

/-!
# Files of settings

Settings are written to a file and read from it again. A file may also be written by hand: the
members of the object stand in any order, with any blanks and escapes, and a setting that has its
default may be left out. What is read of such a file are the settings that it was written for.
-/

namespace Concordance

open Json (Lexeme passValue Value)
open Json.Lexeme (Apart WritesAll Writes)

namespace Setting
variable {config first second : Config} {setting : Setting}

/-- The lexeme of the value of a setting. -/
def lexeme (config : Config) : Setting → Lexeme
  | skipSpan => .natural config.skipSpan.toNat
  | defaultResults => .natural config.defaultResults.toNat
  | cacheSize => .natural config.cacheSize.toNat
  | minTokenLen => .natural config.minTokenLen.toNat
  | maxTokenLen => .natural config.maxTokenLen.toNat
  | caseSensitive => .bool config.caseSensitive

/-- The lexemes of a member of an object. -/
def member (config : Config) (setting : Setting) : List Lexeme :=
  [.text (some setting.key), .colon, setting.lexeme config]

theorem mem_all (setting : Setting) : setting ∈ all := by
  cases setting <;> decide

theorem ofKey?_key (setting : Setting) : ofKey? setting.key = some setting := by
  cases setting <;> rfl

theorem plain_key (setting : Setting) : setting.key.toList.all Json.isPlain = true := by
  cases setting <;> rfl

/-- The settings are known from the lexemes of their values. -/
theorem config_eq_of_lexeme_eq
    (h : ∀ setting : Setting, setting.lexeme first = setting.lexeme second) : first = second := by
  have hword {one other : UInt64} (heq : Lexeme.natural one.toNat = .natural other.toNat) :
      one = other :=
    UInt64.toNat_inj.1 (Lexeme.natural.inj heq)
  cases first
  cases second
  cases hword (h skipSpan)
  cases hword (h defaultResults)
  cases hword (h cacheSize)
  cases hword (h minTokenLen)
  cases hword (h maxTokenLen)
  cases Lexeme.bool.inj (h caseSensitive)
  rfl

/-- A natural number of 64 bits is read in full. -/
theorem word?_natural (word : UInt64) : word? (.natural word.toNat) = some word := by
  rw [word?, if_pos word.toNat_lt]
  exact congrArg some (UInt64.ofNat_toNat ..)

/-- The lexeme of a setting sets it, and no other. -/
theorem exists_assign? (config read : Config) (setting : Setting) :
    ∃ next, setting.assign? read (setting.lexeme config) = some next ∧
      setting.lexeme next = setting.lexeme config ∧
      ∀ other, other ≠ setting → other.lexeme next = other.lexeme read := by
  cases setting with
  | caseSensitive =>
      refine ⟨_, rfl, rfl, ?_⟩
      intro other hother
      cases other
      all_goals first | rfl | exact absurd rfl hother
  | _ =>
      simp only [lexeme, assign?, word?_natural, Option.map_some]
      refine ⟨_, rfl, rfl, ?_⟩
      intro other hother
      cases other
      all_goals first | rfl | exact absurd rfl hother

theorem apart_member (config : Config) (setting : Setting) : Apart (setting.member config) := by
  cases setting <;> simp [Apart, member, Lexeme.isNatural]

theorem passValue_lexeme (config : Config) (setting : Setting) (rest : List Lexeme) :
    passValue (setting.lexeme config :: rest) = some rest := by
  cases setting <;> rfl

end Setting

namespace Config
variable {config read next : Config} {setting : Setting} {settings left : List Setting}

/-- The lexemes of an object with these settings, in this order. -/
def lexemes (config : Config) (settings : List Setting) : List Lexeme :=
  .leftBrace :: ([Lexeme.comma].intercalate (settings.map (·.member config)) ++ [.rightBrace])

/-- The text is an object with these settings, and those left out have their defaults. -/
structure Lists (config : Config) (settings : List Setting) (text : String) : Prop where
  nodup : settings.Nodup
  omitted : ∀ setting, setting ∉ settings → setting.lexeme config = setting.lexeme .default
  written : WritesAll (config.lexemes settings) text.toList

/-! Members are read one by one. -/

theorem readMember_of_mem (hm : setting ∈ left)
    (hassign : setting.assign? read (setting.lexeme config) = some next) (rest : List Lexeme) :
    readMember left read setting.key (setting.lexeme config :: rest) =
      some (left.erase setting, next) := by
  simp only [readMember, Setting.ofKey?_key, if_pos hm, hassign, Option.map_some]

/-- Behind a member the object goes on or ends. -/
theorem readMembers_member (hm : setting ∈ left)
    (hassign : setting.assign? read (setting.lexeme config) = some next) (mark : Lexeme)
    (rest : List Lexeme) :
    readMembers left read (setting.member config ++ mark :: rest) =
      if mark = .comma then readMembers (left.erase setting) next rest
      else if mark = .rightBrace then some (next, rest)
      else none := by
  have hpassed := setting.passValue_lexeme config (mark :: rest)
  change readMembers left read
    (.text (some setting.key) :: .colon :: setting.lexeme config :: mark :: rest) = _
  rw [readMembers, readMember_of_mem hm hassign]
  simp only
  split
  · next hpass =>
      cases hpassed.symm.trans hpass
      rfl
  · next hpass =>
      cases hpassed.symm.trans hpass
      rfl
  · next hgoes hends =>
      rw [if_neg, if_neg]
      · rintro rfl
        exact hends rest hpassed
      · rintro rfl
        exact hgoes rest hpassed

/-- The members of settings are read in any order, and where the others have their values already,
all settings are read. -/
theorem readMembers_settings (hne : settings ≠ []) (hnodup : settings.Nodup)
    (hleft : ∀ setting ∈ settings, setting ∈ left)
    (hread : ∀ setting, setting ∉ settings → setting.lexeme read = setting.lexeme config)
    (after : List Lexeme) :
    readMembers left read
        ([Lexeme.comma].intercalate (settings.map (·.member config)) ++ .rightBrace :: after) =
      some (config, after) := by
  induction settings generalizing left read with
  | nil => exact absurd rfl hne
  | cons setting settings ih =>
      obtain ⟨hm, hleft⟩ := List.forall_mem_cons.1 hleft
      obtain ⟨hnotin, hnodup⟩ := List.nodup_cons.1 hnodup
      obtain ⟨next, hassign, hset, hothers⟩ := setting.exists_assign? config read
      have hread : ∀ other, other ∉ settings → other.lexeme next = other.lexeme config := by
        intro other hother
        by_cases heq : other = setting
        · rw [heq, hset]
        · rw [hothers other heq]
          exact hread other (by simp [heq, hother])
      cases settings with
      | nil =>
          have hnext : next = config :=
            Setting.config_eq_of_lexeme_eq fun other => hread other List.not_mem_nil
          rw [List.map_singleton, List.intercalate_singleton, readMembers_member hm hassign, hnext]
          rfl
      | cons second settings =>
          rw [List.map_cons, List.map_cons, List.intercalate_cons_cons, ← List.map_cons,
            List.append_assoc, List.append_assoc, List.singleton_append,
            readMembers_member hm hassign, if_pos rfl]
          apply ih (List.cons_ne_nil second settings) hnodup ?_ hread
          intro other hother
          have hother' : other ≠ setting := fun heq => hnotin (heq ▸ hother)
          exact (List.mem_erase_of_ne hother').2 (hleft other hother)

theorem apart_lexemes (config : Config) (settings : List Setting) :
    Apart (config.lexemes settings) := by
  have hmembers : Apart
      ([Lexeme.comma].intercalate (settings.map (·.member config)) ++ [.rightBrace]) := by
    induction settings with
    | nil => exact .singleton _
    | cons setting settings ih =>
        cases settings with
        | nil => exact (setting.apart_member config).append_cons rfl .nil
        | cons second settings =>
            rw [List.map_cons, List.map_cons, List.intercalate_cons_cons, ← List.map_cons,
              List.append_assoc, List.append_assoc, List.singleton_append]
            exact (setting.apart_member config).append_cons rfl ih
  exact Apart.append_cons .nil rfl hmembers

/-- The members of some settings begin with a key. -/
theorem exists_members_cons (config : Config) (setting : Setting) (settings : List Setting) :
    ∃ rest, [Lexeme.comma].intercalate ((setting :: settings).map (·.member config)) ++
      [.rightBrace] = .text (some setting.key) :: rest := by
  cases settings with
  | nil => exact ⟨_, rfl⟩
  | cons second settings => exact ⟨_, rfl⟩

/-- An object that lists settings is read as those settings. -/
theorem ofJson?_of_lists {text : String} (h : config.Lists settings text) :
    ofJson? text = some config := by
  have hlexemes := Lexeme.ofText?_of_writesAll h.written (apart_lexemes config settings)
  have hvalue : readValue (config.lexemes settings) = some (config, []) := by
    rw [lexemes]
    cases settings with
    | nil =>
        have hdefault : Config.default = config :=
          Setting.config_eq_of_lexeme_eq fun setting => (h.omitted setting List.not_mem_nil).symm
        rw [← hdefault]
        rfl
    | cons setting settings =>
        have hread := readMembers_settings (List.cons_ne_nil setting settings) h.nodup
          (fun other _ => other.mem_all) (fun other hother => (h.omitted other hother).symm) []
        obtain ⟨rest, hrest⟩ := exists_members_cons config setting settings
        rw [hrest] at hread ⊢
        exact hread
  simp only [ofJson?, hlexemes, hvalue, Option.bind_eq_bind, Option.bind_some]
  rfl

/-! The text of a file. -/

theorem writes_value (config : Config) (setting : Setting) (level : Nat) :
    (setting.lexeme config).Writes ((setting.value config).renderAt level).toList := by
  have hnatural (value : Nat) :
      (Lexeme.natural value).Writes ((Value.natural value).renderAt level).toList := by
    rw [Value.renderAt, Json.naturalText, String.toList_ofList]
    exact .natural value
  cases setting with
  | caseSensitive =>
      rw [Setting.lexeme, Setting.value]
      cases config.caseSensitive with
      | false => exact .sign rfl
      | true => exact .sign rfl
  | _ => exact hnatural _

theorem writes_key (setting : Setting) :
    (Lexeme.text (some setting.key)).Writes ("\"" ++ setting.key ++ "\"").toList := by
  have htext := Writes.text (Lexeme.writesText_of_plain setting.plain_key)
  rw [String.ofList_toList] at htext
  rw [String.toList_append, String.toList_append]
  exact htext

theorem isBlank_newLine (level : Nat) :
    ∀ char ∈ (Value.newLine level).toList, Lexeme.isBlank char = true := by
  intro char hm
  simp only [Value.newLine, String.toList_append, String.toList_ofList, List.mem_append] at hm
  rcases hm with hm | hm
  · cases List.mem_singleton.1 hm
    rfl
  · cases (List.mem_replicate.1 hm).2
    rfl

/-- The member of a setting is written as its lexemes. -/
theorem writesAll_member (config : Config) (setting : Setting) (level : Nat) :
    WritesAll (setting.member config)
      ("\"" ++ setting.key ++ "\": " ++ (setting.value config).renderAt level).toList := by
  have hkey := (writes_key setting).writesAll
  have hcolon : WritesAll [.colon] (":".toList ++ [' ']) := .cons (.sign rfl) (.blank rfl .nil)
  have hvalue := (writes_value config setting level).writesAll
  have htext : ("\"" ++ setting.key ++ "\": " ++ (setting.value config).renderAt level).toList =
      ("\"" ++ setting.key ++ "\"").toList ++ (":".toList ++ [' ']) ++
        ((setting.value config).renderAt level).toList := by
    simp
  rw [htext]
  exact (hkey.append hcolon).append hvalue

/-- A mark with a new line behind it. -/
theorem writesAll_newLine {mark : Lexeme} {text : String} (hmark : mark.sign? = some text)
    (level : Nat) : WritesAll [mark] (text ++ Value.newLine level).toList := by
  rw [String.toList_append]
  exact (Writes.sign hmark).writesAll.append
    (Lexeme.writesAll_nil_of_blank (isBlank_newLine level))

/-- The text of a file lists all settings. -/
theorem lists_toText (config : Config) : config.Lists Setting.all config.toText := by
  refine ⟨by decide, fun setting hm => absurd setting.mem_all hm, ?_⟩
  have hopen : WritesAll [.leftBrace] ("\x7b" ++ Value.newLine 1).toList := writesAll_newLine rfl 1
  have hcomma : WritesAll [.comma] ("," ++ Value.newLine 1).toList := writesAll_newLine rfl 1
  have hclose : WritesAll [.rightBrace] ((Value.newLine 0).toList ++ "\x7d".toList) :=
    (Lexeme.writesAll_nil_of_blank (isBlank_newLine 0)).append (Writes.sign rfl).writesAll
  let texts := Setting.all.map fun setting =>
    "\"" ++ setting.key ++ "\": " ++ (setting.value config).renderAt 1
  have hmembers : List.Forall₂ WritesAll (Setting.all.map (·.member config))
      (texts.map String.toList) := by
    simp only [texts, List.forall₂_map_left_iff, List.forall₂_map_right_iff]
    exact List.forall₂_same.2 fun setting _ => writesAll_member config setting 1
  have hrender : config.toText = "\x7b" ++ Value.newLine 1 ++
      ("," ++ Value.newLine 1).intercalate texts ++ Value.newLine 0 ++ "\x7d" := rfl
  have hall := (hopen.append (hcomma.intercalate hmembers)).append hclose
  rw [hrender]
  simp only [String.toList_append, String.toList_intercalate] at hall ⊢
  rw [lexemes, ← List.singleton_append, ← List.append_assoc]
  simpa only [List.append_assoc] using hall

/-! Settings that are valid are read from their file, and others are refused. -/

theorem ofFile_of_ofJson? {text : String} (h : ofJson? text = some config) :
    ofFile text.toUTF8.data = (config.validate.mapError .config).map fun _ => config := by
  have hvalid : String.fromUTF8? ⟨text.toUTF8.data⟩ = some text := dif_pos text.isValidUTF8
  rw [ofFile, hvalid]
  simp only [h]
  cases config.validate <;> rfl

/-- Valid settings are read again from the text that they are written as, and from each object that
lists them, in any order and without any that have their defaults. Where the settings that are read
are not valid, the file is refused for what is wrong with them. -/
theorem ofFile_eq_ok_of_valid (h : config.validate = .ok ()) :
    ofFile config.toText.toUTF8.data = .ok config ∧
      (∀ settings text, config.Lists settings text → ofFile text.toUTF8.data = .ok config) ∧
      ∀ text other cause, ofJson? text = some other → other.validate = .error cause →
        ofFile text.toUTF8.data = .error (.config cause) := by
  have hlists (settings : List Setting) (text : String) (htext : config.Lists settings text) :
      ofFile text.toUTF8.data = .ok config := by
    rw [ofFile_of_ofJson? (ofJson?_of_lists htext), h]
    rfl
  refine ⟨hlists _ _ (lists_toText config), hlists, ?_⟩
  intro text other cause hread hinvalid
  rw [ofFile_of_ofJson? hread, hinvalid]
  rfl

/-- As many results as 64 bits can say. -/
def widest : Config := { defaultResults := 18446744073709551615, caseSensitive := true }

/-- Two settings in another order than their own, one of them under a key with an escape. -/
def widestText : String :=
  "\t\x7b\"case_sensitive\" :true,\r\n\"\\u0064efault_n_results\":18446744073709551615\x7d"

theorem lists_widestText : widest.Lists [.caseSensitive, .defaultResults] widestText := by
  refine ⟨by decide, ?_, ?_⟩
  · intro setting hm
    cases setting
    all_goals first | rfl | exact absurd hm (by decide)
  · have hopen : WritesAll [.leftBrace] ('\t' :: "\x7b".toList) :=
      .blank rfl (Writes.sign rfl).writesAll
    have hfirst : WritesAll (Setting.caseSensitive.member widest)
        ("\"case_sensitive\"".toList ++ (' ' :: (":".toList ++ "true".toList))) :=
      .cons (writes_key .caseSensitive) (.blank rfl (.cons (.sign rfl) (Writes.sign rfl).writesAll))
    have hcomma : WritesAll [.comma] (",".toList ++ ['\r', '\n']) :=
      .cons (.sign rfl) (.blank rfl (.blank rfl .nil))
    have hkey : Json.WritesText Setting.defaultResults.key.toList
        ("\\u0064".toList ++ "efault_n_results".toList) :=
      .cons (.code rfl) (Lexeme.writesText_of_plain rfl)
    have hsecond : WritesAll (Setting.defaultResults.member widest)
        (('"' :: ("\\u0064efault_n_results".toList ++ ['"'])) ++ (":".toList ++
          "18446744073709551615".toList)) :=
      .cons (.text hkey) (.cons (.sign rfl) (Writes.natural 18446744073709551615).writesAll)
    have hclose : WritesAll [.rightBrace] "\x7d".toList := (Writes.sign rfl).writesAll
    exact hopen.append (((hfirst.append hcomma).append hsecond).append hclose)

/-- The largest number is read in full, and a skip span of zero is refused. -/
theorem ofFile_eq_ok_of_valid_widest :
    widest.validate = .ok () ∧ ofFile widest.toText.toUTF8.data = .ok widest ∧
      ofFile widestText.toUTF8.data = .ok widest ∧
      ofFile (toText { skipSpan := 0 }).toUTF8.data = .error (.config .zeroSkipSpan) := by
  have hvalid : widest.validate = .ok () := rfl
  obtain ⟨htext, hlists, hrefused⟩ := ofFile_eq_ok_of_valid hvalid
  exact ⟨hvalid, htext, hlists _ _ lists_widestText,
    hrefused _ _ _ (ofJson?_of_lists (lists_toText _)) rfl⟩

end Config

end Concordance
