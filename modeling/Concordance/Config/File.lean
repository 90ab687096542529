import Concordance.Config
import Concordance.Json.Lexeme
import Concordance.Json.Value

/-!
# Files of settings

A file of settings is a JSON object. A setting that it leaves out has its default
and a member that is no setting is passed over, but no setting may come twice. An
array of the settings in their order is read too, and may end early.
-/

namespace Concordance

/-- The settings, by their order in a file. -/
inductive Setting where
  | skipSpan
  | defaultResults
  | cacheSize
  | minTokenLen
  | maxTokenLen
  | caseSensitive
  deriving DecidableEq, Repr

namespace Setting

def all : List Setting :=
  [skipSpan, defaultResults, cacheSize, minTokenLen, maxTokenLen, caseSensitive]

def key : Setting → String
  | skipSpan => "skip_span"
  | defaultResults => "default_n_results"
  | cacheSize => "result_cache_size"
  | minTokenLen => "min_token_len"
  | maxTokenLen => "max_token_len"
  | caseSensitive => "case_sensitive"

def ofKey? (key : String) : Option Setting := all.find? (·.key = key)

/-- A natural number of 64 bits. -/
def word? : Json.Lexeme → Option UInt64
  | .natural value => if value < UInt64.size then some value.toUInt64 else none
  | _ => none

def bool? : Json.Lexeme → Option Bool
  | .bool value => some value
  | _ => none

/-- The settings with one of them as a lexeme says; none if the lexeme is no value of it. -/
def assign? (config : Config) (lexeme : Json.Lexeme) : Setting → Option Config
  | skipSpan => (word? lexeme).map fun value => { config with skipSpan := value }
  | defaultResults => (word? lexeme).map fun value => { config with defaultResults := value }
  | cacheSize => (word? lexeme).map fun value => { config with cacheSize := value }
  | minTokenLen => (word? lexeme).map fun value => { config with minTokenLen := value }
  | maxTokenLen => (word? lexeme).map fun value => { config with maxTokenLen := value }
  | caseSensitive => (bool? lexeme).map fun value => { config with caseSensitive := value }

/-- The value of a setting. -/
def value (config : Config) : Setting → Json.Value
  | skipSpan => .natural config.skipSpan.toNat
  | defaultResults => .natural config.defaultResults.toNat
  | cacheSize => .natural config.cacheSize.toNat
  | minTokenLen => .natural config.minTokenLen.toNat
  | maxTokenLen => .natural config.maxTokenLen.toNat
  | caseSensitive => .bool config.caseSensitive

end Setting

namespace Config
open Json (Lexeme passValue)

/-- Reads the member of a key whose value is at the start, where `left` holds the settings
that have not come yet. -/
def readMember (left : List Setting) (config : Config) (key : String)
    (lexemes : List Lexeme) : Option (List Setting × Config) :=
  match Setting.ofKey? key, lexemes with
  | none, _ => some (left, config)
  | some _, [] => none
  | some setting, lexeme :: _ =>
    if setting ∈ left then
      (setting.assign? config lexeme).map fun read => (left.erase setting, read)
    else none

/-- Reads the members of an object from a key on. -/
def readMembers (left : List Setting) (config : Config) :
    List Lexeme → Option (Config × List Lexeme)
  | .text (some key) :: .colon :: lexemes =>
    match readMember left config key lexemes with
    | none => none
    | some (left', config') =>
      match _ : passValue lexemes with
      | some (.comma :: more) => readMembers left' config' more
      | some (.rightBrace :: after) => some (config', after)
      | _ => none
  | _ => none
termination_by lexemes => lexemes.length
decreasing_by
  have := Json.length_passFrom ‹passValue lexemes = _›
  simp only [List.length_cons] at this ⊢
  omega

/-- Reads the elements of an array from a value on, for these settings. -/
def readElements (config : Config) : List Setting → List Lexeme → Option (Config × List Lexeme)
  | setting :: settings, lexeme :: .comma :: lexemes =>
    match setting.assign? config lexeme with
    | some read => readElements read settings lexemes
    | none => none
  | setting :: _, lexeme :: .rightBracket :: lexemes =>
    (setting.assign? config lexeme).map fun read => (read, lexemes)
  | _, _ => none

/-- Reads the settings of a value. -/
def readValue : List Lexeme → Option (Config × List Lexeme)
  | .leftBrace :: .rightBrace :: lexemes => some (default, lexemes)
  | .leftBrace :: lexemes => readMembers Setting.all default lexemes
  | .leftBracket :: .rightBracket :: lexemes => some (default, lexemes)
  | .leftBracket :: lexemes => readElements default Setting.all lexemes
  | _ => none

/-- The settings that a text gives, valid or not. -/
def ofJson? (text : String) : Option Config := do
  let (config, rest) ← readValue (← Lexeme.ofText? text)
  if rest.isEmpty then some config else none

/-- The settings as a JSON value. -/
def toJson (config : Config) : Json.Value :=
  .object (Setting.all.map fun setting => (setting.key, setting.value config))

/-- The text of a file of settings. -/
def toText (config : Config) : String := config.toJson.render

/-- The valid settings that the bytes of a file give. -/
def ofFile (bytes : Bytes) : Except SearchError Config := do
  let some text := String.fromUTF8? ⟨bytes⟩ | throw .io
  let some config := ofJson? text | throw .serialization
  config.validate
  return config

end Config

end Concordance
