/-!
# Arguments of a command

Arguments are options and positional arguments in any order; after two dashes alone
all are positional. An option may come once. Its value is the next argument, or is
attached: behind an equals sign to a long name, and with or without one to a letter.
The next argument is no value if it looks like an option.

`Arguments.scan` sorts the arguments by what a command takes and fails at the first
that does not fit. Every command has the option `help`, and neither what follows it nor
what is missing then matters.
-/

namespace Concordance.CommandLine

/-- What stands behind the name of an option. -/
inductive ValueKind where
  | nothing
  /-- A decimal number of 64 bits. -/
  | number
  /-- The name of a file, which is not empty. -/
  | path
  | text
  deriving DecidableEq, Repr

/-- An option of a command, with its names. -/
structure Flag where
  long : String
  short? : Option Char
  value : ValueKind
  deriving DecidableEq, Repr

/-- A decimal number of 64 bits; a plus sign before it is passed over. -/
def number? (text : String) : Option UInt64 :=
  let digits :=
    match text.toList with
    | '+' :: rest => rest
    | chars => chars
  if digits ≠ [] ∧ digits.all Char.isDigit then
    let value := Nat.ofDigitChars 10 digits 0
    if value < UInt64.size then some value.toUInt64 else none
  else none

namespace ValueKind

/-- A text is a value of the kind. -/
def admits (text : String) : ValueKind → Bool
  | nothing => false
  | number => (number? text).isSome
  | path => !text.isEmpty
  | ValueKind.text => true

end ValueKind

/-- What one argument is. -/
inductive Shape where
  | positional
  /-- Two dashes alone. -/
  | separator
  /-- A long name, and what is behind an equals sign. -/
  | long (name : String) (attached? : Option String)
  /-- A letter after one dash, and what is behind it. -/
  | short (letter : Char) (attached? : Option String)
  deriving DecidableEq, Repr

namespace Shape

/-- What is before and behind the first equals sign. -/
def splitValue (chars : List Char) : String × Option String :=
  let name := String.ofList (chars.takeWhile (· ≠ '='))
  match chars.dropWhile (· ≠ '=') with
  | [] => (name, none)
  | _ :: value => (name, some (String.ofList value))

def ofText (text : String) : Shape :=
  match text.toList with
  | ['-', '-'] => separator
  | '-' :: '-' :: rest =>
    let (name, attached?) := splitValue rest
    long name attached?
  | ['-', letter] => short letter none
  | '-' :: letter :: '=' :: value => short letter (some (String.ofList value))
  | '-' :: letter :: value => short letter (some (String.ofList value))
  | _ => positional

end Shape

namespace Flag

def help : Flag := ⟨"help", some 'h', .nothing⟩

/-- The option that an argument names, and the value attached to it. Behind the letter of
`help` stands no value. -/
def named? (flags : List Flag) : Shape → Option (Flag × Option String)
  | .long name attached? => ((help :: flags).find? (·.long = name)).map (·, attached?)
  | .short letter attached? =>
    if help.short? = some letter then some (help, none)
    else (flags.find? (·.short? = some letter)).map (·, attached?)
  | _ => none

/-- The value of an option, from what is attached to its name or follows it, and the
arguments after it. -/
def takeValue? (flag : Flag) : Option String → List String → Option (String × List String)
  | none, rest =>
    match flag.value, rest with
    | .nothing, rest => some ("", rest)
    | _, [] => none
    | kind, value :: rest =>
      if Shape.ofText value = .positional ∧ kind.admits value then some (value, rest) else none
  | some value, rest => if flag.value.admits value then some (value, rest) else none

theorem length_takeValue?_le {flag : Flag} {attached? : Option String}
    {arguments rest : List String} {value : String}
    (h : flag.takeValue? attached? arguments = some (value, rest)) :
    rest.length ≤ arguments.length := by
  unfold takeValue? at h
  split at h
  · split at h
    · cases h; exact Nat.le_refl _
    · cases h
    · split at h
      · cases h; simp
      · cases h
  · split at h
    · cases h; exact Nat.le_refl _
    · cases h

end Flag

/-- What a command takes: its options, the kinds of its positional arguments in order, and
the kind of any more of them. -/
structure Signature where
  flags : List Flag
  positional : List ValueKind
  more? : Option ValueKind
  deriving DecidableEq, Repr

namespace Signature

/-- The kind of the positional argument behind so many others. -/
def kindAt? (signature : Signature) (index : Nat) : Option ValueKind :=
  signature.positional[index]? <|> signature.more?

/-- The command takes these positional arguments behind so many others. -/
def takes (signature : Signature) (index : Nat) : List String → Bool
  | [] => true
  | text :: texts =>
    (signature.kindAt? index).any (·.admits text) && signature.takes (index + 1) texts

end Signature

/-- Arguments sorted by kind: options by their long names, with their values. -/
structure Arguments where
  options : List (String × String)
  positional : List String
  deriving DecidableEq, Repr

namespace Arguments

def value? (arguments : Arguments) (flag : Flag) : Option String :=
  arguments.options.lookup flag.long

def has (arguments : Arguments) (flag : Flag) : Bool := (arguments.value? flag).isSome

/-- The number of an option. -/
def number? (arguments : Arguments) (flag : Flag) : Option UInt64 :=
  (arguments.value? flag).bind CommandLine.number?

/-- The arguments with further positional ones, if the command takes them. -/
def addPositional (signature : Signature) (arguments : Arguments) (texts : List String) :
    Option Arguments :=
  if signature.takes arguments.positional.length texts then
    some { arguments with positional := arguments.positional ++ texts }
  else none

/-- The arguments of a command, after those that are sorted already. -/
def scanFrom (signature : Signature) (sorted : Arguments) : List String → Option Arguments
  | [] => some sorted
  | text :: rest =>
    match Shape.ofText text with
    | .positional =>
      match sorted.addPositional signature [text] with
      | none => none
      | some sorted' => scanFrom signature sorted' rest
    | .separator => sorted.addPositional signature rest
    | shape =>
      match Flag.named? signature.flags shape with
      | none => none
      | some (flag, attached?) =>
        match _ : flag.takeValue? attached? rest with
        | none => none
        | some (value, more) =>
          let sorted' := { sorted with options := (flag.long, value) :: sorted.options }
          if sorted.has flag then none
          else if flag = .help then some sorted'
          else scanFrom signature sorted' more
termination_by arguments => arguments.length
decreasing_by
  · simp
  · have := Flag.length_takeValue?_le ‹flag.takeValue? _ _ = _›
    simp only [List.length_cons]
    omega

/-- The arguments of a command. -/
def scan (signature : Signature) (arguments : List String) : Option Arguments :=
  scanFrom signature ⟨[], []⟩ arguments

end Arguments

end Concordance.CommandLine
