import Reclaim.Json.Value

/-!
# The words of a command line

Words that begin with a dash are options, by one letter or by name; some take a value, which is the
next word or stands behind an equals sign.  Single letters may share a dash.  All other words, and
every word behind a double dash, are arguments.  A word that fits nowhere ends the reading, and so
does the wish for help.

* `Words.read` what the words of a command give.
-/

namespace Reclaim

inductive Stop where
  | usage
  | help
  | version
deriving DecidableEq

/-- what an option's value must be -/
inductive ValueKind where
  | path
  /-- a number that 64 bits hold -/
  | number
deriving DecidableEq

/-- the number a word spells, which may have a plus sign -/
def number? (s : String) : Option Nat :=
  let digits := match utf8 s with
    | 43 :: r => r
    | r => r
  match Json.digitsValue? digits with
  | some n => if n < 18446744073709551616 then some n else none
  | none => none

def ValueKind.accepts : ValueKind → String → Bool
  | .path, s => s ≠ ""
  | .number, s => (number? s).isSome

structure CommandOption where
  name : String
  letter : Option Char
  /-- the variable that gives the value if no word does -/
  fallback : Option String
  /-- what its value must be, if it takes one -/
  value : Option ValueKind
  /-- whether it may be given more than once -/
  repeats : Bool

structure Given where
  /-- options by name with their values, the latest first -/
  options : List (String × String)
  arguments : List String

namespace Words

structure Form where
  options : List CommandOption
  /-- how many arguments there may be -/
  arguments : Nat
  /-- whether the version may be asked for -/
  hasVersion : Bool

def isOption (word : String) : Bool :=
  match word.toList with
  | '-' :: _ :: _ => true
  | _ => false

def takeOption (g : Given) (o : CommandOption) (value : String) : Except Stop Given :=
  if !o.repeats && (g.options.lookup o.name).isSome then .error .usage
  else
    match o.value with
    | some k => if k.accepts value then .ok { g with options := (o.name, value) :: g.options } else .error .usage
    | none => .ok { g with options := (o.name, value) :: g.options }

def takeArgument (f : Form) (g : Given) (value : String) : Except Stop Given :=
  if g.arguments.length < f.arguments && ValueKind.path.accepts value then
    .ok { g with arguments := g.arguments ++ [value] }
  else .error .usage

/-- read an option by name; the option is handed back if its value is still to come -/
def long (f : Form) (g : Given) (text : List Char) : Except Stop (Given × Option CommandOption) :=
  let name := String.ofList (text.takeWhile (· ≠ '='))
  let value := match text.dropWhile (· ≠ '=') with
    | [] => none
    | _ :: v => some (String.ofList v)
  match f.options.find? fun o => o.name = name, value with
  | some o, none =>
    if o.value.isSome then .ok (g, some o) else (takeOption g o "").map fun g => (g, none)
  | some o, some v =>
    if o.value.isSome then (takeOption g o v).map fun g => (g, none) else .error .usage
  | none, none =>
    if name = "help" then .error .help
    else if name = "version" && f.hasVersion then .error .version
    else .error .usage
  | none, some _ => .error .usage

/-- read options by their letters; one is handed back if its value is still to come -/
def letters (f : Form) (g : Given) : List Char → Except Stop (Given × Option CommandOption)
  | [] => .ok (g, none)
  | c :: r =>
    match f.options.find? fun o => o.letter = some c with
    | none =>
      if c = 'h' then .error .help
      else if c = 'V' && f.hasVersion then .error .version
      else .error .usage
    | some o =>
      if o.value.isNone then
        match takeOption g o "" with
        | .error e => .error e
        | .ok g => letters f g r
      else
        match r with
        | [] => .ok (g, some o)
        | '=' :: v => (takeOption g o (String.ofList v)).map fun g => (g, none)
        | v => (takeOption g o (String.ofList v)).map fun g => (g, none)

def option (f : Form) (g : Given) (word : String) : Except Stop (Given × Option CommandOption) :=
  match word.toList with
  | '-' :: '-' :: text => long f g text
  | _ :: text => letters f g text
  | [] => .error .usage

/-- read words while an option may be waiting for its value -/
def readFrom (f : Form) (g : Given) (waiting : Option CommandOption) : List String → Except Stop Given
  | [] =>
    match waiting with
    | none => .ok g
    | some _ => .error .usage
  | word :: r =>
    match waiting with
    | some o =>
      if isOption word then .error .usage
      else
        match takeOption g o word with
        | .error e => .error e
        | .ok g => readFrom f g none r
    | none =>
      if word = "--" then r.foldlM (takeArgument f) g
      else if isOption word then
        match option f g word with
        | .error e => .error e
        | .ok (g, waiting) => readFrom f g waiting r
      else
        match takeArgument f g word with
        | .error e => .error e
        | .ok g => readFrom f g none r

def read (f : Form) (words : List String) : Except Stop Given := readFrom f ⟨[], []⟩ none words

end Words

end Reclaim
