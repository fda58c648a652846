import MarkupLayout.Settings.Load
/-!
# Arguments of the program

The program takes global options, the name of a command, and the command's own options and path.
Global options may stand before or behind the name; where an option is given in both places, the
later one counts.  Anything else is a usage error.
-/

namespace MarkupLayout.CommandLine

inductive OptionName where
  | config
  | indentWidth
  | tabWidth
  | spaces
  | verbose
  | version
  | line
  | count
  | backward
  | write
  | format
deriving DecidableEq, Repr

namespace OptionName

def long : OptionName → String
  | config => "config"
  | indentWidth => "indent-width"
  | tabWidth => "tab-width"
  | spaces => "spaces"
  | verbose => "verbose"
  | version => "version"
  | line => "line"
  | count => "count"
  | backward => "backward"
  | write => "write"
  | format => "format"

def short? : OptionName → Option Char
  | config => some 'c'
  | verbose => some 'v'
  | version => some 'V'
  | line => some 'l'
  | count => some 'n'
  | backward => some 'b'
  | write => some 'w'
  | format => some 'f'
  | indentWidth | tabWidth | spaces => none

def takesValue : OptionName → Bool
  | config | indentWidth | tabWidth | line | count | format => true
  | spaces | verbose | version | backward | write => false

def global : List OptionName := [config, indentWidth, tabWidth, spaces, verbose]

end OptionName

inductive CommandName where
  | indent
  | reindent
  | definition
  | tokens
deriving DecidableEq, Repr

namespace CommandName

def all : List CommandName := [indent, reindent, definition, tokens]

def name : CommandName → String
  | indent => "indent"
  | reindent => "reindent"
  | definition => "definition"
  | tokens => "tokens"

def ofName? (name : String) : Option CommandName :=
  all.find? (·.name == name)

def options : CommandName → List OptionName
  | indent => [.line]
  | reindent => [.write]
  | definition => [.line, .count, .backward]
  | tokens => [.format]

end CommandName

structure Given where
  option : OptionName
  value : Text
deriving DecidableEq, Repr

def looksLikeOption (arg : Text) : Bool :=
  arg.head? = some '-' && arg.length != 1

/-- Options in one argument behind a hyphen, and the last of them if its value is to follow in
the next argument.  The version flag ends the reading. -/
def shortOptions? (allowed : List OptionName) : Text → Option (List Given × Option OptionName)
  | [] => some ([], none)
  | c :: rest =>
    match allowed.find? (·.short? == some c) with
    | none => none
    | some option =>
      if option.takesValue then
        match rest with
        | [] => some ([], some option)
        | '=' :: value => some ([⟨option, value⟩], none)
        | value => some ([⟨option, value⟩], none)
      else if option = .version then some ([⟨option, []⟩], none)
      else (shortOptions? allowed rest).map fun (given, pending) =>
        (⟨option, []⟩ :: given, pending)

def longOption? (allowed : List OptionName) (t : Text) :
    Option (List Given × Option OptionName) := do
  let name := t.takeWhile (· != '=')
  let option ← allowed.find? (·.long.toList == name)
  match t.dropWhile (· != '='), option.takesValue with
  | _ :: value, true => return ([⟨option, value⟩], none)
  | [], true => return ([], some option)
  | [], false => return ([⟨option, []⟩], none)
  | _ :: _, false => none

def optionsIn? (allowed : List OptionName) (arg : Text) :
    Option (List Given × Option OptionName) :=
  match arg with
  | '-' :: '-' :: name => longOption? allowed name
  | '-' :: cluster => shortOptions? allowed cluster
  | _ => none

structure Reading where
  given : List Given
  operands : List Text
  command : Option (CommandName × List Text)
deriving DecidableEq, Repr

namespace Reading

def empty : Reading := ⟨[], [], none⟩

def addGiven (r : Reading) (given : List Given) : Reading :=
  { r with given := given ++ r.given }

def addOperand (r : Reading) (arg : Text) : Reading :=
  { r with operands := arg :: r.operands }

def count (r : Reading) (option : OptionName) : Nat :=
  r.given.countP (·.option == option)

def value? (r : Reading) (option : OptionName) : Option Text :=
  (r.given.find? (·.option == option)).map (·.value)

end Reading

/-- Reads arguments.  With `commands`, reading ends at the name of a command, before which no other
operands may stand.  Two hyphens end the options. -/
def read? (allowed : List OptionName) (commands : Bool) : List Text → Option Reading
  | [] => some .empty
  | arg :: rest =>
    match if commands then CommandName.ofName? (String.ofList arg) else none with
    | some command => some { Reading.empty with command := some (command, rest) }
    | none =>
      if arg = ['-', '-'] then some { Reading.empty with operands := rest }
      else if looksLikeOption arg then
        match optionsIn? allowed arg with
        | none => none
        | some (given, none) =>
          if given.any (·.option == .version) then some (Reading.empty.addGiven given)
          else (read? allowed commands rest).map (·.addGiven given)
        | some (given, some option) =>
          match rest with
          | [] => none
          | value :: rest =>
            if looksLikeOption value then none
            else (read? allowed commands rest).map (·.addGiven (given ++ [⟨option, value⟩]))
      else if commands then none
      else (read? allowed commands rest).map (·.addOperand arg)

/-- Reads a number in base ten that fits into 16 bits; its sign may be written. -/
def width? (t : Text) : Option Nat :=
  let (negative, digits) := t.sign
  let n := Text.numberIn 10 digits
  if digits.isEmpty || !digits.all Char.isDigit then none
  else if negative then (if n = 0 then some 0 else none)
  else if n < UInt16.size then some n
  else none

def Given.isValid (g : Given) : Bool :=
  match g.option with
  | .indentWidth | .tabWidth => (width? g.value).isSome
  | .line | .count => (Settings.wordOfText? g.value).isSome
  | .format => (["json", "simple"].any (·.toList == g.value))
  | _ => true

/-- Whether every value can be used and no option but `verbose` was given twice. -/
def Reading.isValid (r : Reading) : Bool :=
  r.given.all fun g => g.isValid && (g.option == .verbose || r.count g.option == 1)

structure Globals where
  config : Option Text
  indentWidth : Option Nat
  tabWidth : Option Nat
  spaces : Bool
  verbosity : Nat
deriving DecidableEq, Repr

/-- The global options, taken from behind the command's name where they are given there. -/
def Globals.ofReadings (before behind : Reading) : Globals :=
  let value? (option : OptionName) := (behind.value? option).or (before.value? option)
  let count := if behind.count .verbose = 0 then before.count .verbose else behind.count .verbose
  { config := value? .config
    indentWidth := (value? .indentWidth).bind width?
    tabWidth := (value? .tabWidth).bind width?
    spaces := (value? .spaces).isSome
    verbosity := min count 255 }

inductive Request where
  | indent (line : Nat)
  | reindent (write : Bool)
  | definition (line count : Nat) (backward : Bool)
  | tokens (format : String)
deriving DecidableEq, Repr

def Request.ofReading? (r : Reading) : CommandName → Option Request
  | .indent => do return .indent (← line?)
  | .reindent => some (.reindent (r.value? .write).isSome)
  | .definition => do
    let count := ((r.value? .count).bind Settings.wordOfText?).getD 1
    return .definition (← line?) count (r.value? .backward).isSome
  | .tokens => some (.tokens (String.ofList ((r.value? .format).getD "json".toList)))
where
  line? : Option Nat := (r.value? .line).bind Settings.wordOfText?

inductive Invocation where
  | version
  | run (globals : Globals) (request : Request) (path : Text)
deriving DecidableEq, Repr

def commandInvocation? (before : Reading) (name : CommandName) (args : List Text) :
    Option Invocation := do
  let behind ← read? (name.options ++ OptionName.global) false args
  match behind.operands with
  | [path] =>
    if behind.isValid then
      let request ← Request.ofReading? behind name
      return .run (.ofReadings before behind) request path
    else none
  | _ => none

def invocation? (args : List Text) : Option Invocation := do
  let before ← read? (OptionName.global ++ [.version]) true args
  if !before.isValid then none
  else if before.count .version = 1 then return .version
  else if !before.operands.isEmpty then none
  else
    let (name, rest) ← before.command
    commandInvocation? before name rest

end MarkupLayout.CommandLine
