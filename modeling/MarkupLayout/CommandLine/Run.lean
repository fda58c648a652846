import MarkupLayout.CommandLine.Arguments
import MarkupLayout.CommandLine.Files
import MarkupLayout.Trace
/-!
# Running the program

One run of the program as a function of its arguments and of the files it can read.
-/

namespace MarkupLayout.CommandLine

inductive Outcome where
  | usage
  | badSettings (e : Settings.LoadError)
  | failed (log message : String)
  /-- The run succeeds with a log, a text to print, and perhaps a file to write. -/
  | done (log output : String) (written : Option (Text × Text))
deriving DecidableEq, Repr

def versionText : String := "markdent 0.1.0\n"

def localConfig : Text := "markdent.toml".toList

/-- The names under which a configuration file is looked for: the path itself and, if its last part
is a name, that name with an extension. -/
def configNames (path : Text) : List Text :=
  let kept := ((pathParts path).reverse.dropWhile staysPut).reverse
  if kept.getLast?.all (· == parentPart) then [path]
  else [path, "/".toList.intercalate kept ++ ".toml".toList]

def configContent? (reader : FileReader) (path : Text) : Option Text :=
  (configNames path).findSome? fun name => (reader name).toOption

def layers (reader : FileReader) (g : Globals) : List Settings.Layer :=
  ⟨configContent? reader localConfig, true⟩ ::
    (g.config.map fun path => ⟨configContent? reader path, false⟩).toList

def overrides (g : Globals) : List (Text × Settings.Value) :=
  (g.indentWidth.map fun n => ("indentation.indent_width".toList, .integer n)).toList ++
  (g.tabWidth.map fun n => ("indentation.tab_width".toList, .integer n)).toList ++
  (if g.spaces then [("indentation.indent_tabs_mode".toList, .bool false)] else [])

def Request.trace (doc : Document) : Request → List LogEntry
  | .indent line => Trace.indent .markdown doc line
  | .reindent _ => Trace.reindent .markdown doc
  | .definition line count backward => Trace.definition .markdown doc line count backward
  | .tokens _ => Trace.tokens .markdown doc.text

def Request.answer (doc : Document) : Request → Except CommandError (String × Option Text)
  | .indent line => do return (← Command.indent .markdown doc line, none)
  | .reindent write => do
    let (text, _) ← Command.reindent .markdown doc
    return if write then ("", some text) else (String.ofList text, none)
  | .definition line count backward => do
    return (← Command.definition .markdown doc line count backward, none)
  | .tokens format => do
    return (String.ofList (← Command.tokens .markdown doc.text format), none)

def Request.run (settings : Settings) (level : LogLevel) (reader : FileReader) (path : Text)
    (request : Request) : Outcome :=
  let name := String.ofList path
  match reader path with
  | .error e => .failed "" ("cannot read " ++ name ++ ": " ++ e.message)
  | .ok text =>
    let doc := Document.ofText name text settings.style
    let log := if level.rank < LogLevel.info.rank then "" else renderLog level (request.trace doc)
    match request.answer doc with
    | .error e => .failed log e.message
    | .ok (output, written) => .done log output (written.map (path, ·))

def run (reader : FileReader) (args : List Text) : Outcome :=
  match invocation? args with
  | none => .usage
  | some .version => .done "" versionText none
  | some (.run globals request path) =>
    match Settings.load (layers reader globals) (overrides globals) with
    | .error e => .badSettings e
    | .ok settings => request.run settings (settings.level.raised globals.verbosity) reader path

namespace Outcome

def exitCode : Outcome → Nat
  | usage => 2
  | badSettings _ | failed _ _ => 1
  | done _ _ _ => 0

def errorText : Outcome → String
  | usage => "Usage error"
  | badSettings _ => "Configuration error"
  | failed log message => log ++ "Error: " ++ message ++ "\n"
  | done log _ _ => log

def outputText : Outcome → String
  | done _ output _ => output
  | _ => ""

def written? : Outcome → Option (Text × Text)
  | done _ _ written => written
  | _ => none

end Outcome

end MarkupLayout.CommandLine
