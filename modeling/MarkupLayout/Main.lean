import MarkupLayout.CommandLine.Run
/-!
# The program

Reads files and prints; everything else is done by `CommandLine.run`.
-/

namespace MarkupLayout.CommandLine

def readPath (path : Text) : IO (Except ReadError Text) := do
  try
    let content ← IO.FS.readFile (String.ofList path)
    return .ok content.toList
  catch
    | .noFileOrDirectory _ code details | .inappropriateType _ code details
    | .invalidArgument _ code details | .resourceExhausted _ code details =>
      return .error ((ReadError.ofCode? code.toNat).getD (.other details))
    | e => return .error (.other (toString e))

def pathsOf (args : List Text) : List Text :=
  match invocation? args with
  | some (.run globals _ path) =>
    configNames localConfig ++ (globals.config.map configNames).getD [] ++ [path]
  | _ => []

end MarkupLayout.CommandLine

open MarkupLayout CommandLine

def main (args : List String) : IO UInt32 := do
  let args := args.map String.toList
  let contents ← (pathsOf args).mapM fun path => return (path, ← readPath path)
  let outcome := run (fun path => (contents.lookup path).getD (.error .notFound)) args
  IO.eprint outcome.errorText
  match outcome.written? with
  | none =>
    IO.print outcome.outputText
    return outcome.exitCode.toUInt32
  | some (path, text) =>
    let path := String.ofList path
    try
      IO.FS.writeFile path (String.ofList text)
      return outcome.exitCode.toUInt32
    catch e =>
      IO.eprintln ("Error: cannot write " ++ path ++ ": " ++ toString e)
      return 1
