import MarkupLayout.Text.Number
import MarkupLayout.Toml.Basic
/-!
# Strings of TOML

Four forms: with double or single quotes, on one line or on several.  Only double quotes know
escapes.
-/

namespace MarkupLayout.Toml

def isStringChar (c : Char) : Bool :=
  isCommentChar c

def charOfHex? (digits : Text) : Option Char :=
  let n := Text.numberIn 16 digits
  if digits.all (Text.digitValue? · |>.isSome) && n.isValidChar then some (Char.ofNat n) else none

def codePoint? (count : Nat) (t : Text) : Option (Char × Text) := do
  if t.length < count then none
  else
    let c ← charOfHex? (t.take count)
    return (c, t.drop count)

def escape? : Reader Char
  | 'b' :: rest => some ('\x08', rest)
  | 't' :: rest => some ('\t', rest)
  | 'n' :: rest => some ('\n', rest)
  | 'f' :: rest => some ('\x0c', rest)
  | 'r' :: rest => some ('\r', rest)
  | '\x22' :: rest => some ('\x22', rest)
  | '\\' :: rest => some ('\\', rest)
  | 'u' :: rest => codePoint? 4 rest
  | 'U' :: rest => codePoint? 8 rest
  | _ => none

def basicBody? : Reader Text
  | [] => none
  | '\x22' :: rest => some ([], rest)
  | '\\' :: more =>
    match escape? more with
    | none => none
    | some (c, rest) =>
      if rest.length ≤ more.length then (basicBody? rest).map fun (t, rest) => (c :: t, rest)
      else none
  | c :: rest =>
    if isStringChar c then (basicBody? rest).map fun (t, rest) => (c :: t, rest) else none
termination_by t => t.length
decreasing_by
  · simp only [List.length_cons]
    omega
  · simp

def literalBody? : Reader Text
  | [] => none
  | '\x27' :: rest => some ([], rest)
  | c :: rest =>
    if isStringChar c then (literalBody? rest).map fun (t, rest) => (c :: t, rest) else none

/-- Reads the end of a string on several lines, with `q` as its quote: three quotes, before which
up to two more belong to the string. -/
def closing? (q : Char) (t : Text) : Option (Text × Text) :=
  let run := (t.takeWhile (· == q)).length
  if run < 3 then none
  else
    let count := min run 5
    some (List.replicate (count - 3) q, t.drop count)

def endsLine (t : Text) : Bool :=
  (lineBreak? (skipSpace t)).isSome

/-- Reads a string on several lines with double quotes.  A backslash at the end of a line takes
away the white space up to the next visible character, which `joining` says is going on. -/
def basicLines? (joining : Bool) : Reader Text
  | [] => none
  | '\r' :: '\n' :: rest =>
    if joining then basicLines? true rest
    else (basicLines? false rest).map fun (t, rest) => ('\n' :: t, rest)
  | '\\' :: more =>
    if endsLine more then basicLines? true more
    else
      match escape? more with
      | none => none
      | some (c, rest) =>
        if rest.length ≤ more.length then
          (basicLines? false rest).map fun (t, rest) => (c :: t, rest)
        else none
  | c :: rest =>
    if joining && (Text.isIndentChar c || c == '\n') then basicLines? true rest
    else
      match closing? '\x22' (c :: rest) with
      | some parts => some parts
      | none =>
        if isStringChar c || c == '\n' then
          (basicLines? false rest).map fun (t, rest) => (c :: t, rest)
        else none
termination_by t => t.length
decreasing_by
  all_goals
    simp only [List.length_cons]
    omega

def literalLines? : Reader Text
  | [] => none
  | '\r' :: '\n' :: rest => (literalLines? rest).map fun (t, rest) => ('\n' :: t, rest)
  | c :: rest =>
    match closing? '\x27' (c :: rest) with
    | some parts => some parts
    | none =>
      if isStringChar c || c == '\n' then
        (literalLines? rest).map fun (t, rest) => (c :: t, rest)
      else none

def string? : Reader Text
  | '\x22' :: '\x22' :: '\x22' :: rest => basicLines? false ((lineBreak? rest).getD rest)
  | '\x27' :: '\x27' :: '\x27' :: rest => literalLines? ((lineBreak? rest).getD rest)
  | '\x22' :: rest => basicBody? rest
  | '\x27' :: rest => literalBody? rest
  | _ => none

end MarkupLayout.Toml
