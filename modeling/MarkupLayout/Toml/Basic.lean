import MarkupLayout.Text.Basic
/-!
# Lexical rules of TOML

A reader takes what it reads off the start of a text and gives the rest, or `none` if the text
does not start with what it reads.
-/

namespace MarkupLayout.Toml

/-- Reads an `α` off the start of a text. -/
abbrev Reader (α : Type) := Text → Option (α × Text)

def isCommentChar (c : Char) : Bool :=
  c == '\t' || (0x20 ≤ c.toNat && c.toNat != 0x7f)

def skipSpace (t : Text) : Text :=
  t.dropWhile Text.isIndentChar

def skipComment : Text → Text
  | '#' :: rest => rest.dropWhile isCommentChar
  | t => t

def lineBreak? : Text → Option Text
  | '\n' :: rest => some rest
  | '\r' :: '\n' :: rest => some rest
  | _ => none

def lineEnd? (t : Text) : Option Text :=
  match skipComment (skipSpace t) with
  | [] => some []
  | rest => lineBreak? rest

def skipGaps : Text → Text
  | [] => []
  | '\r' :: '\n' :: rest => skipGaps rest
  | '#' :: rest => skipGaps (rest.dropWhile isCommentChar)
  | c :: rest => if Text.isIndentChar c || c == '\n' then skipGaps rest else c :: rest
termination_by t => t.length
decreasing_by
  · simp only [List.length_cons]
    omega
  · have := (List.dropWhile_suffix (l := rest) isCommentChar).length_le
    simp only [List.length_cons]
    omega
  · simp

end MarkupLayout.Toml
