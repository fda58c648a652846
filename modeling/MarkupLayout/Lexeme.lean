import MarkupLayout.Text.Basic
import MarkupLayout.Unicode.Alphabetic
import MarkupLayout.Unicode.Letter
import MarkupLayout.Unicode.Number
/-!
# Lexemes

The character level of the language: a text is cut into runs of like characters, words, line
breaks and single other characters.  What a run means depends on the grammar and on its
surroundings and is decided later.

The classes start with different characters, so the start of the text chooses the class and the
lexeme is the longest one of that class.
-/

namespace MarkupLayout

def isWordLetter (c : Char) : Bool :=
  c == '_' || Unicode.isLetter c || Unicode.isNumber c

/-- Characters that count as part of a word when they stand next to a marker. -/
def isWordChar (c : Char) : Bool :=
  isWordLetter c || Unicode.isOtherAlphabetic c

def isApostrophe (c : Char) : Bool :=
  c == '\x27' || c == '\u2019'

def isWordMark (c : Char) : Bool :=
  c == '!' || c == '?'

def isOperatorChar (c : Char) : Bool :=
  "+-*/%=<>&|^~\\@$;".toList.contains c

inductive LexemeKind where
  | whitespace
  | newline
  | word
  | operator
  | hashes
  | dots
  | colons
  | comma
  | backticks
  | other
deriving DecidableEq, Repr

structure Lexeme where
  kind : LexemeKind
  text : Text
deriving DecidableEq, Repr

namespace Lexeme

/-- Splits off what continues a word: word characters, an apostrophe between word characters,
and a mark, which ends it. -/
def wordRest : Text → Text × Text
  | [] => ([], [])
  | c :: rest =>
    if isWordLetter c then
      let parts := wordRest rest
      (c :: parts.1, parts.2)
    else if isWordMark c then ([c], rest)
    else match rest with
      | [] => ([], [c])
      | d :: more =>
        if isApostrophe c && isWordLetter d then
          let parts := wordRest more
          (c :: d :: parts.1, parts.2)
        else ([], c :: d :: more)

theorem wordRest_append (t : Text) : (wordRest t).1 ++ (wordRest t).2 = t := by
  fun_induction wordRest t <;> simp_all +zetaDelta

def startKind (c : Char) (rest : Text) : LexemeKind :=
  if Text.isIndentChar c then .whitespace
  else if c = '\n' || (c = '\r' && rest.head? = some '\n') then .newline
  else if isWordLetter c then .word
  else if isOperatorChar c then .operator
  else if c = '#' then .hashes
  else if c = '.' then .dots
  else if c = ':' then .colons
  else if c = ',' then .comma
  else if c = '\x60' then .backticks
  else .other

def ofRun (kind : LexemeKind) (p : Char → Bool) (c : Char) (rest : Text) : Lexeme × Text :=
  (⟨kind, c :: rest.takeWhile p⟩, rest.dropWhile p)

def first (c : Char) (rest : Text) : Lexeme × Text :=
  match startKind c rest with
  | .whitespace => ofRun .whitespace Text.isIndentChar c rest
  | .newline =>
    let width := if c = '\r' then 1 else 0
    (⟨.newline, c :: rest.take width⟩, rest.drop width)
  | .word =>
    let parts := wordRest rest
    (⟨.word, c :: parts.1⟩, parts.2)
  | .operator => ofRun .operator isOperatorChar c rest
  | .hashes => ofRun .hashes (· == '#') c rest
  | .dots => ofRun .dots (· == '.') c rest
  | .colons => ofRun .colons (· == ':') c rest
  | .comma => (⟨.comma, [c]⟩, rest)
  | .backticks => ofRun .backticks (· == '\x60') c rest
  | .other => (⟨.other, [c]⟩, rest)

theorem text_first_eq_cons (c : Char) (rest : Text) :
    ∃ t, (first c rest).1.text = c :: t ∧ t ++ (first c rest).2 = rest := by
  have run (kind : LexemeKind) (p : Char → Bool) :
      ∃ t, (ofRun kind p c rest).1.text = c :: t ∧ t ++ (ofRun kind p c rest).2 = rest :=
    ⟨rest.takeWhile p, rfl, List.takeWhile_append_dropWhile⟩
  unfold first
  split
  · exact run _ _
  · exact ⟨_, rfl, List.take_append_drop _ _⟩
  · exact ⟨_, rfl, wordRest_append rest⟩
  · exact run _ _
  · exact run _ _
  · exact run _ _
  · exact run _ _
  · exact ⟨[], rfl, rfl⟩
  · exact run _ _
  · exact ⟨[], rfl, rfl⟩

@[simp] theorem kind_first (c : Char) (rest : Text) :
    (first c rest).1.kind = startKind c rest := by
  unfold first
  split <;> simp_all [ofRun]

theorem first_append (c : Char) (rest : Text) :
    (first c rest).1.text ++ (first c rest).2 = c :: rest := by
  obtain ⟨t, htext, hrest⟩ := text_first_eq_cons c rest
  rw [htext, List.cons_append, hrest]

theorem length_first_rest_lt (c : Char) (rest : Text) :
    (first c rest).2.length < (c :: rest).length := by
  obtain ⟨t, _, hrest⟩ := text_first_eq_cons c rest
  have h := congrArg List.length hrest
  simp only [List.length_append, List.length_cons] at h ⊢
  omega

def all : Text → List Lexeme
  | [] => []
  | c :: rest => (first c rest).1 :: all (first c rest).2
termination_by t => t.length
decreasing_by exact length_first_rest_lt c rest

/-- Byte ranges of consecutive lexemes, the first of which starts at `start`. -/
def spans (start : Nat) : List Lexeme → List (LexemeKind × Nat × Nat)
  | [] => []
  | lexeme :: more =>
    let stop := start + lexeme.text.byteSize
    (lexeme.kind, start, stop) :: spans stop more

end Lexeme

end MarkupLayout
