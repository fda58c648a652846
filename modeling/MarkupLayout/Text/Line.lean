import MarkupLayout.Text.Basic
/-!
# Lines

Lines are numbered from one and end at a line feed; a text that ends with one has a last, empty
line after it.  A carriage return directly before the end of a line belongs to the terminator
and not to the content.  Columns count characters from zero.

Line numbers, columns and byte offsets are natural numbers.  Words of 64 bits hold them as long as
the byte size of the text, and the number of its first line together with the count of its line
feeds, stay below `2 ^ 64`.
-/

namespace MarkupLayout

namespace Text

def stripReturn (t : Text) : Text :=
  if t.getLast? = some '\r' then t.dropLast else t

def firstLine (t : Text) : Text :=
  stripReturn (t.takeWhile (· != '\n'))

/-- What stands between the content of the first line and the start of the second. -/
def firstEnding (t : Text) : Text :=
  (t.takeWhile (· != '\n')).drop t.firstLine.length ++ (t.dropWhile (· != '\n')).take 1

def afterFirstLine (t : Text) : Text :=
  (t.dropWhile (· != '\n')).drop 1

theorem stripReturn_append_drop (t : Text) :
    stripReturn t ++ t.drop (stripReturn t).length = t := by
  unfold stripReturn
  split
  · rw [List.dropLast_eq_take, List.length_take_of_le (Nat.sub_le _ _), List.take_append_drop]
  · simp

theorem firstLine_append (t : Text) :
    t.firstLine ++ t.firstEnding ++ t.afterFirstLine = t := by
  have h := stripReturn_append_drop (t.takeWhile (· != '\n'))
  unfold firstEnding afterFirstLine
  rw [← List.append_assoc, List.append_assoc (t.firstLine ++ _), List.take_append_drop]
  unfold firstLine
  rw [h, List.takeWhile_append_dropWhile]

theorem firstLine_append_drop (t : Text) : t.firstLine ++ t.drop t.firstLine.length = t :=
  List.prefix_iff_eq_append.mp
    ⟨t.firstEnding ++ t.afterFirstLine, by rw [← List.append_assoc, firstLine_append]⟩

theorem length_afterFirstLine_lt (c : Char) (t : Text) :
    (afterFirstLine (c :: t)).length < (c :: t).length := by
  have h := (List.dropWhile_suffix (l := c :: t) (· != '\n')).length_le
  unfold afterFirstLine
  rw [List.length_drop]
  simp only [List.length_cons] at h ⊢
  omega

def lines : Text → List Text
  | [] => [[]]
  | c :: rest =>
    if c = '\n' then [] :: lines rest
    else match lines rest with
      | [] => [[c]]
      | line :: more => (c :: line) :: more

def lineText? (t : Text) (line : Nat) : Option Text :=
  if line = 0 then none else (t.lines[line - 1]?).map stripReturn

/-- Offsets at which the lines after the first start, for a text that starts at `offset`. -/
def laterStarts (offset : Nat) : Text → List Nat
  | [] => []
  | c :: rest =>
    let next := offset + c.utf8Size
    if c = '\n' then next :: laterStarts next rest else laterStarts next rest

def lineStarts (t : Text) : List Nat :=
  0 :: laterStarts 0 t

def lineCount (t : Text) : Nat :=
  t.lineStarts.length

def lineStart? (t : Text) (line : Nat) : Option Nat :=
  if line = 0 then none else t.lineStarts[line - 1]?

/-- Line that contains a byte offset; offsets past the end are on the last line. -/
def lineAt (t : Text) (offset : Nat) : Nat :=
  t.lineStarts.countP (· ≤ offset)

def cutAtLine? : Text → Nat → Option (Text × Text)
  | _, 0 => none
  | t, 1 => some ([], t)
  | [], _ + 2 => none
  | c :: rest, n + 2 =>
    (cutAtLine? rest (if c = '\n' then n + 1 else n + 2)).map fun parts =>
      (c :: parts.1, parts.2)

def lastLine (t : Text) : Nat :=
  1 + t.count '\n'

end Text

structure Position where
  line : Nat
  column : Nat
deriving DecidableEq, Repr

namespace Position

def next (p : Position) (c : Char) : Position :=
  if c = '\n' then ⟨p.line + 1, 0⟩ else ⟨p.line, p.column + 1⟩

def after (p : Position) (t : Text) : Position :=
  t.foldl next p

@[simp] theorem after_nil (p : Position) : p.after [] = p := rfl

@[simp] theorem after_cons (p : Position) (c : Char) (t : Text) :
    p.after (c :: t) = (p.next c).after t := rfl

@[simp] theorem after_append (p : Position) (s t : Text) :
    p.after (s ++ t) = (p.after s).after t := by
  simp [after, List.foldl_append]

end Position

/-- Position of a byte offset in a text whose first line has the given number. -/
def Text.position? (t : Text) (offset firstLine : Nat) : Option Position :=
  (t.cut? offset).map fun parts => Position.after ⟨firstLine, 0⟩ parts.1

end MarkupLayout
