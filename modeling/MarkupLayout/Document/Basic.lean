import MarkupLayout.IndentStyle
import MarkupLayout.Text.Line
/-!
# Documents

A document is a named text with a cursor and a style of indentation.  The cursor is a byte offset;
every operation that sets it brings it to a character boundary within the text.
-/

namespace MarkupLayout

structure Document where
  name : String
  text : Text
  cursor : Nat
  style : IndentStyle
deriving DecidableEq, Repr

namespace Document

def ofText (name : String) (text : Text) (style : IndentStyle) : Document :=
  ⟨name, text, 0, style⟩

def size (doc : Document) : Nat :=
  doc.text.byteSize

/-- Line that contains a byte offset, which may lie anywhere. -/
def lineAt (doc : Document) (offset : Nat) : Nat :=
  doc.text.lineAt (doc.text.snap offset)

def currentLine (doc : Document) : Nat :=
  doc.lineAt doc.cursor

def setCursor (doc : Document) (offset : Nat) : Document :=
  { doc with cursor := doc.text.snap offset }

def gotoLine (doc : Document) (line : Nat) : Document :=
  doc.setCursor ((doc.text.lineStart? (max line 1)).getD doc.size)

/-- Where a cursor goes when `length` bytes replace the bytes from `start` to `stop`: behind them
it keeps its distance from the end, within them it stays as far in as the new text allows. -/
def movedCursor (cursor start stop length : Nat) : Nat :=
  if stop ≤ cursor then cursor - (stop - start) + length
  else if start < cursor then start + min (cursor - start) length
  else cursor

def replace (doc : Document) (start stop : Nat) (new : Text) : Document :=
  let first := doc.text.snap start
  let last := doc.text.snap (max stop first)
  let text := (doc.text.cutSnapped first).1 ++ new ++ (doc.text.cutSnapped last).2
  { doc with
    text := text
    cursor := text.snap (movedCursor doc.cursor first last new.byteSize) }

/-- Puts the cursor of `doc` on the line and, as far as that line allows, on the byte column that
it has in `before`. -/
def restoreCursor (doc before : Document) : Document :=
  let line := before.currentLine
  let column := before.cursor - (before.text.lineStart? line).getD 0
  let start := (doc.text.lineStart? line).getD doc.size
  let width := ((doc.text.lineText? line).map Text.byteSize).getD 0
  doc.setCursor (start + min column width)

def excursion (doc : Document) (f : Document → Document × α) : Document × α :=
  let (moved, result) := f doc
  (moved.restoreCursor doc, result)

end Document

end MarkupLayout
