import MarkupLayout.Document.Basic
import MarkupLayout.Pattern
/-!
# Searching a document

A search runs on the part of the text before or behind an offset, and the place where the text is
cut counts as its start or end.
-/

namespace MarkupLayout

/-- A match in a document, as byte ranges.  The first range is the whole match; a sigil line has a
second one, its spaces and tabs. -/
structure Found where
  start : Nat
  stop : Nat
  ranges : List (Nat × Nat)
deriving DecidableEq, Repr

def Found.ofMatch (offset : Nat) (t : Text) (m : Match) : Found :=
  let start := offset + Text.byteSize (t.take m.start)
  let rangeOf (length : Nat) := (start, start + Text.byteSize ((t.drop m.start).take length))
  let whole := rangeOf m.length
  ⟨whole.1, whole.2, whole :: (m.indent.map rangeOf).toList⟩

namespace Document

def capture? (doc : Document) (found : Found) (group : Nat) : Option Text := do
  let (start, stop) ← found.ranges[group]?
  doc.text.slice? start stop

def searchBackward (doc : Document) (p : Pattern) (offset : Nat) : Option Found :=
  let part := doc.text.between 0 offset
  (p.last? part).map (.ofMatch 0 part)

def searchForward (doc : Document) (p : Pattern) (offset : Nat) : Option Found :=
  let start := min offset doc.size
  let part := doc.text.between start doc.size
  (p.first? part).map (.ofMatch start part)

/-- Whether the first match in the text from an offset on is at its start. -/
def lookingAt (doc : Document) (p : Pattern) (offset : Nat) : Bool :=
  (p.first? (doc.text.between offset doc.size)).any (·.start == 0)

end Document

end MarkupLayout
