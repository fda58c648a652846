import MarkupLayout.Document.Basic
import MarkupLayout.Outline
/-!
# Jumping in a document

Moves of the cursor from definition to definition.
-/

namespace MarkupLayout.Document

def offsetOf (doc : Document) : Outline.Destination → Nat
  | .line number => (doc.text.lineStart? number).getD doc.size
  | .start => 0
  | .stop => doc.size

/-- Puts the cursor on the first visible character at or behind a destination. -/
def moveTo (doc : Document) (destination : Outline.Destination) : Document :=
  let offset := doc.offsetOf destination
  let blanks := (doc.text.between offset doc.size).takeWhile Unicode.isBlank
  doc.setCursor (offset + Text.byteSize blanks)

def forward (g : Grammar) (doc : Document) (count : Nat) : Document × Outline.Destination :=
  let destination := Outline.forward g doc.text doc.currentLine count
  (doc.moveTo destination, destination)

def backward (g : Grammar) (doc : Document) (count : Nat) : Document × Outline.Destination :=
  let destination := Outline.backward g doc.text doc.currentLine count
  (doc.moveTo destination, destination)

end MarkupLayout.Document
