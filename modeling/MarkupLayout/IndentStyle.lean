import MarkupLayout.Text.Basic
/-!
# Indentation as text and as width

Indentation is written with tabs and spaces and measured in columns.  A tab always counts for the
same number of columns, wherever it stands.

Widths are natural numbers.  They are those of a program that adds up columns in unsigned words of
64 bits as long as the characters of a line, each tab counted with the tab width, add up to less
than `2 ^ 64`.
-/

namespace MarkupLayout

structure IndentStyle where
  indentWidth : Nat
  tabWidth : Nat
  useTabs : Bool
deriving DecidableEq, Repr

/-- Width of a text, each tab counting for `tabWidth` columns and other characters for one. -/
def Text.width (tabWidth : Nat) : Text → Nat
  | [] => 0
  | c :: rest => (if c = '\t' then tabWidth else 1) + Text.width tabWidth rest

def Text.displayColumn (tabWidth : Nat) (line : Text) (column : Nat) : Nat :=
  Text.width tabWidth (line.take column)

namespace IndentStyle

def default : IndentStyle := ⟨2, 8, true⟩

def write (style : IndentStyle) (width : Nat) : Text :=
  if style.useTabs && 0 < style.tabWidth then
    List.replicate (width / style.tabWidth) '\t' ++ List.replicate (width % style.tabWidth) ' '
  else List.replicate width ' '

def indentOf (style : IndentStyle) (line : Text) : Nat :=
  Text.width style.tabWidth line.leading

end IndentStyle

end MarkupLayout
