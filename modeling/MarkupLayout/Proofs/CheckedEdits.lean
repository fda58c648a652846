import MarkupLayout.Document.Session
import MarkupLayout.Proofs.ColumnFromAbove
import MarkupLayout.Proofs.LineSearch
/-!
# Documents with a stored line index

An editor keeps the starts of the lines next to the text and works with byte offsets: it subtracts
them, cuts the text at them and goes back byte by byte to the start of a character.  This module
writes the operations of a document in that way, each of them failing where a difference would be
negative or a cut would go through a character.  None of them fails on a document whose cursor is on
a character boundary and whose index is the one of its text, and the document behind it is the one
that `Document` computes.
-/

namespace MarkupLayout

/-! ## Character boundaries -/

namespace Text

def isBoundary (t : Text) (offset : Nat) : Bool :=
  (t.cut? offset).isSome

def floor? (t : Text) : (offset : Nat) → Option Nat
  | 0 => if t.isBoundary 0 then some 0 else none
  | n + 1 => if t.isBoundary (n + 1) then some (n + 1) else t.floor? n

/-- The boundary at an offset or before it, wherever the offset is. -/
def clamp? (t : Text) (offset : Nat) : Option Nat :=
  t.floor? (min offset t.byteSize)

variable {t : Text} {offset : Nat}

theorem isBoundary_iff :
    t.isBoundary offset = true ↔
      ∃ before behind, t = before ++ behind ∧ before.byteSize = offset := by
  constructor
  · intro h
    obtain ⟨⟨before, behind⟩, hcut⟩ := Option.isSome_iff_exists.mp h
    obtain ⟨hsplit, hsize⟩ := eq_of_cut?_eq_some hcut
    exact ⟨before, behind, hsplit.symm, hsize⟩
  · rintro ⟨before, behind, rfl, rfl⟩
    rw [isBoundary, cut?_append]
    rfl

theorem isBoundary_snap (t : Text) (offset : Nat) : t.isBoundary (t.snap offset) = true :=
  isBoundary_iff.mpr ⟨_, _, (cutSnapped_append t offset).symm, byteSize_cutSnapped t offset⟩

theorem le_byteSize_of_isBoundary (h : t.isBoundary offset = true) : offset ≤ t.byteSize := by
  obtain ⟨before, behind, rfl, rfl⟩ := isBoundary_iff.mp h
  rw [byteSize_append]
  omega

theorem snap_of_isBoundary (h : t.isBoundary offset = true) : t.snap offset = offset := by
  obtain ⟨before, behind, rfl, rfl⟩ := isBoundary_iff.mp h
  exact snap_byteSize before behind

theorem le_snap {boundary : Nat} (h : t.isBoundary boundary = true) (hle : boundary ≤ offset) :
    boundary ≤ t.snap offset := by
  obtain ⟨before, behind, rfl, rfl⟩ := isBoundary_iff.mp h
  clear h
  induction before generalizing offset with
  | nil => exact Nat.zero_le _
  | cons c before ih =>
      rw [byteSize_cons] at hle
      have hrest := @ih (offset - c.utf8Size) (by omega)
      rw [List.cons_append, snap, if_pos (by omega), byteSize_cons]
      omega

theorem snap_eq_of_le {bound : Nat} (hle : offset ≤ bound) (hsnap : t.snap bound ≤ offset) :
    t.snap bound = t.snap offset := by
  apply Nat.le_antisymm
  · exact le_snap (isBoundary_snap t bound) hsnap
  · exact le_snap (isBoundary_snap t offset) (Nat.le_trans (snap_le t offset) hle)

theorem floor?_eq (t : Text) (offset : Nat) : t.floor? offset = some (t.snap offset) := by
  induction offset with
  | zero =>
      have hsnap := snap_le t 0
      have hboundary := isBoundary_snap t 0
      obtain hzero : t.snap 0 = 0 := by omega
      rw [hzero] at hboundary ⊢
      rw [floor?, if_pos hboundary]
  | succ n ih =>
      rw [floor?]
      split
      · rename_i hboundary
        rw [snap_of_isBoundary hboundary]
      · rename_i hboundary
        have hne : t.snap (n + 1) ≠ n + 1 := by
          intro heq
          exact hboundary (heq ▸ isBoundary_snap t (n + 1))
        have hle := snap_le t (n + 1)
        rw [ih, snap_eq_of_le (Nat.le_add_right n 1) (by omega)]

theorem clamp?_eq (t : Text) (offset : Nat) : t.clamp? offset = some (t.snap offset) := by
  have hsize := snap_le_byteSize t offset
  have hle := snap_le t offset
  rw [clamp?, floor?_eq, snap_eq_of_le (Nat.min_le_left offset t.byteSize) (by omega)]

end Text

structure Buffer extends Document where
  index : List Nat
deriving DecidableEq, Repr

def Document.buffer (doc : Document) : Buffer :=
  ⟨doc, doc.text.lineStarts⟩

def Document.withBuffer {α : Type} (result : Document × α) : Buffer × α :=
  (result.1.buffer, result.2)

/-- What holds between two operations: the cursor is within the text and on a character boundary,
and the index is the one of the text. -/
structure Buffer.Consistent (b : Buffer) : Prop where
  cursor_le : b.cursor ≤ b.size
  cursor_boundary : b.text.isBoundary b.cursor = true
  index_eq : b.index = b.text.lineStarts

namespace Buffer

/-! ## Reading -/

def lineStart? (b : Buffer) (line : Nat) : Option Nat :=
  (sub? line 1).bind fun position => b.index[position]?

def lineAt? (b : Buffer) (offset : Nat) : Option Nat := do
  let boundary ← b.text.clamp? offset
  Text.bisectLine? b.index boundary

/-- Where a line ends: at the end of the text, or at the line feed before the next line. -/
def lineStop? (b : Buffer) (line : Nat) : Option Nat :=
  match b.lineStart? (line + 1) with
  | none => some b.size
  | some next => sub? next 1

/-- Content of a line, cut out of the text.  The inner result is `none` when there is no such
line. -/
def lineText? (b : Buffer) (line : Nat) : Option (Option Text) :=
  match b.lineStart? line with
  | none => some none
  | some start => do
    let stop ← b.lineStop? line
    let content ← b.text.slice? start stop
    return some content.stripReturn

def leadingOf? (b : Buffer) (line : Nat) : Option Text := do
  let content := (← b.lineText? line).getD []
  content.slice? 0 content.leading.byteSize

def currentLine? (b : Buffer) : Option Nat :=
  b.lineAt? b.cursor

/-! ## Moving and editing -/

def setCursor? (b : Buffer) (offset : Nat) : Option Buffer := do
  let cursor ← b.text.clamp? offset
  return { b with cursor := cursor }

def gotoLine? (b : Buffer) (line : Nat) : Option Buffer :=
  b.setCursor? ((b.lineStart? (max line 1)).getD b.size)

def movedCursor? (cursor start stop length : Nat) : Option Nat :=
  if stop ≤ cursor then do
    let removed ← sub? stop start
    let kept ← sub? cursor removed
    return kept + length
  else if start < cursor then do
    let inside ← sub? cursor start
    return start + min inside length
  else some cursor

def replace? (b : Buffer) (start stop : Nat) (new : Text) : Option Buffer := do
  let first ← b.text.clamp? start
  let last ← b.text.clamp? (max stop first)
  let (upTo, behind) ← b.text.cut? last
  let (before, _) ← upTo.cut? first
  let text := before ++ new ++ behind
  let moved ← movedCursor? b.cursor first last new.byteSize
  let cursor ← text.clamp? moved
  return { b with text := text, cursor := cursor, index := text.lineStarts }

def excursion? {α : Type} (b : Buffer) (f : Buffer → Option (Buffer × α)) :
    Option (Buffer × α) := do
  let line ← b.currentLine?
  let column ← sub? b.cursor ((b.lineStart? line).getD 0)
  let (moved, result) ← f b
  let start := (moved.lineStart? line).getD moved.size
  let content ← moved.lineText? line
  let restored ← moved.setCursor? (start + min column ((content.map Text.byteSize).getD 0))
  return (restored, result)

end Buffer

/-! ## The checks succeed -/

namespace Document

open Buffer

variable (doc : Document)

@[simp] theorem lineStart?_buffer (line : Nat) :
    doc.buffer.lineStart? line = doc.text.lineStart? line := by
  cases line with
  | zero => rfl
  | succ n =>
      rw [Buffer.lineStart?, sub?_of_le (by omega), Text.lineStart?, if_neg (by omega)]
      rfl

@[simp] theorem lineAt?_buffer (offset : Nat) :
    doc.buffer.lineAt? offset = some (doc.lineAt offset) := by
  have hclamp := Text.clamp?_eq doc.text offset
  have hsearch := Text.bisectLine?_lineStarts doc.text (doc.text.snap offset)
  simp only [Buffer.lineAt?, buffer, hclamp, hsearch, Option.bind_eq_bind, Option.bind_some, lineAt]

theorem size_buffer : doc.buffer.size = doc.text.byteSize := rfl

theorem lineText?_eq_none {t : Text} {line : Nat} (h : t.lineStart? line = none) :
    t.lineText? line = none := by
  by_cases hline : line = 0
  · rw [Text.lineText?, if_pos hline]
  · rw [Text.lineStart?, if_neg hline, List.getElem?_eq_none_iff, ← Text.lineCount,
      Text.lineCount_eq_length_lines] at h
    rw [Text.lineText?, if_neg hline, List.getElem?_eq_none h, Option.map_none]

theorem lineStop?_buffer {ls more : List Text} {content : Text}
    (h : doc.text.lines = ls ++ content :: more) : doc.buffer.lineStop? (ls.length + 1) =
      some ((Text.wholeLines ls).byteSize + content.byteSize) := by
  have htext := Text.eq_wholeLines_append h
  rw [Buffer.lineStop?, lineStart?_buffer]
  cases more with
  | nil =>
      have hcount : doc.text.lineCount = ls.length + 1 := by
        rw [Text.lineCount_eq_length_lines, h]
        simp
      rw [Text.lineStart?_eq_none (by omega), size_buffer, htext]
      simp
  | cons next more =>
      have hnext : doc.text.lines = (ls ++ [content]) ++ next :: more := by
        rw [h, List.append_assoc]
        rfl
      have hstart := Text.lineStart?_of_cutAtLine? (Text.cutAtLine?_of_lines hnext)
      rw [List.length_append, List.length_singleton] at hstart
      have hsize : (Text.wholeLines (ls ++ [content])).byteSize =
          (Text.wholeLines ls).byteSize + content.byteSize + 1 := by
        have hfeed : Char.utf8Size '\n' = 1 := by decide
        simp [Text.wholeLines_append, hfeed]
        omega
      rw [hstart, hsize]
      exact sub?_of_le (by omega)

@[simp] theorem lineText?_buffer (line : Nat) :
    doc.buffer.lineText? line = some (doc.text.lineText? line) := by
  cases hstart : doc.text.lineStart? line with
  | none => rw [Buffer.lineText?, lineStart?_buffer, hstart, lineText?_eq_none hstart]
  | some start =>
      obtain ⟨ls, content, more, hlines, rfl, rfl⟩ := Text.exists_lines_of_lineStart? hstart
      obtain ⟨tail, hmore, -⟩ := Text.exists_intercalate_cons more
      have hslice := Text.slice?_append (Text.wholeLines ls) content tail
      rw [← hmore, ← Text.eq_wholeLines_append hlines] at hslice
      rw [Buffer.lineText?, lineStart?_buffer, hstart, Text.lineText?_of_lines hlines]
      simp only [lineStop?_buffer doc hlines, Option.bind_eq_bind, Option.bind_some]
      rw [buffer, hslice]
      rfl

@[simp] theorem leadingOf?_buffer (line : Nat) :
    doc.buffer.leadingOf? line = some (doc.leadingOf line) := by
  have hslice := Text.slice?_append [] ((doc.text.lineText? line).getD []).leading
    (((doc.text.lineText? line).getD []).dropWhile Text.isIndentChar)
  rw [List.nil_append, Text.leading_append, Text.byteSize_nil, Nat.zero_add] at hslice
  simp only [Buffer.leadingOf?, lineText?_buffer, Option.bind_eq_bind, Option.bind_some]
  exact hslice

@[simp] theorem currentLine?_buffer : doc.buffer.currentLine? = some doc.currentLine :=
  doc.lineAt?_buffer doc.cursor

@[simp] theorem setCursor?_buffer (offset : Nat) :
    doc.buffer.setCursor? offset = some (doc.setCursor offset).buffer := by
  have hclamp := Text.clamp?_eq doc.text offset
  simp only [Buffer.setCursor?, buffer, hclamp, Option.bind_eq_bind, Option.bind_some]
  rfl

@[simp] theorem gotoLine?_buffer (line : Nat) :
    doc.buffer.gotoLine? line = some (doc.gotoLine line).buffer := by
  rw [Buffer.gotoLine?, lineStart?_buffer, size_buffer, setCursor?_buffer]
  rfl

theorem movedCursor?_eq {cursor start stop : Nat} (h : start ≤ stop) (length : Nat) :
    movedCursor? cursor start stop length = some (movedCursor cursor start stop length) := by
  unfold movedCursor? movedCursor
  split
  · rw [sub?_of_le h, Option.bind_eq_bind, Option.bind_some, sub?_of_le (by omega)]
    rfl
  · split
    · rw [sub?_of_le (by omega)]
      rfl
    · rfl

theorem exists_parts_of_replace (start stop : Nat) :
    ∃ before inside behind, doc.text = before ++ (inside ++ behind) ∧
      doc.text.snap start = before.byteSize ∧
      doc.text.snap (max stop (doc.text.snap start)) = before.byteSize + inside.byteSize := by
  obtain ⟨before, rest, hfirst, hsize⟩ := Text.isBoundary_iff.mp
    (Text.isBoundary_snap doc.text start)
  obtain ⟨upTo, behind, hlast, hsize'⟩ := Text.isBoundary_iff.mp
    (Text.isBoundary_snap doc.text (max stop (doc.text.snap start)))
  have hle := Text.le_snap (Text.isBoundary_snap doc.text start)
    (Nat.le_max_right stop (doc.text.snap start))
  obtain ⟨inside, rfl, rfl⟩ := Text.exists_eq_append_of_byteSize_le (hfirst.symm.trans hlast)
    (by omega)
  refine ⟨before, inside, behind, hfirst, hsize.symm, ?_⟩
  rw [← hsize', Text.byteSize_append]

theorem text_replace_of_parts {start stop : Nat} {before inside behind : Text}
    (htext : doc.text = before ++ (inside ++ behind))
    (hfirst : doc.text.snap start = before.byteSize)
    (hlast : doc.text.snap (max stop (doc.text.snap start)) = before.byteSize + inside.byteSize)
    (new : Text) : (doc.replace start stop new).text = before ++ new ++ behind := by
  have hbefore : doc.text.cutSnapped before.byteSize = (before, inside ++ behind) := by
    rw [htext, Text.cutSnapped_byteSize]
  have hbehind : doc.text.cutSnapped (before.byteSize + inside.byteSize) =
      (before ++ inside, behind) := by
    rw [htext, ← List.append_assoc, ← Text.byteSize_append, Text.cutSnapped_byteSize]
  simp only [replace, hfirst] at hlast ⊢
  rw [hlast, hbefore, hbehind]

theorem cursor_replace_of_parts {start stop : Nat} {before inside skipped kept : Text}
    (htext : doc.text = before ++ (inside ++ (skipped ++ kept)))
    (hfirst : doc.text.snap start = before.byteSize)
    (hlast : doc.text.snap (max stop (doc.text.snap start)) = before.byteSize + inside.byteSize)
    (hcursor : doc.cursor = Text.byteSize (before ++ inside ++ skipped)) (new : Text) :
    (doc.replace start stop new).cursor = Text.byteSize (before ++ new ++ skipped) := by
  have hmoved : movedCursor doc.cursor before.byteSize (before.byteSize + inside.byteSize)
      new.byteSize = Text.byteSize (before ++ new ++ skipped) := by
    simp only [Text.byteSize_append] at hcursor ⊢
    rw [movedCursor, if_pos (by omega)]
    omega
  have hafter : (doc.replace start stop new).text = (before ++ new ++ skipped) ++ kept := by
    rw [doc.text_replace_of_parts htext hfirst hlast, List.append_assoc _ skipped]
  have hdefinition : (doc.replace start stop new).cursor =
      (doc.replace start stop new).text.snap (movedCursor doc.cursor (doc.text.snap start)
        (doc.text.snap (max stop (doc.text.snap start))) new.byteSize) := rfl
  rw [hdefinition, hlast, hfirst, hmoved, hafter, Text.snap_byteSize]

@[simp] theorem replace?_buffer (start stop : Nat) (new : Text) :
    doc.buffer.replace? start stop new = some (doc.replace start stop new).buffer := by
  obtain ⟨before, inside, behind, htext, hfirst, hlast⟩ := doc.exists_parts_of_replace start stop
  have hcutLast : doc.text.cut? (before.byteSize + inside.byteSize) =
      some (before ++ inside, behind) := by
    rw [htext, ← List.append_assoc, ← Text.byteSize_append, Text.cut?_append]
  have hcutFirst : Text.cut? (before ++ inside) before.byteSize = some (before, inside) :=
    Text.cut?_append before inside
  have hle : before.byteSize ≤ before.byteSize + inside.byteSize := Nat.le_add_right _ _
  have hnew := doc.text_replace_of_parts htext hfirst hlast new
  have hmoved : (doc.replace start stop new).cursor = Text.snap (before ++ new ++ behind)
      (movedCursor doc.cursor before.byteSize (before.byteSize + inside.byteSize)
        new.byteSize) := by
    rw [← hnew, ← hlast, ← hfirst]
    rfl
  rw [hfirst] at hlast
  simp only [Buffer.replace?, buffer, Text.clamp?_eq, hfirst, hlast, hcutLast, hcutFirst,
    movedCursor?_eq hle, Option.bind_eq_bind, Option.bind_some, hnew]
  rw [← hmoved, ← hnew]
  rfl

theorem exists_lineStart?_lineAt (offset : Nat) :
    ∃ start, doc.text.lineStart? (doc.lineAt offset) = some start ∧ start ≤ offset := by
  have hsnap := Text.snap_le doc.text offset
  have hne : doc.text.lineAt (doc.text.snap offset) ≠ 0 :=
    Nat.pos_iff_ne_zero.mp (Text.lineAt_pos _ _)
  obtain ⟨start, hstart, hle⟩ :=
    exists_getElem?_le_of_sorted (Text.lineStarts_sorted doc.text) (Nat.sub_one_lt hne)
  refine ⟨start, ?_, by omega⟩
  rw [Text.lineStart?, lineAt, if_neg hne, Text.lineAt, hstart]

theorem excursion?_buffer {α : Type} {f : Buffer → Option (Buffer × α)}
    (f' : Document → Document × α) (h : f doc.buffer = some (withBuffer (f' doc))) :
    doc.buffer.excursion? f = some (withBuffer (doc.excursion f')) := by
  obtain ⟨start, hstart, hle⟩ := doc.exists_lineStart?_lineAt doc.cursor
  have hcolumn : sub? doc.buffer.cursor start = some (doc.cursor - start) := sub?_of_le hle
  have hline : doc.text.lineStart? doc.currentLine = some start := hstart
  simp only [Buffer.excursion?, currentLine?_buffer, lineStart?_buffer, lineText?_buffer, hline,
    Option.getD_some, hcolumn, h, withBuffer, size_buffer, setCursor?_buffer, Option.bind_eq_bind,
    Option.bind_some]
  simp only [excursion, restoreCursor, hline, Option.getD_some, size]
  rfl

end Document

end MarkupLayout
