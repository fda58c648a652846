import MarkupLayout.Proofs.CheckedEdits
/-!
# Editing sessions

The commands of an editor and whole sessions of them, with the checks of `CheckedEdits` in each
step.  No session fails a check, and after every step, those inside excursions included, the cursor
is on a character boundary and the stored index is the one of the text.
-/

namespace MarkupLayout

/-! ## Commands -/

namespace Buffer

def columnOf? (g : Grammar) (b : Buffer) (line : Nat) :
    Option (Except MalformedNesting (Option Nat)) :=
  if line ≤ 1 then some (.ok (some 0))
  else
    match b.lineStart? line with
    | none => some (.ok none)
    | some start => do
      let content ← b.lineText? line
      let column := Indentation.column g b.style (b.text.between 0 start)
        (content.any g.sigilLine.occursIn)
      return column.mapError fun mismatch => ⟨b.name, mismatch.line, mismatch.token⟩

/-- Writes an indentation over the one of a line that starts at `start`, unless they are equal. -/
def exchange? (b : Buffer) (start width : Nat) (current : Text) :
    Option (Buffer × IndentOutcome) :=
  let desired := b.style.write width
  if current = desired then some (b, .unchanged)
  else do
    let edited ← b.replace? start (start + current.byteSize) desired
    return (edited, .reindented (Text.width b.style.tabWidth current) width)

def setIndent? (b : Buffer) (line width : Nat) (moveCursor : Bool) :
    Option (Buffer × IndentOutcome) :=
  match b.lineStart? line with
  | none => some (b, .unchanged)
  | some start => do
    let current ← b.leadingOf? line
    let inIndent := decide (start ≤ b.cursor ∧ b.cursor ≤ start + current.byteSize)
    let (edited, outcome) ← b.exchange? start width current
    if moveCursor && inIndent then do
      let moved ← edited.setCursor? (start + (b.style.write width).byteSize)
      return (moved, outcome)
    else return (edited, outcome)

def applyColumn? (b : Buffer) (line : Nat) (column : Option Nat) (moveCursor : Bool) :
    Option (Buffer × IndentOutcome) :=
  match column with
  | none => some (b, .suppressed)
  | some width => b.setIndent? line width moveCursor

def indentTo? (g : Grammar) (b : Buffer) (line : Nat) (moveCursor : Bool) :
    Option (Except MalformedNesting (Buffer × IndentOutcome)) := do
  match ← b.columnOf? g line with
  | .error e => return .error e
  | .ok column =>
    let indented ← b.applyColumn? line column moveCursor
    return .ok indented

def indentLine? (g : Grammar) (b : Buffer) :
    Option (Except MalformedNesting (Buffer × IndentOutcome)) := do
  let line ← b.currentLine?
  b.indentTo? g line true

def indentInRegion? (g : Grammar) (b : Buffer) (line : Nat) :
    Option (Except MalformedNesting (Buffer × IndentOutcome)) := do
  let content ← b.lineText? line
  if (content.map Text.isBlank).getD true then
    let indented ← b.setIndent? line 0 false
    return .ok indented
  else b.indentTo? g line false

def indentLines? (g : Grammar) (b : Buffer) :
    List Nat → Option (Buffer × Except MalformedNesting (List (Nat × IndentOutcome)))
  | [] => some (b, .ok [])
  | line :: more => do
    match ← b.indentInRegion? g line with
    | .error e => return (b, .error e)
    | .ok (edited, outcome) =>
      let (last, outcomes) ← edited.indentLines? g more
      return (last, outcomes.map ((line, outcome) :: ·))

def indentRegion? (g : Grammar) (b : Buffer) (first last : Nat) :
    Option (Buffer × Except MalformedNesting (List (Nat × IndentOutcome))) :=
  let first := max first 1
  b.indentLines? g (List.range' first (min last b.index.length + 1 - first))

def moveTo? (b : Buffer) (destination : Outline.Destination) : Option Buffer :=
  let offset := match destination with
    | .line number => (b.lineStart? number).getD b.size
    | .start => 0
    | .stop => b.size
  let blanks := (b.text.between offset b.size).takeWhile Unicode.isBlank
  b.setCursor? (offset + Text.byteSize blanks)

/-- Moves to where a look at the text and the line of the cursor leads. -/
def jump? (b : Buffer) (find : Text → Nat → Outline.Destination) :
    Option (Buffer × Outline.Destination) := do
  let line ← b.currentLine?
  let destination := find b.text line
  let moved ← b.moveTo? destination
  return (moved, destination)

end Buffer

namespace Document

open Buffer

variable (g : Grammar) (doc : Document)

theorem columnOf?_buffer (line : Nat) :
    doc.buffer.columnOf? g line = some (doc.columnOf g line) := by
  by_cases hfirst : line ≤ 1
  · rw [Buffer.columnOf?, if_pos hfirst, columnOf, Indentation.columnOf, if_pos hfirst]
    rfl
  · rw [Buffer.columnOf?, if_neg hfirst, lineStart?_buffer]
    cases hstart : doc.text.lineStart? line with
    | none =>
        have hcount : doc.text.lineCount < line := by
          by_contra hle
          obtain ⟨below, hcut⟩ := Text.cutAtLine?_above (by omega) (Nat.le_of_not_lt hle)
          rw [Text.lineStart?_of_cutAtLine? hcut] at hstart
          simp at hstart
        rw [columnOf, Indentation.columnOf_of_lineCount_lt g doc.style (by omega) hcount]
        rfl
    | some start =>
        rw [columnOf_of_lineStart? g doc (by omega) hstart]
        simp only [lineText?_buffer, Option.bind_eq_bind, Option.bind_some]
        rfl

theorem exchange?_buffer (start width : Nat) (current : Text) :
    doc.buffer.exchange? start width current =
      if current = doc.style.write width then some (doc.buffer, .unchanged)
      else some ((doc.replace start (start + current.byteSize) (doc.style.write width)).buffer,
        .reindented (Text.width doc.style.tabWidth current) width) := by
  have hstyle : doc.buffer.style = doc.style := rfl
  simp only [Buffer.exchange?, hstyle, replace?_buffer, Option.bind_eq_bind, Option.bind_some]
  rfl

@[simp] theorem setIndent?_buffer (line width : Nat) (moveCursor : Bool) :
    doc.buffer.setIndent? line width moveCursor =
      some (withBuffer (doc.setIndent line width moveCursor)) := by
  have hcursor : doc.buffer.cursor = doc.cursor := rfl
  have hstyle : doc.buffer.style = doc.style := rfl
  cases hstart : doc.text.lineStart? line with
  | none => simp only [Buffer.setIndent?, setIndent, lineStart?_buffer, hstart, withBuffer]
  | some start =>
      simp only [Buffer.setIndent?, setIndent, lineStart?_buffer, hstart, leadingOf?_buffer,
        exchange?_buffer, hcursor, hstyle, Option.bind_eq_bind, Option.bind_some]
      by_cases hsame : doc.leadingOf line = doc.style.write width
      · simp only [if_pos hsame, Option.bind_some, setCursor?_buffer]
        split <;> rfl
      · simp only [if_neg hsame, Option.bind_some, setCursor?_buffer]
        split <;> rfl

theorem applyColumn?_buffer (line : Nat) (column : Option Nat) (moveCursor : Bool) :
    doc.buffer.applyColumn? line column moveCursor =
      some (withBuffer (doc.applyColumn line column moveCursor)) := by
  cases column with
  | none => rfl
  | some width => exact doc.setIndent?_buffer line width moveCursor

theorem indentTo?_buffer (line : Nat) (moveCursor : Bool) :
    doc.buffer.indentTo? g line moveCursor =
      some ((doc.columnOf g line).map fun column =>
        withBuffer (doc.applyColumn line column moveCursor)) := by
  rw [Buffer.indentTo?, columnOf?_buffer, Option.bind_eq_bind, Option.bind_some]
  cases doc.columnOf g line with
  | error e => rfl
  | ok column =>
      simp only [applyColumn?_buffer, Option.bind_eq_bind, Option.bind_some]
      rfl

theorem indentLine?_buffer :
    doc.buffer.indentLine? g = some ((doc.indentLine g).map withBuffer) := by
  rw [Buffer.indentLine?, currentLine?_buffer, Option.bind_eq_bind, Option.bind_some,
    indentTo?_buffer, indentLine]
  cases doc.columnOf g doc.currentLine <;> rfl

theorem indentInRegion?_buffer (line : Nat) :
    doc.buffer.indentInRegion? g line = some ((doc.indentInRegion g line).map withBuffer) := by
  rw [Buffer.indentInRegion?, lineText?_buffer, Option.bind_eq_bind, Option.bind_some,
    indentInRegion]
  change (if doc.isBlankLine line then _ else _) = _
  split
  · rw [setIndent?_buffer]
    rfl
  · rw [indentTo?_buffer]
    cases doc.columnOf g line <;> rfl

theorem indentLines?_buffer (lines : List Nat) :
    doc.buffer.indentLines? g lines = some (withBuffer (doc.indentLines g lines)) := by
  induction lines generalizing doc with
  | nil => rfl
  | cons line more ih =>
      rw [Buffer.indentLines?, indentInRegion?_buffer, Option.bind_eq_bind, Option.bind_some,
        indentLines]
      cases doc.indentInRegion g line with
      | error e => rfl
      | ok result =>
          simp only [Except.map, withBuffer, ih, Option.bind_eq_bind, Option.bind_some]
          rfl

theorem indentRegion?_buffer (first last : Nat) :
    doc.buffer.indentRegion? g first last = some (withBuffer (doc.indentRegion g first last)) :=
  doc.indentLines?_buffer g _

theorem moveTo?_buffer (destination : Outline.Destination) :
    doc.buffer.moveTo? destination = some (doc.moveTo destination).buffer := by
  cases destination with
  | line number =>
      simp only [Buffer.moveTo?, lineStart?_buffer, setCursor?_buffer]
      rfl
  | start => exact doc.setCursor?_buffer _
  | stop => exact doc.setCursor?_buffer _

theorem jump?_buffer (find : Text → Nat → Outline.Destination) :
    doc.buffer.jump? find = some (withBuffer (doc.moveTo (find doc.text doc.currentLine),
      find doc.text doc.currentLine)) := by
  simp only [Buffer.jump?, currentLine?_buffer, moveTo?_buffer, Option.bind_eq_bind,
    Option.bind_some]
  rfl

end Document

/-! ## Sessions -/

namespace Buffer

open Document (Action Result)

mutual

def perform? (g : Grammar) (b : Buffer) : Action → Option (Buffer × Result)
  | .setCursor offset => do
    let moved ← b.setCursor? offset
    return (moved, .nothing)
  | .gotoLine line => do
    let moved ← b.gotoLine? line
    return (moved, .nothing)
  | .replace start stop new => do
    let edited ← b.replace? start stop new
    return (edited, .nothing)
  | .indentLine => do
    match ← b.indentLine? g with
    | .error e => return (b, .failed e)
    | .ok (edited, outcome) => return (edited, .outcome outcome)
  | .indentRegion first last => do
    match ← b.indentRegion? g first last with
    | (edited, .error e) => return (edited, .failed e)
    | (edited, .ok outcomes) => return (edited, .outcomes outcomes)
  | .columnOf line => do
    match ← b.columnOf? g line with
    | .error e => return (b, .failed e)
    | .ok column => return (b, .number column)
  | .forward count => do
    let (moved, destination) ← b.jump? fun t line => Outline.forward g t line count
    return (moved, .destination destination)
  | .backward count => do
    let (moved, destination) ← b.jump? fun t line => Outline.backward g t line count
    return (moved, .destination destination)
  | .lineText line => do
    let content ← b.lineText? line
    return (b, .text content)
  | .lineStart line => some (b, .number (b.lineStart? line))
  | .lineAt offset => do
    let line ← b.lineAt? offset
    return (b, .number line)
  | .lineCount => some (b, .number b.index.length)
  | .between start stop => some (b, .text (b.text.between start stop))
  | .searchBackward pattern offset =>
    some (b, .found ((b.searchBackward pattern offset).map b.captures))
  | .searchForward pattern offset =>
    some (b, .found ((b.searchForward pattern offset).map b.captures))
  | .lookingAt pattern offset => some (b, .flag (b.lookingAt pattern offset))
  | .excursion actions => do
    let (moved, entries) ← b.excursion? fun inner => performAll? g inner actions
    return (moved, .entries entries)

def performAll? (g : Grammar) (b : Buffer) :
    List Action → Option (Buffer × List (Result × Document))
  | [] => some (b, [])
  | action :: more => do
    let (next, result) ← perform? g b action
    let (last, entries) ← performAll? g next more
    return (last, (result, next.toDocument) :: entries)

end

end Buffer

namespace Document

open Buffer

mutual

theorem perform?_buffer (g : Grammar) (doc : Document) :
    (action : Action) → doc.buffer.perform? g action = some (withBuffer (doc.perform g action))
  | .setCursor offset => by
      rw [Buffer.perform?, setCursor?_buffer]
      rfl
  | .gotoLine line => by
      rw [Buffer.perform?, gotoLine?_buffer]
      rfl
  | .replace start stop new => by
      rw [Buffer.perform?, replace?_buffer]
      rfl
  | .indentLine => by
      rw [Buffer.perform?, indentLine?_buffer, perform]
      cases doc.indentLine g <;> rfl
  | .indentRegion first last => by
      rw [Buffer.perform?, indentRegion?_buffer, perform]
      rcases doc.indentRegion g first last with ⟨edited, result⟩
      cases result <;> rfl
  | .columnOf line => by
      rw [Buffer.perform?, columnOf?_buffer, perform]
      cases doc.columnOf g line <;> rfl
  | .forward count => by
      rw [Buffer.perform?, jump?_buffer]
      rfl
  | .backward count => by
      rw [Buffer.perform?, jump?_buffer]
      rfl
  | .lineText line => by
      rw [Buffer.perform?, lineText?_buffer]
      rfl
  | .lineStart line => by
      rw [Buffer.perform?, lineStart?_buffer]
      rfl
  | .lineAt offset => by
      rw [Buffer.perform?, lineAt?_buffer]
      rfl
  | .lineCount => rfl
  | .between start stop => rfl
  | .searchBackward pattern offset => rfl
  | .searchForward pattern offset => rfl
  | .lookingAt pattern offset => rfl
  | .excursion actions => by
      have hinner := performAll?_buffer g doc actions
      rw [Buffer.perform?, perform,
        doc.excursion?_buffer (fun inner => performAll g inner actions) hinner]
      rfl

theorem performAll?_buffer (g : Grammar) (doc : Document) :
    (actions : List Action) →
      doc.buffer.performAll? g actions = some (withBuffer (doc.performAll g actions))
  | [] => rfl
  | action :: more => by
      have hmore := performAll?_buffer g (doc.perform g action).1 more
      rw [Buffer.performAll?, perform?_buffer g doc action, Option.bind_eq_bind, Option.bind_some]
      simp only [withBuffer, hmore, Option.bind_eq_bind, Option.bind_some]
      rfl

end

/-! ## What every step keeps -/

/-- What an operation keeps: the name, the style, and that the cursor is on a boundary. -/
structure Follows (doc next : Document) : Prop where
  name_eq : next.name = doc.name
  style_eq : next.style = doc.style
  boundary : doc.text.isBoundary doc.cursor = true → next.text.isBoundary next.cursor = true

namespace Follows

variable {doc next : Document}

theorem refl (doc : Document) : doc.Follows doc :=
  ⟨rfl, rfl, id⟩

theorem trans {last : Document} (h : doc.Follows next) (hlast : next.Follows last) :
    doc.Follows last :=
  ⟨hlast.name_eq.trans h.name_eq, hlast.style_eq.trans h.style_eq,
    fun hdoc => hlast.boundary (h.boundary hdoc)⟩

theorem setCursor (h : doc.Follows next) (offset : Nat) : doc.Follows (next.setCursor offset) :=
  h.trans ⟨rfl, rfl, fun _ => Text.isBoundary_snap next.text offset⟩

theorem replace (h : doc.Follows next) (start stop : Nat) (new : Text) :
    doc.Follows (next.replace start stop new) :=
  h.trans ⟨rfl, rfl, fun _ => Text.isBoundary_snap _ _⟩

end Follows

theorem follows_setIndent (doc : Document) (line width : Nat) (moveCursor : Bool) :
    doc.Follows (doc.setIndent line width moveCursor).1 := by
  have hdoc := Follows.refl doc
  cases hstart : doc.text.lineStart? line with
  | none => simpa only [setIndent, hstart] using hdoc
  | some start =>
      simp only [setIndent, hstart]
      by_cases hsame : doc.leadingOf line = doc.style.write width
      · simp only [if_pos hsame]
        split
        · exact hdoc.setCursor _
        · exact hdoc
      · simp only [if_neg hsame]
        split
        · exact (hdoc.replace _ _ _).setCursor _
        · exact hdoc.replace _ _ _

theorem follows_applyColumn (doc : Document) (line : Nat) (column : Option Nat)
    (moveCursor : Bool) : doc.Follows (doc.applyColumn line column moveCursor).1 := by
  cases column with
  | none => exact .refl doc
  | some width => exact doc.follows_setIndent line width moveCursor

theorem follows_indentInRegion {g : Grammar} {doc : Document} {line : Nat}
    {result : Document × IndentOutcome} (h : doc.indentInRegion g line = .ok result) :
    doc.Follows result.1 := by
  rw [indentInRegion] at h
  split at h
  · obtain rfl := Except.ok.inj h
    exact doc.follows_setIndent line 0 false
  · cases hcolumn : doc.columnOf g line with
    | error e =>
        rw [hcolumn] at h
        exact absurd h (by simp [bind, Except.bind])
    | ok column =>
        rw [hcolumn] at h
        obtain rfl := Except.ok.inj h
        exact doc.follows_applyColumn line column false

theorem follows_indentLines (g : Grammar) (doc : Document) (lines : List Nat) :
    doc.Follows (doc.indentLines g lines).1 := by
  induction lines generalizing doc with
  | nil => exact .refl doc
  | cons line more ih =>
      rw [indentLines]
      split
      · exact .refl doc
      · rename_i edited outcome hindent
        exact (follows_indentInRegion hindent).trans (ih edited)

mutual

theorem follows_perform (g : Grammar) (doc : Document) :
    (action : Action) → doc.Follows (doc.perform g action).1
  | .setCursor offset => (Follows.refl doc).setCursor offset
  | .gotoLine line => (Follows.refl doc).setCursor _
  | .replace start stop new => (Follows.refl doc).replace start stop new
  | .indentLine => by
      rw [perform, indentLine]
      cases doc.columnOf g doc.currentLine with
      | error e => exact .refl doc
      | ok column => exact doc.follows_applyColumn _ column true
  | .indentRegion first last => by
      have hlines := follows_indentLines g doc (doc.regionLines first last)
      rw [perform, indentRegion]
      rcases hresult : doc.indentLines g (doc.regionLines first last) with ⟨edited, result⟩
      rw [hresult] at hlines
      cases result <;> exact hlines
  | .columnOf line => by
      rw [perform]
      cases doc.columnOf g line <;> exact .refl doc
  | .forward count => (Follows.refl doc).setCursor _
  | .backward count => (Follows.refl doc).setCursor _
  | .lineText line => .refl doc
  | .lineStart line => .refl doc
  | .lineAt offset => .refl doc
  | .lineCount => .refl doc
  | .between start stop => .refl doc
  | .searchBackward pattern offset => .refl doc
  | .searchForward pattern offset => .refl doc
  | .lookingAt pattern offset => .refl doc
  | .excursion actions => (follows_performAll g doc actions).setCursor _

theorem follows_performAll (g : Grammar) (doc : Document) :
    (actions : List Action) → doc.Follows (doc.performAll g actions).1
  | [] => .refl doc
  | action :: more =>
      (follows_perform g doc action).trans (follows_performAll g (doc.perform g action).1 more)

end

end Document

/-- The buffers behind the steps of a session, those inside excursions included. -/
inductive Buffer.Reaches (g : Grammar) : Buffer → List Document.Action → Buffer → Prop
  | first {b next : Buffer} {action : Document.Action} {more : List Document.Action}
      {result : Document.Result} (h : b.perform? g action = some (next, result)) :
      Reaches g b (action :: more) next
  | later {b next reached : Buffer} {action : Document.Action} {more : List Document.Action}
      {result : Document.Result} (h : b.perform? g action = some (next, result))
      (hmore : Reaches g next more reached) : Reaches g b (action :: more) reached
  | inside {b reached : Buffer} {actions more : List Document.Action}
      (hinside : Reaches g b actions reached) : Reaches g b (.excursion actions :: more) reached

namespace Document

theorem exists_buffer_of_reaches {g : Grammar} {b reached : Buffer} {actions : List Action}
    (h : b.Reaches g actions reached) {doc : Document} (hb : b = doc.buffer) :
    ∃ next, reached = next.buffer ∧ doc.Follows next := by
  induction h generalizing doc with
  | @first b next action more result h =>
      rw [hb, perform?_buffer, Option.some.injEq] at h
      exact ⟨(doc.perform g action).1, (congrArg Prod.fst h).symm, follows_perform g doc action⟩
  | @later b next reached action more result h hmore ih =>
      rw [hb, perform?_buffer, Option.some.injEq] at h
      obtain ⟨last, hlast, hfollows⟩ := ih (congrArg Prod.fst h).symm
      exact ⟨last, hlast, (follows_perform g doc action).trans hfollows⟩
  | inside _ ih => exact ih hb

/-- A replacement puts the new text between what stands before and behind its ends, and a cursor
behind it keeps the text that follows it. -/
theorem replace?_spec {doc : Document} (hcursor : doc.text.isBoundary doc.cursor = true)
    (start stop : Nat) (new : Text) :
    ∃ before inside behind edited, doc.text = before ++ (inside ++ behind) ∧
      before.byteSize = doc.text.snap start ∧
      before.byteSize + inside.byteSize = doc.text.snap (max stop (doc.text.snap start)) ∧
      doc.buffer.replace? start stop new = some edited ∧ edited.text = before ++ new ++ behind ∧
      (before.byteSize + inside.byteSize ≤ doc.cursor → ∃ passed passed' kept,
        doc.text.cut? doc.cursor = some (passed, kept) ∧
        edited.text.cut? edited.cursor = some (passed', kept)) := by
  obtain ⟨before, inside, behind, htext, hfirst, hlast⟩ := doc.exists_parts_of_replace start stop
  have hnew := doc.text_replace_of_parts htext hfirst hlast new
  refine ⟨before, inside, behind, _, htext, hfirst.symm, hlast.symm, doc.replace?_buffer start stop
    new, hnew, fun hle => ?_⟩
  obtain ⟨passed, kept, hsplit, hsize⟩ := Text.isBoundary_iff.mp hcursor
  -- The cursor stands in what follows the replaced text.
  have hparts : (before ++ inside) ++ behind = passed ++ kept := by
    rw [List.append_assoc, ← htext, hsplit]
  obtain ⟨skipped, rfl, rfl⟩ := Text.exists_eq_append_of_byteSize_le hparts
    (by rw [Text.byteSize_append]; omega)
  have hafter : (doc.replace start stop new).text = (before ++ new ++ skipped) ++ kept := by
    rw [hnew, List.append_assoc _ skipped]
  have hcursor' := doc.cursor_replace_of_parts htext hfirst hlast hsize.symm new
  refine ⟨before ++ inside ++ skipped, before ++ new ++ skipped, kept, ?_, ?_⟩
  · rw [hsplit, ← hsize, Text.cut?_append]
  · change (doc.replace start stop new).text.cut? (doc.replace start stop new).cursor = _
    rw [hcursor', hafter, Text.cut?_append]

/-- Editing sessions keep a document consistent.  From a document with its cursor on a character
boundary, every session passes all checks and does what the unchecked session does.  Behind each of
its steps, and before the first, the cursor is within the text and on a boundary, the index is the
one of the text, name and style are those of the start, any action would pass its checks, and a
replacement would put its text between what stands before and behind its ends, without moving a
cursor behind it to other text. -/
theorem performAll?_consistent (g : Grammar) (doc : Document)
    (hcursor : doc.text.isBoundary doc.cursor = true) (actions : List Action) :
    doc.buffer.performAll? g actions = some (withBuffer (doc.performAll g actions)) ∧
    ∀ b, b = doc.buffer ∨ doc.buffer.Reaches g actions b →
      b.Consistent ∧ b.name = doc.name ∧ b.style = doc.style ∧
      (∀ action, (b.perform? g action).isSome = true) ∧
      ∀ start stop new, ∃ before inside behind edited,
        b.text = before ++ (inside ++ behind) ∧
        before.byteSize = b.text.snap start ∧
        before.byteSize + inside.byteSize = b.text.snap (max stop (b.text.snap start)) ∧
        b.replace? start stop new = some edited ∧ edited.text = before ++ new ++ behind ∧
        (before.byteSize + inside.byteSize ≤ b.cursor → ∃ passed passed' kept,
          b.text.cut? b.cursor = some (passed, kept) ∧
          edited.text.cut? edited.cursor = some (passed', kept)) := by
  refine ⟨performAll?_buffer g doc actions, fun b hb => ?_⟩
  obtain ⟨next, rfl, hfollows⟩ : ∃ next, b = next.buffer ∧ doc.Follows next := by
    rcases hb with rfl | hreached
    · exact ⟨doc, rfl, .refl doc⟩
    · exact exists_buffer_of_reaches hreached rfl
  have hboundary := hfollows.boundary hcursor
  refine ⟨⟨Text.le_byteSize_of_isBoundary hboundary, hboundary, rfl⟩, hfollows.name_eq,
    hfollows.style_eq, fun action => ?_, replace?_spec hboundary⟩
  rw [perform?_buffer]
  rfl

theorem performAll?_consistent_nested :
    ((ofText "a" "é(\nb".toList .default).buffer.performAll? .markdown
      [.setCursor 1, .replace 9 1 "*".toList,
        .excursion [.gotoLine 9, .indentRegion 1 9]]).isSome = true := by
  obtain ⟨hrun, -⟩ := performAll?_consistent .markdown (ofText "a" "é(\nb".toList .default)
    (by decide) [.setCursor 1, .replace 9 1 "*".toList,
      .excursion [.gotoLine 9, .indentRegion 1 9]]
  rw [hrun]
  rfl

end Document

end MarkupLayout
