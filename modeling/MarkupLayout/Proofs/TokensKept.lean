import MarkupLayout.Proofs.IndentedScan
import MarkupLayout.Proofs.LiteralLines
import MarkupLayout.Proofs.StableLayout
/-!
# What indenting keeps

Indenting a text keeps its tokens, spaces apart, exactly if every line that is rewritten starts
outside literals.  The lines are exchanged one by one from the top: as long as no line in a literal
has been touched, the lines above show the same tokens as before, whatever stands below them, and
the first one that is touched changes the content of its literal.

Two kinds of lines in literals are rewritten: blank lines, which become empty without a look at what
is above them, and lines below an anchor in code that is embedded in a string.
-/

namespace MarkupLayout

/-- Texts that show the same tokens, whatever stands below them. -/
def Text.SeenAlike (g : Grammar) (above above' : Text) : Prop :=
  ∀ r, Text.visiblePieces g (above ++ r) = Text.visiblePieces g (above' ++ r)

namespace Text

variable {g : Grammar} {above above' line line' below : Text}

namespace SeenAlike

theorem refl (g : Grammar) (above : Text) : SeenAlike g above above :=
  fun _ => rfl

theorem isOpenAfter_eq (h : SeenAlike g above above') :
    Literal.isOpenAfter g above = Literal.isOpenAfter g above' := by
  apply Literal.isOpenAfter_congr
  have hnil := h []
  rwa [List.append_nil, List.append_nil] at hnil

theorem visiblePieces_line (h : SeenAlike g above above') (hg : g.LineEmbedding)
    (habove : above.IsWhole)
    (hcontent : line.dropWhile isIndentChar = line'.dropWhile isIndentChar)
    (hkept : line = line' ∨ Literal.isOpenAfter g above = false) (hbelow : below.StartsVisibly) :
    visiblePieces g (above ++ (line ++ below)) = visiblePieces g (above' ++ (line' ++ below)) := by
  rcases hkept with rfl | hclosed
  · exact h _
  · have hvisible := startsVisibly_dropWhile_append line' hbelow
    calc
      visiblePieces g (above ++ (line ++ below)) =
          visiblePieces g (above ++ (line.leading ++ (line'.dropWhile isIndentChar ++ below))) := by
        rw [← hcontent, ← List.append_assoc line.leading, leading_append]
      _ = visiblePieces g (above ++ (line'.dropWhile isIndentChar ++ below)) :=
        visiblePieces_indent_of_closed hg habove hclosed (all_isIndentChar_leading line) hvisible
      _ = visiblePieces g (above ++ (line'.leading ++ (line'.dropWhile isIndentChar ++ below))) :=
        (visiblePieces_indent_of_closed hg habove hclosed (all_isIndentChar_leading line')
          hvisible).symm
      _ = visiblePieces g (above ++ (line' ++ below)) := by
        rw [← List.append_assoc line'.leading, leading_append]
      _ = visiblePieces g (above' ++ (line' ++ below)) := h _

theorem eq_of_visiblePieces_line (h : SeenAlike g above above') (hg : g.SoundEmbedding)
    (habove : above'.IsWhole) (hopen : Literal.isOpenAfter g above' = true)
    (hcontent : line.dropWhile isIndentChar = line'.dropWhile isIndentChar) {below' : Text}
    (hbelow : below.StartsVisibly) (hbelow' : below'.StartsVisibly)
    (heq : visiblePieces g (above ++ (line ++ below)) =
      visiblePieces g (above' ++ (line' ++ below'))) : line = line' := by
  rw [h, ← line.leading_append, ← line'.leading_append, List.append_assoc, List.append_assoc]
    at heq
  have hleading := eq_of_visiblePieces_eq_of_open hg habove hopen (all_isIndentChar_leading line)
    (all_isIndentChar_leading line') (startsVisibly_dropWhile_append line hbelow)
    (startsVisibly_dropWhile_append line' hbelow') heq
  rw [← line.leading_append, hleading, hcontent, leading_append]

theorem concat {ls ls' : List Text} (h : SeenAlike g (wholeLines ls) (wholeLines ls'))
    (hg : g.LineEmbedding)
    (hcontent : line.dropWhile isIndentChar = line'.dropWhile isIndentChar)
    (hkept : line = line' ∨ Literal.isOpenAfter g (wholeLines ls) = false) :
    SeenAlike g (wholeLines (ls ++ [line])) (wholeLines (ls' ++ [line'])) := by
  intro r
  have hbelow : StartsVisibly ('\n' :: r) := by
    intro c hc
    obtain rfl : '\n' = c := by simpa using hc
    rfl
  have hline := h.visiblePieces_line hg (isWhole_wholeLines ls) hcontent hkept hbelow
  simpa [wholeLines_append, List.append_assoc] using hline

end SeenAlike

theorem above_of_lines {t : Text} {ls more : List Text} (h : t.lines = ls ++ line :: more) :
    t.above (ls.length + 1) = wholeLines ls :=
  above_of_cutAtLine? (cutAtLine?_of_lines h)

end Text

/-! ## Lines -/

namespace Indentation.Indents

open Text (SeenAlike wholeLines visiblePieces)

variable {g : Grammar} {style : IndentStyle} {above above' old new : List Text}
  {outcomes : List IndentOutcome} {t : Text}

theorem visiblePieces_eq_iff (hg : g.SoundEmbedding)
    (h : Indents g style above old new outcomes)
    (hseen : SeenAlike g (wholeLines above) (wholeLines above')) (ht : t.lines = above' ++ old) :
    visiblePieces g (wholeLines above ++ ['\n'].intercalate new) =
        visiblePieces g (wholeLines above' ++ ['\n'].intercalate old) ↔
      ∀ entry ∈ (List.range' (above'.length + 1) old.length).zip outcomes,
        entry.2.isReindented = true → Literal.isOpenAfter g (t.above entry.1) = false := by
  induction h generalizing above' with
  | nil above => simpa using hseen []
  | @cons above old new line column outcomes hcolumn hmore ih =>
      have hcontent := style.dropWhile_reindented line column
      have hchanged := style.outcomeOf_isReindented_iff line column
      rw [List.length_cons, List.range'_succ, List.zip_cons_cons, List.forall_mem_cons,
        Text.above_of_lines ht, hchanged]
      by_cases hkept : style.reindented line column ≠ line →
          Literal.isOpenAfter g (wholeLines above') = false
      · have hline : style.reindented line column = line ∨
            Literal.isOpenAfter g (wholeLines above) = false := by
          rw [hseen.isOpenAfter_eq]
          exact Decidable.or_iff_not_imp_left.mpr hkept
        have hnext := hseen.concat hg.toLineEmbedding hcontent hline
        have hlater := ih hnext (by rw [ht, List.append_assoc]; rfl)
        rw [List.length_append, List.length_singleton] at hlater
        rw [and_iff_right hkept, ← hlater]
        cases hmore with
        | nil =>
            -- The last line has no line feed behind it.
            have hlast := hseen.visiblePieces_line hg.toLineEmbedding
              (Text.isWhole_wholeLines above) hcontent hline Text.startsVisibly_nil
            exact iff_of_true (by simpa using hlast) (hnext [])
        | cons =>
            rw [← Text.intercalate_append_cons, ← Text.intercalate_append_cons,
              ← Text.intercalate_append_cons, ← Text.intercalate_append_cons, List.append_assoc,
              List.append_assoc]
            rfl
      · rw [Classical.not_imp, Bool.not_eq_false] at hkept
        obtain ⟨hother, hopen⟩ := hkept
        obtain ⟨below, hbelow, hlines⟩ := Text.exists_below new
        obtain ⟨below', hbelow', hlines'⟩ := Text.exists_below old
        rw [hlines, hlines']
        constructor
        · intro heq
          exact absurd (hseen.eq_of_visiblePieces_line hg (Text.isWhole_wholeLines above') hopen
            hcontent hbelow hbelow' heq) hother
        · intro hclosed
          rw [hclosed.1 hother] at hopen
          simp at hopen

theorem isOpenAfter_eq_false_of_either (hg : g.LineEmbedding)
    (h : Indents g style above old new outcomes)
    (hseen : SeenAlike g (wholeLines above) (wholeLines above')) (ht : t.lines = above' ++ old)
    {u : Text} (hu : u.lines = above ++ new)
    (heither : ∀ entry ∈ (List.range' (above'.length + 1) old.length).zip outcomes,
      entry.2.isReindented = true →
        Literal.isOpenAfter g (t.above entry.1) = false ∨
          Literal.isOpenAfter g (u.above entry.1) = false)
    (hlength : above.length = above'.length) :
    ∀ entry ∈ (List.range' (above'.length + 1) old.length).zip outcomes,
      entry.2.isReindented = true → Literal.isOpenAfter g (t.above entry.1) = false := by
  induction h generalizing above' with
  | nil => simp
  | @cons above old new line column outcomes hcolumn hmore ih =>
      have hcontent := style.dropWhile_reindented line column
      have hchanged := style.outcomeOf_isReindented_iff line column
      rw [List.length_cons, List.range'_succ, List.zip_cons_cons, List.forall_mem_cons] at heither ⊢
      have habove := Text.above_of_lines hu
      rw [hlength] at habove
      rw [Text.above_of_lines ht, habove, hseen.isOpenAfter_eq, or_self, hchanged] at heither
      rw [Text.above_of_lines ht, hchanged]
      have hline : style.reindented line column = line ∨
          Literal.isOpenAfter g (wholeLines above) = false := by
        rw [hseen.isOpenAfter_eq]
        exact Decidable.or_iff_not_imp_left.mpr heither.1
      have hlater := ih (hseen.concat hg hcontent hline) (by rw [ht, List.append_assoc]; rfl)
        (by rw [hu, List.append_assoc]; rfl)
      simp only [List.length_append, List.length_singleton, Nat.add_right_cancel_iff] at hlater
      exact ⟨heither.1, hlater heither.2 hlength⟩

theorem exists_of_mem_zip (h : Indents g style above old new outcomes) {entry : Nat × IndentOutcome}
    (hentry : entry ∈ (List.range' (above.length + 1) old.length).zip outcomes) :
    ∃ before line more before' more' column,
      old = before ++ line :: more ∧ new = before' ++ style.reindented line column :: more' ∧
      before'.length = before.length ∧
      entry = (above.length + before.length + 1, style.outcomeOf line column) ∧
      columnBelow g style (above ++ before') line = .ok column := by
  obtain ⟨i, hi, rfl⟩ := List.mem_iff_getElem.mp hentry
  simp only [List.length_zip, List.length_range', Nat.lt_min] at hi
  have hsplit : old = old.take i ++ old[i] :: old.drop (i + 1) := by
    rw [← List.drop_eq_getElem_cons, List.take_append_drop]
  have hlength : (old.take i).length = i := List.length_take_of_le (by omega)
  obtain ⟨before', more', column, hnew, hbefore, houtcome, hcolumn⟩ := h.exists_columnBelow hsplit
  refine ⟨_, _, _, before', more', column, hsplit, hnew, hbefore, ?_, hcolumn⟩
  rw [hlength, List.getElem?_eq_getElem hi.2, Option.some.injEq] at houtcome
  rw [List.getElem_zip, List.getElem_range', houtcome, hlength, Prod.mk.injEq]
  exact ⟨by omega, rfl⟩

end Indentation.Indents

/-! ## Texts -/

theorem Literal.isOpenAfter_nil (g : Grammar) : isOpenAfter g [] = false := by
  rw [isOpenAfter, tokenize, scan, scanFrom_nil]
  rfl

namespace Document

open Indentation (Indents columnBelow)

variable {doc : Document} {out : Text} {outcomes : List (Nat × IndentOutcome)}

theorem visiblePieces_eq_iff_of_reindent {g : Grammar} (hg : g.SoundEmbedding)
    (h : Command.reindent g doc = .ok (out, outcomes)) :
    out.visiblePieces g = doc.text.visiblePieces g ↔
      ∀ entry ∈ outcomes, entry.2.isReindented = true →
        Literal.isOpenAfter g (doc.text.above entry.1) = false := by
  obtain ⟨results, hindents, rfl⟩ := exists_indents_of_reindent h
  have hiff := hindents.visiblePieces_eq_iff hg (Text.SeenAlike.refl g _) (List.nil_append _).symm
  rwa [Text.wholeLines_nil, List.nil_append, List.nil_append, Text.intercalate_lines,
    Text.intercalate_lines] at hiff

theorem isOpenAfter_above_of_reindented {g : Grammar} (hv : g.VisibleSigils)
    (hg : g.SoundEmbedding) (h : Command.reindent g doc = .ok (out, outcomes))
    (hblank : ∀ line, doc.isBlankLine line = true → doc.leadingOf line ≠ [] →
      Literal.isOpenAfter g (doc.text.above line) = false)
    (hanchor : ∀ line a, Indentation.anchor? g (out.above line) = some a → a.inCode g = false) :
    ∀ entry ∈ outcomes, entry.2.isReindented = true →
      Literal.isOpenAfter g (doc.text.above entry.1) = false := by
  obtain ⟨results, hindents, rfl⟩ := exists_indents_of_reindent h
  refine hindents.isOpenAfter_eq_false_of_either hg.toLineEmbedding (Text.SeenAlike.refl g _)
    (List.nil_append _).symm (List.nil_append _).symm ?_ rfl
  intro entry hentry hreindented
  obtain ⟨before, line, more, before', more', column, hlines, hnew, hlength, rfl, hcolumn⟩ :=
    hindents.exists_of_mem_zip hentry
  have habove : out.above (before.length + 1) = Text.wholeLines before' := by
    rw [← hlength]
    exact Text.above_of_lines hnew
  simp only [List.length_nil, Nat.zero_add, List.nil_append] at hcolumn hreindented ⊢
  rw [habove]
  unfold columnBelow at hcolumn
  split at hcolumn
  · rename_i hfirst
    obtain rfl := Except.ok.inj hcolumn
    rcases (Bool.or_eq_true _ _).mp hfirst with hvisible | hempty
    · left
      apply hblank
      · rwa [isBlankLine, Text.lineText?_of_lines hlines]
      · rw [leadingOf_of_lines hlines]
        intro hleading
        rw [IndentStyle.outcomeOf, if_pos (by rw [hleading, IndentStyle.write_zero])] at hreindented
        simp [IndentOutcome.isReindented] at hreindented
    · right
      rw [List.isEmpty_iff.mp hempty, Text.wholeLines_nil, Literal.isOpenAfter_nil]
  · right
    have hwhole := Text.isWhole_wholeLines before'
    rw [← Indentation.isOpenAfter_span hv hg fun a ha => hanchor _ a (habove ▸ ha)]
    by_contra hopen
    rw [Bool.not_eq_false] at hopen
    rw [(Indentation.column_eq_none_iff hv hg _ hwhole _).mpr hopen] at hcolumn
    obtain rfl := Except.ok.inj hcolumn
    simp [IndentStyle.outcomeOf, IndentOutcome.isReindented] at hreindented

/-- Indenting a text keeps its tokens, spaces apart, exactly if every line that is rewritten starts
outside literals.  In particular it keeps them if the blank lines in literals are not indented and
no anchor stands in code embedded in a string. -/
theorem reindent_keeps_tokens_iff (name : String) (text out : Text) (style : IndentStyle)
    (outcomes : List (Nat × IndentOutcome))
    (h : Command.reindent .markdown (ofText name text style) = .ok (out, outcomes)) :
    (Token.visible (tokenize .markdown out 1) = Token.visible (tokenize .markdown text 1) ↔
      ∀ entry ∈ outcomes, entry.2.isReindented = true →
        Literal.isOpenAfter .markdown (text.above entry.1) = false) ∧
    ((∀ line, (ofText name text style).isBlankLine line = true →
        (ofText name text style).leadingOf line ≠ [] →
        Literal.isOpenAfter .markdown (text.above line) = false) →
      (∀ line a, Indentation.anchor? .markdown (out.above line) = some a →
        a.inCode .markdown = false) →
      Token.visible (tokenize .markdown out 1) = Token.visible (tokenize .markdown text 1)) := by
  rw [Token.visible_tokenize, Token.visible_tokenize]
  have hiff := visiblePieces_eq_iff_of_reindent Grammar.markdown_soundEmbedding h
  refine ⟨hiff, fun hblank hanchor => hiff.mpr ?_⟩
  exact isOpenAfter_above_of_reindented Grammar.markdown_visibleSigils
    Grammar.markdown_soundEmbedding h hblank hanchor

theorem reindent_keeps_tokens_iff_item :
    Token.visible (tokenize .markdown "* a\n  b\n  ```\n c\n".toList 1) =
        Token.visible (tokenize .markdown "* a\nb\n```\n c\n".toList 1) ∧
      Token.visible (tokenize .markdown "* a\n  b".toList 1) =
        Token.visible (tokenize .markdown "* a\nb".toList 1) := by
  constructor
  · exact (reindent_keeps_tokens_iff "a" "* a\nb\n```\n c\n".toList
      "* a\n  b\n  ```\n c\n".toList .default [(1, .unchanged), (2, .reindented 0 2),
        (3, .reindented 0 2), (4, .suppressed), (5, .unchanged)] (by decide +kernel)).1.mpr
      (by decide +kernel)
  · refine (reindent_keeps_tokens_iff "a" "* a\nb".toList "* a\n  b".toList .default
      [(1, .unchanged), (2, .reindented 0 2)] (by decide +kernel)).2 ?_ ?_
    · intro line _ hleading
      rcases line with _ | _ | _ | line
      all_goals exact absurd rfl hleading
    · intro line a ha
      have hcode : (Indentation.anchor? .markdown (Text.above "* a\n  b".toList line)).all
          (!·.inCode .markdown) = true := by
        rcases line with _ | _ | _ | line
        · decide +kernel
        · decide +kernel
        · decide +kernel
        · change (Indentation.anchor? .markdown []).all _ = true
          decide +kernel
      rw [ha] at hcode
      simpa using hcode

/-- A blank line in a fenced block is emptied. -/
theorem reindent_changes_tokens_in_fence :
    ¬∀ (name : String) (text out : Text) (style : IndentStyle)
        (outcomes : List (Nat × IndentOutcome)),
      Command.reindent .markdown (ofText name text style) = .ok (out, outcomes) →
      Token.visible (tokenize .markdown out 1) = Token.visible (tokenize .markdown text 1) := by
  intro h
  have hkept := h "a" "```\n  \n```\n".toList "```\n\n```\n".toList .default
    [(1, .unchanged), (2, .reindented 2 0), (3, .suppressed), (4, .unchanged)] (by decide +kernel)
  revert hkept
  decide +kernel

end Document

end MarkupLayout
