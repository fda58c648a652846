import MarkupLayout.Proofs.Frames
/-!
# What encloses a token

Literals and the code embedded in strings enclose each other.  A stack that takes in what begins
and drops its top at what ends is never surprised by the tokens of a text: every end finds on top
what it ends, and inside a literal stands nothing but its content, the code embedded in it and its
end.  The one other token there is the line break behind the opening line of a fence.

The stack is the scanner's own.  Behind a step it holds two entries for each string whose embedded
code is being read, unless the text ends inside a literal, and then no step follows.
-/

namespace MarkupLayout

open ScanStep (LiteralBody Shape)

inductive Enclosure where
  | literal (kind : LiteralKind)
  | embedded
deriving DecidableEq, Repr

namespace Enclosure

/-- The enclosures behind a token, innermost first.  An end drops the innermost one unseen. -/
def pass (stack : List Enclosure) : TokenKind → List Enclosure
  | .literalBegin kind => .literal kind :: stack
  | .openBracket .interpolationBegin => .embedded :: stack
  | .literalEnd _ | .closeBracket .interpolationEnd => stack.tail
  | _ => stack

/-- Neither literal nor string is innermost: there is code. -/
def InCode (stack : List Enclosure) : Prop :=
  stack = [] ∨ stack.head? = some .embedded

/-- Whether a token of a kind may stand inside `stack` and directly behind a token of the kind
`previous`. -/
def Admits (stack : List Enclosure) (previous : Option TokenKind) : TokenKind → Prop
  | .literalEnd kind => stack.head? = some (.literal kind)
  | .closeBracket .interpolationEnd => stack.head? = some .embedded
  | .literalContent => ∃ kind, stack.head? = some (.literal kind)
  | .openBracket .interpolationBegin => stack.head? = some (.literal .quote)
  | .newline => InCode stack ∨ previous = some (.literalBegin .fence)
  | _ => InCode stack

def AdmitsAll : List Enclosure → Option TokenKind → List TokenKind → Prop
  | _, _, [] => True
  | stack, previous, kind :: more =>
    Admits stack previous kind ∧ AdmitsAll (pass stack kind) (some kind) more

variable {stack : List Enclosure} {previous : Option TokenKind} {kind : TokenKind}

theorem admits_of_isPlain (h : kind.isPlain = true) (hcode : InCode stack)
    (previous : Option TokenKind) : Admits stack previous kind := by
  cases kind <;> simp_all [TokenKind.isPlain, Admits]

theorem pass_of_isPlain (h : kind.isPlain = true) (stack : List Enclosure) :
    pass stack kind = stack := by
  cases kind <;> simp_all [TokenKind.isPlain, pass]

theorem admitsAll_append (stack : List Enclosure) (previous : Option TokenKind)
    (left right : List TokenKind) :
    AdmitsAll stack previous (left ++ right) ↔
      AdmitsAll stack previous left ∧
        AdmitsAll (left.foldl pass stack) (left.getLast?.or previous) right := by
  induction left generalizing stack previous with
  | nil => simp [AdmitsAll]
  | cons kind left ih =>
      have hlast : (kind :: left).getLast?.or previous = left.getLast?.or (some kind) := by
        rw [List.getLast?_cons]
        cases left.getLast? <;> rfl
      rw [List.cons_append, AdmitsAll, ih, AdmitsAll, List.foldl_cons, hlast, and_assoc]

theorem foldl_pass_pieceOf (h : pass stack kind = stack) (text : Text) :
    ((pieceOf kind text).map Piece.kind).foldl pass stack = stack := by
  unfold pieceOf
  split
  · rfl
  · exact h

theorem admitsAll_pieceOf (h : Admits stack previous kind) (text : Text) :
    AdmitsAll stack previous ((pieceOf kind text).map Piece.kind) := by
  unfold pieceOf
  split
  · trivial
  · exact ⟨h, trivial⟩

/-- The enclosures of code that is embedded in strings, one string for each embedding. -/
def around (embeddings : List Embedding) : List Enclosure :=
  embeddings.flatMap fun _ => [.embedded, .literal .quote]

theorem around_congr {embeddings embeddings' : List Embedding}
    (h : embeddings.map Embedding.quote = embeddings'.map Embedding.quote) :
    around embeddings = around embeddings' := by
  have hmap (embeddings : List Embedding) : around embeddings =
      (embeddings.map Embedding.quote).flatMap fun _ => [.embedded, .literal .quote] := by
    rw [List.flatMap_map]
    rfl
  rw [hmap, h, hmap]

theorem inCode_around (embeddings : List Embedding) : InCode (around embeddings) := by
  cases embeddings with
  | nil => exact .inl rfl
  | cons => exact .inr rfl

def frame : Enclosure → Literal.Frame
  | literal _ => .literal
  | embedded => .embedded

theorem map_frame_pass (h : Admits stack previous kind) :
    Literal.pass (stack.map frame) kind = (pass stack kind).map frame := by
  cases kind with
  | openBracket kind => cases kind <;> rfl
  | literalEnd kind =>
      obtain ⟨outer, rfl⟩ := List.head?_eq_some_iff.mp h
      rfl
  | closeBracket kind =>
      cases kind with
      | interpolationEnd =>
          obtain ⟨outer, rfl⟩ := List.head?_eq_some_iff.mp h
          rfl
      | _ => rfl
  | _ => rfl

theorem foldl_map_frame {kinds : List TokenKind} (h : AdmitsAll stack previous kinds) :
    kinds.foldl Literal.pass (stack.map frame) = (kinds.foldl pass stack).map frame := by
  induction kinds generalizing stack previous with
  | nil => rfl
  | cons kind kinds ih => rw [List.foldl_cons, map_frame_pass h.1, ih h.2, List.foldl_cons]

end Enclosure

open Enclosure (pass InCode Admits AdmitsAll around)

/-! ## One step -/

namespace ScanStep

variable {g : Grammar} {ctx : ScanContext} {isOpen : Bool} {step : ScanStep}

section Body

variable {kind : LiteralKind} {embeddings : List Embedding} {depth : Nat}

theorem LiteralBody.admitsAll (h : LiteralBody g kind embeddings depth isOpen step)
    (stack : List Enclosure) (previous : Option TokenKind) :
    AdmitsAll (.literal kind :: stack) previous (step.pieces.map Piece.kind) := by
  have content (text : Text) : AdmitsAll (.literal kind :: stack) previous
      ((pieceOf .literalContent text).map Piece.kind) := by
    apply Enclosure.admitsAll_pieceOf
    exact ⟨kind, rfl⟩
  cases h with
  | unclosed text => exact content text
  | closed text closing rest _ _ =>
      rw [List.map_append, Enclosure.admitsAll_append, Enclosure.foldl_pass_pieceOf rfl]
      exact ⟨content text, rfl, trivial⟩
  | embeds text rest q hkind _ _ =>
      rw [List.map_append, Enclosure.admitsAll_append, Enclosure.foldl_pass_pieceOf rfl, hkind]
      exact ⟨hkind ▸ content text, rfl, trivial⟩

theorem LiteralBody.foldl_enclosures (h : LiteralBody g kind embeddings depth false step) :
    (step.pieces.map Piece.kind).foldl pass (.literal kind :: around embeddings) =
      around step.embeddings := by
  cases h with
  | closed text closing rest _ _ =>
      rw [List.map_append, List.foldl_append, Enclosure.foldl_pass_pieceOf rfl]
      rfl
  | embeds text rest q hkind _ _ =>
      rw [List.map_append, List.foldl_append, Enclosure.foldl_pass_pieceOf rfl, hkind]
      rfl

end Body

theorem Shape.admitsAll (hg : ∀ pair ∈ g.brackets, pair.kind ≠ .interpolationBegin)
    (h : Shape g ctx isOpen step) (previous : Option TokenKind) :
    AdmitsAll (around ctx.embeddings) previous (step.pieces.map Piece.kind) := by
  have hcode := Enclosure.inCode_around ctx.embeddings
  cases h with
  | plain piece rest hfits => exact ⟨Enclosure.admits_of_isPlain hfits.plain hcode _, trivial⟩
  | opens kind declared c rest embeddings hdeclared hkind _ _ =>
      have hne := Grammar.ne_interpolationBegin_of_opening? hg hdeclared hkind
      refine ⟨?_, trivial⟩
      cases kind with
      | interpolationBegin => exact absurd rfl hne
      | _ => exact hcode
  | closes kind c rest embeddings hdeclared _ _ =>
      have hne := Grammar.ne_interpolationBegin_of_closing? hg hdeclared
      refine ⟨?_, trivial⟩
      cases kind with
      | interpolationBegin => exact absurd rfl hne
      | _ => exact hcode
  | resumes e outer c body hembeddings _ hbody =>
      rw [hembeddings]
      exact ⟨rfl, hbody.admitsAll _ _⟩
  | literal kind blank opening gap body _ _ _ hgap hbody =>
      rw [List.map_append, Enclosure.admitsAll_append, Enclosure.foldl_pass_pieceOf rfl]
      refine ⟨?_, hcode, ?_⟩
      · exact Enclosure.admitsAll_pieceOf (Enclosure.admits_of_isPlain rfl hcode _) blank
      rw [List.map_append, Enclosure.admitsAll_append, Enclosure.foldl_pass_pieceOf rfl]
      refine ⟨?_, hbody.admitsAll _ _⟩
      -- Only a fence has a line break between its opening line and its content.
      rcases hgap with ⟨rfl, -⟩ | ⟨-, rfl⟩
      · apply Enclosure.admitsAll_pieceOf
        exact .inr rfl
      · trivial

theorem Shape.foldl_enclosures (hg : ∀ pair ∈ g.brackets, pair.kind ≠ .interpolationBegin)
    (h : Shape g ctx false step) :
    (step.pieces.map Piece.kind).foldl pass (around ctx.embeddings) = around step.embeddings := by
  cases h with
  | plain piece rest hfits => exact Enclosure.pass_of_isPlain hfits.plain _
  | opens kind declared c rest embeddings hdeclared hkind _ hquotes =>
      have hne := Grammar.ne_interpolationBegin_of_opening? hg hdeclared hkind
      rw [← Enclosure.around_congr hquotes]
      cases kind with
      | interpolationBegin => exact absurd rfl hne
      | _ => rfl
  | closes kind c rest embeddings hdeclared _ hquotes =>
      have hne := Grammar.ne_interpolationBegin_of_closing? hg hdeclared
      rw [← Enclosure.around_congr hquotes]
      cases kind with
      | interpolationBegin => exact absurd rfl hne
      | _ => rfl
  | resumes e outer c body hembeddings _ hbody =>
      rw [hembeddings]
      exact hbody.foldl_enclosures
  | literal kind blank opening gap body _ _ _ _ hbody =>
      rw [← hbody.foldl_enclosures, List.map_append, List.foldl_append,
        Enclosure.foldl_pass_pieceOf rfl, List.map_cons, List.foldl_cons, List.map_append,
        List.foldl_append, Enclosure.foldl_pass_pieceOf rfl]
      rfl

end ScanStep

/-! ## A whole text -/

theorem admitsAll_scanFrom {g : Grammar}
    (hg : ∀ pair ∈ g.brackets, pair.kind ≠ .interpolationBegin) {ctx : ScanContext}
    (hctx : ctx.WellQuoted) (t : Text) (previous : Option TokenKind) :
    AdmitsAll (around ctx.embeddings) previous ((scanFrom g ctx t).map Piece.kind) := by
  induction ctx, t using scan_induction g generalizing previous with
  | nil ctx =>
      rw [scanFrom_nil]
      trivial
  | cons ctx c rest ih =>
      obtain ⟨isOpen, hshape⟩ := ctx.step_shape g hctx c rest
      rw [scanFrom_cons, List.map_append, Enclosure.admitsAll_append]
      refine ⟨hshape.admitsAll hg previous, ?_⟩
      cases isOpen with
      | true =>
          -- The text ends inside a literal.
          rw [hshape.rest_eq_nil, scanFrom_nil]
          trivial
      | false =>
          rw [hshape.foldl_enclosures hg]
          exact ih (hshape.wellQuoted_advance hctx) _

theorem admits_of_tokenize {g : Grammar}
    (hg : ∀ pair ∈ g.brackets, pair.kind ≠ .interpolationBegin) {t : Text} {firstLine : Nat}
    {before behind : List Token} {token : Token}
    (h : tokenize g t firstLine = before ++ token :: behind) :
    AdmitsAll [] none (before.map Token.kind) ∧
      Admits ((before.map Token.kind).foldl pass []) (before.getLast?.map Token.kind)
        token.kind := by
  have hall := admitsAll_scanFrom hg ScanContext.wellQuoted_initial t none
  have hkinds : (scanFrom g .initial t).map Piece.kind =
      before.map Token.kind ++ token.kind :: behind.map Token.kind := by
    rw [← List.map_cons, ← List.map_append, ← h, tokenize, Token.map_kind_place, scan]
  rw [hkinds, Enclosure.admitsAll_append] at hall
  obtain ⟨hbefore, htoken, -⟩ := hall
  refine ⟨hbefore, ?_⟩
  rwa [Option.or_none, List.getLast?_map] at htoken

/-- Literals hide structure.  With the stack of what encloses it, every token of a text stands
where it may: an end of a literal or of embedded code finds on top what it ends, content finds a
literal there, embedded code begins in a quoted string, and any other token has nothing around it
or embedded code next to it, but for the line break directly behind the opening of a fence.  So the
stack is also what the frames of the text before the token say. -/
theorem tokenize_literals_hide_structure {g : Grammar}
    (hg : ∀ pair ∈ g.brackets, pair.kind ≠ .interpolationBegin) (t : Text) (firstLine : Nat)
    (before : List Token) (token : Token) (behind : List Token)
    (h : tokenize g t firstLine = before ++ token :: behind) :
    Admits ((before.map Token.kind).foldl pass []) (before.getLast?.map Token.kind) token.kind ∧
      Literal.openFrames (before.map Token.kind) =
        ((before.map Token.kind).foldl pass []).map Enclosure.frame := by
  obtain ⟨hbefore, htoken⟩ := admits_of_tokenize hg h
  exact ⟨htoken, Enclosure.foldl_map_frame hbefore⟩

theorem tokenize_literals_hide_structure_string_fence :
    Admits [.embedded, .literal .quote] (some .text) (.closeBracket .interpolationEnd) ∧
      Admits [.literal .fence] (some (.literalBegin .fence)) .newline := by
  constructor
  · exact (tokenize_literals_hide_structure (g := .markdown) (by decide)
      "\"a #\x7bb\x7d\"".toList 1
      [⟨1, 0, .literalBegin .quote, ['\x22']⟩, ⟨1, 1, .literalContent, ['a', ' ']⟩,
        ⟨1, 3, .openBracket .interpolationBegin, ['#', '\x7b']⟩, ⟨1, 5, .text, ['b']⟩]
      ⟨1, 6, .closeBracket .interpolationEnd, ['\x7d']⟩ [⟨1, 7, .literalEnd .quote, ['\x22']⟩]
      (by decide +kernel)).1
  · exact (tokenize_literals_hide_structure (g := .markdown) (by decide) "```\n".toList 1
      [⟨1, 0, .literalBegin .fence, ['\x60', '\x60', '\x60']⟩] ⟨1, 3, .newline, ['\n']⟩ []
      (by decide +kernel)).1

end MarkupLayout
