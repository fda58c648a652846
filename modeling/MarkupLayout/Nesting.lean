import MarkupLayout.Grammar
/-!
# Nesting

Brackets and blocks nest.  Each token is marked as an opener, a closer or neutral, and the
enclosing scope of the end of a token list is found by walking back from it: closers are kept
until the opener that needs them is met, and the first opener that needs none of them encloses
the end.
-/

namespace MarkupLayout

structure Neighbourhood where
  before : List Token
  token : Token
  behind : List Token
deriving DecidableEq, Repr

namespace Neighbourhood

def allFrom (before : List Token) : List Token → List Neighbourhood
  | [] => []
  | t :: more => ⟨before, t, more⟩ :: allFrom (t :: before) more

def all (tokens : List Token) : List Neighbourhood :=
  allFrom [] tokens

def isSymbol (n : Neighbourhood) : Bool :=
  n.before.head?.any (·.kind == .symbolBegin)

def mayPrecedeOpener : TokenKind → Bool
  | .openBracket _ | .operator | .comma => true
  | kind => kind.isTrivia

def isModifier (n : Neighbourhood) : Bool :=
  let onLine := n.before.takeWhile fun t => t.line == n.token.line && !t.kind.isLineBreak
  onLine.any (!mayPrecedeOpener ·.kind)

/-- Whether the endless marker occurs outside brackets before the next line break, when `depth`
brackets are open. -/
def hasEndlessMarker (g : Grammar) (depth : Nat) : List Token → Bool
  | [] => false
  | t :: more =>
    if t.kind.isLineBreak then false
    else match t.kind with
      | .openBracket _ => hasEndlessMarker g (depth + 1) more
      | .closeBracket _ => hasEndlessMarker g (depth - 1) more
      | .operator =>
        (depth == 0 && g.isEndlessMarker t.text) || hasEndlessMarker g depth more
      | _ => hasEndlessMarker g depth more

def isEndless (g : Grammar) (n : Neighbourhood) : Bool :=
  hasEndlessMarker g 0 n.behind

def opensBlock (g : Grammar) (n : Neighbourhood) : Bool :=
  !n.isModifier && !n.isEndless g

def isDefinition (n : Neighbourhood) : Bool :=
  n.token.isBlockSigil && !n.isSymbol && !n.isModifier

/-- Whether the token is a sigil that is written in code but opens no block. -/
def isIdleSigil (g : Grammar) (n : Neighbourhood) : Bool :=
  n.token.isBlockSigil && !n.isSymbol && !n.opensBlock g

end Neighbourhood

namespace Nesting

inductive Closer where
  | bracket (kind : CloseKind)
  | block
deriving DecidableEq, Repr

inductive Mark where
  | opens (needs : Closer)
  | closes (closer : Closer)
  | neutral
deriving DecidableEq, Repr

/-- The mark of a token in its neighbourhood.  Keywords written as symbols are neutral. -/
def mark (g : Grammar) (n : Neighbourhood) : Mark :=
  match n.token.kind with
  | .closeBracket kind => .closes (.bracket kind)
  | .openBracket kind => .opens (.bracket kind.closer)
  | .keyword .blockSigil => if !n.isSymbol && n.opensBlock g then .opens .block else .neutral
  | .keyword .closer => if n.isSymbol then .neutral else .closes .block
  | _ => .neutral

section

variable {g : Grammar} {n : Neighbourhood}

theorem mark_eq_opens_iff {needs : Closer} :
    mark g n = .opens needs ↔
      (∃ kind, n.token.kind = .openBracket kind ∧ .bracket kind.closer = needs) ∨
        n.token.isBlockSigil = true ∧ n.isSymbol = false ∧ n.opensBlock g = true ∧
          .block = needs := by
  cases hkind : n.token.kind with
  | keyword role =>
      cases role with
      | blockSigil =>
          cases hsymbol : n.isSymbol <;> cases hopens : n.opensBlock g <;>
            simp [mark, hkind, Token.isBlockSigil, hsymbol, hopens]
      | closer => cases hsymbol : n.isSymbol <;> simp [mark, hkind, Token.isBlockSigil, hsymbol]
      | _ => simp [mark, hkind, Token.isBlockSigil]
  | _ => simp [mark, hkind, Token.isBlockSigil]

theorem mark_eq_closes_iff {closer : Closer} :
    mark g n = .closes closer ↔
      (∃ kind, n.token.kind = .closeBracket kind ∧ .bracket kind = closer) ∨
        n.token.isCloser = true ∧ n.isSymbol = false ∧ .block = closer := by
  cases hkind : n.token.kind with
  | keyword role =>
      cases role with
      | blockSigil =>
          cases hopens : !n.isSymbol && n.opensBlock g <;>
            simp [mark, hkind, Token.isCloser, hopens]
      | closer => cases hsymbol : n.isSymbol <;> simp [mark, hkind, Token.isCloser, hsymbol]
      | _ => simp [mark, hkind, Token.isCloser]
  | _ => simp [mark, hkind, Token.isCloser]

theorem mark_eq_neutral_iff :
    mark g n = .neutral ↔
      (∀ kind, n.token.kind ≠ .openBracket kind) ∧ (∀ kind, n.token.kind ≠ .closeBracket kind) ∧
        (n.token.isBlockSigil = true → n.isSymbol = true ∨ n.opensBlock g = false) ∧
        (n.token.isCloser = true → n.isSymbol = true) := by
  cases hkind : n.token.kind with
  | keyword role =>
      cases role with
      | blockSigil =>
          cases hsymbol : n.isSymbol <;> cases hopens : n.opensBlock g <;>
            simp [mark, hkind, Token.isBlockSigil, Token.isCloser, hsymbol, hopens]
      | closer =>
          cases hsymbol : n.isSymbol <;>
            simp [mark, hkind, Token.isBlockSigil, Token.isCloser, hsymbol]
      | _ => simp [mark, hkind, Token.isBlockSigil, Token.isCloser]
  | _ => simp [mark, hkind, Token.isBlockSigil, Token.isCloser]

end

def marks (g : Grammar) (tokens : List Token) : List Mark :=
  (Neighbourhood.all tokens).map (mark g)

/-- The scope that encloses the end of a token list: the index of the nearest opener that is not
closed, or the number of closer keywords that close nothing and the index of the first of them. -/
structure Scope where
  opener : Option Nat
  extraClosers : Nat
  firstExtraCloser : Option Nat
deriving DecidableEq, Repr

def unopened (pending : List (Nat × Closer)) : Scope :=
  let closers := pending.filter (·.2 == .block)
  ⟨none, closers.length, closers.head?.map (·.1)⟩

/-- Walks back over marks, nearest first, with the closers met so far, the last of them first.
The error is the index of an opener that needs another closer than the one it meets. -/
def resolveBack (pending : List (Nat × Closer)) : List Mark → Except Nat Scope
  | [] => .ok (unopened pending)
  | .neutral :: before => resolveBack pending before
  | .closes closer :: before => resolveBack ((before.length, closer) :: pending) before
  | .opens needs :: before =>
    match pending with
    | [] => .ok ⟨some before.length, 0, none⟩
    | (_, closer) :: others =>
      if closer = needs then resolveBack others before else .error before.length

def resolve (g : Grammar) (tokens : List Token) : Except Nat Scope :=
  resolveBack [] (marks g tokens).reverse

structure Mismatch where
  line : Nat
  token : Text
deriving DecidableEq, Repr

def Mismatch.ofToken (t : Token) : Mismatch := ⟨t.line, t.text⟩

def Mismatch.message (m : Mismatch) : String :=
  toString m.line ++ ": Unmatched " ++ String.ofList m.token

def enclosingScope (g : Grammar) (tokens : List Token) : Except Mismatch Scope :=
  match resolve g tokens with
  | .ok scope => .ok scope
  | .error index => .error (((tokens[index]?).map Mismatch.ofToken).getD ⟨0, []⟩)

end Nesting

end MarkupLayout
