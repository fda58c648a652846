import MarkupLayout.Grammar
/-!
# Patterns

Two kinds of pattern are searched for: a line that starts with a block sigil, and a literal text.
Matches are found from left to right and do not overlap; a match may be empty, but not directly
behind another one.  Places and lengths count characters.
-/

namespace MarkupLayout

inductive Pattern where
  /-- At the start of a line: spaces and tabs, one of the sigils (earlier ones preferred), and a
  space, a tab or the end of the line. -/
  | sigilLine (sigils : List Text)
  | literal (text : Text)
deriving DecidableEq, Repr

structure Match where
  start : Nat
  length : Nat
  indent : Option Nat
deriving DecidableEq, Repr

def insertSigil (sigil : Text) : List Text → List Text
  | [] => [sigil]
  | first :: more =>
    if first.byteSize ≤ sigil.byteSize then sigil :: first :: more
    else first :: insertSigil sigil more

def longestFirst (sigils : List Text) : List Text :=
  sigils.foldr insertSigil []

/-- The pattern of a line that starts with a sigil of the grammar.  Longer sigils are preferred;
without any sigil, a line of spaces and tabs matches. -/
def Grammar.sigilLine (g : Grammar) : Pattern :=
  if g.blockSigils = [] then .sigilLine [[]] else .sigilLine (longestFirst g.blockSigils)

namespace Pattern

def sigilTail? : Text → Option Nat
  | [] => some 0
  | ' ' :: _ => some 1
  | '\t' :: _ => some 1
  | '\n' :: _ => some 0
  | ['\r'] => some 1
  | '\r' :: '\n' :: _ => some 1
  | _ => none

def sigilLength? (sigils : List Text) (t : Text) : Option Nat :=
  sigils.findSome? fun sigil =>
    if sigil.isPrefixOf t then (sigilTail? (t.drop sigil.length)).map (sigil.length + ·)
    else none

def sigilLineLength? (sigils : List Text) (t : Text) : Nat → Option (Nat × Nat)
  | 0 => (sigilLength? sigils t).map fun length => (0, length)
  | n + 1 =>
    match sigilLength? sigils (t.drop (n + 1)) with
    | some length => some (n + 1, n + 1 + length)
    | none => sigilLineLength? sigils t n

def matchHere? (p : Pattern) (lineStart : Bool) (t : Text) : Option Match :=
  match p with
  | .sigilLine sigils =>
    if lineStart then
      (sigilLineLength? sigils t t.leading.length).map fun (indent, length) =>
        ⟨0, length, some indent⟩
    else none
  | .literal text => if text.isPrefixOf t then some ⟨0, text.length, none⟩ else none

/-- All matches in a text that starts at place `start` of the whole.  `fresh` says that no match
ends at this place. -/
def matchesFrom (p : Pattern) (start : Nat) (lineStart fresh : Bool) : Text → List Match
  | [] =>
    match p.matchHere? lineStart [] with
    | some m => if fresh || 0 < m.length then [{ m with start := start }] else []
    | none => []
  | c :: rest =>
    match p.matchHere? lineStart (c :: rest) with
    | none => p.matchesFrom (start + 1) (c == '\n') true rest
    | some m =>
      if m.length = 0 then
        (if fresh then [{ m with start := start }] else []) ++
          p.matchesFrom (start + 1) (c == '\n') true rest
      else
        { m with start := start } ::
          p.matchesFrom (start + m.length) (((c :: rest).take m.length).getLast? == some '\n')
            false (rest.drop (m.length - 1))
termination_by t => t.length
decreasing_by
  · simp
  · simp
  · simp only [List.length_drop, List.length_cons]
    omega

def allMatches (p : Pattern) (t : Text) : List Match :=
  p.matchesFrom 0 true true t

def first? (p : Pattern) (t : Text) : Option Match :=
  (p.allMatches t).head?

def last? (p : Pattern) (t : Text) : Option Match :=
  (p.allMatches t).getLast?

def occursIn (p : Pattern) (t : Text) : Bool :=
  !(p.allMatches t).isEmpty

end Pattern

end MarkupLayout
