import GoInventory.Pattern.CharSet

/-!
# Matching

A regular expression is read as a relation between places of a text: from a
place before some characters it leads to the places after what it matches.
`reach` computes all places that an expression leads to from a set of places, by
recursion on the expression. A text matches if the expression leads anywhere
from some place of it.

A repetition need not be followed further than the text is long: each round
either takes a character or stays in place, and rounds that stay can be left out
or repeated at will.
-/

namespace GoInventory.Pattern

/-- Conditions on a place, which take no character. -/
inductive Anchor where
  | textStart | textEnd | lineStart | lineEnd
  | wordBoundary | notWordBoundary | wordStart | wordEnd | wordStartHalf | wordEndHalf
deriving DecidableEq, Repr

namespace Anchor

/-- There is a word character, given the character on that side. -/
def isWordSide (c : Option Char) : Bool :=
  c.any Text.isWordChar

/-- The condition holds between the characters before and after a place; there
is none at an end of the text. -/
def holds (before after : Option Char) : Anchor → Bool
  | textStart => before.isNone
  | textEnd => after.isNone
  | lineStart => before.all (· == '\n')
  | lineEnd => after.all (· == '\n')
  | wordBoundary => isWordSide before != isWordSide after
  | notWordBoundary => isWordSide before == isWordSide after
  | wordStart => !isWordSide before && isWordSide after
  | wordEnd => isWordSide before && !isWordSide after
  | wordStartHalf => !isWordSide before
  | wordEndHalf => !isWordSide after

end Anchor

/-- Regular expressions. A repetition has a least and perhaps a greatest
number of rounds. -/
inductive Regex where
  | empty
  | chars (set : CharSet)
  | anchor (condition : Anchor)
  | seq (a b : Regex)
  | alt (a b : Regex)
  | rep (least : Nat) (most : Option Nat) (a : Regex)
deriving DecidableEq, Repr

/-- Apply `f` so many times. -/
def rounds {α : Type} (f : α → α) : Nat → α → α
  | 0, a => a
  | n + 1, a => rounds f n (f a)

/-- Places without repetitions. -/
def places (ps : List Nat) : List Nat :=
  ps.eraseDups

/-- Everything reached from `ps` by `f` in at most so many rounds. A round that
leads nowhere new is the last one. -/
def spread (f : List Nat → List Nat) : Nat → List Nat → List Nat
  | 0, ps => ps
  | n + 1, ps =>
    let next := f ps
    if next.all ps.contains then ps else spread f n (places (ps ++ next))

namespace Regex

/-- The places that the expression leads to from the given places of a text. -/
def reach (text : Array Char) : Regex → List Nat → List Nat
  | empty, ps => ps
  | chars set, ps =>
    ps.filterMap fun p => if text[p]?.any set.holds then some (p + 1) else none
  | anchor condition, ps =>
    ps.filter fun p =>
      condition.holds (if p = 0 then none else text[p - 1]?) text[p]?
  | seq a b, ps => b.reach text (a.reach text ps)
  | alt a b, ps => places (a.reach text ps ++ b.reach text ps)
  | rep least most a, ps =>
    let bound := text.size + 1
    let extra := match most with
      | none => bound
      | some n => min bound (n - least)
    spread (a.reach text) extra (rounds (a.reach text) (min bound least) ps)

/-- The expression matches somewhere in the text. -/
def isMatch (r : Regex) (text : String) : Bool :=
  let chars := text.toList.toArray
  !(r.reach chars (List.range (chars.size + 1))).isEmpty

end Regex

end GoInventory.Pattern
