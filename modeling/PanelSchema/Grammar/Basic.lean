import PanelSchema.Text.Location

/-!
Grammars as data: phrases built from texts, character classes and rules, with
ordered choice, greedy repetition and lookahead.
-/

namespace PanelSchema

inductive CharClass where
  | any
  | letter
  | digit
  | alphanumeric
  | hexDigit
deriving DecidableEq, Repr

/-- All classes but `any` hold ASCII characters only. -/
def CharClass.holds : CharClass → Char → Bool
  | .any, _ => true
  | .letter, c => c.isAlpha
  | .digit, c => c.isDigit
  | .alphanumeric, c => c.isAlphanum
  | .hexDigit, c =>
    c.isDigit || ('a' ≤ c && c ≤ 'f') || ('A' ≤ c && c ≤ 'F')

inductive Phrase (ρ : Type) where
  | text (cs : List Char)
  /-- Compared without regard to ASCII case. -/
  | caseless (cs : List Char)
  | one (k : CharClass)
  | startOfInput
  | endOfInput
  | rule (r : ρ)
  | seq (a b : Phrase ρ)
  | alt (a b : Phrase ρ)
  | opt (a : Phrase ρ)
  | many (a : Phrase ρ)
  | ahead (a : Phrase ρ)
  | never (a : Phrase ρ)

namespace Phrase

variable {ρ : Type}

instance : Coe String (Phrase ρ) where
  coe s := .text s.toList

/-- One after the other, with blanks between them outside tokens. -/
def all : List (Phrase ρ) → Phrase ρ
  | [] => .text []
  | [a] => a
  | a :: rest => .seq a (all rest)

/-- The first that matches. -/
def any : List (Phrase ρ) → Phrase ρ
  | [] => .never (.text [])
  | [a] => a
  | a :: rest => .alt a (any rest)

/-- At least one. Blanks after a single match stay consumed. -/
def many1 (a : Phrase ρ) : Phrase ρ :=
  .seq a (.many a)

/-- Matches any character that does not start `a`. -/
def anyBut (a : Phrase ρ) : Phrase ρ :=
  .seq (.never a) (.one .any)

end Phrase

/-- How a rule treats blanks and whether it leaves a piece behind. -/
inductive RuleStyle where
  | plain
  /-- Leaves no piece of its own. -/
  | silent
  /-- No blanks and no pieces inside. -/
  | atomic
  /-- No blanks inside, pieces kept. -/
  | compound
deriving DecidableEq, Repr

structure Grammar (ρ : Type) where
  style : ρ → RuleStyle
  body : ρ → Phrase ρ
  /-- What may stand between the parts of a sequence outside tokens. -/
  blank : Phrase ρ
  /-- Bounds how deep phrases nest before the next character is consumed. -/
  depth : Nat

/-- What one rule matched, with the pieces inside it in source order. The
text is the first part of `source`. -/
structure Piece (ρ : Type) where
  rule : ρ
  start : Position
  stop : Position
  source : List Char
  inner : List (Piece ρ)

namespace Piece

variable {ρ : Type}

def chars (p : Piece ρ) : List Char :=
  p.source.take (p.stop.offset - p.start.offset)

def text (p : Piece ρ) : String :=
  String.ofList p.chars

def span (p : Piece ρ) (file : String) : Span :=
  { start := p.start.inFile file, stop := p.stop.inFile file }

end Piece

end PanelSchema
