/-!
Patterns for names: a question mark stands for one character, a star for any
number of them, brackets for one character of a set, and two stars, which have
to be a whole part of a path, for any number of parts.
-/

namespace PanelSchema

inductive CharSpan where
  | one (c : Char)
  | between (first last : Char)
deriving DecidableEq, Repr

def CharSpan.holds (s : CharSpan) (c : Char) : Bool :=
  match s with
  | .one x => x == c
  | .between first last => first ≤ c && c ≤ last

inductive PatternToken where
  | char (c : Char)
  | anyChar
  | anyText
  | anyParts
  | within (set : List CharSpan)
  | outside (set : List CharSpan)
deriving DecidableEq, Repr

def PatternToken.char? : PatternToken → Option Char
  | .char c => some c
  | _ => none

inductive PatternFaultKind where
  | tooManyStars
  | partialParts
  | badSet
deriving DecidableEq, Repr

structure PatternFault where
  /-- Counted in characters from zero. -/
  position : Nat
  kind : PatternFaultKind
deriving DecidableEq, Repr

def PatternFault.message (f : PatternFault) : String :=
  let reason :=
    match f.kind with
    | .tooManyStars => "wildcards are either regular `*` or recursive `**`"
    | .partialParts => "recursive wildcards must form a single path component"
    | .badSet => "invalid range pattern"
  s!"Pattern syntax error near position {f.position}: {reason}"

abbrev Pattern := List PatternToken

namespace Pattern

/-- A minus sign between two characters makes a span of them. -/
def spans : List Char → List CharSpan
  | a :: '-' :: b :: rest => .between a b :: spans rest
  | a :: rest => .one a :: spans rest
  | [] => []

/-- The set after an opening bracket and what follows it. The first character,
after an exclamation mark if there is one, belongs to the set even if it is the
closing bracket. -/
def readSet : List Char → Option (PatternToken × List Char)
  | '!' :: first :: rest =>
    let more := rest.takeWhile (· != ']')
    match rest.dropWhile (· != ']') with
    | _ :: after => some (.outside (spans (first :: more)), after)
    | [] => none
  | '!' :: [] => none
  | first :: rest =>
    let more := rest.takeWhile (· != ']')
    match rest.dropWhile (· != ']') with
    | _ :: after => some (.within (spans (first :: more)), after)
    | [] => none
  | [] => none

/-- One or two stars; `before` is the character before them. -/
def readStars (position : Nat) (before : Option Char) (cs : List Char) :
    Except PatternFault (PatternToken × List Char) :=
  let rest := cs.dropWhile (· == '*')
  match (cs.takeWhile (· == '*')).length with
  | 0 | 1 => .ok (.anyText, rest)
  | 2 =>
    if before == none || before == some '/' then
      match rest with
      | [] => .ok (.anyParts, [])
      | '/' :: after => .ok (.anyParts, after)
      | _ => .error { position := position + 2, kind := .partialParts }
    else .error { position := position - 1, kind := .partialParts }
  | _ => .error { position := position + 2, kind := .tooManyStars }

/-- The tokens of a text of which `position` characters were read. -/
def readWithin : Nat → Nat → Option Char → List Char → Except PatternFault Pattern
  | 0, _, _, _ => .ok []
  | _ + 1, _, _, [] => .ok []
  | fuel + 1, position, before, c :: cs => do
    let (token, rest) ←
      if c = '?' then .ok (.anyChar, cs)
      else if c = '*' then readStars position before (c :: cs)
      else if c = '[' then
        match readSet cs with
        | some read => .ok read
        | none => .error { position, kind := .badSet }
      else .ok (.char c, cs)
    let taken := (c :: cs).take ((c :: cs).length - rest.length)
    let tokens ← readWithin fuel (position + taken.length) taken.getLast? rest
    .ok (token :: tokens)

/-- Every step takes a character. -/
def read (s : String) : Except PatternFault Pattern :=
  readWithin s.toList.length 0 none s.toList

/-- Whether the pattern stands for any number of parts. -/
def isAnyParts (p : Pattern) : Bool :=
  p.contains .anyParts

/-- The one text a pattern without wildcards matches. -/
def literal? (p : Pattern) : Option String :=
  (p.mapM PatternToken.char?).map String.ofList

/-- Whether some ending of a text passes a test. -/
def anyEnding (test : List Char → Bool) : List Char → Bool
  | [] => test []
  | c :: cs => test (c :: cs) || anyEnding test cs

def matchesChars : Pattern → List Char → Bool
  | [], cs => cs.isEmpty
  | .anyText :: rest, cs => anyEnding (matchesChars rest) cs
  | .anyParts :: rest, cs => anyEnding (matchesChars rest) cs
  | token :: rest, cs =>
    match cs with
    | [] => false
    | c :: tail =>
      let fits :=
        match token with
        | .char x => x == c
        | .within set => set.any (·.holds c)
        | .outside set => !set.any (·.holds c)
        | _ => true
      fits && matchesChars rest tail

def matchesName (p : Pattern) (name : String) : Bool :=
  matchesChars p name.toList

end Pattern

end PanelSchema
