import PanelSchema.Grammar.Attempts

/-!
Matching a text against a grammar. The first argument of `Grammar.run` bounds
the depth of nested phrases; `Grammar.match?` gives it enough for the text.
-/

namespace PanelSchema

structure Cursor where
  position : Position := {}
  rest : List Char

namespace Cursor

def next? (c : Cursor) (k : CharClass) : Option Cursor :=
  match c.rest with
  | [] => none
  | x :: rest =>
    if k.holds x then some { position := c.position.advance x, rest } else none

/-- Steps over `cs` if the rest starts with it, as `same` sees it. -/
def stepOver? (same : Char → Char → Bool) : List Char → Cursor → Option Cursor
  | [], c => some c
  | x :: xs, c =>
    match c.rest with
    | [] => none
    | y :: rest =>
      if same x y then
        stepOver? same xs { position := c.position.advance y, rest }
      else
        none

end Cursor

/-- The pieces are latest first. -/
structure MatchState (ρ : Type) where
  cursor : Cursor
  pieces : List (Piece ρ) := []
  attempts : Attempts ρ := {}

inductive Reply (ρ : Type) where
  | matched (s : MatchState ρ)
  | failed (a : Attempts ρ)
  /-- The bound on nested phrases was too small. -/
  | exhausted

namespace Grammar

variable {ρ : Type}

/-- The context in which a rule of the given style is entered. -/
def outerMode (style : RuleStyle) (mode : Mode) : Mode :=
  match style with
  | .compound => { mode with spacing := .compound }
  | _ => mode

/-- The context of the body of a rule. -/
def innerMode (style : RuleStyle) (mode : Mode) : Mode :=
  match style with
  | .compound => { mode with spacing := .compound }
  | .atomic => { mode with spacing := .atomic }
  | _ => mode

def ofCursor? (s : MatchState ρ) : Option Cursor → Reply ρ
  | some cursor => .matched { s with cursor }
  | none => .failed s.attempts

/-- Closes rule `r`, entered in state `s`, after its body answered. -/
def close (mode : Mode) (r : ρ) (s : MatchState ρ) : Reply ρ → Reply ρ
  | .matched t =>
    let start := s.cursor.position
    let attempts :=
      if mode.lookahead = .negative then
        t.attempts.track mode r start.offset (s.attempts.mark start.offset)
      else
        t.attempts
    let pieces :=
      if mode.keepsPieces then
        { rule := r
          start
          stop := t.cursor.position
          source := s.cursor.rest
          inner := t.pieces.reverse } :: s.pieces
      else
        t.pieces ++ s.pieces
    .matched { cursor := t.cursor, pieces, attempts }
  | .failed a =>
    let start := s.cursor.position
    if mode.lookahead = .negative then
      .failed a
    else
      .failed (a.track mode r start.offset (s.attempts.mark start.offset))
  | .exhausted => .exhausted

mutual

def run (g : Grammar ρ) : Nat → Mode → Phrase ρ → MatchState ρ → Reply ρ
  | 0, _, _, _ => .exhausted
  | _ + 1, _, .text cs, s =>
    ofCursor? s (s.cursor.stepOver? (· == ·) cs)
  | _ + 1, _, .caseless cs, s =>
    ofCursor? s (s.cursor.stepOver? (fun x y => x.toLower == y.toLower) cs)
  | _ + 1, _, .one k, s =>
    ofCursor? s (s.cursor.next? k)
  | _ + 1, _, .startOfInput, s =>
    if s.cursor.position.offset = 0 then .matched s else .failed s.attempts
  | _ + 1, _, .endOfInput, s =>
    if s.cursor.rest.isEmpty then .matched s else .failed s.attempts
  | fuel + 1, mode, .rule r, s =>
    let style := g.style r
    if style = .silent then
      run g fuel mode (g.body r) s
    else
      close (outerMode style mode) r s
        (run g fuel (innerMode style mode) (g.body r) { s with pieces := [] })
  | fuel + 1, mode, .seq a b, s =>
    match run g fuel mode a s with
    | .matched s₁ =>
      if mode.spacing = .loose then
        match run g fuel { mode with spacing := .atomic } g.blank s₁ with
        | .matched s₂ => run g fuel mode b s₂
        | reply => reply
      else
        run g fuel mode b s₁
    | reply => reply
  | fuel + 1, mode, .alt a b, s =>
    match run g fuel mode a s with
    | .failed t => run g fuel mode b { s with attempts := t }
    | reply => reply
  | fuel + 1, mode, .opt a, s =>
    match run g fuel mode a s with
    | .failed t => .matched { s with attempts := t }
    | reply => reply
  | fuel + 1, mode, .many a, s =>
    match run g fuel mode a s with
    | .matched s₁ => more g fuel mode a s₁
    | .failed t => .matched { s with attempts := t }
    | .exhausted => .exhausted
  | fuel + 1, mode, .ahead a, s =>
    match run g fuel { mode with lookahead := mode.lookahead.ahead } a s with
    | .matched t => .matched { s with attempts := t.attempts }
    | reply => reply
  | fuel + 1, mode, .never a, s =>
    match run g fuel { mode with lookahead := mode.lookahead.flip } a s with
    | .matched t => .failed t.attempts
    | .failed t => .matched { s with attempts := t }
    | .exhausted => .exhausted

/-- Goes on with a repetition of `a`. Blanks that no further `a` follows are
given back. -/
def more (g : Grammar ρ) : Nat → Mode → Phrase ρ → MatchState ρ → Reply ρ
  | 0, _, _, _ => .exhausted
  | fuel + 1, mode, a, s =>
    if mode.spacing = .loose then
      match run g fuel { mode with spacing := .atomic } g.blank s with
      | .matched s₁ =>
        match run g fuel mode a s₁ with
        | .matched s₂ => more g fuel mode a s₂
        | .failed t => .matched { s with attempts := t }
        | .exhausted => .exhausted
      | .failed t => .matched { s with attempts := t }
      | .exhausted => .exhausted
    else
      match run g fuel mode a s with
      | .matched s₁ => more g fuel mode a s₁
      | .failed t => .matched { s with attempts := t }
      | .exhausted => .exhausted

end

/-- Why a text was not matched: the place furthest in the text where
something was tried, what was expected there and what was not. -/
structure Mismatch (ρ : Type) where
  position : Position
  expected : List ρ
  unexpected : List ρ

/-- The position after the first `n` characters. -/
def positionAt (n : Nat) (text : List Char) : Position :=
  (text.take n).foldl Position.advance {}

/-- Matches the front of `text`. The pieces are those of the rule itself or,
for a silent one, of its body. -/
def match? (g : Grammar ρ) (r : ρ) (text : List Char) :
    Except (Mismatch ρ) (List (Piece ρ)) :=
  match run g ((text.length + 1) * g.depth) {} (.rule r) { cursor := { rest := text } } with
  | .matched s => .ok s.pieces.reverse
  | .failed a =>
    .error
      { position := positionAt a.offset text
        expected := a.expected.reverse
        unexpected := a.unexpected.reverse }
  | .exhausted => .error { position := {}, expected := [], unexpected := [] }

end Grammar

end PanelSchema
