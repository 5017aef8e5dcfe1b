import PanelSchema.Grammar.Basic

/-!
What was tried at the furthest place a match got to. A failed match is
reported there, with the rules that would have let it go on and the rules that
stood in its way.
-/

namespace PanelSchema

/-- Whether blanks are skipped and pieces are kept. -/
inductive Spacing where
  | loose
  | compound
  | atomic
deriving DecidableEq, Repr

inductive Lookahead where
  | none
  | positive
  | negative
deriving DecidableEq, Repr

def Lookahead.ahead : Lookahead → Lookahead
  | .negative => .negative
  | _ => .positive

def Lookahead.flip : Lookahead → Lookahead
  | .negative => .positive
  | _ => .negative

structure Mode where
  spacing : Spacing := .loose
  lookahead : Lookahead := .none
deriving DecidableEq, Repr

/-- Pieces are kept neither inside tokens nor in lookahead. -/
def Mode.keepsPieces (m : Mode) : Bool :=
  m.spacing != .atomic && m.lookahead == .none

/-- Both lists are latest first. -/
structure Attempts (ρ : Type) where
  offset : Nat := 0
  expected : List ρ := []
  unexpected : List ρ := []

namespace Attempts

variable {ρ : Type}

/-- The sizes of the lists when a rule was entered. -/
structure Mark where
  expected : Nat
  unexpected : Nat

def mark (a : Attempts ρ) (offset : Nat) : Mark :=
  if a.offset = offset then
    { expected := a.expected.length, unexpected := a.unexpected.length }
  else
    { expected := 0, unexpected := 0 }

def Mark.count (m : Mark) : Nat :=
  m.expected + m.unexpected

/-- The `n` oldest entries of a list that is latest first. -/
private def oldest (n : Nat) (rules : List ρ) : List ρ :=
  rules.drop (rules.length - n)

/-- Records that rule `r`, entered at `offset` under mark `before`, was tried
there. If exactly one attempt was made inside the rule, that one says more
than the rule and is kept in its place. -/
def track (mode : Mode) (r : ρ) (offset : Nat) (before : Mark) (a : Attempts ρ) :
    Attempts ρ :=
  if mode.spacing = .atomic then a
  else if (a.mark offset).count = before.count + 1 then a
  else if offset < a.offset then a
  else
    let kept : Attempts ρ :=
      if offset = a.offset then
        { offset
          expected := oldest before.expected a.expected
          unexpected := oldest before.unexpected a.unexpected }
      else
        { offset }
    if mode.lookahead = .negative then
      { kept with unexpected := r :: kept.unexpected }
    else
      { kept with expected := r :: kept.expected }

end Attempts

end PanelSchema
