import PanelSchema.Model.Basic
import PanelSchema.Note

/-!
Visibility: one of several conditions holds. Without any condition nothing is
asked, so a test that cannot be expressed hides nothing.
-/

namespace PanelSchema

structure Visibility where
  conditions : List Condition := []
deriving Repr, Inhabited

namespace Visibility

/-- The most conditions a conjunction may have. -/
def productLimit : Nat := 256

def always : Visibility := {}

def isAlways (v : Visibility) : Bool :=
  v.conditions.isEmpty

def single (path : String) (value : RuleValue) : Visibility :=
  { conditions := [.single path value] }

/-- Adds a condition that is not there yet. -/
def add (v : Visibility) (c : Condition) : Visibility :=
  if v.conditions.contains c then v else { conditions := v.conditions ++ [c] }

def ofConditions (cs : List Condition) : Visibility :=
  cs.foldl add always

/-- Either of the two. -/
def or (v w : Visibility) : Visibility :=
  w.conditions.foldl add v

/-- Adds a term that is not there yet. -/
def addTerm (c : Condition) (term : String × RuleValue) : Condition :=
  if c.terms.any (fun t => t.1 == term.1 && t.2 == term.2) then c
  else { paths := c.paths ++ [term.1], values := c.values ++ [term.2] }

def merge (c d : Condition) : Condition :=
  d.terms.foldl addTerm c

def exceedsLimit (v w : Visibility) : Bool :=
  !v.isAlways && !w.isAlways && productLimit < v.conditions.length * w.conditions.length

/-- Both of the two, each condition of one with each of the other. A product
past the limit keeps the left side only, which asks for less. -/
def and (v w : Visibility) : Visibility :=
  if v.isAlways then w
  else if w.isAlways || v.exceedsLimit w then v
  else ofConditions (v.conditions.flatMap fun c => w.conditions.map (merge c))

def andNotes (v w : Visibility) : List Note :=
  if v.exceedsLimit w then
    [{ level := .warn
       text :=
        s!"condition product of {v.conditions.length} x {w.conditions.length} rules "
          ++ s!"exceeds {productLimit}; keeping the left operand" }]
  else
    []

/-- How near to zero or one a float has to be to be taken for it. -/
def sentinelMargin : Float := 0.0001

/-- The opposite of a value that has one: of the booleans, and of zero and one
where numbers stand for them. -/
def opposite? : RuleValue → Option RuleValue
  | .bool b => some (.bool !b)
  | .int 0 => some (.int 1)
  | .int 1 => some (.int 0)
  | .float x =>
    let near (q : Quantity) : Bool := q.abs.lt (.ofFloat sentinelMargin)
    let q := Quantity.ofFloat x
    if near q then some (.float 1.0)
    else if near (q.sub (.finite 1 0)) then some (.float 0.0)
    else none
  | _ => none

/-- What holds when `c` does not: one of the opposites of its terms. -/
def refute (c : Condition) : List Condition :=
  c.terms.filterMap fun (path, value) => (opposite? value).map (Condition.single path)

/-- Conditions none of whose terms has an opposite are passed over. -/
def negateStep (v : Visibility) (c : Condition) : Visibility :=
  match refute c with
  | [] => v
  | cs => v.and (ofConditions cs)

/-- None of the conditions holds, as far as that can be expressed. -/
def negate (v : Visibility) : Visibility :=
  v.conditions.foldl negateStep always

def negateStepNotes (v : Visibility) (c : Condition) : List Note :=
  match refute c with
  | [] => [{ level := .debug, text := s!"dropping non-invertible rule {c.text}" }]
  | cs => v.andNotes (ofConditions cs)

def negateNotes (v : Visibility) : List Note :=
  (v.conditions.foldl
    (fun (w, notes) c => (negateStep w c, notes ++ negateStepNotes w c)) (always, [])).2

def text (v : Visibility) : String :=
  if v.isAlways then "always" else " || ".intercalate (v.conditions.map Condition.text)

@[simp] theorem always_and (v : Visibility) : always.and v = v := rfl

@[simp] theorem and_always (v : Visibility) : v.and always = v := by
  obtain ⟨cs⟩ := v
  cases cs <;> rfl

@[simp] theorem negate_always : negate always = always := rfl

end Visibility

end PanelSchema
