import PanelSchema.Walk.Step

/-!
The walk over a routine. Every statement is visited once, in source order, and
every branch is taken. Calls of other routines of the source are followed where
they stand; the routines being walked are passed along, so that none is
entered twice.
-/

namespace PanelSchema

open Syntax (Expr Stmt SwitchSection)

/-- Follows the call of a routine. -/
abbrev Follow := Routine → List Expr → Frame → WalkM Frame

namespace Walk

/-- Calls that only add to or read from what is known, without a routine or
arguments to follow. -/
def walkShape (s : Setting) (shape : CallShape) (method : String) (typeArgs : List String)
    (args : List Expr) (f : Frame) (target : Target) : WalkM Frame := do
  match shape with
  | .propertyLookup =>
    match target.name? with
    | some l => modify (declareProperty s l args.head? (0 < f.depth))
    | none => pure ()
    pure f
  | .effect => startModule s args f target
  | .subEffect =>
    declareSection s args f target
    pure f
  | .indent => pure (f.indentBy 1)
  | .unindent => pure (f.indentBy (-1))
  | .bind type =>
    bind s method type typeArgs args f target
    pure f
  | .hint =>
    modify (hint s args)
    pure f
  | .unrecognized => pure f

/-- The routine a call may mean: by its full path, else by its last name. -/
def routineOf? (c : Catalog) (callee : Expr) (method : String) : Option Routine :=
  match c.routine? (callee.dotted?.getD method) with
  | some r => some r
  | none => c.routine? method

def isCallOrCast : Expr → Bool
  | .call .. | .cast .. => true
  | _ => false

mutual

/-- Walks an expression whose value goes to `target`. -/
def walkValue (s : Setting) (follow : Follow) : Expr → Frame → Target → WalkM Frame
  | .call _ callee typeArgs args, f, target =>
    match callee.finalName? with
    | none => pure f
    | some method =>
      match CallShape.ofMethod method with
      | .unrecognized =>
        match routineOf? s.catalog callee method with
        | some routine => follow routine args f
        | none => walkArgs s follow args f
      | shape => walkShape s shape method typeArgs args f target
  | .cast _ _ e, f, target => walkValue s follow e f target
  | .conditional _ test yes no, f, target => do
    let f ← walkValue s follow test f (if isCallOrCast test then target else .discard)
    let f ← walkValue s follow yes f target
    walkValue s follow no f target
  | .string _ text, f, target => do
    match target.name? with
    | some l => modify fun w => { w with strings := w.strings.insert l text }
    | none => pure ()
    pure f
  | .name _ source, f, target => do
    match target.name? with
    | some l => modify (aliasLocal source l)
    | none => pure ()
    pure f
  | _, f, _ => pure f

/-- Calls among the arguments of a call that means nothing. -/
def walkArgs (s : Setting) (follow : Follow) : List Expr → Frame → WalkM Frame
  | [], f => pure f
  | e@(.call ..) :: rest, f => do
    let f ← walkValue s follow e f .discard
    walkArgs s follow rest f
  | _ :: rest, f => walkArgs s follow rest f

end

/-- An assignment to the indentation is followed as far as it is a number. -/
def assignIndent (c : Catalog) (value : Expr) (f : Frame) : Frame :=
  let plain : Frame :=
    match c.evalNumber? value with
    | some x => { f with depth := floatToInt x }
    | none => f
  match value with
  | .binary _ left op right =>
    if isIndentLevel left then
      match c.evalNumber? right, op with
      | some x, .add => f.indentBy (floatToInt x)
      | some x, .sub => f.indentBy (-floatToInt x)
      | _, _ => f
    else
      plain
  | _ => plain

/-- An expression that stands as a statement. -/
def walkExpr (s : Setting) (follow : Follow) (e : Expr) (f : Frame) : WalkM Frame :=
  match e with
  | .assign _ target value =>
    if isIndentLevel target then pure (assignIndent s.catalog value f)
    else walkValue s follow value f (.place target)
  | .unary _ op operand =>
    if isIndentLevel operand then
      match op with
      | .inc => pure (f.indentBy 1)
      | .dec => pure (f.indentBy (-1))
      | _ => pure f
    else
      pure f
  | _ => walkValue s follow e f .discard

/-- How much a resource indents the block it is held for. -/
def scopeIndent? (c : Catalog) (resource : Stmt) : Option Int :=
  let created :=
    match resource with
    | .localDecl _ _ _ (some value) => some value
    | .expr e => some e
    | _ => none
  match created with
  | some (.new _ (some type) args _) =>
    if type.endsWith "IndentLevelScope" then
      some (((args.head?.bind c.evalNumber?).map floatToInt).getD 1)
    else
      none
  | _ => none

/-- The frames of all sections of a switch, before any of them is walked. -/
def caseFrames (scope : TestScope) (path : Option String) (f : Frame) :
    List SwitchSection → Traced (List Frame)
  | [] => pure []
  | .mk _ labels _ :: rest => do
    let first ← caseFrame scope path labels f
    let more ← caseFrames scope path f rest
    pure (first :: more)

mutual

def walkStmt (s : Setting) (follow : Follow) : Stmt → Frame → WalkM Frame
  | stmt, given => do
    let f := (← get).normalize given
    match stmt with
    | .block _ body => walkStmts s follow body f
    | .localDecl _ _ name (some value) => walkValue s follow value f (.named name)
    | .localDecl _ _ _ none => pure f
    | .ifThen _ test body => do
      let (yes, _) ← StateT.lift (branches s test f (← get))
      let _ ← walkStmt s follow body yes
      pure f
    | .ifElse _ test body other => do
      let (yes, no) ← StateT.lift (branches s test f (← get))
      let _ ← walkStmt s follow body yes
      let _ ← walkStmt s follow other no
      pure f
    | .switch _ subject sections => do
      let w ← get
      let path := (w.bindings.resolve? subject).map (·.path)
      let frames ← StateT.lift (caseFrames (w.scope s) path f sections)
      walkSections s follow sections frames
      pure f
    | .usingBlock _ resource body =>
      match scopeIndent? s.catalog resource with
      | some n => do
        let after ← walkStmt s follow body (f.indentBy n)
        pure (after.indentBy (-n))
      | none => walkStmt s follow body f
    | .whileLoop _ _ body => walkStmt s follow body f
    | .loop _ body => walkStmt s follow body f
    | .doWhile _ body _ => walkStmt s follow body f
    | .returns .. => pure f
    | .breaks _ => pure f
    | .continues _ => pure f
    | .skipped .. => pure f
    | .expr e => walkExpr s follow e f

def walkStmts (s : Setting) (follow : Follow) : List Stmt → Frame → WalkM Frame
  | [], f => pure f
  | stmt :: rest, f => do
    let f ← walkStmt s follow stmt f
    walkStmts s follow rest f

/-- Each section starts from its own frame. -/
def walkSections (s : Setting) (follow : Follow) :
    List SwitchSection → List Frame → WalkM Unit
  | .mk _ _ body :: rest, f :: frames => do
    let _ ← walkStmts s follow body f
    walkSections s follow rest frames
  | _, _ => pure ()

end

/-- Follows calls while `stack` holds the names of the routines being walked.
No name is on it twice, so as many rounds as there are routines suffice. -/
def followWithin (s : Setting) : Nat → List String → Follow
  | rounds, stack => fun routine args f =>
    if stack.contains routine.name || s.settings.maxInlineDepth ≤ stack.length then do
      WalkM.note .debug s!"not inlining '{routine.name}': recursion or depth limit"
      pure f
    else
      match rounds with
      | 0 => pure f
      | rounds + 1 => do
        let params := (routine.params.map (·.name)).zip args
        let saved ← modifyGet fun w =>
          let (w, saved) := bindParams s.catalog params w
          (saved, w)
        let f ← walkStmt s (followWithin s rounds (routine.name :: stack)) routine.body f
        modify (restore saved)
        pure f

/-- Walks the entry routine and closes the last module. -/
def walkEntry (s : Setting) (entry : Routine) : WalkM Unit := do
  let follow := followWithin s s.catalog.routines.size [entry.name]
  let _ ← walkStmt s follow entry.body {}
  finishModule

end Walk

end PanelSchema
