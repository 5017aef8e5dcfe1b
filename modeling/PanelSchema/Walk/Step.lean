import PanelSchema.Walk.State

/-! What single calls and tests do to a walk. -/

namespace PanelSchema

open Syntax (Expr)

namespace Walk

/-! ### Modules and sections -/

/-- Closes the current module, if there is one. -/
def finishModule : WalkM Unit := do
  match (← get).current with
  | none => pure ()
  | some draft =>
    let m := draft.finish
    WalkM.note .info
      s!"module '{m.name}': {m.sections.length} sections, {m.properties.length} properties"
    modify fun w => { w with current := none, modules := w.modules ++ [m] }

/-- The locals a module starts with are those known before the first one. -/
def enterPreamble (w : Walk) : Walk :=
  match w.preamble with
  | some p => { w with drafts := p.drafts, bindings := p.bindings }
  | none => { w with preamble := some { drafts := w.drafts, bindings := w.bindings } }

/-- The last text names the module, the two before it are its keywords. -/
def startModule (s : Setting) (args : List Expr) (f : Frame) (target : Target) :
    WalkM Frame := do
  let w ← get
  match (args.filterMap (w.string? s.catalog)).reverse with
  | [] => do
    WalkM.note .debug "effect call without a module name ignored"
    pure f
  | name :: keywords => do
    let keywords := (keywords.take 2).reverse
    finishModule
    let layout : Layout := {}
    let (opened, root) := layout.visit name none none none
    WalkM.notes (layout.visitNotes name none none none)
    modify fun w =>
      { enterPreamble w with
        toggles := {}
        generation := w.generation + 1
        current :=
          some
            { name
              keyword := keywords[0]?
              secondaryKeyword := keywords[1]?
              root
              layout := opened
              roster := { policy := s.settings.conditionPolicy } } }
    WalkM.note .debug s!"module '{name}' started"
    match target.name? with
    | some l =>
      modify fun w => { w with bindings := w.bindings.insert l { path := l, kind := .boolean } }
    | none => pure ()
    let w ← get
    pure { home := root, generation := w.generation }

/-- A section inside the one of the frame. The local it is kept in opens it. -/
def declareSection (s : Setting) (args : List Expr) (f : Frame) (target : Target) :
    WalkM Unit := do
  let w ← get
  match w.current with
  | none => WalkM.note .debug "subsection outside of any module ignored"
  | some m =>
    match args.head?.bind (w.string? s.catalog) with
    | none => pure ()
    | some name =>
      let label := args[1]?.bind (w.string? s.catalog)
      let order := ((args.drop 1).findSome? s.catalog.evalNumber?).map floatToInt
      let parent := (m.layout.get? f.home).map (·.name)
      let (layout, _) := m.layout.visit name label parent order
      WalkM.notes (m.layout.visitNotes name label parent order)
      modify fun w => { w with current := some { m with layout } }
      match target.name? with
      | some l => modify fun w => { w with toggles := w.toggles.insert l name }
      | none => pure ()

/-! ### Properties -/

/-- The identifier an argument gives and the text it was written as. -/
def identifierOf (c : Catalog) (w : Walk) : Option Expr → String × String
  | some (.string _ s) => (s, "\"" ++ s ++ "\"")
  | some e => ((w.string? c e).getD "", e.dotted?.getD "")
  | none => ("", "")

/-- A local that holds the property of an identifier. -/
def declareProperty (s : Setting) (l : String) (source : Option Expr) (indented : Bool)
    (w : Walk) : Walk :=
  let (identifier, raw) := w.identifierOf s.catalog source
  let plain : Draft := { identifier, rawIdentifier := raw, indented }
  let draft :=
    match s.declarations.get? identifier with
    | some d => plain.enrich d
    | none => plain
  { w with
    drafts := w.drafts.insert l draft
    bindings :=
      if identifier.isEmpty then w.bindings else w.bindings.insert l draft.binding }

/-- Shows a property in the section of the frame. -/
def attach (draft : Draft) (f : Frame) : WalkM Unit := do
  match (← get).current with
  | none =>
    WalkM.note .debug s!"property '{draft.identifier}' drawn outside of any module dropped"
  | some m =>
    WalkM.notes (Roster.attachNotes draft)
    let (roster, index) := m.roster.attach draft f.visibility
    let layout :=
      match index with
      | some i => m.layout.place f.home i f.visibility.isAlways
      | none => m.layout
    modify fun w => { w with current := some { m with roster, layout } }

/-- The last two of the numbers among the arguments. -/
def rangeOf? (c : Catalog) (args : List Expr) : Option ValueRange :=
  match (args.filterMap c.evalNumber?).reverse with
  | max :: min :: _ => some { min, max }
  | _ => none

def namedType? : Expr → Option String
  | .typeOf _ t => some t
  | .cast _ t _ => some t
  | _ => none

/-- What a drawing call says about its property besides drawing it. -/
def describe (s : Setting) (w : Walk) (method : String) (type : PropertyType)
    (typeArgs : List String) (args rest : List Expr) (d : Draft) : Draft :=
  let labelled : Draft :=
    match rest.findSome? (w.caption? s.catalog) with
    | some c => (({ d with displayName := some c.label } : Draft).hint (c.tooltip.getD ""))
    | none => d
  let typed := labelled.applyType type
  let ranged : Draft :=
    if CallShape.hasRange method then
      match rangeOf? s.catalog rest with
      | some r => { typed with range := some r }
      | none => typed
    else
      typed
  if CallShape.isEnumPopup method then
    match (typeArgs ++ args.filterMap namedType?).findSome? s.catalog.enum? with
    | some e =>
      { ranged with
        enumType := some e.name
        enumValues := e.labels
        enumNumbers := e.values }
    | none => ranged
  else if CallShape.isTextPopup method then
    match rest.findSome? (textList? s.catalog) with
    | some labels =>
      { ranged with
        enumValues := labels
        enumNumbers := (List.range labels.length).map Int.ofNat }
    | none => ranged
  else
    ranged

/-- Draws the property of the first argument that holds one, else of the place
the value goes to. -/
def bind (s : Setting) (method : String) (type : PropertyType) (typeArgs : List String)
    (args : List Expr) (f : Frame) (target : Target) : WalkM Unit := do
  let w ← get
  let position := args.findIdx? fun a => (w.draftLocal? a).isSome
  let found :=
    match position with
    | some i => args[i]?.bind w.draftLocal?
    | none =>
      match target with
      | .place e => w.draftLocal? e
      | _ => none
  match found with
  | none => pure ()
  | some l =>
    match w.drafts.get? l with
    | none => pure ()
    | some known =>
      let rest :=
        match position with
        | some i => args.eraseIdx i
        | none => args
      let described := w.describe s method type typeArgs args rest known
      let draft : Draft := { described with indented := described.indented || 0 < f.depth }
      let keep (bindings : Bindings) (name : String) : Bindings :=
        if draft.identifier.isEmpty then bindings else bindings.insert name draft.binding
      modify fun w =>
        { w with drafts := w.drafts.insert l draft, bindings := keep w.bindings l }
      match target.name? with
      | some name =>
        modify fun w =>
          if w.drafts.contains name then w else { w with bindings := keep w.bindings name }
      | none => pure ()
      attach draft f

/-- Adds the texts among the arguments to the property they speak of. -/
def hint (s : Setting) (args : List Expr) (w : Walk) : Walk :=
  match args.findSome? w.draftLocal? with
  | none => w
  | some l =>
    let hints := args.filterMap (w.string? s.catalog)
    match w.drafts.get? l with
    | none => w
    | some d =>
      { w with
        drafts := w.drafts.insert l (hints.foldl Draft.hint d)
        current :=
          w.current.map fun m =>
            { m with roster := hints.foldl (fun r h => r.hint d.identifier h) m.roster } }

/-! ### Branches -/

/-- The frames of the two branches of a test. A test that names a local which
opens a section moves the first branch there and leaves the second as it was. -/
def branches (s : Setting) (test : Expr) (f : Frame) (w : Walk) :
    Traced (Frame × Frame) := do
  let asked ← (w.scope s).visibilityOf test
  let opened :=
    ((namesIn test).findSome? w.toggles.get?).bind fun name =>
      w.current.bind (·.layout.handle? name)
  Traced.notesOf (f.visibility.andNotes asked)
  let yes := { f with visibility := f.visibility.and asked }
  match opened with
  | some home => pure ({ yes with home }, f)
  | none =>
    Traced.notesOf asked.negateNotes
    let refuted := asked.negate
    Traced.notesOf (f.visibility.andNotes refuted)
    pure (yes, { f with visibility := f.visibility.and refuted })

/-- The values of the labels that have one. -/
def labelValues (scope : TestScope) : List Expr → Traced (List RuleValue)
  | [] => pure []
  | e :: rest => do
    let value ← scope.literal? e
    let more ← labelValues scope rest
    pure (value.toList ++ more)

/-- The frame of one section of a switch on the property at `path`. Labels
without a value are passed over, and a default label asks for nothing. -/
def caseFrame (scope : TestScope) (path : Option String) (labels : List (Option Expr))
    (f : Frame) : Traced Frame :=
  match path with
  | none => pure f
  | some path =>
    if labels.any Option.isNone then pure f
    else do
      let values ← labelValues scope (labels.filterMap id)
      let asked := values.foldl (fun v x => v.or (.single path x)) Visibility.always
      Traced.notesOf (f.visibility.andNotes asked)
      pure { f with visibility := f.visibility.and asked }

/-! ### Aliases and parameters -/

/-- A local takes over all that another one is known as. -/
def aliasLocal (source : String) (name : String) (w : Walk) : Walk :=
  { w with
    drafts := ((w.drafts.get? source).map (w.drafts.insert name)).getD w.drafts
    bindings := ((w.bindings.get? source).map (w.bindings.insert name)).getD w.bindings
    toggles := ((w.toggles.get? source).map (w.toggles.insert name)).getD w.toggles }

/-- All that a local is known as. -/
structure LocalMeaning where
  draft : Option Draft
  binding : Option Binding
  toggle : Option String
  string : Option String

def meaningOf (w : Walk) (name : String) : LocalMeaning :=
  { draft := w.drafts.get? name
    binding := w.bindings.get? name
    toggle := w.toggles.get? name
    string := w.strings.get? name }

def setMeaning (w : Walk) (name : String) (m : LocalMeaning) : Walk :=
  { w with
    drafts := w.drafts.set name m.draft
    bindings := w.bindings.set name m.binding
    toggles := w.toggles.set name m.toggle
    strings := w.strings.set name m.string }

/-- What an argument is known as. -/
def argumentMeaning (c : Catalog) (w : Walk) (arg : Expr) : LocalMeaning :=
  { draft := (w.draftLocal? arg).bind w.drafts.get?
    binding := w.bindings.resolve? arg
    toggle := arg.asName?.bind w.toggles.get?
    string := w.string? c arg }

/-- Gives parameters the meaning of their arguments, one after the other, and
returns what their names meant before. -/
def bindParams (c : Catalog) : List (String × Expr) → Walk →
    Walk × List (String × LocalMeaning)
  | [], w => (w, [])
  | (name, arg) :: rest, w =>
    let saved := w.meaningOf name
    let (w, more) := bindParams c rest (w.setMeaning name (w.argumentMeaning c arg))
    (w, (name, saved) :: more)

/-- Gives names back what they meant, in the order they were taken. -/
def restore (saved : List (String × LocalMeaning)) (w : Walk) : Walk :=
  saved.foldl (fun w s => w.setMeaning s.1 s.2) w

end Walk

end PanelSchema
