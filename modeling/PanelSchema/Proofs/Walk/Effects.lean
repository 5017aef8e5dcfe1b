import PanelSchema.Proofs.Traced
import PanelSchema.Walk.Routine

/-!
What single calls come to. None of them stops, and none of them warns, so each is
a function of the walk and the frame it is met in.
-/

namespace PanelSchema

open Syntax (Expr)

namespace ModuleDraft

/-- A module of which only the name and the keywords are known. -/
def opened (s : Setting) (name : String) (keywords : List String) : ModuleDraft :=
  { name
    keyword := keywords[0]?
    secondaryKeyword := keywords[1]?
    root := 0
    layout := (Layout.visit {} name none none none).1
    roster := { policy := s.settings.conditionPolicy } }

def shown (m : ModuleDraft) (d : Draft) (f : Frame) : ModuleDraft :=
  { m with
    roster := (m.roster.attach d f.visibility).1
    layout :=
      match (m.roster.attach d f.visibility).2 with
      | some i => m.layout.place f.home i f.visibility.isAlways
      | none => m.layout }

def declared (m : ModuleDraft) (name : String) (label : Option String) (order : Option Int)
    (f : Frame) : ModuleDraft :=
  { m with
    layout := (m.layout.visit name label ((m.layout.get? f.home).map (·.name)) order).1 }

/-- The module once hints are given to the property of an identifier. -/
def hinted (m : ModuleDraft) (id : String) (hints : List String) : ModuleDraft :=
  { m with roster := hints.foldl (fun r h => r.hint id h) m.roster }

end ModuleDraft

namespace WalkM

variable {α β : Type}

theorem gives_bind {x : WalkM α} {g : α → WalkM β} {w w' : Walk} {a : α} {r : β × Walk}
    (hx : (x w).Gives (a, w')) (hg : (g a w').Gives r) : ((x >>= g) w).Gives r :=
  Traced.Gives.bind hx hg

theorem gives_pure (a : α) (w : Walk) : ((pure a : WalkM α) w).Gives (a, w) :=
  Traced.gives_pure (a, w)

theorem gives_get (w : Walk) : ((get : WalkM Walk) w).Gives (w, w) :=
  Traced.gives_pure (w, w)

theorem gives_modify (g : Walk → Walk) (w : Walk) :
    ((modify g : WalkM Unit) w).Gives ((), g w) :=
  Traced.gives_pure ((), g w)

theorem gives_note {level : NoteLevel} (h : level ≠ .warn) (text : String) (w : Walk) :
    (note level text w).Gives ((), w) :=
  (Traced.gives_note h text).bind (Traced.gives_pure ((), w))

theorem gives_notes {ns : List Note} (h : ns.any Note.isWarning = false) (w : Walk) :
    (notes ns w).Gives ((), w) :=
  (Traced.gives_notesOf h).bind (Traced.gives_pure ((), w))

end WalkM

namespace Walk

open WalkM

/-- The walk without a current module. -/
def closed (w : Walk) : Walk :=
  match w.current with
  | none => w
  | some m => { w with current := none, modules := w.modules ++ [m.finish] }

theorem gives_finishModule (w : Walk) : (finishModule w).Gives ((), w.closed) := by
  unfold finishModule closed
  apply gives_bind (gives_get w)
  cases w.current with
  | none => exact gives_pure () w
  | some m =>
    apply gives_bind (gives_note (by decide) _ w)
    exact gives_modify _ w

theorem attachNotes_quiet (d : Draft) : (Roster.attachNotes d).any Note.isWarning = false := by
  unfold Roster.attachNotes
  split <;> rfl

theorem visitNotes_quiet (l : Layout) (name : String) (label parent : Option String)
    (order : Option Int) :
    (l.visitNotes name label parent order).any Note.isWarning = false := by
  unfold Layout.visitNotes
  split <;> rfl

def shown (d : Draft) (f : Frame) (w : Walk) : Walk :=
  { w with current := w.current.map (·.shown d f) }

theorem gives_attach (d : Draft) (f : Frame) (w : Walk) :
    (attach d f w).Gives ((), w.shown d f) := by
  unfold attach shown
  apply gives_bind (gives_get w)
  cases hm : w.current with
  | none =>
    have hsame : ({ w with current := none } : Walk) = w := by rw [← hm]
    rw [Option.map_none, hsame]
    exact gives_note (by decide) _ w
  | some m =>
    apply gives_bind (gives_notes (attachNotes_quiet d) w)
    exact gives_modify _ w

theorem draftLocal?_congr {w w' : Walk}
    (h : ∀ n, w'.drafts.contains n = w.drafts.contains n) (e : Expr) :
    w'.draftLocal? e = w.draftLocal? e := by
  fun_induction Walk.draftLocal? w e with
  | case1 m n hn => simp [draftLocal?, h, hn]
  | case2 m n hn => simp [draftLocal?, h, hn]
  | case3 m m' n hn => simp [draftLocal?, h, hn]
  | case4 m m' n hn => simp [draftLocal?, h, hn]
  | case5 m object n hthis ih =>
    rw [draftLocal?, ih]
    exact hthis
  | case6 m t e ih => rw [draftLocal?, ih]
  | case7 m l op r n hl ihl => rw [draftLocal?, ihl, hl]
  | case8 m l op r hl ihl ihr => rw [draftLocal?, ihl, hl, ihr]
  | case9 e => simp [draftLocal?]

/-- The local a drawing call draws, and the other arguments. -/
def drawnLocal? (args : List Expr) (target : Target) (w : Walk) : Option (String × List Expr) :=
  match args.findIdx? fun a => (w.draftLocal? a).isSome with
  | some i => (args[i]?.bind w.draftLocal?).map fun l => (l, args.eraseIdx i)
  | none =>
    match target with
    | .place e => (w.draftLocal? e).map fun l => (l, args)
    | _ => none

def drawing? (s : Setting) (method : String) (type : PropertyType) (typeArgs : List String)
    (args : List Expr) (f : Frame) (target : Target) (w : Walk) : Option (String × Draft) :=
  (w.drawnLocal? args target).bind fun found =>
    (w.drafts.get? found.1).map fun known =>
      let d := w.describe s method type typeArgs args found.2 known
      (found.1, { d with indented := d.indented || 0 < f.depth })

/-- A local stands for the value of what is drawn, where that has an identifier. -/
def boundTo (d : Draft) (name : String) (w : Walk) : Walk :=
  { w with
    bindings := if d.identifier.isEmpty then w.bindings else w.bindings.insert name d.binding }

/-- What a drawing call lets its local and the place of its value stand for. -/
def keptAs (l : String) (d : Draft) (target : Target) (w : Walk) : Walk :=
  let w : Walk := boundTo d l { w with drafts := w.drafts.insert l d }
  match target.name? with
  | some name => if w.drafts.contains name then w else w.boundTo d name
  | none => w

/-- The walk once a drawing call is met. -/
def drawn (s : Setting) (method : String) (type : PropertyType) (typeArgs : List String)
    (args : List Expr) (f : Frame) (target : Target) (w : Walk) : Walk :=
  match w.drawing? s method type typeArgs args f target with
  | none => w
  | some (l, d) => (w.keptAs l d target).shown d f

private theorem gives_keptAs (l : String) (d : Draft) (f : Frame) (target : Target) (w : Walk) :
    ((do
        modify fun w => boundTo d l { w with drafts := w.drafts.insert l d }
        match target.name? with
        | some name =>
          modify fun w => if w.drafts.contains name then w else w.boundTo d name
        | none => pure ()
        attach d f : WalkM Unit) w).Gives ((), (w.keptAs l d target).shown d f) := by
  apply gives_bind (gives_modify _ w)
  unfold keptAs
  cases target.name? with
  | none => exact gives_attach d f _
  | some name => exact gives_bind (gives_modify _ _) (gives_attach d f _)

theorem gives_bindCall (s : Setting) (method : String) (type : PropertyType)
    (typeArgs : List String) (args : List Expr) (f : Frame) (target : Target) (w : Walk) :
    (bind s method type typeArgs args f target w).Gives
      ((), w.drawn s method type typeArgs args f target) := by
  unfold bind drawn drawing? drawnLocal?
  apply gives_bind (gives_get w)
  dsimp only
  cases args.findIdx? fun a => (w.draftLocal? a).isSome with
  | some i =>
    dsimp only
    cases args[i]?.bind w.draftLocal? with
    | none => exact gives_pure () w
    | some l =>
      dsimp only [Option.map_some, Option.bind_some]
      cases w.drafts.get? l with
      | none => exact gives_pure () w
      | some known => exact gives_keptAs l _ f target w
  | none =>
    cases target with
    | named n => exact gives_pure () w
    | discard => exact gives_pure () w
    | place e =>
      dsimp only
      cases w.draftLocal? e with
      | none => exact gives_pure () w
      | some l =>
        dsimp only [Option.map_some, Option.bind_some]
        cases w.drafts.get? l with
        | none => exact gives_pure () w
        | some known => exact gives_keptAs l _ f (.place e) w

def started (s : Setting) (name : String) (keywords : List String) (target : Target)
    (w : Walk) : Walk :=
  let w : Walk :=
    { enterPreamble w.closed with
      toggles := {}
      generation := w.closed.generation + 1
      current := some (.opened s name keywords) }
  match target.name? with
  | some l => { w with bindings := w.bindings.insert l { path := l, kind := .boolean } }
  | none => w

theorem modules_started (s : Setting) (name : String) (keywords : List String)
    (target : Target) (w : Walk) :
    (w.started s name keywords target).modules = w.closed.modules := by
  have hpreamble : (enterPreamble w.closed).modules = w.closed.modules := by
    unfold enterPreamble
    split <;> rfl
  unfold started
  split <;> exact hpreamble

theorem generation_started (s : Setting) (name : String) (keywords : List String)
    (target : Target) (w : Walk) :
    (w.started s name keywords target).generation = w.generation + 1 := by
  have hclosed : w.closed.generation = w.generation := by
    unfold closed
    split <;> rfl
  unfold started
  split <;> simp [hclosed]

theorem current_started (s : Setting) (name : String) (keywords : List String)
    (target : Target) (w : Walk) :
    (w.started s name keywords target).current = some (.opened s name keywords) := by
  unfold started
  split <;> rfl

/-- The frame and the walk once a call that starts a module is met. -/
def effected (s : Setting) (args : List Expr) (f : Frame) (target : Target) (w : Walk) :
    Frame × Walk :=
  match (args.filterMap (w.string? s.catalog)).reverse with
  | [] => (f, w)
  | name :: keywords =>
    let w := w.started s name (keywords.take 2).reverse target
    ({ home := 0, generation := w.generation }, w)

theorem gives_startModule (s : Setting) (args : List Expr) (f : Frame) (target : Target)
    (w : Walk) : (startModule s args f target w).Gives (w.effected s args f target) := by
  unfold startModule effected
  apply gives_bind (gives_get w)
  dsimp only
  cases (args.filterMap (w.string? s.catalog)).reverse with
  | nil =>
    apply gives_bind (gives_note (by decide) _ w)
    exact gives_pure f w
  | cons name keywords =>
    apply gives_bind (gives_finishModule w)
    apply gives_bind (gives_notes (visitNotes_quiet _ _ _ _ _) w.closed)
    apply gives_bind (gives_modify _ w.closed)
    apply gives_bind (gives_note (by decide) _ _)
    unfold started
    cases target.name? with
    | none => exact gives_bind (gives_get _) (gives_pure _ _)
    | some l =>
      apply gives_bind (gives_modify _ _)
      exact gives_bind (gives_get _) (gives_pure _ _)

def sectioned (s : Setting) (args : List Expr) (f : Frame) (target : Target) (w : Walk) : Walk :=
  match w.current, args.head?.bind (w.string? s.catalog) with
  | some m, some name =>
    let label := args[1]?.bind (w.string? s.catalog)
    let order := ((args.drop 1).findSome? s.catalog.evalNumber?).map floatToInt
    let w : Walk := { w with current := some (m.declared name label order f) }
    match target.name? with
    | some l => { w with toggles := w.toggles.insert l name }
    | none => w
  | _, _ => w

theorem gives_declareSection (s : Setting) (args : List Expr) (f : Frame) (target : Target)
    (w : Walk) : (declareSection s args f target w).Gives ((), w.sectioned s args f target) := by
  unfold declareSection sectioned
  apply gives_bind (gives_get w)
  dsimp only
  cases w.current with
  | none => exact gives_note (by decide) _ w
  | some m =>
    cases args.head?.bind (w.string? s.catalog) with
    | none => exact gives_pure () w
    | some name =>
      apply gives_bind (gives_notes (visitNotes_quiet _ _ _ _ _) w)
      apply gives_bind (gives_modify _ w)
      cases target.name? with
      | none => exact gives_pure () _
      | some l => exact gives_modify _ _

/-- The frame and the walk once a call of the vocabulary is met. -/
def shaped (s : Setting) (shape : CallShape) (method : String) (typeArgs : List String)
    (args : List Expr) (f : Frame) (target : Target) (w : Walk) : Frame × Walk :=
  match shape with
  | .propertyLookup =>
    (f, (target.name?.map fun l => w.declareProperty s l args.head? (0 < f.depth)).getD w)
  | .effect => w.effected s args f target
  | .subEffect => (f, w.sectioned s args f target)
  | .indent => (f.indentBy 1, w)
  | .unindent => (f.indentBy (-1), w)
  | .bind type => (f, w.drawn s method type typeArgs args f target)
  | .hint => (f, w.hint s args)
  | .unrecognized => (f, w)

theorem gives_walkShape (s : Setting) (shape : CallShape) (method : String)
    (typeArgs : List String) (args : List Expr) (f : Frame) (target : Target) (w : Walk) :
    (walkShape s shape method typeArgs args f target w).Gives
      (w.shaped s shape method typeArgs args f target) := by
  cases shape with
  | propertyLookup =>
    unfold walkShape shaped
    cases target.name? with
    | none => exact gives_pure f w
    | some l => exact gives_bind (gives_modify _ w) (gives_pure f _)
  | effect => exact gives_startModule s args f target w
  | subEffect => exact gives_bind (gives_declareSection s args f target w) (gives_pure f _)
  | indent => exact gives_pure _ w
  | unindent => exact gives_pure _ w
  | bind type =>
    exact gives_bind (gives_bindCall s method type typeArgs args f target w) (gives_pure f _)
  | hint => exact gives_bind (gives_modify _ w) (gives_pure f _)
  | unrecognized => exact gives_pure f w

end Walk

end PanelSchema
