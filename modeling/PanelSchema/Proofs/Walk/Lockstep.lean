import PanelSchema.Extract
import PanelSchema.Proofs.Policy
import PanelSchema.Proofs.Walk.Ending

/-!
The walk under the two policies in lockstep. The conditions of properties are written and
never read while a source is walked, so both walks go the same way, and the modules they
end in differ in those conditions only.
-/

namespace PanelSchema

open Syntax (Expr Stmt SourceTree)

namespace Setting

def under (s : Setting) (policy : ConditionPolicy) : Setting :=
  { s with settings := { s.settings with conditionPolicy := policy } }

/-- The setting in which a showing without conditions clears those there are. -/
abbrev clearing (s : Setting) : Setting :=
  s.under .lastUnconditionalWins

/-- The setting in which that is deferred. -/
abbrev deferring (s : Setting) : Setting :=
  s.under .disjunction

@[simp] theorem catalog_under (s : Setting) (policy : ConditionPolicy) :
    (s.under policy).catalog = s.catalog := rfl

end Setting

theorem ModuleDraft.widens_opened (s : Setting) (name : String) (keywords : List String) :
    (opened s.clearing name keywords).Widens (opened s.deferring name keywords) :=
  ⟨rfl, rfl, rfl, rfl, rfl, Roster.widens_empty⟩

/-- Two walks that know the same about locals, and whose modules differ by policy. -/
inductive Walk.Widens (w : Walk) : Walk → Prop where
  | intro {modules current} (hmodules : List.Forall₂ Module.Widens w.modules modules)
      (hcurrent : Option.Rel ModuleDraft.Widens w.current current) :
      Widens w { w with modules, current }

namespace Walk.Widens

variable {w v : Walk}

theorem modules (h : w.Widens v) : List.Forall₂ Module.Widens w.modules v.modules := by
  cases h with
  | intro hmodules hcurrent => exact hmodules

theorem current (h : w.Widens v) : Option.Rel ModuleDraft.Widens w.current v.current := by
  cases h with
  | intro hmodules hcurrent => exact hcurrent

theorem current_cases (h : w.Widens v) :
    (w.current = none ∧ v.current = none) ∨
      ∃ m n, w.current = some m ∧ v.current = some n ∧ m.Widens n := by
  have hcurrent := h.current
  cases hw : w.current with
  | none =>
    rw [hw] at hcurrent
    cases hv : v.current with
    | none => exact .inl ⟨rfl, rfl⟩
    | some n =>
      rw [hv] at hcurrent
      cases hcurrent
  | some m =>
    rw [hw] at hcurrent
    cases hv : v.current with
    | none =>
      rw [hv] at hcurrent
      cases hcurrent
    | some n =>
      rw [hv] at hcurrent
      cases hcurrent with
      | some hm => exact .inr ⟨m, n, rfl, rfl, hm⟩

theorem put (h : w.Widens v) {ms ns : List Module} {cur cur' : Option ModuleDraft}
    (hmodules : List.Forall₂ Module.Widens ms ns)
    (hcurrent : Option.Rel ModuleDraft.Widens cur cur') :
    Widens { w with modules := ms, current := cur } { v with modules := ns, current := cur' } := by
  cases h
  exact .intro hmodules hcurrent

theorem mapCurrent (h : w.Widens v) {g g' : ModuleDraft → ModuleDraft}
    (hg : ∀ m n, m.Widens n → (g m).Widens (g' n)) :
    Widens { w with current := w.current.map g } { v with current := v.current.map g' } := by
  rcases h.current_cases with ⟨hw, hv⟩ | ⟨m, n, hw, hv, hm⟩
  · rw [hw, hv]
    exact h.put h.modules .none
  · rw [hw, hv]
    exact h.put h.modules (.some (hg m n hm))

theorem locals (h : w.Widens v) (g : Walk → Walk)
    (hg : ∀ w modules current, g { w with modules, current } = { g w with modules, current }) :
    (g w).Widens (g v) := by
  have hsame : g w = { g w with modules := w.modules, current := w.current } :=
    hg w w.modules w.current
  cases h with
  | @intro modules current hmodules hcurrent =>
    have hmodules' : (g w).modules = w.modules := by rw [hsame]
    have hcurrent' : (g w).current = w.current := by rw [hsame]
    rw [hg w modules current]
    exact .intro (hmodules' ▸ hmodules) (hcurrent' ▸ hcurrent)

theorem generation (h : w.Widens v) : v.generation = w.generation := by
  cases h
  rfl

theorem normalize (h : w.Widens v) (f : Frame) : v.normalize f = w.normalize f := by
  unfold Walk.normalize
  rw [h.generation]
  rcases h.current_cases with ⟨hw, hv⟩ | ⟨m, n, hw, hv, hm⟩
  · rw [hw, hv]
  · rw [hw, hv, Option.map_some, Option.map_some, hm.root]

theorem draftLocal? (h : w.Widens v) : v.draftLocal? = w.draftLocal? := by
  funext e
  apply draftLocal?_congr
  intro n
  cases h
  rfl

theorem string? (h : w.Widens v) (c : Catalog) : v.string? c = w.string? c := by
  cases h
  rfl

theorem setMeaning (h : w.Widens v) (name : String) (m : LocalMeaning) :
    (w.setMeaning name m).Widens (v.setMeaning name m) :=
  h.locals (·.setMeaning name m) fun _ _ _ => rfl

theorem bindParams (h : w.Widens v) (c : Catalog) (params : List (String × Expr)) :
    (Walk.bindParams c params w).1.Widens (Walk.bindParams c params v).1 ∧
      (Walk.bindParams c params v).2 = (Walk.bindParams c params w).2 := by
  induction params generalizing w v with
  | nil => exact ⟨h, rfl⟩
  | cons param params ih =>
    obtain ⟨name, arg⟩ := param
    have hmeaning : v.argumentMeaning c arg = w.argumentMeaning c arg := by
      unfold argumentMeaning
      rw [h.draftLocal?]
      cases h
      rfl
    have hsaved : v.meaningOf name = w.meaningOf name := by
      cases h
      rfl
    obtain ⟨hrest, hmore⟩ := ih (h.setMeaning name (w.argumentMeaning c arg))
    rw [Walk.bindParams, Walk.bindParams, hmeaning, hsaved]
    exact ⟨hrest, congrArg (List.cons _) hmore⟩

theorem restore (h : w.Widens v) (saved : List (String × LocalMeaning)) :
    (Walk.restore saved w).Widens (Walk.restore saved v) := by
  unfold Walk.restore
  induction saved generalizing w v with
  | nil => exact h
  | cons p saved ih => exact ih (h.setMeaning p.1 p.2)

theorem declareProperty (h : w.Widens v) (s : Setting) (l : String) (source : Option Expr)
    (indented : Bool) :
    (w.declareProperty s.clearing l source indented).Widens
      (v.declareProperty s.deferring l source indented) :=
  h.locals (Walk.declareProperty s.deferring l source indented) fun _ _ _ => rfl

theorem keptAs (h : w.Widens v) (l : String) (d : Draft) (target : Target) :
    (w.keptAs l d target).Widens (v.keptAs l d target) := by
  apply h.locals (Walk.keptAs l d target)
  intro w modules current
  unfold Walk.keptAs
  cases target.name? with
  | none => rfl
  | some name =>
    dsimp only [boundTo]
    split <;> rfl

theorem drawing? (h : w.Widens v) (s : Setting) (method : String) (type : PropertyType)
    (typeArgs : List String) (args : List Expr) (f : Frame) (target : Target) :
    v.drawing? s.deferring method type typeArgs args f target =
      w.drawing? s.clearing method type typeArgs args f target := by
  unfold Walk.drawing? Walk.drawnLocal?
  rw [h.draftLocal?]
  cases h
  rfl

theorem drawn (h : w.Widens v) (s : Setting) (method : String) (type : PropertyType)
    (typeArgs : List String) (args : List Expr) (f : Frame) (target : Target) :
    (w.drawn s.clearing method type typeArgs args f target).Widens
      (v.drawn s.deferring method type typeArgs args f target) := by
  unfold Walk.drawn
  rw [h.drawing?]
  split
  · exact h
  · exact (h.keptAs _ _ target).mapCurrent fun _ _ hm => hm.shown _ f

theorem hint (h : w.Widens v) (s : Setting) (args : List Expr) :
    (w.hint s.clearing args).Widens (v.hint s.deferring args) := by
  have hdrafts : v.drafts.get? = w.drafts.get? := by
    cases h
    rfl
  unfold Walk.hint
  simp only [h.draftLocal?, h.string?, hdrafts, Setting.catalog_under]
  cases args.findSome? w.draftLocal? with
  | none => exact h
  | some l =>
    dsimp only
    cases w.drafts.get? l with
    | none => exact h
    | some d =>
      let hinted := (args.filterMap (w.string? s.catalog)).foldl Draft.hint d
      have hkept := h.locals (fun w => { w with drafts := w.drafts.insert l hinted })
        fun _ _ _ => rfl
      exact hkept.mapCurrent fun _ _ hm => hm.hinted d.identifier _

theorem sectioned (h : w.Widens v) (s : Setting) (args : List Expr) (f : Frame)
    (target : Target) :
    (w.sectioned s.clearing args f target).Widens (v.sectioned s.deferring args f target) := by
  unfold Walk.sectioned
  simp only [h.string?, Setting.catalog_under]
  rcases h.current_cases with ⟨hw, hv⟩ | ⟨m, n, hw, hv, hm⟩
  · rw [hw, hv]
    exact h
  · rw [hw, hv]
    cases args.head?.bind (w.string? s.catalog) with
    | none => exact h
    | some name =>
      dsimp only
      have hdeclared := h.put h.modules (.some (hm.declared name
        (args[1]?.bind (w.string? s.catalog))
        (((args.drop 1).findSome? s.catalog.evalNumber?).map floatToInt) f))
      cases target.name? with
      | none => exact hdeclared
      | some l =>
        exact hdeclared.locals (fun w => { w with toggles := w.toggles.insert l name })
          fun _ _ _ => rfl

theorem closed (h : w.Widens v) : w.closed.Widens v.closed := by
  unfold Walk.closed
  rcases h.current_cases with ⟨hw, hv⟩ | ⟨m, n, hw, hv, hm⟩
  · rw [hw, hv]
    exact h
  · rw [hw, hv]
    exact h.put (List.rel_append h.modules (.cons hm.finish .nil)) .none

theorem enterPreamble (h : w.Widens v) :
    (Walk.enterPreamble w).Widens (Walk.enterPreamble v) := by
  apply h.locals Walk.enterPreamble
  intro w modules current
  unfold Walk.enterPreamble
  dsimp only
  cases w.preamble <;> rfl

theorem restart (h : w.Widens v) (generation : Nat) {m n : ModuleDraft} (hm : m.Widens n) :
    Widens { w with toggles := {}, generation, current := some m }
      { v with toggles := {}, generation, current := some n } := by
  cases h with
  | intro hmodules hcurrent => exact .intro hmodules (.some hm)

theorem started (h : w.Widens v) (s : Setting) (name : String) (keywords : List String)
    (target : Target) :
    (w.started s.clearing name keywords target).Widens
      (v.started s.deferring name keywords target) := by
  have hopened := h.closed.enterPreamble.restart (w.closed.generation + 1)
    (ModuleDraft.widens_opened s name keywords)
  unfold Walk.started
  rw [h.closed.generation]
  cases target.name? with
  | none => exact hopened
  | some l =>
    exact hopened.locals
      (fun w => { w with bindings := w.bindings.insert l { path := l, kind := .boolean } })
      fun _ _ _ => rfl

theorem effected (h : w.Widens v) (s : Setting) (args : List Expr) (f : Frame)
    (target : Target) :
    (v.effected s.deferring args f target).1 = (w.effected s.clearing args f target).1 ∧
      (w.effected s.clearing args f target).2.Widens
        (v.effected s.deferring args f target).2 := by
  unfold Walk.effected
  simp only [h.string?, Setting.catalog_under]
  cases (args.filterMap (w.string? s.catalog)).reverse with
  | nil => exact ⟨rfl, h⟩
  | cons name keywords =>
    have hstarted := h.started s name (keywords.take 2).reverse target
    refine ⟨?_, hstarted⟩
    dsimp only
    rw [hstarted.generation]

theorem shaped (h : w.Widens v) (s : Setting) (shape : CallShape) (method : String)
    (typeArgs : List String) (args : List Expr) (f : Frame) (target : Target) :
    (v.shaped s.deferring shape method typeArgs args f target).1 =
        (w.shaped s.clearing shape method typeArgs args f target).1 ∧
      (w.shaped s.clearing shape method typeArgs args f target).2.Widens
        (v.shaped s.deferring shape method typeArgs args f target).2 := by
  cases shape with
  | propertyLookup =>
    refine ⟨rfl, ?_⟩
    dsimp only [Walk.shaped]
    cases target.name? with
    | none => exact h
    | some l => exact h.declareProperty s l args.head? _
  | effect => exact h.effected s args f target
  | subEffect => exact ⟨rfl, h.sectioned s args f target⟩
  | bind type => exact ⟨rfl, h.drawn s method type typeArgs args f target⟩
  | hint => exact ⟨rfl, h.hint s args⟩
  | _ => exact ⟨rfl, h⟩

theorem scope (h : w.Widens v) (s : Setting) :
    v.scope s.deferring = w.scope s.clearing := by
  cases h
  rfl

theorem branches (h : w.Widens v) (s : Setting) (test : Expr) (f : Frame) :
    Walk.branches s.deferring test f v = Walk.branches s.clearing test f w := by
  have htoggles : v.toggles.get? = w.toggles.get? := by
    cases h
    rfl
  have hhandle : ∀ name, v.current.bind (·.layout.handle? name) =
      w.current.bind (·.layout.handle? name) := by
    intro name
    rcases h.current_cases with ⟨hw, hv⟩ | ⟨m, n, hw, hv, hm⟩
    · rw [hw, hv]
    · rw [hw, hv, Option.bind_some, Option.bind_some, hm.layout]
  unfold Walk.branches
  rw [h.scope, htoggles]
  simp only [hhandle]

end Walk.Widens

/-- Two points that differ in their modules only, and there by policy. -/
inductive Point.Widens (c : Point) : Point → Prop where
  | intro {v : Walk} (h : c.walk.Widens v) : Widens c { c with walk := v }

namespace Point

open Traced (Alike alike_pure alike_bind_same)

variable {s : Setting} {c : Point} {v : Walk} (h : c.walk.Widens v)

include h

theorem widens_enter (routine : Routine) (args : List Expr) :
    Widens (c.enter s.clearing routine args)
      ({ c with walk := v }.enter s.deferring routine args) := by
  obtain ⟨tasks, rounds, stack, f, w⟩ := c
  have hrefuses : Walk.refuses s.deferring stack routine =
      Walk.refuses s.clearing stack routine := rfl
  unfold enter
  dsimp only
  rw [hrefuses]
  split
  · exact .intro h
  · cases rounds with
    | zero => exact .intro h
    | succ rounds =>
      obtain ⟨hbound, hsaved⟩ := h.bindParams s.catalog ((routine.params.map (·.name)).zip args)
      dsimp only [Setting.catalog_under]
      rw [hsaved]
      exact .intro hbound

theorem widens_value (target : Target) (e : Expr) :
    Widens (c.value s.clearing target e) ({ c with walk := v }.value s.deferring target e) := by
  cases e with
  | call m callee typeArgs args =>
    rw [value, value]
    cases callee.finalName? with
    | none => exact .intro h
    | some method =>
      dsimp only [Setting.catalog_under]
      cases CallShape.ofMethod method with
      | unrecognized =>
        dsimp only
        cases Walk.routineOf? s.catalog callee method with
        | some routine => exact widens_enter h routine args
        | none => exact .intro h
      | _ =>
        obtain ⟨hframe, hwalk⟩ := h.shaped s _ method typeArgs args c.frame target
        dsimp only
        rw [hframe]
        exact .intro hwalk
  | string m text =>
    rw [value, value]
    cases target.name? with
    | none => exact .intro h
    | some l =>
      exact .intro
        (h.locals (fun w => { w with strings := w.strings.insert l text }) fun _ _ _ => rfl)
  | name m source =>
    rw [value, value]
    cases target.name? with
    | none => exact .intro h
    | some l => exact .intro (h.locals (Walk.aliasLocal source l) fun _ _ _ => rfl)
  | _ => exact .intro h

theorem widens_args (es : List Expr) :
    Widens (c.args es) ({ c with walk := v }.args es) := by
  cases es with
  | nil => exact .intro h
  | cons e rest => cases e <;> exact .intro h

theorem widens_expr (e : Expr) :
    Widens (c.expr s.clearing e) ({ c with walk := v }.expr s.deferring e) := by
  cases e with
  | assign m target value =>
    rw [expr, expr]
    split <;> exact .intro h
  | unary m op operand =>
    unfold expr
    dsimp only
    split
    · cases op <;> exact .intro h
    · exact .intro h
  | _ => exact .intro h

theorem alike_stmt (stmt : Stmt) :
    Alike Widens (c.stmt s.clearing stmt) ({ c with walk := v }.stmt s.deferring stmt) := by
  cases stmt with
  | localDecl m type name value => cases value <;> exact alike_pure (.intro h)
  | ifThen m test body | ifElse m test body other =>
    rw [Point.stmt, Point.stmt, h.branches]
    apply alike_bind_same
    intro frames
    exact alike_pure (.intro h)
  | switch m subject sections =>
    have hbindings : v.bindings = c.walk.bindings := by
      generalize c.walk = w at h
      cases h
      rfl
    rw [Point.stmt, Point.stmt, h.scope, hbindings]
    apply alike_bind_same
    intro frames
    exact alike_pure (.intro h)
  | usingBlock m resource body =>
    rw [Point.stmt, Point.stmt]
    dsimp only [Setting.catalog_under]
    cases Walk.scopeIndent? s.catalog resource <;> exact alike_pure (.intro h)
  | expr e => exact alike_pure (widens_expr h e)
  | _ => exact alike_pure (.intro h)

/-- One step under the two policies. -/
theorem alike_perform (task : Task) :
    Alike Widens (c.perform s.clearing task) ({ c with walk := v }.perform s.deferring task) := by
  cases task with
  | value e target => exact alike_pure (widens_value h target e)
  | args es => exact alike_pure (widens_args h es)
  | stmt stmt =>
    rw [perform, perform, h.normalize]
    exact alike_stmt (c := { c with frame := c.walk.normalize c.frame }) h stmt
  | stmts body => cases body <;> exact alike_pure (.intro h)
  | sections sections frames =>
    cases sections with
    | nil => exact alike_pure (.intro h)
    | cons sec rest =>
      obtain ⟨m, labels, body⟩ := sec
      cases frames <;> exact alike_pure (.intro h)
  | leave saved => exact alike_pure (.intro (h.restore saved))
  | _ => exact alike_pure (.intro h)

omit h in
theorem Widens.matches {c' : Point} (h : c.Widens c') :
    Matches Widens s.clearing s.deferring c c' := by
  obtain ⟨hwalk⟩ := h
  obtain ⟨tasks, rounds, stack, f, w⟩ := c
  cases tasks with
  | nil => exact .ended rfl rfl
  | cons task rest =>
    exact .next rfl rfl (alike_perform (c := ⟨rest, rounds, stack, f, w⟩) hwalk task)

end Point

namespace Walk

open Traced (Alike)

theorem alike_entry (s : Setting) (entry : Routine) :
    Alike (fun r q => List.Forall₂ Module.Widens r.2.modules q.2.modules)
      (walkEntry s.clearing entry {}) (walkEntry s.deferring entry {}) := by
  have hstart : (Point.start s.clearing entry).Widens (Point.start s.deferring entry) :=
    .intro (.intro .nil .none)
  change Alike _ (Point.walkOf s.clearing entry >>= fun after => finishModule after.2)
    (Point.walkOf s.deferring entry >>= fun after => finishModule after.2)
  refine (Point.walkOf_alike hstart fun _ _ _ h => h.matches).bind ?_
  rintro _ _ ⟨c, _, ⟨h⟩, rfl, rfl⟩
  unfold Alike
  rw [(gives_finishModule c.walk).result, (gives_finishModule _).result]
  exact .ok h.closed.modules

end Walk

/-- Extraction under the two policies stops alike, or ends in modules that differ in the
conditions of properties only. Where these differ, the property is shown always under the
policy that defers clearing. -/
theorem extractModules_policy (t : SourceTree) (declarations : DeclarationTable)
    (settings : Settings) :
    Traced.Alike (List.Forall₂ Module.Widens)
      (extractModules t declarations
        { settings with conditionPolicy := .lastUnconditionalWins })
      (extractModules t declarations { settings with conditionPolicy := .disjunction }) := by
  unfold extractModules
  refine Traced.alike_bind_same _ fun catalog => ?_
  dsimp only
  cases catalog.routine? settings.entryPoint with
  | none => exact .error _
  | some entry =>
    refine Traced.alike_bind_same _ fun _ => ?_
    refine (Walk.alike_entry { catalog, declarations, settings } entry).bind ?_
    rintro ⟨_, w⟩ ⟨_, v⟩ h
    dsimp only at h ⊢
    split <;> split <;> exact .ok h

end PanelSchema
