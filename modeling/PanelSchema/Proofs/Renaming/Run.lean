import PanelSchema.Proofs.Renaming.Branches
import PanelSchema.Proofs.Walk.Ending
import PanelSchema.Proofs.Walk.Steps

/-!
The walk over a source and over the renamed one, step by step. Both go the same way, and each
point of one has its counterpart in the other.
-/

namespace PanelSchema

open Syntax (Expr Stmt SwitchSection)

/-! ### Calls -/

def Call.mapNames (f : String → String) (call : Call) : Call :=
  { call with args := call.args.map (Expr.mapNames f), target := call.target.mapNames f }

theorem Renaming.method_cases {f : String → String} (hf : Renaming f) (callee : Expr) :
    (callee.finalName? = none ∧ (callee.mapNames f).finalName? = none) ∨
      ∃ n n', callee.finalName? = some n ∧ (callee.mapNames f).finalName? = some n' ∧
        PathRenamed f n n' ∧ CallShape.ofMethod n' = CallShape.ofMethod n ∧
        (CallShape.ofMethod n ≠ .unrecognized → n' = n) := by
  cases hn : callee.finalName? with
  | none =>
    refine .inl ⟨rfl, ?_⟩
    rcases finalName?_cases (f := f) callee with h | h <;> rw [h, hn]
    rfl
  | some n =>
    right
    rcases finalName?_cases (f := f) callee with h | h
    · exact ⟨n, n, rfl, h.trans hn, .same n, rfl, fun _ => rfl⟩
    · refine ⟨n, f n, rfl, by rw [h, hn]; rfl, (hf.pathRenamed n).1, hf.ofMethod n, ?_⟩
      intro hrecognized
      by_contra hmoved
      exact hrecognized (hf.ordinary n hmoved).unrecognized

theorem Call.of?_mapNames {f : String → String} (hf : Renaming f) (target : Target) (e : Expr) :
    Call.of? (target.mapNames f) (e.mapNames f) = (Call.of? target e).map (Call.mapNames f) := by
  cases e with
  | call m callee typeArgs args =>
    rw [Expr.mapNames, Call.of?, Call.of?]
    rcases hf.method_cases callee with ⟨hn, hn'⟩ | ⟨n, n', hn, hn', -, hshape, hsame⟩
    · rw [hn, hn']
      rfl
    · rw [hn, hn', Option.bind_some, Option.bind_some, hshape]
      cases hmethod : CallShape.ofMethod n with
      | unrecognized => rfl
      | _ =>
        have hname : n' = n := hsame (by rw [hmethod]; simp)
        simp [hname, Call.mapNames]
  | new m type args init => cases init <;> rfl
  | _ => rfl

/-! ### Points -/

/-- Something left to do, and the same over the renamed source. -/
inductive Task.Renamed (f : String → String) (kept : String → Bool) : Task → Task → Prop where
  | value (e : Expr) (target : Target) :
    Renamed f kept (.value e target) (.value (e.mapNames f) (target.mapNames f))
  | args (es : List Expr) : Renamed f kept (.args es) (.args (es.map (Expr.mapNames f)))
  | stmt (stmt : Stmt) : Renamed f kept (.stmt stmt) (.stmt (stmt.mapNames f))
  | stmts (body : List Stmt) :
    Renamed f kept (.stmts body) (.stmts (body.map (Stmt.mapNames f)))
  | sections (sections : List SwitchSection) (frames : List Frame) :
    Renamed f kept (.sections sections frames)
      (.sections (sections.map (SwitchSection.mapNames f)) frames)
  | resume (frame : Frame) : Renamed f kept (.resume frame) (.resume frame)
  | indent (n : Int) : Renamed f kept (.indent n) (.indent n)
  | leave {saved saved' : List (String × Walk.LocalMeaning)}
      (h : Walk.Renamed.SameSaved f kept saved saved') :
    Renamed f kept (.leave saved) (.leave saved')

/-- A point of a walk, and its counterpart over the renamed source. -/
structure Point.Renamed (f : String → String) (kept : String → Bool) (c c' : Point) : Prop where
  tasks : List.Forall₂ (Task.Renamed f kept) c.tasks c'.tasks
  rounds : c'.rounds = c.rounds
  stack : c'.stack = c.stack
  frame : c'.frame = c.frame
  walk : c.walk.Renamed f kept c'.walk

namespace Point.Renamed

open Traced (Alike alike_pure alike_bind_same)

variable {f : String → String} (hf : Renaming f) {kept : String → Bool} {s : Setting}
  (hs : s.catalog.FixedBy f) {c c' : Point} (h : c.Renamed f kept c')

include h in
theorem push {task task' : Task} (htask : task.Renamed f kept task') :
    Renamed f kept { c with tasks := task :: c.tasks } { c' with tasks := task' :: c'.tasks } :=
  { h with tasks := .cons htask h.tasks }

include hf hs h in
theorem enter (routine : Routine) (args : List Expr) :
    Renamed f kept (c.enter s routine args)
      (c'.enter (s.mapNames f) (routine.mapNames f) (args.map (Expr.mapNames f))) := by
  have hrefuses : Walk.refuses (s.mapNames f) c'.stack (routine.mapNames f) =
      Walk.refuses s c.stack routine := by
    rw [h.stack]
    rfl
  have hnames : (routine.mapNames f).params.map (·.name) = (routine.params.map (·.name)).map f := by
    simp [Routine.mapNames, Syntax.Parameter.mapNames]
  have hparams : ((routine.mapNames f).params.map (·.name)).zip (args.map (Expr.mapNames f)) =
      ((routine.params.map (·.name)).zip args).map fun p => (f p.1, p.2.mapNames f) := by
    rw [hnames, List.zip_map]
    rfl
  unfold Point.enter
  rw [hrefuses, h.rounds, hparams]
  split
  · exact h
  · cases c.rounds with
    | zero => exact h
    | succ rounds =>
      obtain ⟨hbound, hsaved⟩ := h.walk.bindParams hf hs ((routine.params.map (·.name)).zip args)
      exact
        { tasks := .cons (.stmt routine.body) (.cons (.leave hsaved) h.tasks)
          rounds := rfl
          stack := by rw [h.stack]; rfl
          frame := h.frame
          walk := hbound }

include hf hs h in
theorem follow {target : Target} {m : Syntax.Mark} {callee : Expr} {typeArgs : List String}
    {args : List Expr} (hcall : Call.of? target (.call m callee typeArgs args) = none) :
    Renamed f kept (c.value s target (.call m callee typeArgs args))
      (c'.value (s.mapNames f) (target.mapNames f)
        ((Expr.call m callee typeArgs args).mapNames f)) := by
  rw [Expr.mapNames, Point.value, Point.value, Expr.mapNamesAll_eq]
  rcases hf.method_cases callee with ⟨hn, hn'⟩ | ⟨n, n', hn, hn', hpath, hshape, -⟩
  · rw [hn, hn']
    exact h
  · have hmethod : CallShape.ofMethod n = .unrecognized := by
      rw [Call.of?, hn, Option.bind_some] at hcall
      cases hshape : CallShape.ofMethod n with
      | unrecognized => rfl
      | _ => simp [hshape] at hcall
    rw [hn, hn']
    dsimp only
    rw [hshape, hmethod]
    dsimp only [Setting.mapNames]
    rw [Walk.routineOf?_mapNames hf hs hpath]
    cases Walk.routineOf? s.catalog callee n with
    | some routine => exact h.enter hf hs routine args
    | none => exact h.push (.args args)

omit hf hs h in
theorem isCallOrCast_mapNames (e : Expr) :
    Walk.isCallOrCast (e.mapNames f) = Walk.isCallOrCast e := by
  cases e with
  | new m type args init => cases init <;> rfl
  | _ => rfl

include hf hs h in
theorem value {target : Target} {e : Expr}
    (hmeets : ∀ call, Call.of? target e = some call →
      Walk.Renamed.Meets f kept s c.walk call.shape call.args call.target) :
    Renamed f kept (c.value s target e)
      (c'.value (s.mapNames f) (target.mapNames f) (e.mapNames f)) := by
  cases hcall : Call.of? target e with
  | some call =>
    have hcall' : Call.of? (target.mapNames f) (e.mapNames f) = some (call.mapNames f) := by
      rw [Call.of?_mapNames hf, hcall, Option.map_some]
    obtain ⟨hwalk, hframe⟩ := h.walk.shaped hf hs call.method call.typeArgs c.frame
      (hmeets call hcall)
    rw [value_of_call hcall, value_of_call hcall']
    unfold Point.after
    rw [h.frame]
    exact { h with frame := hframe, walk := hwalk }
  | none =>
    cases e with
    | call m callee typeArgs args => exact h.follow hf hs hcall
    | cast m type e => exact h.push (.value e target)
    | conditional m test yes no =>
      have htarget :
          (if Walk.isCallOrCast (test.mapNames f) then target.mapNames f else .discard) =
            (if Walk.isCallOrCast test then target else .discard).mapNames f := by
        rw [isCallOrCast_mapNames]
        split <;> rfl
      rw [Expr.mapNames, Point.value, Point.value, htarget]
      exact ((h.push (.value no target)).push (.value yes target)).push (.value test _)
    | string m text =>
      rw [Expr.mapNames, Point.value, Point.value, hf.name?]
      cases target.name? with
      | none => exact h
      | some l => exact { h with walk := h.walk.holdsText hf l text }
    | name m source =>
      rw [Expr.mapNames, Point.value, Point.value, hf.name?]
      cases target.name? with
      | none => exact h
      | some l => exact { h with walk := h.walk.aliasLocal hf source l }
    | new m type args init => cases init <;> exact h
    | _ => exact h

include h in
theorem args (es : List Expr) :
    Renamed f kept (c.args es) (c'.args (es.map (Expr.mapNames f))) := by
  cases es with
  | nil => exact h
  | cons e rest =>
    cases e with
    | call m callee typeArgs args =>
      exact (h.push (.args rest)).push (.value (.call m callee typeArgs args) .discard)
    | new m type args init => cases init <;> exact h.push (.args rest)
    | _ => exact h.push (.args rest)

include hf hs h in
theorem expr (e : Expr) :
    Renamed f kept (c.expr s e) (c'.expr (s.mapNames f) (e.mapNames f)) := by
  cases e with
  | assign m target value =>
    rw [Expr.mapNames, Point.expr, Point.expr, hf.isIndentLevel]
    split
    · have hframe : Walk.assignIndent (s.catalog.mapNames f) (value.mapNames f) c'.frame =
          Walk.assignIndent s.catalog value c.frame := by
        rw [h.frame, Walk.assignIndent_mapNames hf hs]
      exact { h with frame := hframe }
    · exact h.push (.value value (.place target))
  | unary m op operand =>
    have hindent : ∀ n, c'.frame.indentBy n = c.frame.indentBy n := by simp [h.frame]
    unfold Expr.mapNames Point.expr
    dsimp only
    rw [hf.isIndentLevel]
    split
    · cases op with
      | inc => exact { h with frame := hindent 1 }
      | dec => exact { h with frame := hindent (-1) }
      | _ => exact h
    · exact h
  | new m type args init =>
    cases init with
    | none => exact h.push (.value (.new m type args none) .discard)
    | some es => exact h.push (.value (.new m type args (some es)) .discard)
  | _ => exact h.push (.value _ .discard)

include hf hs h in
theorem stmt (stmt : Stmt) :
    Alike (Renamed f kept) (c.stmt s stmt) (c'.stmt (s.mapNames f) (stmt.mapNames f)) := by
  cases stmt with
  | block m body =>
    rw [Stmt.mapNames, Stmt.mapNamesAll_eq]
    exact alike_pure (h.push (.stmts body))
  | localDecl m type name value =>
    cases value with
    | none => exact alike_pure h
    | some value => exact alike_pure (h.push (.value value (.named name)))
  | ifThen m test body =>
    rw [Stmt.mapNames, Point.stmt, Point.stmt, h.frame, h.walk.branches hf hs]
    apply alike_bind_same
    intro frames
    apply alike_pure
    have hpushed := (h.push (.resume c.frame)).push (.stmt body)
    exact { hpushed with frame := rfl }
  | ifElse m test yes no =>
    rw [Stmt.mapNames, Point.stmt, Point.stmt, h.frame, h.walk.branches hf hs]
    apply alike_bind_same
    intro frames
    apply alike_pure
    have hpushed := (((h.push (.resume c.frame)).push (.stmt no)).push
      (.resume frames.2)).push (.stmt yes)
    exact { hpushed with frame := rfl }
  | switch m subject sections =>
    rw [Stmt.mapNames, Point.stmt, Point.stmt, h.frame, h.walk.resolve?,
      SwitchSection.mapNamesAll_eq, Walk.Renamed.caseFrames hf hs c.walk c'.walk]
    apply alike_bind_same
    intro frames
    apply alike_pure
    have hpushed := (h.push (.resume c.frame)).push (.sections sections frames)
    exact { hpushed with frame := rfl }
  | usingBlock m resource body =>
    rw [Stmt.mapNames, Point.stmt, Point.stmt]
    dsimp only [Setting.mapNames]
    rw [Walk.scopeIndent?_mapNames hf hs]
    cases Walk.scopeIndent? s.catalog resource with
    | none => exact alike_pure (h.push (.stmt body))
    | some n =>
      have hpushed := (h.push (.indent (-n))).push (.stmt body)
      exact alike_pure { hpushed with frame := by rw [h.frame] }
  | whileLoop m test body => exact alike_pure (h.push (.stmt body))
  | loop m body => exact alike_pure (h.push (.stmt body))
  | doWhile m body test => exact alike_pure (h.push (.stmt body))
  | expr e => exact alike_pure (h.expr hf hs e)
  | returns m value => exact alike_pure h
  | breaks m => exact alike_pure h
  | continues m => exact alike_pure h
  | skipped m text => exact alike_pure h

def Ready (f : String → String) (kept : String → Bool) (s : Setting) (c : Point) : Prop :=
  ∀ call, c.call? = some call →
    Walk.Renamed.Meets f kept s c.walk call.shape call.args call.target

include hf hs h in
theorem perform {task task' : Task} (htask : task.Renamed f kept task')
    (hready : Ready f kept s { c with tasks := task :: c.tasks }) :
    Alike (Renamed f kept) (c.perform s task) (c'.perform (s.mapNames f) task') := by
  cases htask with
  | value e target => exact alike_pure (h.value hf hs hready)
  | args es => exact alike_pure (h.args es)
  | stmt stmt =>
    have hnormal : Renamed f kept { c with frame := c.walk.normalize c.frame }
        { c' with frame := c'.walk.normalize c'.frame } :=
      { h with frame := by rw [h.frame, h.walk.normalize] }
    exact hnormal.stmt hf hs stmt
  | stmts body =>
    cases body with
    | nil => exact alike_pure h
    | cons stmt rest => exact alike_pure ((h.push (.stmts rest)).push (.stmt stmt))
  | sections sections frames =>
    cases sections with
    | nil => exact alike_pure h
    | cons sec rest =>
      obtain ⟨m, labels, body⟩ := sec
      cases frames with
      | nil => exact alike_pure h
      | cons frame frames =>
        rw [List.map_cons, SwitchSection.mapNames, Stmt.mapNamesAll_eq]
        have hpushed := (h.push (.sections rest frames)).push (.stmts body)
        exact alike_pure { hpushed with frame := rfl }
  | resume frame => exact alike_pure { h with frame := rfl }
  | indent n => exact alike_pure { h with frame := by rw [h.frame] }
  | leave hsaved =>
    exact alike_pure
      { h with
        walk := h.walk.restore hf hsaved
        stack := by rw [h.stack]
        rounds := by rw [h.rounds] }

include hf hs h in
/-- The first task of both points leads to counterparts, or stops both. -/
theorem matches_of_ready (hready : Ready f kept s c) :
    Matches (Renamed f kept) s (s.mapNames f) c c' := by
  have hboth := h.tasks
  cases htasks : c.tasks with
  | nil =>
    rw [htasks, List.forall₂_nil_left_iff] at hboth
    exact .ended htasks hboth
  | cons task rest =>
    rw [htasks, List.forall₂_cons_left_iff] at hboth
    obtain ⟨task', rest', htask, hrest, htasks'⟩ := hboth
    have hpopped : Renamed f kept { c with tasks := rest } { c' with tasks := rest' } :=
      { h with tasks := hrest }
    apply Matches.next htasks htasks'
    apply hpopped.perform hf hs htask
    dsimp only
    rw [← htasks]
    exact hready

include h in
theorem call? (hf : Renaming f) : c'.call? = c.call?.map (Call.mapNames f) := by
  have hboth := h.tasks
  unfold Point.call?
  generalize c.tasks = tasks at hboth
  generalize c'.tasks = tasks' at hboth
  cases hboth with
  | nil => rfl
  | cons htask _ =>
    cases htask with
    | value e target => exact Call.of?_mapNames hf target e
    | _ => rfl

theorem start (f : String → String) (kept : String → Bool) (s : Setting) (entry : Routine) :
    Renamed f kept (start s entry) (start (s.mapNames f) (entry.mapNames f)) where
  tasks := .cons (.stmt entry.body) .nil
  rounds := Dict.size_map _ _
  stack := rfl
  frame := rfl
  walk :=
    { modules := rfl
      current := rfl
      generation := rfl
      drafts := .empty
      bindings := .empty
      toggles := .empty
      strings := .empty
      preamble := .none }

include hf hs in
/-- The walks of a routine and of the renamed one come to the same end. -/
theorem walkOf {entry : Routine}
    (hready : ∀ b, Reaches s (Point.start s entry) b → Ready f kept s b) :
    Alike (fun r r' => r'.1 = r.1 ∧ r.2.Renamed f kept r'.2) (Point.walkOf s entry)
      (Point.walkOf (s.mapNames f) (entry.mapNames f)) := by
  have halike := walkOf_alike (start f kept s entry) fun c c' hreaches h =>
    h.matches_of_ready hf hs (hready c hreaches)
  apply halike.imp
  rintro _ _ ⟨c, c', h, rfl, rfl⟩
  exact ⟨h.frame, h.walk⟩

include hf hs in
/-- A renaming that changes no name of a source changes none of the calls that are met. The
walk over the source with the same names is the one over the renamed source, so each of its
points is the counterpart of `c` in two ways. -/
theorem call_fixed {entry : Routine} (hid : s.catalog.FixedBy id)
    (hsame : s.mapNames f = s.mapNames id) (hentry : entry.mapNames f = entry.mapNames id)
    (hreaches : Reaches s (Point.start s entry) c) {call : Call} (hcall : c.call? = some call) :
    call.mapNames f = call.mapNames id := by
  have hagree : ∀ {c c' : Point} {call : Call}, Renamed f (fun _ => false) c c' →
      Renamed id (fun _ => false) c c' → c.call? = some call →
      call.mapNames f = call.mapNames id := by
    intro c c' call h h' hcall
    have hmoved := (h.call? hf).symm.trans (h'.call? .unmoved)
    rw [hcall] at hmoved
    exact Option.some.inj hmoved
  have hboth : ∃ c', Renamed f (fun _ => false) c c' ∧ Renamed id (fun _ => false) c c' := by
    clear hcall
    induction hreaches with
    | refl =>
      refine ⟨_, start f _ s entry, ?_⟩
      rw [hsame, hentry]
      exact start id _ s entry
    | @tail b d _ hstep ih =>
      obtain ⟨b', h, h'⟩ := ih
      have hready : Ready f (fun _ => false) s b := by
        intro call hcall
        refine ⟨fun _ l hl => ?_, fun _ _ _ _ hkept => absurd hkept Bool.false_ne_true⟩
        have htarget := congrArg (fun call => call.target.name?) (hagree h h' hcall)
        simpa [Call.mapNames, hf.name?, Renaming.unmoved.name?, hl] using htarget
      have hready' : Ready id (fun _ => false) s b := fun call _ =>
        ⟨fun _ _ _ => rfl, fun _ _ _ _ hkept => absurd hkept Bool.false_ne_true⟩
      obtain ⟨d', hstep', hd⟩ := (h.matches_of_ready hf hs hready).step hstep
      obtain ⟨e', hstep'', he⟩ := (h'.matches_of_ready .unmoved hid hready').step hstep
      rw [← hsame] at hstep''
      cases step_rightUnique _ hstep' hstep''
      exact ⟨d', hd, he⟩
  obtain ⟨c', h, h'⟩ := hboth
  exact hagree h h' hcall

end Point.Renamed

end PanelSchema
