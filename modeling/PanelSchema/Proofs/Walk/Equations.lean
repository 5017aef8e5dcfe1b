import PanelSchema.Proofs.Traced
import PanelSchema.Walk.Routine

/-!
The walk over each form of expression and statement, as work that starts from a given
walk. A statement is walked in the frame that is normalized for it.
-/

namespace PanelSchema

open Syntax (Expr Stmt SwitchSection Mark)

theorem WalkM.lift_bind {α β : Type} (x : Traced α) (g : α → WalkM β) (w : Walk) :
    ((StateT.lift x : WalkM α) >>= g) w = x >>= fun a => g a w :=
  Traced.bind_assoc x _ _

namespace Walk

variable (s : Setting) (follow : Follow) (f : Frame) (w : Walk) (m : Mark)

attribute [local simp] walkValue walkArgs walkStmt walkStmts walkSections

/-! ### Expressions -/

theorem walkValue_call {callee : Expr} {method : String} (h : callee.finalName? = some method)
    (typeArgs : List String) (args : List Expr) (target : Target) :
    walkValue s follow (.call m callee typeArgs args) f target w =
      match CallShape.ofMethod method with
      | .unrecognized =>
        match routineOf? s.catalog callee method with
        | some routine => follow routine args f w
        | none => walkArgs s follow args f w
      | shape => walkShape s shape method typeArgs args f target w := by
  rw [walkValue, h]
  dsimp only
  cases CallShape.ofMethod method with
  | unrecognized =>
    dsimp only
    cases routineOf? s.catalog callee method <;> rfl
  | _ => rfl

theorem walkValue_cast (type : String) (e : Expr) (target : Target) :
    walkValue s follow (.cast m type e) f target w = walkValue s follow e f target w := by
  simp

theorem walkValue_conditional (test yes no : Expr) (target : Target) :
    walkValue s follow (.conditional m test yes no) f target w = (do
      let after ← walkValue s follow test f (if isCallOrCast test then target else .discard) w
      let after ← walkValue s follow yes after.1 target after.2
      walkValue s follow no after.1 target after.2) := by
  rw [walkValue]
  rfl

theorem walkArgs_call (callee : Expr) (typeArgs : List String) (args rest : List Expr) :
    walkArgs s follow (.call m callee typeArgs args :: rest) f w =
      walkValue s follow (.call m callee typeArgs args) f .discard w >>=
        fun after => walkArgs s follow rest after.1 after.2 := by
  rw [walkArgs]
  rfl

/-! ### Statements -/

theorem walkStmt_block (body : List Stmt) :
    walkStmt s follow (.block m body) f w = walkStmts s follow body (w.normalize f) w := by
  rw [walkStmt]
  rfl

theorem walkStmt_localDecl (type name : String) (value : Expr) :
    walkStmt s follow (.localDecl m type name (some value)) f w =
      walkValue s follow value (w.normalize f) (.named name) w := by
  rw [walkStmt]
  rfl

theorem walkStmt_ifThen (test : Expr) (body : Stmt) :
    walkStmt s follow (.ifThen m test body) f w = (do
      let frames ← branches s test (w.normalize f) w
      let after ← walkStmt s follow body frames.1 w
      pure (w.normalize f, after.2)) := by
  rw [walkStmt]
  change ((StateT.lift (branches s test (w.normalize f) w) : WalkM (Frame × Frame)) >>=
    fun frames => do
      let _ ← walkStmt s follow body frames.1
      pure (w.normalize f)) w = _
  rw [WalkM.lift_bind]
  rfl

theorem walkStmt_ifElse (test : Expr) (body other : Stmt) :
    walkStmt s follow (.ifElse m test body other) f w = (do
      let frames ← branches s test (w.normalize f) w
      let after ← walkStmt s follow body frames.1 w
      let after ← walkStmt s follow other frames.2 after.2
      pure (w.normalize f, after.2)) := by
  rw [walkStmt]
  change ((StateT.lift (branches s test (w.normalize f) w) : WalkM (Frame × Frame)) >>=
    fun frames => do
      let _ ← walkStmt s follow body frames.1
      let _ ← walkStmt s follow other frames.2
      pure (w.normalize f)) w = _
  rw [WalkM.lift_bind]
  rfl

theorem walkStmt_switch (subject : Expr) (sections : List SwitchSection) :
    walkStmt s follow (.switch m subject sections) f w = (do
      let frames ← caseFrames (w.scope s) ((w.bindings.resolve? subject).map (·.path))
        (w.normalize f) sections
      let after ← walkSections s follow sections frames w
      pure (w.normalize f, after.2)) := by
  rw [walkStmt]
  change ((StateT.lift (caseFrames (w.scope s) ((w.bindings.resolve? subject).map (·.path))
      (w.normalize f) sections) : WalkM (List Frame)) >>= fun frames => do
    walkSections s follow sections frames
    pure (w.normalize f)) w = _
  rw [WalkM.lift_bind]
  rfl

theorem walkStmt_usingBlock (resource body : Stmt) :
    walkStmt s follow (.usingBlock m resource body) f w =
      match scopeIndent? s.catalog resource with
      | some n => (do
        let after ← walkStmt s follow body ((w.normalize f).indentBy n) w
        pure (after.1.indentBy (-n), after.2))
      | none => walkStmt s follow body (w.normalize f) w := by
  rw [walkStmt]
  change (match scopeIndent? s.catalog resource with
    | some n => do
      let after ← walkStmt s follow body ((w.normalize f).indentBy n)
      pure (after.indentBy (-n))
    | none => walkStmt s follow body (w.normalize f)) w = _
  cases scopeIndent? s.catalog resource with
  | some n => rfl
  | none => rfl

theorem walkStmt_whileLoop (test : Expr) (body : Stmt) :
    walkStmt s follow (.whileLoop m test body) f w =
      walkStmt s follow body (w.normalize f) w := by
  rw [walkStmt]
  rfl

theorem walkStmt_loop (body : Stmt) :
    walkStmt s follow (.loop m body) f w = walkStmt s follow body (w.normalize f) w := by
  rw [walkStmt]
  rfl

theorem walkStmt_doWhile (body : Stmt) (test : Expr) :
    walkStmt s follow (.doWhile m body test) f w =
      walkStmt s follow body (w.normalize f) w := by
  rw [walkStmt]
  rfl

theorem walkStmt_expr (e : Expr) :
    walkStmt s follow (.expr e) f w = walkExpr s follow e (w.normalize f) w := by
  rw [walkStmt]
  rfl

theorem walkStmts_cons (stmt : Stmt) (rest : List Stmt) :
    walkStmts s follow (stmt :: rest) f w =
      walkStmt s follow stmt f w >>= fun after => walkStmts s follow rest after.1 after.2 := by
  rw [walkStmts]
  rfl

theorem walkStmts_nil : walkStmts s follow [] f w = pure (f, w) := by
  rw [walkStmts]
  rfl

theorem walkSections_cons (labels : List (Option Expr)) (body : List Stmt)
    (rest : List SwitchSection) (frames : List Frame) :
    walkSections s follow (.mk m labels body :: rest) (f :: frames) w =
      walkStmts s follow body f w >>= fun after => walkSections s follow rest frames after.2 := by
  rw [walkSections]
  rfl

/-! ### Routines -/

/-- Whether a routine is not followed, for it is being walked or too deep. -/
def refuses (s : Setting) (stack : List String) (routine : Routine) : Bool :=
  stack.contains routine.name || s.settings.maxInlineDepth ≤ stack.length

variable (rounds : Nat) (stack : List String) (routine : Routine) (args : List Expr)

theorem followWithin_refused (h : refuses s stack routine = true) :
    (followWithin s rounds stack routine args f w).result = .ok (f, w) := by
  unfold refuses at h
  unfold followWithin
  rw [if_pos h]
  rfl

theorem followWithin_zero : (followWithin s 0 stack routine args f w).result = .ok (f, w) := by
  unfold followWithin
  split <;> rfl

theorem followWithin_succ (h : refuses s stack routine = false) :
    followWithin s (rounds + 1) stack routine args f w =
      walkStmt s (followWithin s rounds (routine.name :: stack)) routine.body f
          (bindParams s.catalog ((routine.params.map (·.name)).zip args) w).1 >>=
        fun after => pure (after.1, restore
          (bindParams s.catalog ((routine.params.map (·.name)).zip args) w).2 after.2) := by
  unfold refuses at h
  rw [followWithin]
  dsimp only
  rw [h]
  rfl

end Walk

end PanelSchema
