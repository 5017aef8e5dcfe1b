import Mathlib.Logic.Relation
import PanelSchema.Proofs.Walk.Effects
import PanelSchema.Proofs.Walk.Equations

/-!
The walk step by step. A point of the walk says what is left to do, in which routine and
frame, and what is known. One step takes the first task, and a walk that ends has gone from
point to point until nothing was left.
-/

namespace PanelSchema

open Syntax (Expr Stmt SwitchSection)

def Syntax.Expr.calling (method : String) (args : List Expr) : Expr :=
  .call default (.name default method) [] args

/-- Something left to do. -/
inductive Task where
  | value (e : Expr) (target : Target)
  | args (es : List Expr)
  | stmt (stmt : Stmt)
  | stmts (body : List Stmt)
  | sections (sections : List SwitchSection) (frames : List Frame)
  /-- Goes on in a frame that was left. -/
  | resume (f : Frame)
  | indent (n : Int)
  /-- Leaves a routine. Its parameters mean again what they meant before. -/
  | leave (saved : List (String × Walk.LocalMeaning))

structure Point where
  tasks : List Task
  /-- How many more routines may be entered. -/
  rounds : Nat
  /-- The routines being walked, the innermost first. -/
  stack : List String
  frame : Frame
  walk : Walk

namespace Point

/-- A call of a routine is followed, unless it is being walked or too deep. -/
def enter (s : Setting) (routine : Routine) (args : List Expr) (c : Point) : Point :=
  if Walk.refuses s c.stack routine then c
  else
    match c.rounds with
    | 0 => c
    | rounds + 1 =>
      let bound := Walk.bindParams s.catalog ((routine.params.map (·.name)).zip args) c.walk
      { tasks := .stmt routine.body :: .leave bound.2 :: c.tasks
        rounds
        stack := routine.name :: c.stack
        frame := c.frame
        walk := bound.1 }

def value (s : Setting) (target : Target) (c : Point) : Expr → Point
  | .call _ callee typeArgs args =>
    match callee.finalName? with
    | none => c
    | some method =>
      match CallShape.ofMethod method with
      | .unrecognized =>
        match Walk.routineOf? s.catalog callee method with
        | some routine => c.enter s routine args
        | none => { c with tasks := .args args :: c.tasks }
      | shape =>
        let after := c.walk.shaped s shape method typeArgs args c.frame target
        { c with frame := after.1, walk := after.2 }
  | .cast _ _ e => { c with tasks := .value e target :: c.tasks }
  | .conditional _ test yes no =>
    { c with
      tasks :=
        .value test (if Walk.isCallOrCast test then target else .discard) ::
          .value yes target :: .value no target :: c.tasks }
  | .string _ text =>
    match target.name? with
    | some l => { c with walk := { c.walk with strings := c.walk.strings.insert l text } }
    | none => c
  | .name _ source =>
    match target.name? with
    | some l => { c with walk := c.walk.aliasLocal source l }
    | none => c
  | _ => c

def args (c : Point) : List Expr → Point
  | [] => c
  | e@(.call ..) :: rest => { c with tasks := .value e .discard :: .args rest :: c.tasks }
  | _ :: rest => { c with tasks := .args rest :: c.tasks }

def expr (s : Setting) (c : Point) : Expr → Point
  | .assign _ target value =>
    if isIndentLevel target then { c with frame := Walk.assignIndent s.catalog value c.frame }
    else { c with tasks := .value value (.place target) :: c.tasks }
  | .unary _ op operand =>
    if isIndentLevel operand then
      match op with
      | .inc => { c with frame := c.frame.indentBy 1 }
      | .dec => { c with frame := c.frame.indentBy (-1) }
      | _ => c
    else
      c
  | e => { c with tasks := .value e .discard :: c.tasks }

/-- A statement in the frame that was normalized for it. -/
def stmt (s : Setting) (c : Point) : Stmt → Traced Point
  | .block _ body => pure { c with tasks := .stmts body :: c.tasks }
  | .localDecl _ _ name (some value) =>
    pure { c with tasks := .value value (.named name) :: c.tasks }
  | .ifThen _ test body => do
    let frames ← Walk.branches s test c.frame c.walk
    pure { c with frame := frames.1, tasks := .stmt body :: .resume c.frame :: c.tasks }
  | .ifElse _ test body other => do
    let frames ← Walk.branches s test c.frame c.walk
    pure
      { c with
        frame := frames.1
        tasks :=
          .stmt body :: .resume frames.2 :: .stmt other :: .resume c.frame :: c.tasks }
  | .switch _ subject sections => do
    let path := (c.walk.bindings.resolve? subject).map (·.path)
    let frames ← Walk.caseFrames (c.walk.scope s) path c.frame sections
    pure { c with tasks := .sections sections frames :: .resume c.frame :: c.tasks }
  | .usingBlock _ resource body =>
    match Walk.scopeIndent? s.catalog resource with
    | some n =>
      pure
        { c with
          frame := c.frame.indentBy n
          tasks := .stmt body :: .indent (-n) :: c.tasks }
    | none => pure { c with tasks := .stmt body :: c.tasks }
  | .whileLoop _ _ body | .loop _ body | .doWhile _ body _ =>
    pure { c with tasks := .stmt body :: c.tasks }
  | .expr e => pure (c.expr s e)
  | _ => pure c

/-- The point once the task is taken from those of `c`. -/
def perform (s : Setting) (c : Point) : Task → Traced Point
  | .value e target => pure (c.value s target e)
  | .args es => pure (c.args es)
  | .stmt stmt => { c with frame := c.walk.normalize c.frame }.stmt s stmt
  | .stmts [] => pure c
  | .stmts (stmt :: rest) => pure { c with tasks := .stmt stmt :: .stmts rest :: c.tasks }
  | .sections (.mk _ _ body :: rest) (f :: frames) =>
    pure { c with frame := f, tasks := .stmts body :: .sections rest frames :: c.tasks }
  | .sections _ _ => pure c
  | .resume f => pure { c with frame := f }
  | .indent n => pure { c with frame := c.frame.indentBy n }
  | .leave saved =>
    pure
      { c with
        walk := c.walk.restore saved
        stack := c.stack.tail
        rounds := c.rounds + 1 }

/-- The next point, once the first task is done. -/
def Step (s : Setting) (c c' : Point) : Prop :=
  ∃ task rest, c.tasks = task :: rest ∧
    (perform s { c with tasks := rest } task).result = .ok c'

/-- The points that a walk goes through. -/
def Reaches (s : Setting) : Point → Point → Prop :=
  Relation.ReflTransGen (Step s)

/-- The first task cannot be done. -/
def Stops (s : Setting) (c : Point) (e : Stop) : Prop :=
  ∃ task rest, c.tasks = task :: rest ∧
    (perform s { c with tasks := rest } task).result = .error e

/-- What a walk comes to from a point: another point, where the value is as `ends` says, or a
task that cannot be done. -/
inductive Comes {α : Type} (s : Setting) (ends : α → Point → Prop) (c : Point) :
    Except Stop α → Prop where
  | ok {a : α} {d : Point} (h : Reaches s c d) (hends : ends a d) : Comes s ends c (.ok a)
  | error {e : Stop} {d : Point} (h : Reaches s c d) (hstops : d.Stops s e) :
    Comes s ends c (.error e)

variable {s : Setting} {rounds : Nat} {stack : List String} {follow : Follow} {task : Task}
  {c c' : Point}

theorem Reaches.head {c'' : Point} (h : (perform s c task).result = .ok c')
    (hrest : Reaches s c' c'') : Reaches s { c with tasks := task :: c.tasks } c'' :=
  Relation.ReflTransGen.head ⟨task, c.tasks, rfl, h⟩ hrest

section

variable {α β : Type} {ends : α → Point → Prop} {r : Except Stop α}

theorem Comes.after (h : Reaches s c c') (hrest : Comes s ends c' r) : Comes s ends c r := by
  cases hrest with
  | ok hreaches hends => exact .ok (h.trans hreaches) hends
  | error hreaches hstops => exact .error (h.trans hreaches) hstops

theorem Comes.head (h : (perform s c task).result = .ok c') (hrest : Comes s ends c' r) :
    Comes s ends { c with tasks := task :: c.tasks } r :=
  .after (.head h .refl) hrest

theorem Comes.bind {mid : β → Point → Prop} {x : Traced β} {g : β → Traced α}
    (h : Comes s mid c x.result) (hrest : ∀ b d, mid b d → Comes s ends d (g b).result) :
    Comes s ends c (x >>= g).result := by
  rw [Traced.result_bind]
  generalize x.result = r at h ⊢
  cases h with
  | ok hreaches hmid => exact .after hreaches (hrest _ _ hmid)
  | error hreaches hstops => exact .error hreaches hstops

theorem Comes.perform_bind {x : Traced β} {next : β → Point} {g : β → Traced α}
    (h : perform s c task = x >>= fun b => pure (next b))
    (hrest : ∀ b, Comes s ends (next b) (g b).result) :
    Comes s ends { c with tasks := task :: c.tasks } (x >>= g).result := by
  cases hx : x.result with
  | error e =>
    rw [Traced.result_bind_eq_error.2 (.inl hx)]
    refine .error .refl ⟨task, c.tasks, rfl, ?_⟩
    rw [h, Traced.result_bind_eq_error]
    exact .inl hx
  | ok b =>
    rw [Traced.result_bind_of_ok hx]
    apply Comes.head _ (hrest b)
    rw [h, Traced.result_bind_of_ok hx]
    rfl

def Done (rounds : Nat) (stack : List String) (rest : List Task) (a : Frame × Walk)
    (c : Point) : Prop :=
  c = ⟨rest, rounds, stack, a.1, a.2⟩

/-- The task ends as `x` ends, and stops where it stops. -/
def Runs (s : Setting) (rounds : Nat) (stack : List String) (task : Task)
    (x : Frame → WalkM Frame) : Prop :=
  ∀ f w rest, Comes s (Done rounds stack rest) ⟨task :: rest, rounds, stack, f, w⟩ (x f w).result

variable {x : Frame → WalkM Frame} {f : Frame} {w : Walk} {rest : List Task}

theorem Runs.bind (h : Runs s rounds stack task x) {g : Frame × Walk → Traced α}
    (hrest : ∀ f w, Comes s ends ⟨rest, rounds, stack, f, w⟩ (g (f, w)).result) :
    Comes s ends ⟨task :: rest, rounds, stack, f, w⟩ (x f w >>= g).result := by
  apply (h f w rest).bind
  rintro ⟨f₁, w₁⟩ _ rfl
  exact hrest f₁ w₁

theorem comes_refl : Comes s (Done rounds stack rest) ⟨rest, rounds, stack, f, w⟩ (.ok (f, w)) :=
  .ok .refl rfl

theorem Runs.reaches (h : Runs s rounds stack task x) {g : Frame} {w' : Walk}
    (hx : (x f w).result = .ok (g, w')) (rest : List Task) :
    Reaches s ⟨task :: rest, rounds, stack, f, w⟩ ⟨rest, rounds, stack, g, w'⟩ := by
  have hcomes := h f w rest
  rw [hx] at hcomes
  cases hcomes with
  | ok hreaches hends =>
    cases hends
    exact hreaches

end

/-- A routine that is entered ends as `follow` ends, and stops where it stops. -/
def Follows (s : Setting) (rounds : Nat) (stack : List String) (follow : Follow) : Prop :=
  ∀ routine args f w rest, Comes s (Done rounds stack rest)
    (enter s routine args ⟨rest, rounds, stack, f, w⟩) (follow routine args f w).result

theorem runs_call (hfollow : Follows s rounds stack follow) {m : Syntax.Mark} {callee : Expr}
    {typeArgs : List String} {args : List Expr}
    (hargs : Runs s rounds stack (.args args) (Walk.walkArgs s follow args)) (target : Target) :
    Runs s rounds stack (.value (.call m callee typeArgs args) target)
      (Walk.walkValue s follow (.call m callee typeArgs args) · target) := by
  intro f w rest
  apply Comes.head (c := ⟨rest, rounds, stack, f, w⟩) rfl
  rw [value]
  cases hname : callee.finalName? with
  | none =>
    dsimp only
    rw [Walk.walkValue, hname]
    exact comes_refl
  | some method =>
    dsimp only
    rw [Walk.walkValue_call s follow f w m hname]
    have hshape := Walk.gives_walkShape s (CallShape.ofMethod method) method typeArgs args f
      target w
    cases hmethod : CallShape.ofMethod method with
    | unrecognized =>
      dsimp only
      cases hroutine : Walk.routineOf? s.catalog callee method with
      | some routine => exact hfollow routine args f w rest
      | none => exact hargs f w rest
    | _ =>
      -- Calls of the vocabulary never stop.
      rw [hmethod] at hshape
      dsimp only
      rw [hshape.result]
      exact comes_refl

mutual

theorem runs_value (hfollow : Follows s rounds stack follow) (target : Target) :
    ∀ e, Runs s rounds stack (.value e target) (Walk.walkValue s follow e · target)
  | .call _ _ _ args => runs_call hfollow (runs_args hfollow args) target
  | .cast m t e => by
    intro f w rest
    dsimp only
    rw [Walk.walkValue_cast]
    exact Comes.head (c := ⟨rest, rounds, stack, f, w⟩) rfl (runs_value hfollow target e f w rest)
  | .conditional m test yes no => by
    intro f w rest
    dsimp only
    rw [Walk.walkValue_conditional]
    apply Comes.head (c := ⟨rest, rounds, stack, f, w⟩) rfl
    apply (runs_value hfollow _ test).bind
    intro f₁ w₁
    apply (runs_value hfollow target yes).bind
    intro f₂ w₂
    exact runs_value hfollow target no f₂ w₂ rest
  | .string m text | .name m source => by
    intro f w rest
    apply Comes.head (c := ⟨rest, rounds, stack, f, w⟩) rfl
    dsimp only
    rw [Walk.walkValue, value]
    cases target.name? <;> exact comes_refl
  | .unary .. | .binary .. | .assign .. | .member .. | .index .. | .new .. | .typeOf ..
  | .integer .. | .float .. | .bool .. | .list .. | .null _ => by
    intro f w rest
    simp only [Walk.walkValue]
    exact Comes.head (c := ⟨rest, rounds, stack, f, w⟩) rfl comes_refl

theorem runs_args (hfollow : Follows s rounds stack follow) :
    ∀ es, Runs s rounds stack (.args es) (Walk.walkArgs s follow es)
  | [] => by
    intro f w rest
    rw [Walk.walkArgs]
    exact Comes.head (c := ⟨rest, rounds, stack, f, w⟩) rfl comes_refl
  | .call m callee typeArgs args :: es => by
    intro f w rest
    rw [Walk.walkArgs_call]
    apply Comes.head (c := ⟨rest, rounds, stack, f, w⟩) rfl
    apply (runs_value hfollow .discard _).bind
    intro f₁ w₁
    exact runs_args hfollow es f₁ w₁ rest
  | .cast .. :: es | .conditional .. :: es | .string .. :: es | .name .. :: es
  | .unary .. :: es | .binary .. :: es | .assign .. :: es | .member .. :: es | .index .. :: es
  | .new .. :: es | .typeOf .. :: es | .integer .. :: es | .float .. :: es | .bool .. :: es
  | .list .. :: es | .null _ :: es => by
    intro f w rest
    rw [Walk.walkArgs]
    · exact Comes.head (c := ⟨rest, rounds, stack, f, w⟩) rfl (runs_args hfollow es f w rest)
    · simp

end

theorem comes_expr (hfollow : Follows s rounds stack follow) (e : Expr) (f : Frame) (w : Walk)
    (rest : List Task) :
    Comes s (Done rounds stack rest) (expr s ⟨rest, rounds, stack, f, w⟩ e)
      (Walk.walkExpr s follow e f w).result := by
  unfold Walk.walkExpr
  cases e with
  | assign m target value =>
    rw [expr]
    by_cases hindent : isIndentLevel target = true
    · simp only [hindent, if_true]
      exact comes_refl
    · simp only [hindent]
      exact runs_value hfollow _ value f w rest
  | unary m op operand =>
    unfold expr
    by_cases hindent : isIndentLevel operand = true
    · simp only [hindent, if_true]
      cases op <;> exact comes_refl
    · simp only [hindent]
      exact comes_refl
  | _ => exact runs_value hfollow .discard _ f w rest

section

variable {m : Syntax.Mark} {test : Expr} {resource body other : Stmt}
  (hbody : Runs s rounds stack (.stmt body) (Walk.walkStmt s follow body))

include hbody

theorem runs_ifThen : Runs s rounds stack (.stmt (.ifThen m test body))
    (Walk.walkStmt s follow (.ifThen m test body)) := by
  intro f w rest
  rw [Walk.walkStmt_ifThen]
  apply Comes.perform_bind (c := ⟨rest, rounds, stack, f, w⟩) rfl
  intro frames
  apply hbody.bind
  intro f₁ w₁
  exact Comes.head (c := ⟨rest, rounds, stack, f₁, w₁⟩) rfl comes_refl

theorem runs_ifElse (hother : Runs s rounds stack (.stmt other) (Walk.walkStmt s follow other)) :
    Runs s rounds stack (.stmt (.ifElse m test body other))
      (Walk.walkStmt s follow (.ifElse m test body other)) := by
  intro f w rest
  rw [Walk.walkStmt_ifElse]
  apply Comes.perform_bind (c := ⟨rest, rounds, stack, f, w⟩) rfl
  intro frames
  apply hbody.bind
  intro f₁ w₁
  apply Comes.head (c := ⟨_, rounds, stack, f₁, w₁⟩) rfl
  apply hother.bind
  intro f₂ w₂
  exact Comes.head (c := ⟨rest, rounds, stack, f₂, w₂⟩) rfl comes_refl

theorem runs_usingBlock : Runs s rounds stack (.stmt (.usingBlock m resource body))
    (Walk.walkStmt s follow (.usingBlock m resource body)) := by
  intro f w rest
  rw [Walk.walkStmt_usingBlock]
  cases hindent : Walk.scopeIndent? s.catalog resource with
  | some n =>
    have hstep : (perform s ⟨rest, rounds, stack, f, w⟩
        (.stmt (.usingBlock m resource body))).result =
        .ok ⟨.stmt body :: .indent (-n) :: rest, rounds, stack, (w.normalize f).indentBy n,
          w⟩ := by
      rw [perform, stmt, hindent]
      rfl
    apply Comes.head hstep
    apply hbody.bind
    intro f₁ w₁
    exact Comes.head (c := ⟨rest, rounds, stack, f₁, w₁⟩) rfl comes_refl
  | none =>
    have hstep : (perform s ⟨rest, rounds, stack, f, w⟩
        (.stmt (.usingBlock m resource body))).result =
        .ok ⟨.stmt body :: rest, rounds, stack, w.normalize f, w⟩ := by
      rw [perform, stmt, hindent]
      rfl
    exact Comes.head hstep (hbody _ w rest)

end

/-- The task ends and stops as the walk over the sections of a switch does. The frame that
the last section leaves is of no account. -/
def RunsSections (s : Setting) (rounds : Nat) (stack : List String) (follow : Follow)
    (sections : List SwitchSection) : Prop :=
  ∀ frames f w rest, Comes s (fun a c => ∃ f', c = ⟨rest, rounds, stack, f', a.2⟩)
    ⟨.sections sections frames :: rest, rounds, stack, f, w⟩
    (Walk.walkSections s follow sections frames w).result

theorem runs_switch {m : Syntax.Mark} {subject : Expr} {sections : List SwitchSection}
    (hsections : RunsSections s rounds stack follow sections) :
    Runs s rounds stack (.stmt (.switch m subject sections))
      (Walk.walkStmt s follow (.switch m subject sections)) := by
  intro f w rest
  rw [Walk.walkStmt_switch]
  apply Comes.perform_bind (c := ⟨rest, rounds, stack, f, w⟩) rfl
  intro frames
  apply (hsections frames (w.normalize f) w _).bind
  rintro ⟨_, w₁⟩ _ ⟨f₁, rfl⟩
  exact Comes.head (c := ⟨rest, rounds, stack, f₁, w₁⟩) rfl comes_refl

mutual

theorem runs_stmt (hfollow : Follows s rounds stack follow) :
    ∀ stmt, Runs s rounds stack (.stmt stmt) (Walk.walkStmt s follow stmt)
  | .block m body => by
    intro f w rest
    rw [Walk.walkStmt_block]
    exact Comes.head (c := ⟨rest, rounds, stack, f, w⟩) rfl (runs_stmts hfollow body _ w rest)
  | .localDecl m type name (some value) => by
    intro f w rest
    rw [Walk.walkStmt_localDecl]
    exact Comes.head (c := ⟨rest, rounds, stack, f, w⟩) rfl (runs_value hfollow _ value _ w rest)
  | .ifThen _ _ body => runs_ifThen (runs_stmt hfollow body)
  | .ifElse _ _ body other =>
    runs_ifElse (runs_stmt hfollow body) (runs_stmt hfollow other)
  | .switch _ _ sections => runs_switch (runs_sections hfollow sections)
  | .usingBlock _ _ body => runs_usingBlock (runs_stmt hfollow body)
  | .whileLoop m test body => by
    intro f w rest
    rw [Walk.walkStmt_whileLoop]
    exact Comes.head (c := ⟨rest, rounds, stack, f, w⟩) rfl (runs_stmt hfollow body _ w rest)
  | .loop m body => by
    intro f w rest
    rw [Walk.walkStmt_loop]
    exact Comes.head (c := ⟨rest, rounds, stack, f, w⟩) rfl (runs_stmt hfollow body _ w rest)
  | .doWhile m body test => by
    intro f w rest
    rw [Walk.walkStmt_doWhile]
    exact Comes.head (c := ⟨rest, rounds, stack, f, w⟩) rfl (runs_stmt hfollow body _ w rest)
  | .expr e => by
    intro f w rest
    rw [Walk.walkStmt_expr]
    exact Comes.head (c := ⟨rest, rounds, stack, f, w⟩) rfl (comes_expr hfollow e _ w rest)
  | .localDecl _ _ _ none | .returns .. | .breaks _ | .continues _ | .skipped .. => by
    intro f w rest
    rw [Walk.walkStmt]
    exact Comes.head (c := ⟨rest, rounds, stack, f, w⟩) rfl comes_refl

theorem runs_stmts (hfollow : Follows s rounds stack follow) :
    ∀ body, Runs s rounds stack (.stmts body) (Walk.walkStmts s follow body)
  | [] => by
    intro f w rest
    rw [Walk.walkStmts_nil]
    exact Comes.head (c := ⟨rest, rounds, stack, f, w⟩) rfl comes_refl
  | stmt :: body => by
    intro f w rest
    rw [Walk.walkStmts_cons]
    apply Comes.head (c := ⟨rest, rounds, stack, f, w⟩) rfl
    apply (runs_stmt hfollow stmt).bind
    intro f₁ w₁
    exact runs_stmts hfollow body f₁ w₁ rest

theorem runs_sections (hfollow : Follows s rounds stack follow) :
    ∀ sections, RunsSections s rounds stack follow sections
  | [] => by
    intro frames f w rest
    rw [Walk.walkSections]
    · exact Comes.head (c := ⟨rest, rounds, stack, f, w⟩) (by simp [perform])
        (.ok .refl ⟨f, rfl⟩)
    · simp
  | .mk m labels body :: sections => by
    intro frames f w rest
    cases frames with
    | nil =>
      rw [Walk.walkSections]
      · exact Comes.head (c := ⟨rest, rounds, stack, f, w⟩) rfl (.ok .refl ⟨f, rfl⟩)
      · simp
    | cons g frames =>
      rw [Walk.walkSections_cons]
      apply Comes.head (c := ⟨rest, rounds, stack, f, w⟩) rfl
      apply (runs_stmts hfollow body).bind
      intro f₁ w₁
      exact runs_sections hfollow sections frames f₁ w₁ rest

end

theorem follows_within (s : Setting) (rounds : Nat) (stack : List String) :
    Follows s rounds stack (Walk.followWithin s rounds stack) := by
  induction rounds generalizing stack with
  | zero =>
    intro routine args f w rest
    rw [Walk.followWithin_zero]
    unfold enter
    split <;> exact comes_refl
  | succ rounds ih =>
    intro routine args f w rest
    unfold enter
    by_cases hrefused : Walk.refuses s stack routine = true
    · rw [Walk.followWithin_refused s f w _ _ _ _ hrefused, if_pos hrefused]
      exact comes_refl
    · rw [Walk.followWithin_succ s f w _ _ _ _ (by simpa using hrefused), if_neg hrefused]
      apply (runs_stmt (ih (routine.name :: stack)) routine.body).bind
      intro f₁ w₁
      exact Comes.head (c := ⟨rest, rounds, routine.name :: stack, f₁, w₁⟩) rfl comes_refl

/-- The point where the walk over a routine starts. -/
def start (s : Setting) (entry : Routine) : Point :=
  { tasks := [.stmt entry.body]
    rounds := s.catalog.routines.size
    stack := [entry.name]
    frame := {}
    walk := {} }

/-- The walk of an entry routine, but for the closing of the last module. -/
def walkOf (s : Setting) (entry : Routine) : Traced (Frame × Walk) :=
  Walk.walkStmt s (Walk.followWithin s s.catalog.routines.size [entry.name]) entry.body {} {}

/-- A walk that ends goes from its start to a point where nothing is left to do. -/
theorem reaches_end {entry : Routine} {f : Frame} {w : Walk}
    (h : (walkOf s entry).result = .ok (f, w)) :
    Reaches s (start s entry) ⟨[], s.catalog.routines.size, [entry.name], f, w⟩ :=
  (runs_stmt (follows_within s _ _) entry.body).reaches h []

theorem walkEntry_result_eq_ok {entry : Routine} {w : Walk} :
    (Walk.walkEntry s entry {}).result = .ok ((), w) ↔
      ∃ f w', (walkOf s entry).result = .ok (f, w') ∧ w'.closed = w := by
  change ((walkOf s entry) >>= fun after => Walk.finishModule after.2).result = _ ↔ _
  rw [Traced.result_bind_eq_ok]
  constructor
  · rintro ⟨⟨f, w'⟩, hwalk, hend⟩
    rw [(Walk.gives_finishModule w').result] at hend
    cases hend
    exact ⟨f, w', hwalk, rfl⟩
  · rintro ⟨f, w', hwalk, rfl⟩
    exact ⟨(f, w'), hwalk, (Walk.gives_finishModule w').result⟩

end Point

end PanelSchema
