import PanelSchema.Proofs.Module
import PanelSchema.Proofs.Walk.Point

/-!
What one step does to the modules. Only calls of the vocabulary touch them, and each does
so in one way; all else a step does is to locals, tasks and frames.
-/

namespace PanelSchema

open Syntax (Expr Stmt)

/-- The modules of a walk, finished or not, are those of another. -/
structure Walk.SameModules (w w' : Walk) : Prop where
  modules : w'.modules = w.modules
  current : w'.current = w.current
  generation : w'.generation = w.generation

namespace Walk

theorem SameModules.rfl {w : Walk} : w.SameModules w :=
  ⟨Eq.refl _, Eq.refl _, Eq.refl _⟩

theorem SameModules.trans {w w' w'' : Walk} (h : w.SameModules w') (h' : w'.SameModules w'') :
    w.SameModules w'' :=
  ⟨h'.modules.trans h.modules, h'.current.trans h.current, h'.generation.trans h.generation⟩

theorem sameModules_setMeaning (w : Walk) (name : String) (m : LocalMeaning) :
    w.SameModules (w.setMeaning name m) :=
  ⟨rfl, rfl, rfl⟩

theorem sameModules_bindParams (c : Catalog) (params : List (String × Expr)) (w : Walk) :
    w.SameModules (bindParams c params w).1 := by
  induction params generalizing w with
  | nil => exact .rfl
  | cons p params ih => exact (sameModules_setMeaning w p.1 _).trans (ih _)

theorem sameModules_restore (saved : List (String × LocalMeaning)) (w : Walk) :
    w.SameModules (restore saved w) := by
  unfold restore
  induction saved generalizing w with
  | nil => exact .rfl
  | cons p saved ih => exact (sameModules_setMeaning w p.1 p.2).trans (ih _)

theorem sameModules_keptAs (l : String) (d : Draft) (target : Target) (w : Walk) :
    w.SameModules (w.keptAs l d target) := by
  unfold keptAs
  dsimp only
  split
  · split <;> exact ⟨rfl, rfl, rfl⟩
  · exact ⟨rfl, rfl, rfl⟩

end Walk

/-- The frames that a task goes on in. -/
def Task.frames : Task → List Frame
  | .sections _ frames => frames
  | .resume f => [f]
  | _ => []

def Task.isLeave : Task → Bool
  | .leave _ => true
  | _ => false

/-- Whether a task goes on in the frame and in the routine there are. -/
def Task.isLocal : Task → Bool
  | .sections .. | .resume _ | .leave _ => false
  | _ => true

theorem Task.frames_of_isLocal {t : Task} (h : t.isLocal = true) : t.frames = [] := by
  cases t with
  | sections | resume => cases h
  | _ => rfl

theorem Task.not_isLeave_of_isLocal {t : Task} (h : t.isLocal = true) : t.isLeave = false := by
  cases t with
  | leave => cases h
  | _ => rfl

/-- A frame at the same place: as it was, or with another depth. -/
inductive Frame.Shifted (c : Catalog) (f : Frame) : Frame → Prop where
  | same : Shifted c f f
  | indented (n : Int) : Shifted c f (f.indentBy n)
  | assigned (value : Expr) : Shifted c f (Walk.assignIndent c value f)

theorem Walk.exists_routine? {c : Catalog} {callee : Expr} {method : String} {routine : Routine}
    (h : Walk.routineOf? c callee method = some routine) :
    ∃ name, c.routine? name = some routine := by
  unfold Walk.routineOf? at h
  split at h
  · rename_i hpath
    exact ⟨_, h ▸ hpath⟩
  · exact ⟨_, h⟩

/-- A call of the vocabulary. -/
structure Call where
  shape : CallShape
  method : String
  typeArgs : List String
  args : List Expr
  target : Target

def Call.of? (target : Target) : Expr → Option Call
  | .call _ callee typeArgs args =>
    callee.finalName?.bind fun method =>
      match CallShape.ofMethod method with
      | .unrecognized => none
      | shape => some { shape, method, typeArgs, args, target }
  | _ => none

namespace Point

/-- The frame of a point, and those that are left to go on in. -/
def frames (c : Point) : List Frame :=
  c.frame :: c.tasks.flatMap Task.frames

/-- The call that the next step interprets. -/
def call? (c : Point) : Option Call :=
  match c.tasks with
  | .value e target :: _ => Call.of? target e
  | _ => none

/-- What a call adds to the current module. -/
inductive Act where
  | declare (name : String)
  | draw (d : Draft)

def act? (s : Setting) (c : Point) : Option Act :=
  c.call?.bind fun call =>
    match call.shape with
    | .subEffect => (call.args.head?.bind (c.walk.string? s.catalog)).map .declare
    | .bind type =>
      (c.walk.drawing? s call.method type call.typeArgs call.args c.frame call.target).map
        fun found => .draw found.2
    | _ => none

/-- The frame and the walk that a call leads to. -/
def after (s : Setting) (c : Point) (call : Call) : Frame × Walk :=
  c.walk.shaped s call.shape call.method call.typeArgs call.args c.frame call.target

variable {s : Setting} {c c' : Point}

theorem value_of_call {target : Target} {e : Expr} {call : Call}
    (h : Call.of? target e = some call) (c : Point) :
    c.value s target e = { c with frame := (c.after s call).1, walk := (c.after s call).2 } := by
  cases e with
  | call m callee typeArgs args =>
    rw [value]
    unfold Call.of? at h
    obtain ⟨method, hmethod, h⟩ := Option.bind_eq_some_iff.1 h
    rw [hmethod]
    dsimp only
    cases hshape : CallShape.ofMethod method <;> rw [hshape] at h <;> cases h <;> rfl
  | _ => cases h

def normalized (c : Point) : Point :=
  { c with frame := c.walk.normalize c.frame }

/-- What a task comes to. A statement is done in the normalized frame, and goes back to it if
it has a test. -/
inductive Does (s : Setting) (c : Point) : Task → Point → Prop where
  | call {e target call} (h : Call.of? target e = some call) :
    Does s c (.value e target) { c with frame := (c.after s call).1, walk := (c.after s call).2 }
  | text {e target} (l text : String) :
    Does s c (.value e target)
      { c with walk := { c.walk with strings := c.walk.strings.insert l text } }
  | copy {e target} (source l : String) :
    Does s c (.value e target) { c with walk := c.walk.aliasLocal source l }
  | enter {e target routine} (args : List Expr)
      (h : ∃ name, s.catalog.routine? name = some routine) :
    Does s c (.value e target) (c.enter s routine args)
  | push {task} (ts : List Task) (htask : task.isLocal = true) (h : ∀ t ∈ ts, t.isLocal = true) :
    Does s c task { c with tasks := ts ++ c.tasks }
  | run {stmt f} (ts : List Task) (hf : c.normalized.frame.Shifted s.catalog f)
      (h : ∀ t ∈ ts, t.isLocal = true) :
    Does s c (.stmt stmt) { c with frame := f, tasks := ts ++ c.tasks }
  | ifThen {m test body frames}
      (h : (Walk.branches s test c.normalized.frame c.walk).result = .ok frames) :
    Does s c (.stmt (.ifThen m test body))
      { c with frame := frames.1, tasks := .stmt body :: .resume c.normalized.frame :: c.tasks }
  | ifElse {m test yes no frames}
      (h : (Walk.branches s test c.normalized.frame c.walk).result = .ok frames) :
    Does s c (.stmt (.ifElse m test yes no))
      { c with
        frame := frames.1
        tasks := .stmt yes :: .resume frames.2 :: .stmt no :: .resume c.normalized.frame :: c.tasks }
  | switch {m subject path sections frames}
      (h : (Walk.caseFrames (c.walk.scope s) path c.normalized.frame sections).result =
        .ok frames) :
    Does s c (.stmt (.switch m subject sections))
      { c.normalized with
        tasks := .sections sections frames :: .resume c.normalized.frame :: c.tasks }
  | part {m labels body rest f frames} :
    Does s c (.sections (.mk m labels body :: rest) (f :: frames))
      { c with frame := f, tasks := .stmts body :: .sections rest frames :: c.tasks }
  | ended {sections frames} : Does s c (.sections sections frames) c
  | resume {f} : Does s c (.resume f) { c with frame := f }
  | leave {saved} :
    Does s c (.leave saved)
      { c with
        walk := c.walk.restore saved
        stack := c.stack.tail
        rounds := c.rounds + 1 }
  | indent {n} : Does s c (.indent n) { c with frame := c.frame.indentBy n }

theorem value_does (target : Target) (e : Expr) (c : Point) :
    Does s c (.value e target) (c.value s target e) := by
  have hnone : Does s c (.value e target) c := .push [] rfl (by simp)
  cases hcall : Call.of? target e with
  | some call =>
    rw [value_of_call hcall]
    exact .call hcall
  | none =>
    cases e with
    | call m callee typeArgs args =>
      rw [value]
      dsimp only [Call.of?] at hcall
      cases hmethod : callee.finalName? with
      | none => exact hnone
      | some method =>
        rw [hmethod] at hcall
        dsimp only [Option.bind_some] at hcall ⊢
        cases hshape : CallShape.ofMethod method with
        | unrecognized =>
          dsimp only
          split
          · rename_i routine hroutine
            exact .enter args (Walk.exists_routine? hroutine)
          · exact .push [.args args] rfl (by simp [Task.isLocal])
        | _ =>
          rw [hshape] at hcall
          cases hcall
    | cast m t e => exact .push [.value e target] rfl (by simp [Task.isLocal])
    | conditional m test yes no =>
      exact .push [_, .value yes target, .value no target] rfl (by simp [Task.isLocal])
    | string m text =>
      rw [value]
      split
      · exact .text _ text
      · exact hnone
    | name m source =>
      rw [value]
      split
      · exact .copy source _
      · exact hnone
    | _ => exact hnone

theorem expr_does {stmt : Stmt} (e : Expr) (c : Point) :
    Does s c (.stmt stmt) (c.normalized.expr s e) := by
  have hnone : Does s c (.stmt stmt) c.normalized := .run [] .same (by simp)
  unfold expr
  split
  · rename_i target value
    split
    · exact .run [] (.assigned value) (by simp)
    · exact .run [.value value (.place target)] .same (by simp [Task.isLocal])
  · split
    · split
      · exact .run [] (.indented 1) (by simp)
      · exact .run [] (.indented (-1)) (by simp)
      · exact hnone
    · exact hnone
  · exact .run [.value e .discard] .same (by simp [Task.isLocal])

theorem stmt_does {stmt : Stmt} (h : (c.normalized.stmt s stmt).result = .ok c') :
    Does s c (.stmt stmt) c' := by
  have hpush : ∀ task : Task, task.isLocal = true →
      Does s c (.stmt stmt) { c.normalized with tasks := task :: c.tasks } :=
    fun task htask => .run [task] .same (by simpa using htask)
  cases stmt with
  | localDecl m type name value =>
    cases value <;> cases h
    · exact .run [] .same (by simp)
    · exact hpush _ rfl
  | ifThen m test body =>
    obtain ⟨frames, hframes, h⟩ := Traced.result_bind_eq_ok.1 h
    cases h
    exact .ifThen hframes
  | ifElse m test yes no =>
    obtain ⟨frames, hframes, h⟩ := Traced.result_bind_eq_ok.1 h
    cases h
    exact .ifElse hframes
  | switch m subject sections =>
    obtain ⟨frames, hframes, h⟩ := Traced.result_bind_eq_ok.1 h
    cases h
    exact .switch hframes
  | usingBlock m resource body =>
    rw [stmt] at h
    split at h <;> cases h
    · rename_i n _
      exact .run [.stmt body, .indent (-n)] (.indented n) (by simp [Task.isLocal])
    · exact hpush _ rfl
  | expr e =>
    cases h
    exact expr_does e c
  | block | whileLoop | loop | doWhile =>
    cases h
    exact hpush _ rfl
  | returns | breaks | continues | skipped =>
    cases h
    exact .run [] .same (by simp)

/-- All that doing a task can come to. -/
theorem perform_does {task : Task} (h : (perform s c task).result = .ok c') :
    Does s c task c' := by
  cases task with
  | value e target =>
    cases h
    exact value_does target e c
  | args es =>
    cases h
    unfold args
    split
    · exact .push [] rfl (by simp)
    · exact .push [_, .args _] rfl (by simp [Task.isLocal])
    · exact .push [.args _] rfl (by simp [Task.isLocal])
  | stmt stmt => exact stmt_does h
  | stmts body =>
    cases body with
    | nil =>
      cases h
      exact .push [] rfl (by simp)
    | cons stmt body =>
      cases h
      exact .push [.stmt stmt, .stmts body] rfl (by simp [Task.isLocal])
  | sections sections frames =>
    rcases sections with _ | ⟨⟨m, labels, body⟩, sections⟩
    · cases h
      exact .ended
    · cases frames <;> cases h
      · exact .ended
      · exact .part
  | resume f | indent n | leave saved =>
    cases h
    constructor

theorem sameModules_enter (routine : Routine) (args : List Expr) (c : Point) :
    c.walk.SameModules (c.enter s routine args).walk := by
  unfold enter
  split
  · exact .rfl
  · split
    · exact .rfl
    · exact Walk.sameModules_bindParams _ _ _

/-- A step that interprets a call does only what the call comes to. -/
theorem Step.of_call (h : Step s c c') {call : Call} (hcall : c.call? = some call) :
    c'.tasks = c.tasks.tail ∧ c'.frame = (c.after s call).1 ∧ c'.walk = (c.after s call).2 := by
  obtain ⟨task, rest, htasks, h⟩ := h
  unfold call? at hcall
  rw [htasks] at hcall
  cases task with
  | value e target =>
    rw [perform, value_of_call hcall] at h
    cases h
    rw [htasks]
    exact ⟨rfl, rfl, rfl⟩
  | _ => cases hcall

theorem Step.does (h : Step s c c') : ∃ task rest, c.tasks = task :: rest ∧
    Does s { c with tasks := rest } task c' := by
  obtain ⟨task, rest, htasks, h⟩ := h
  exact ⟨task, rest, htasks, perform_does h⟩

theorem call?_of_tasks {e : Expr} {target : Target} {rest : List Task}
    (h : c.tasks = .value e target :: rest) : c.call? = Call.of? target e := by
  rw [call?, h]

theorem Step.of_no_call (h : Step s c c') (hcall : c.call? = none) :
    c.walk.SameModules c'.walk := by
  obtain ⟨task, rest, htasks, hdoes⟩ := h.does
  cases hdoes with
  | call hof => simp [call?_of_tasks htasks, hof] at hcall
  | text | copy => exact ⟨rfl, rfl, rfl⟩
  | enter args => exact sameModules_enter _ args { c with tasks := rest }
  | leave => exact Walk.sameModules_restore _ c.walk
  | _ => exact .rfl

/-- What a call does to the module it is met in. -/
inductive Touch (s : Setting) (c : Point) (m : ModuleDraft) : ModuleDraft → Prop where
  | declared {name} (label : Option String) (order : Option Int)
      (h : c.act? s = some (.declare name)) : Touch s c m (m.declared name label order c.frame)
  | shown {d} (h : c.act? s = some (.draw d)) : Touch s c m (m.shown d c.frame)
  | hinted (id : String) (hints : List String) (h : c.act? s = none) :
    Touch s c m (m.hinted id hints)

/-- What a step does to the modules. -/
inductive Change (s : Setting) (c c' : Point) : Prop where
  | keep (h : c.walk.SameModules c'.walk) (hact : c.walk.current = none ∨ c.act? s = none)
  | start (name : String) (keywords : List String) (hact : c.act? s = none)
      (hmodules : c'.walk.modules = c.walk.closed.modules)
      (hcurrent : c'.walk.current = some (.opened s name keywords))
      (hgeneration : c'.walk.generation = c.walk.generation + 1)
  | touch {m m'} (h : Touch s c m m') (hm : c.walk.current = some m)
      (hm' : c'.walk.current = some m') (hmodules : c'.walk.modules = c.walk.modules)
      (hgeneration : c'.walk.generation = c.walk.generation)

theorem change_effected (name : String) (keywords : List String) (target : Target)
    (hact : c.act? s = none) (hc' : c'.walk = c.walk.started s name keywords target) :
    Change s c c' := by
  apply Change.start name keywords hact
  · rw [hc', Walk.modules_started]
  · rw [hc', Walk.current_started]
  · rw [hc', Walk.generation_started]

theorem change_sectioned {call : Call} (hcall : c.call? = some call)
    (hshape : call.shape = .subEffect)
    (hc' : c'.walk = c.walk.sectioned s call.args c.frame call.target) : Change s c c' := by
  have hact : c.act? s = (call.args.head?.bind (c.walk.string? s.catalog)).map .declare := by
    simp [act?, hcall, hshape]
  unfold Walk.sectioned at hc'
  cases hm : c.walk.current with
  | none =>
    rw [hm] at hc'
    exact .keep (hc' ▸ .rfl) (.inl hm)
  | some m =>
    cases hname : call.args.head?.bind (c.walk.string? s.catalog) with
    | none =>
      rw [hm, hname] at hc'
      exact .keep (hc' ▸ .rfl) (.inr (by rw [hact, hname, Option.map_none]))
    | some name =>
      rw [hm, hname] at hc'
      rw [hname, Option.map_some] at hact
      apply Change.touch (.declared (call.args[1]?.bind (c.walk.string? s.catalog))
        (((call.args.drop 1).findSome? s.catalog.evalNumber?).map floatToInt) hact) hm
      all_goals
        rw [hc']
        dsimp only
        split <;> rfl

theorem change_drawn {call : Call} (hcall : c.call? = some call) {type : PropertyType}
    (hshape : call.shape = .bind type)
    (hc' : c'.walk = c.walk.drawn s call.method type call.typeArgs call.args c.frame
      call.target) : Change s c c' := by
  have hact : c.act? s = (c.walk.drawing? s call.method type call.typeArgs call.args c.frame
      call.target).map fun found => .draw found.2 := by
    simp [act?, hcall, hshape]
  unfold Walk.drawn at hc'
  cases hdrawing : c.walk.drawing? s call.method type call.typeArgs call.args c.frame
      call.target with
  | none =>
    rw [hdrawing] at hc' hact
    exact .keep (hc' ▸ .rfl) (.inr hact)
  | some found =>
    obtain ⟨l, d⟩ := found
    rw [hdrawing] at hc' hact
    have hkept := Walk.sameModules_keptAs l d call.target c.walk
    cases hm : c.walk.current with
    | none =>
      refine .keep (hc' ▸ ⟨hkept.modules, ?_, hkept.generation⟩) (.inl hm)
      simp [Walk.shown, hkept.current, hm]
    | some m =>
      apply Change.touch (.shown hact) hm
      · rw [hc']
        simp [Walk.shown, hkept.current, hm]
      · rw [hc']
        exact hkept.modules
      · rw [hc']
        exact hkept.generation

theorem change_hint {call : Call} (hact : c.act? s = none)
    (hc' : c'.walk = c.walk.hint s call.args) : Change s c c' := by
  unfold Walk.hint at hc'
  cases hlocal : call.args.findSome? c.walk.draftLocal? with
  | none =>
    rw [hlocal] at hc'
    exact .keep (hc' ▸ .rfl) (.inr hact)
  | some l =>
    cases hdraft : c.walk.drafts.get? l with
    | none =>
      simp only [hlocal, hdraft] at hc'
      exact .keep (hc' ▸ .rfl) (.inr hact)
    | some d =>
      simp only [hlocal, hdraft] at hc'
      cases hm : c.walk.current with
      | none =>
        refine .keep (hc' ▸ ⟨rfl, ?_, rfl⟩) (.inl hm)
        simp [hm]
      | some m =>
        apply Change.touch (.hinted d.identifier (call.args.filterMap
          (c.walk.string? s.catalog)) hact) hm
        · rw [hc']
          simp [hm, ModuleDraft.hinted]
        · rw [hc']
        · rw [hc']

theorem Step.change (h : Step s c c') : Change s c c' := by
  cases hcall : c.call? with
  | none => exact .keep (h.of_no_call hcall) (.inr (by simp [act?, hcall]))
  | some call =>
    obtain ⟨-, -, hwalk⟩ := h.of_call hcall
    unfold after Walk.shaped at hwalk
    cases hshape : call.shape with
    | propertyLookup =>
      rw [hshape] at hwalk
      refine .keep (hwalk ▸ ?_) (.inr (by simp [act?, hcall, hshape]))
      cases call.target.name? <;> exact ⟨rfl, rfl, rfl⟩
    | effect =>
      have hact : c.act? s = none := by simp [act?, hcall, hshape]
      rw [hshape] at hwalk
      dsimp only at hwalk
      unfold Walk.effected at hwalk
      split at hwalk
      · exact .keep (hwalk ▸ .rfl) (.inr hact)
      · exact change_effected _ _ _ hact hwalk
    | subEffect =>
      rw [hshape] at hwalk
      exact change_sectioned hcall hshape hwalk
    | bind type =>
      rw [hshape] at hwalk
      exact change_drawn hcall hshape hwalk
    | hint =>
      rw [hshape] at hwalk
      exact change_hint (by simp [act?, hcall, hshape]) hwalk
    | _ =>
      rw [hshape] at hwalk
      exact .keep (hwalk ▸ .rfl) (.inr (by simp [act?, hcall, hshape]))

/-! ### Soundness -/

theorem Touch.sound {m m' : ModuleDraft} (h : Touch s c m m') (hm : m.Sound) : m'.Sound := by
  cases h with
  | declared label order h => exact hm.declared _ label order c.frame
  | shown h => exact hm.shown _ c.frame
  | hinted id hints h => exact hm.hinted id hints

theorem Step.sound (h : Step s c c') (hc : c.walk.Sound) : c'.walk.Sound := by
  cases h.change with
  | keep hsame hact => exact ⟨hsame.modules ▸ hc.modules, hsame.current ▸ hc.current⟩
  | start name keywords hact hmodules hcurrent hgeneration =>
    constructor
    · rw [hmodules]
      exact hc.closed
    · intro m hm
      rw [hcurrent, Option.some_inj] at hm
      exact hm ▸ ModuleDraft.sound_opened s name keywords
  | touch htouch hm hm' hmodules hgeneration =>
    constructor
    · rw [hmodules]
      exact hc.modules
    · intro m hm''
      rw [hm', Option.some_inj] at hm''
      exact hm'' ▸ htouch.sound (hc.current _ hm)

theorem Reaches.sound (h : Reaches s c c') (hc : c.walk.Sound) : c'.walk.Sound := by
  induction h with
  | refl => exact hc
  | tail _ hstep ih => exact hstep.sound ih

end Point

end PanelSchema
