import PanelSchema.Proofs.Walk.Steps

/-!
The frames of a walk. A frame made since the current module started is in one of its
sections; an older one is of no module that is still being built.
-/

namespace PanelSchema

open Syntax (Expr Stmt SwitchSection)

/-- Two frames in one section of one module. -/
structure Frame.SamePlace (f g : Frame) : Prop where
  home : g.home = f.home
  generation : g.generation = f.generation

theorem Frame.SamePlace.rfl {f : Frame} : f.SamePlace f :=
  ⟨Eq.refl _, Eq.refl _⟩

theorem Frame.samePlace_indentBy (f : Frame) (n : Int) : f.SamePlace (f.indentBy n) :=
  ⟨Eq.refl _, Eq.refl _⟩

namespace Walk

/-- A frame made since the current module started is in one of its sections. -/
structure Houses (w : Walk) (f : Frame) : Prop where
  generation : f.generation ≤ w.generation
  home : f.generation = w.generation →
    ∀ m, w.current = some m → f.home < m.layout.sections.length

theorem Houses.samePlace {w : Walk} {f g : Frame} (h : w.Houses f) (hg : f.SamePlace g) :
    w.Houses g :=
  ⟨hg.generation ▸ h.generation, hg.home ▸ hg.generation ▸ h.home⟩

theorem Houses.sameModules {w w' : Walk} {f : Frame} (h : w.Houses f) (hw : w.SameModules w') :
    w'.Houses f :=
  ⟨hw.generation ▸ h.generation, hw.current ▸ hw.generation ▸ h.home⟩

theorem Houses.normalize {w : Walk} {f : Frame} (h : w.Houses f) (hw : w.Sound) :
    w.Houses (w.normalize f) := by
  unfold Walk.normalize
  split
  · exact h
  · refine ⟨Nat.le_refl _, fun _ m hm => ?_⟩
    -- The root is the first section, and a module is never without it.
    rw [hm, Option.map_some, Option.getD_some, (hw.current m hm).root]
    exact (hw.current m hm).nonempty

theorem samePlace_assignIndent (c : Catalog) (value : Expr) (f : Frame) :
    f.SamePlace (assignIndent c value f) := by
  unfold assignIndent
  dsimp only
  split
  · split <;> split <;> exact ⟨rfl, rfl⟩
  · split <;> exact ⟨rfl, rfl⟩

/-! ### Branches -/

/-- The first branch of a test is narrowed by it. The second one is narrowed by its negation,
unless the first goes to a section that the test opens. -/
theorem narrowed_of_branches {s : Setting} {test : Expr} {f : Frame} {w : Walk}
    {frames : Frame × Frame} (h : (branches s test f w).result = .ok frames) :
    ∃ asked, ((w.scope s).visibilityOf test).result = .ok asked ∧
      ((∃ m name home, w.current = some m ∧ m.layout.handle? name = some home ∧
          frames = ({ f with visibility := f.visibility.and asked, home }, f)) ∨
        frames = ({ f with visibility := f.visibility.and asked },
          { f with visibility := f.visibility.and asked.negate })) := by
  unfold branches at h
  rw [Traced.result_bind_eq_ok] at h
  obtain ⟨asked, hasked, h⟩ := h
  refine ⟨asked, hasked, ?_⟩
  dsimp only at h
  rw [Traced.result_bind_eq_ok] at h
  obtain ⟨-, -, h⟩ := h
  cases hopened : (((namesIn test).findSome? w.toggles.get?).bind fun name =>
      w.current.bind (·.layout.handle? name)) with
  | some home =>
    rw [hopened] at h
    cases h
    obtain ⟨name, -, hname⟩ := Option.bind_eq_some_iff.1 hopened
    obtain ⟨m, hm, hhandle⟩ := Option.bind_eq_some_iff.1 hname
    exact .inl ⟨m, name, home, hm, hhandle, rfl⟩
  | none =>
    rw [hopened] at h
    dsimp only at h
    rw [Traced.result_bind_eq_ok] at h
    obtain ⟨-, -, h⟩ := h
    rw [Traced.result_bind_eq_ok] at h
    obtain ⟨-, -, h⟩ := h
    cases h
    exact .inr rfl

theorem Houses.branches {s : Setting} {test : Expr} {f : Frame} {w : Walk}
    {frames : Frame × Frame} (hf : w.Houses f)
    (h : (branches s test f w).result = .ok frames) :
    w.Houses frames.1 ∧ w.Houses frames.2 := by
  obtain ⟨asked, -, ⟨m, name, home, hm, hhandle, rfl⟩ | rfl⟩ := narrowed_of_branches h
  · refine ⟨⟨hf.generation, fun _ m' hm' => ?_⟩, hf⟩
    rw [hm, Option.some_inj] at hm'
    exact hm' ▸ (List.findIdx?_eq_some_iff_getElem.1 hhandle).1
  · exact ⟨hf.samePlace ⟨rfl, rfl⟩, hf.samePlace ⟨rfl, rfl⟩⟩

theorem narrowed_of_caseFrame {scope : TestScope} {path : Option String}
    {labels : List (Option Expr)} {f g : Frame}
    (h : (caseFrame scope path labels f).result = .ok g) :
    g = f ∨ ∃ (path : String) (values : List RuleValue),
      g =
        { f with
          visibility :=
            f.visibility.and (values.foldl (fun v x => v.or (.single path x)) .always) } := by
  unfold caseFrame at h
  cases path with
  | none =>
    cases h
    exact .inl rfl
  | some path =>
    dsimp only at h
    split at h
    · cases h
      exact .inl rfl
    · rw [Traced.result_bind_eq_ok] at h
      obtain ⟨values, -, h⟩ := h
      rw [Traced.result_bind_eq_ok] at h
      obtain ⟨-, -, h⟩ := h
      cases h
      exact .inr ⟨path, values, rfl⟩

theorem narrowed_of_caseFrames {scope : TestScope} {path : Option String} {f g : Frame}
    {sections : List SwitchSection} {frames : List Frame}
    (h : (caseFrames scope path f sections).result = .ok frames) (hg : g ∈ frames) :
    g = f ∨ ∃ (path : String) (values : List RuleValue),
      g =
        { f with
          visibility :=
            f.visibility.and (values.foldl (fun v x => v.or (.single path x)) .always) } := by
  induction sections generalizing frames with
  | nil =>
    cases h
    cases hg
  | cons sec sections ih =>
    obtain ⟨m, labels, body⟩ := sec
    rw [caseFrames, Traced.result_bind_eq_ok] at h
    obtain ⟨first, hfirst, h⟩ := h
    rw [Traced.result_bind_eq_ok] at h
    obtain ⟨more, hmore, h⟩ := h
    cases h
    rcases List.mem_cons.1 hg with rfl | hg
    · exact narrowed_of_caseFrame hfirst
    · exact ih hmore hg

end Walk

namespace Point

variable {s : Setting} {c c' : Point}

theorem Touch.length_le {m m' : ModuleDraft} (h : Touch s c m m') :
    m.layout.sections.length ≤ m'.layout.sections.length := by
  cases h with
  | declared label order h => exact Layout.length_le_visit _ _ _ _ _
  | @shown d h =>
    have heq := congrArg List.length (ModuleDraft.outline_shown m d c.frame)
    rw [Layout.length_outline, Layout.length_outline] at heq
    omega
  | hinted id hints h => exact Nat.le_refl _

theorem Step.houses (h : Step s c c') {f : Frame} (hf : c.walk.Houses f) :
    c'.walk.Houses f := by
  cases h.change with
  | keep hsame hact => exact hf.sameModules hsame
  | start name keywords hact hmodules hcurrent hgeneration =>
    have hle := hf.generation
    exact ⟨by omega, fun heq => by omega⟩
  | touch htouch hm hm' hmodules hgeneration =>
    refine ⟨hgeneration ▸ hf.generation, fun heq m'' hm'' => ?_⟩
    rw [hm', Option.some_inj] at hm''
    rw [hgeneration] at heq
    exact hm'' ▸ Nat.lt_of_lt_of_le (hf.home heq _ hm) htouch.length_le

/-- Every frame of a point has a property, in view of what is known there. -/
def Everywhere (P : Walk → Frame → Prop) (c : Point) : Prop :=
  ∀ f ∈ c.frames, P c.walk f

/-- A frame made from one with the property has it too, and so has a frame that is kept while
more becomes known. -/
structure Kept (s : Setting) (P : Walk → Frame → Prop) : Prop where
  normalize : ∀ {w f}, w.Sound → P w f → P w (w.normalize f)
  indentBy : ∀ {w} {f : Frame} n, P w f → P w (f.indentBy n)
  assignIndent : ∀ {w f} value, P w f → P w (Walk.assignIndent s.catalog value f)
  branches : ∀ {w f test frames}, P w f → (Walk.branches s test f w).result = .ok frames →
    P w frames.1 ∧ P w frames.2
  caseFrames : ∀ {w f path sections frames}, P w f →
    (Walk.caseFrames (w.scope s) path f sections).result = .ok frames → ∀ g ∈ frames, P w g
  after : ∀ {c c' : Point} {call}, c'.walk.Sound → c'.walk = (c.after s call).2 →
    P c'.walk c.frame → P c'.walk (c.after s call).1
  step : ∀ {c c' : Point} {f}, Step s c c' → P c.walk f → P c'.walk f

section

variable {P : Walk → Frame → Prop}

theorem Everywhere.frame (hc : c.Everywhere P) : P c.walk c.frame :=
  hc c.frame List.mem_cons_self

theorem Everywhere.goTo (hc : c.Everywhere P) {f : Frame} (hf : P c.walk f) :
    Everywhere P { c with frame := f } := by
  intro g hg
  rcases List.mem_cons.1 hg with rfl | hg
  · exact hf
  · exact hc g (List.mem_cons_of_mem _ hg)

theorem Everywhere.push (hc : c.Everywhere P) (task : Task) (h : ∀ f ∈ task.frames, P c.walk f) :
    Everywhere P { c with tasks := task :: c.tasks } := by
  intro g hg
  simp only [frames, List.flatMap_cons, List.mem_cons, List.mem_append] at hg
  rcases hg with rfl | hg | hg
  · exact hc.frame
  · exact h g hg
  · exact hc g (List.mem_cons_of_mem _ hg)

theorem Everywhere.pushPlain (hc : c.Everywhere P) (task : Task) (h : task.frames = []) :
    Everywhere P { c with tasks := task :: c.tasks } :=
  hc.push task (by simp [h])

theorem Everywhere.pop (hc : c.Everywhere P) {task : Task} {rest : List Task}
    (h : c.tasks = task :: rest) :
    Everywhere P { c with tasks := rest } ∧ ∀ f ∈ task.frames, P c.walk f := by
  unfold Everywhere frames at hc
  rw [h, List.flatMap_cons] at hc
  constructor
  · intro f hf
    apply hc f
    rcases List.mem_cons.1 hf with rfl | hf
    · exact List.mem_cons_self
    · exact List.mem_cons_of_mem _ (List.mem_append_right _ hf)
  · intro f hf
    exact hc f (List.mem_cons_of_mem _ (List.mem_append_left _ hf))

theorem Everywhere.pushLocal (hc : c.Everywhere P) {ts : List Task}
    (h : ∀ t ∈ ts, t.isLocal = true) : Everywhere P { c with tasks := ts ++ c.tasks } := by
  have hnone : ts.flatMap Task.frames = [] := by
    rw [List.flatMap_eq_nil_iff]
    exact fun t ht => Task.frames_of_isLocal (h t ht)
  intro g hg
  rw [frames, List.flatMap_append, hnone] at hg
  exact hc g hg

theorem frames_enter (routine : Routine) (args : List Expr) (c : Point) :
    (c.enter s routine args).frames = c.frames := by
  unfold enter
  split
  · rfl
  · split <;> rfl

variable (hP : Kept s P)

include hP

theorem Kept.shifted {w : Walk} {f g : Frame} (hf : P w f) (h : f.Shifted s.catalog g) : P w g := by
  cases h with
  | same => exact hf
  | indented n => exact hP.indentBy n hf
  | assigned value => exact hP.assignIndent value hf

theorem Step.everywhere_of_call (h : Step s c c') (hw : c.walk.Sound) (hc : c.Everywhere P)
    {call : Call} (hcall : c.call? = some call) : c'.Everywhere P := by
  have hkept : ∀ f ∈ c.frames, P c'.walk f := fun f hf => hP.step h (hc f hf)
  obtain ⟨htasks, hframe, hwalk⟩ := h.of_call hcall
  intro f hf
  rcases List.mem_cons.1 hf with rfl | hf
  · rw [hframe]
    exact hP.after (h.sound hw) hwalk (hkept _ List.mem_cons_self)
  · apply hkept
    rw [htasks] at hf
    obtain ⟨task, htask, hf⟩ := List.mem_flatMap.1 hf
    exact List.mem_cons_of_mem _ (List.mem_flatMap.2 ⟨task, List.mem_of_mem_tail htask, hf⟩)

theorem Step.everywhere (h : Step s c c') (hw : c.walk.Sound) (hc : c.Everywhere P) :
    c'.Everywhere P := by
  have hkept : ∀ f, P c.walk f → P c'.walk f := fun f => hP.step h
  cases hcall : c.call? with
  | some call => exact h.everywhere_of_call hP hw hc hcall
  | none =>
    obtain ⟨task, rest, htasks, hdoes⟩ := h.does
    obtain ⟨hrest, htask⟩ := hc.pop htasks
    have hframe : P c.walk (c.walk.normalize c.frame) := hP.normalize hw hrest.frame
    have hresume : Everywhere P
        { c with tasks := .resume (c.walk.normalize c.frame) :: rest } :=
      hrest.push _ (by simpa [Task.frames] using hframe)
    cases hdoes with
    | call hof => simp [call?_of_tasks htasks, hof] at hcall
    | text | copy | leave => exact fun f hf => hkept f (hrest f hf)
    | enter args => exact fun f hf => hkept f (hrest f (frames_enter _ args _ ▸ hf))
    | push ts _ hts => exact hrest.pushLocal hts
    | run ts hf hts => exact (hrest.pushLocal hts).goTo (hP.shifted hframe hf)
    | ifThen hframes =>
      exact (hresume.pushPlain _ rfl).goTo (hP.branches hframe hframes).1
    | @ifElse m test yes no frames hframes =>
      obtain ⟨hyes, hno⟩ := hP.branches hframe hframes
      have hother := (hresume.pushPlain (.stmt no) rfl).push (.resume frames.2)
        (by simpa [Task.frames] using hno)
      exact (hother.pushPlain _ rfl).goTo hyes
    | switch hframes => exact (hresume.push _ (hP.caseFrames hframe hframes)).goTo hframe
    | @part m labels body sections f frames =>
      have hmore := hrest.push (.sections sections frames) fun g hg =>
        htask g (List.mem_cons_of_mem f hg)
      exact (hmore.pushPlain _ rfl).goTo (htask f List.mem_cons_self)
    | ended => exact hrest
    | @resume f => exact hrest.goTo (htask f List.mem_cons_self)
    | @indent n => exact hrest.goTo (hP.indentBy n hrest.frame)

theorem Reaches.everywhere (h : Reaches s c c') (hw : c.walk.Sound) (hc : c.Everywhere P) :
    c'.Everywhere P := by
  induction h with
  | refl => exact hc
  | tail hreaches hstep ih => exact hstep.everywhere hP (Reaches.sound hreaches hw) ih

end

/-! ### Homes -/

theorem frame_after (s : Setting) (c : Point) (call : Call) :
    (∃ n, (c.after s call).1 = c.frame.indentBy n) ∨ (c.after s call).1 = c.frame ∨
      (c.after s call).1 = { generation := (c.after s call).2.generation } := by
  unfold after Walk.shaped
  cases call.shape with
  | effect =>
    right
    dsimp only
    unfold Walk.effected
    split
    · exact .inl rfl
    · exact .inr rfl
  | indent => exact .inl ⟨1, rfl⟩
  | unindent => exact .inl ⟨-1, rfl⟩
  | _ => exact .inr (.inl rfl)

theorem houses_after (hw : c'.walk.Sound) {call : Call} (hcall : c'.walk = (c.after s call).2)
    (hf : c'.walk.Houses c.frame) : c'.walk.Houses (c.after s call).1 := by
  obtain ⟨n, heq⟩ | heq | heq := frame_after s c call
  · rw [heq]
    exact hf.samePlace (c.frame.samePlace_indentBy n)
  · rw [heq]
    exact hf
  · rw [heq, ← hcall]
    exact ⟨Nat.le_refl _, fun _ m hm => (hw.current m hm).nonempty⟩

theorem kept_houses (s : Setting) : Kept s Walk.Houses where
  normalize hw hf := hf.normalize hw
  indentBy n hf := hf.samePlace (Frame.samePlace_indentBy _ n)
  assignIndent value hf := hf.samePlace (Walk.samePlace_assignIndent _ value _)
  branches hf h := hf.branches h
  caseFrames hf h g hg := by
    obtain rfl | ⟨path, values, rfl⟩ := Walk.narrowed_of_caseFrames h hg
    · exact hf
    · exact hf.samePlace ⟨rfl, rfl⟩
  after hw hcall hf := houses_after hw hcall hf
  step h hf := h.houses hf

def Housed (c : Point) : Prop :=
  c.Everywhere Walk.Houses

theorem Reaches.housed (h : Reaches s c c') (hw : c.walk.Sound) (hc : c.Housed) : c'.Housed :=
  h.everywhere (kept_houses s) hw hc

end Point

end PanelSchema
