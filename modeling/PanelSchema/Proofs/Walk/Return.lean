import PanelSchema.Proofs.Walk.Frames
import PanelSchema.Proofs.Walk.History

/-!
The frame that a statement leaves. Tasks go back to the frames they left, so a branch is
forgotten where it ends, and only the start of a module moves the frame that is left: to
the root of that module, or so that it gets there when it is next looked at.
-/

namespace PanelSchema

open Syntax (Expr Stmt)

/-- Two frames that differ in their depth only. -/
structure Frame.Matches (f g : Frame) : Prop extends Frame.SamePlace f g where
  visibility : g.visibility = f.visibility

theorem Frame.Matches.rfl {f : Frame} : f.Matches f :=
  ⟨.rfl, Eq.refl _⟩

theorem Frame.Matches.trans {f g h : Frame} (hfg : f.Matches g) (hgh : g.Matches h) :
    f.Matches h :=
  ⟨⟨hgh.home.trans hfg.home, hgh.generation.trans hfg.generation⟩,
    hgh.visibility.trans hfg.visibility⟩

theorem Frame.matches_indentBy (f : Frame) (n : Int) : f.Matches (f.indentBy n) :=
  ⟨f.samePlace_indentBy n, Eq.refl _⟩

/-- A frame made since a module started is at its root, and everything there is visible. -/
structure Frame.AtRoot (f : Frame) (started root : Nat) : Prop where
  generation : f.generation ≤ started
  home : f.generation = started → f.home = root
  visibility : f.generation = started → f.visibility = .always

theorem Frame.AtRoot.matches {f g : Frame} {started root : Nat} (h : f.AtRoot started root)
    (hg : f.Matches g) : g.AtRoot started root :=
  ⟨hg.generation ▸ h.generation, hg.generation ▸ hg.home ▸ h.home,
    hg.generation ▸ hg.visibility ▸ h.visibility⟩

theorem Frame.atRoot_of_lt {f : Frame} {started : Nat} (h : f.generation < started)
    (root : Nat) : f.AtRoot started root :=
  ⟨Nat.le_of_lt h, fun heq => by omega, fun heq => by omega⟩

namespace Walk

theorem normalize_of_current {w : Walk} {f : Frame} (h : f.generation = w.generation) :
    w.normalize f = f := by
  simp [normalize, h]

@[simp] theorem generation_normalize (w : Walk) (f : Frame) :
    (w.normalize f).generation = w.generation := by
  unfold normalize
  split
  · assumption
  · rfl

@[simp] theorem normalize_normalize (w : Walk) (f : Frame) :
    w.normalize (w.normalize f) = w.normalize f :=
  normalize_of_current (w.generation_normalize f)

theorem atRoot_normalize {w : Walk} {m : ModuleDraft} (hm : w.current = some m) {f : Frame}
    (h : f.AtRoot w.generation m.root) : (w.normalize f).AtRoot w.generation m.root := by
  unfold normalize
  split
  · exact h
  · refine ⟨Nat.le_refl _, fun _ => ?_, fun _ => rfl⟩
    rw [hm]
    rfl

theorem matches_assignIndent (c : Catalog) (value : Expr) (f : Frame) :
    f.Matches (assignIndent c value f) := by
  refine ⟨samePlace_assignIndent c value f, ?_⟩
  unfold assignIndent
  dsimp only
  split
  · split <;> split <;> rfl
  · split <;> rfl

end Walk

theorem Frame.Shifted.matches {c : Catalog} {f g : Frame} (h : f.Shifted c g) : f.Matches g := by
  cases h with
  | same => exact .rfl
  | indented n => exact f.matches_indentBy n
  | assigned value => exact Walk.matches_assignIndent c value f

/-- The frame that is left once the tasks are done, as far as they go back to frames. -/
def Task.lastFrame : List Task → Frame → Frame
  | [], f => f
  | .resume g :: rest, _ => lastFrame rest g
  | _ :: rest, f => lastFrame rest f

/-- The sections of a switch leave whatever frame the last one is in, so that a frame has
to be gone back to after them. -/
def Task.Guarded : List Task → Prop
  | [] => True
  | .sections .. :: rest => (∀ f g, lastFrame rest f = lastFrame rest g) ∧ Guarded rest
  | _ :: rest => Guarded rest

theorem Task.lastFrame_cases (ts : List Task) :
    (∀ f g, lastFrame ts f = lastFrame ts g) ∨ ∀ f, lastFrame ts f = f := by
  induction ts with
  | nil => exact .inr fun f => rfl
  | cons t ts ih =>
    cases t with
    | resume g => exact .inl fun _ _ => rfl
    | _ => exact ih

theorem Task.local_append {ts : List Task} (h : ∀ t ∈ ts, t.isLocal = true) (rest : List Task) :
    (∀ f, lastFrame (ts ++ rest) f = lastFrame rest f) ∧
      (Guarded (ts ++ rest) ↔ Guarded rest) := by
  induction ts with
  | nil => exact ⟨fun _ => rfl, .rfl⟩
  | cons t ts ih =>
    have hlocal := h t List.mem_cons_self
    have hrest := ih fun t' ht' => h t' (List.mem_cons_of_mem t ht')
    cases t with
    | sections | resume => cases hlocal
    | _ => exact hrest

theorem Frame.Matches.lastFrame {f g : Frame} (h : f.Matches g) (ts : List Task) :
    (Task.lastFrame ts f).Matches (Task.lastFrame ts g) := by
  rcases Task.lastFrame_cases ts with hback | hstays
  · rw [hback f g]
    exact .rfl
  · rw [hstays, hstays]
    exact h

namespace Point

/-- The frame that is left at the end, but for what calls do. -/
def last (c : Point) : Frame :=
  Task.lastFrame c.tasks c.frame

/-- The next step starts a module. -/
def Starts (s : Setting) (c : Point) : Prop :=
  ∃ call, c.call? = some call ∧ call.shape = .effect ∧
    call.args.filterMap (c.walk.string? s.catalog) ≠ []

variable {s : Setting} {c c' : Point}

/-- The frame that is left stays the same, but for its depth. -/
structure Keeps (c c' : Point) : Prop where
  last : c.last.Matches c'.last
  guarded : Task.Guarded c.tasks → Task.Guarded c'.tasks

/-! ### Steps without a call -/

theorem Step.keeps (h : Step s c c') (hguarded : Task.Guarded c.tasks) (hcall : c.call? = none) :
    c.Keeps c' ∨ c.normalized.Keeps c' := by
  obtain ⟨tasks, rounds, stack, f, w⟩ := c
  obtain ⟨task, rest, htasks, hdoes⟩ := h.does
  cases htasks
  cases hdoes with
  | call hof => cases hof.symm.trans hcall
  | enter args =>
    left
    unfold enter
    split
    · exact ⟨.rfl, id⟩
    · split <;> exact ⟨.rfl, id⟩
  | push ts htask hts =>
    obtain ⟨hlast, hrest⟩ := Task.local_append hts rest
    have htask' : ∀ t ∈ [task], t.isLocal = true := by simpa using htask
    obtain ⟨hlast', hrest'⟩ := Task.local_append htask' rest
    refine .inl ⟨?_, fun h => hrest.2 (hrest'.1 h)⟩
    change (Task.lastFrame ([task] ++ rest) f).Matches (Task.lastFrame (ts ++ rest) f)
    rw [hlast, hlast']
    exact .rfl
  | run ts hf hts =>
    obtain ⟨hlast, hrest⟩ := Task.local_append hts rest
    refine .inr ⟨?_, hrest.2⟩
    change (Task.lastFrame rest (w.normalize f)).Matches (Task.lastFrame (ts ++ rest) _)
    rw [hlast]
    exact hf.matches.lastFrame rest
  | ifThen | ifElse => exact .inr ⟨.rfl, id⟩
  | switch => exact .inr ⟨.rfl, fun hguarded => ⟨fun _ _ => rfl, hguarded⟩⟩
  | ended => exact .inl ⟨.rfl, fun _ => hguarded.2⟩
  | @part m labels body sections g frames =>
    obtain ⟨hback, hrest⟩ := hguarded
    refine .inl ⟨?_, fun _ => ⟨hback, hrest⟩⟩
    change (Task.lastFrame rest f).Matches (Task.lastFrame rest g)
    rw [hback f g]
    exact .rfl
  | @indent n => exact .inl ⟨(f.matches_indentBy n).lastFrame rest, id⟩
  | text | copy | resume | leave => exact .inl ⟨.rfl, id⟩

/-! ### Calls -/

theorem Touch.root {m m' : ModuleDraft} (h : Touch s c m m') : m'.root = m.root := by
  cases h <;> rfl

theorem Step.of_starts (h : Step s c c') (hstarts : c.Starts s) :
    c'.tasks = c.tasks.tail ∧ c'.walk.generation = c.walk.generation + 1 ∧
      c'.frame = { home := 0, generation := c'.walk.generation } ∧
      ∃ m, c'.walk.current = some m ∧ m.root = 0 := by
  obtain ⟨call, hcall, hshape, htexts⟩ := hstarts
  obtain ⟨htasks, hframe, hwalk⟩ := h.of_call hcall
  unfold after Walk.shaped at hframe hwalk
  rw [hshape] at hframe hwalk
  dsimp only at hframe hwalk
  unfold Walk.effected at hframe hwalk
  cases hnames : (call.args.filterMap (c.walk.string? s.catalog)).reverse with
  | nil => exact absurd (List.reverse_eq_nil_iff.1 hnames) htexts
  | cons name keywords =>
    rw [hnames] at hframe hwalk
    dsimp only at hframe hwalk
    refine ⟨htasks, ?_, hwalk ▸ hframe, .opened s name (keywords.take 2).reverse, ?_, rfl⟩
    · rw [hwalk, Walk.generation_started]
    · rw [hwalk, Walk.current_started]

theorem after_of_not_starts {call : Call} (hcall : c.call? = some call)
    (hstarts : ¬c.Starts s) :
    c.frame.Matches (c.after s call).1 ∧ (c.after s call).2.generation = c.walk.generation := by
  unfold after Walk.shaped
  cases hshape : call.shape with
  | propertyLookup =>
    refine ⟨.rfl, ?_⟩
    cases call.target.name? <;> rfl
  | effect =>
    have hnone : call.args.filterMap (c.walk.string? s.catalog) = [] := by
      by_contra htexts
      exact hstarts ⟨call, hcall, hshape, htexts⟩
    dsimp only
    rw [Walk.effected, hnone]
    exact ⟨.rfl, rfl⟩
  | subEffect =>
    refine ⟨.rfl, ?_⟩
    dsimp only
    unfold Walk.sectioned
    split
    · dsimp only
      split <;> rfl
    · rfl
  | bind type =>
    refine ⟨.rfl, ?_⟩
    dsimp only
    unfold Walk.drawn
    split
    · rfl
    · exact (Walk.sameModules_keptAs _ _ _ c.walk).generation
  | hint =>
    refine ⟨.rfl, ?_⟩
    dsimp only
    unfold Walk.hint
    split
    · rfl
    · dsimp only
      split <;> rfl
  | indent => exact ⟨c.frame.matches_indentBy 1, rfl⟩
  | unindent => exact ⟨c.frame.matches_indentBy (-1), rfl⟩
  | unrecognized => exact ⟨.rfl, rfl⟩

theorem Step.generation_of_not_starts (h : Step s c c') (hstarts : ¬c.Starts s) :
    c'.walk.generation = c.walk.generation := by
  cases hcall : c.call? with
  | none => exact (h.of_no_call hcall).generation
  | some call =>
    rw [(h.of_call hcall).2.2]
    exact (after_of_not_starts hcall hstarts).2

theorem Step.root_of_not_starts (h : Step s c c') (hstarts : ¬c.Starts s) :
    c'.walk.current.map (·.root) = c.walk.current.map (·.root) := by
  cases h.change with
  | keep hsame hact => rw [hsame.current]
  | start name keywords hact hmodules hcurrent hgeneration =>
    have hsame := h.generation_of_not_starts hstarts
    omega
  | touch htouch hm hm' hmodules hgeneration =>
    rw [hm, hm', Option.map_some, Option.map_some, htouch.root]

theorem last_of_call {call : Call} (hcall : c.call? = some call) :
    c.last = Task.lastFrame c.tasks.tail c.frame ∧
      (Task.Guarded c.tasks → Task.Guarded c.tasks.tail) := by
  obtain ⟨tasks, rounds, stack, f, w⟩ := c
  unfold call? at hcall
  split at hcall
  · rename_i htasks
    cases htasks
    exact ⟨rfl, id⟩
  · cases hcall

theorem Step.keeps_of_not_starts (h : Step s c c') (hguarded : Task.Guarded c.tasks)
    (hstarts : ¬c.Starts s) : c.Keeps c' ∨ c.normalized.Keeps c' := by
  cases hcall : c.call? with
  | none => exact h.keeps hguarded hcall
  | some call =>
    obtain ⟨htasks, hframe, -⟩ := h.of_call hcall
    obtain ⟨hlast, hrest⟩ := last_of_call hcall
    refine .inl ⟨?_, htasks ▸ hrest⟩
    rw [hlast, last, htasks, hframe]
    exact (after_of_not_starts hcall hstarts).1.lastFrame _

theorem Step.guarded (h : Step s c c') (hguarded : Task.Guarded c.tasks) :
    Task.Guarded c'.tasks := by
  cases hcall : c.call? with
  | none =>
    rcases h.keeps hguarded hcall with hkeeps | hkeeps
    · exact hkeeps.guarded hguarded
    · exact hkeeps.guarded hguarded
  | some call =>
    rw [(h.of_call hcall).1]
    exact (last_of_call hcall).2 hguarded

/-! ### Runs -/

/-- Until a module starts, the frame that is left is `n`; then it is at the root of the
current module. -/
inductive Settled (n : Frame) (c : Point) : Prop where
  | same (hgeneration : c.walk.generation = n.generation) (hlast : n.Matches c.last)
  | started {m} (hgeneration : n.generation < c.walk.generation) (hm : c.walk.current = some m)
      (hlast : c.last.AtRoot c.walk.generation m.root)

variable {n : Frame}

theorem Settled.older (hc : Settled n c) :
    n.generation ≤ c.walk.generation ∧ c.last.generation ≤ c.walk.generation := by
  cases hc with
  | same hgeneration hlast =>
    have heq := hlast.generation
    omega
  | started hgeneration hm hlast => exact ⟨Nat.le_of_lt hgeneration, hlast.generation⟩

theorem Settled.keeps (hc : Settled n c) (hkeeps : c.Keeps c')
    (hgeneration : c'.walk.generation = c.walk.generation)
    (hroot : c'.walk.current.map (·.root) = c.walk.current.map (·.root)) : Settled n c' := by
  cases hc with
  | same hsame hlast => exact .same (hgeneration.trans hsame) (hlast.trans hkeeps.last)
  | started hlt hm hlast =>
    rw [hm, Option.map_some, Option.map_eq_some_iff] at hroot
    obtain ⟨m', hm', hroot⟩ := hroot
    refine .started (hgeneration ▸ hlt) hm' ?_
    rw [hgeneration, hroot]
    exact hlast.matches hkeeps.last

theorem Settled.normalized (hc : Settled n c) : Settled n c.normalized := by
  -- The frame is normalized only where it is the one that is left.
  have hcases : c.normalized.last = c.last ∨ c.normalized.last = c.walk.normalize c.last := by
    rcases Task.lastFrame_cases c.tasks with hback | hstays
    · exact .inl (hback _ _)
    · exact .inr ((hstays _).trans (congrArg c.walk.normalize (hstays _).symm))
  cases hc with
  | same hgeneration hlast =>
    refine .same hgeneration ?_
    rcases hcases with heq | heq
    · rw [heq]
      exact hlast
    · rw [heq, Walk.normalize_of_current (hlast.generation.trans hgeneration.symm)]
      exact hlast
  | started hgeneration hm hlast =>
    refine .started hgeneration hm ?_
    rcases hcases with heq | heq
    · rw [heq]
      exact hlast
    · rw [heq]
      exact Walk.atRoot_normalize hm hlast

theorem Step.settled (h : Step s c c') (hguarded : Task.Guarded c.tasks)
    (hc : Settled n c) : Settled n c' := by
  by_cases hstarts : c.Starts s
  · obtain ⟨htasks, hgeneration, hframe, m, hm, hroot⟩ := h.of_starts hstarts
    obtain ⟨call, hcall, -⟩ := hstarts
    obtain ⟨hn, hold⟩ := hc.older
    rw [(last_of_call hcall).1] at hold
    refine .started (by omega) hm ?_
    rw [last, htasks]
    rcases Task.lastFrame_cases c.tasks.tail with hback | hstays
    · rw [hback c'.frame c.frame]
      exact Frame.atRoot_of_lt (by omega) _
    · rw [hstays, hframe, hroot]
      exact ⟨Nat.le_refl _, fun _ => rfl, fun _ => rfl⟩
  · have hgeneration := h.generation_of_not_starts hstarts
    have hroot := h.root_of_not_starts hstarts
    rcases h.keeps_of_not_starts hguarded hstarts with hkeeps | hkeeps
    · exact hc.keeps hkeeps hgeneration hroot
    · exact hc.normalized.keeps hkeeps hgeneration hroot

theorem Reaches.settled (h : Reaches s c c') (hguarded : Task.Guarded c.tasks)
    (hc : Settled n c) : Settled n c' := by
  have hboth : Task.Guarded c'.tasks ∧ Settled n c' := by
    induction h with
    | refl => exact ⟨hguarded, hc⟩
    | tail _ hstep ih => exact ⟨hstep.guarded ih.1, hstep.settled ih.1 ih.2⟩
  exact hboth.2

theorem Step.generation_le (h : Step s c c') : c.walk.generation ≤ c'.walk.generation := by
  by_cases hstarts : c.Starts s
  · have hgeneration := (h.of_starts hstarts).2.1
    omega
  · exact Nat.le_of_eq (h.generation_of_not_starts hstarts).symm

theorem Reaches.generation_le (h : Reaches s c c') :
    c.walk.generation ≤ c'.walk.generation := by
  induction h with
  | refl => exact Nat.le_refl _
  | tail _ hstep ih => exact Nat.le_trans ih hstep.generation_le

theorem Reaches.starts_of_lt (h : Reaches s c c')
    (hlt : c.walk.generation < c'.walk.generation) : ∃ d, Reaches s c d ∧ d.Starts s := by
  induction h with
  | refl => omega
  | @tail d d' hreaches hstep ih =>
    by_cases hstarts : d.Starts s
    · exact ⟨d, hreaches, hstarts⟩
    · exact ih (hstep.generation_of_not_starts hstarts ▸ hlt)

theorem Reaches.lt_of_starts (h : Reaches s c c') (hend : c'.tasks = []) {d : Point}
    (hd : Reaches s c d) (hstarts : d.Starts s) : c.walk.generation < c'.walk.generation := by
  obtain heq | ⟨e, hstep, hrest⟩ :=
    Relation.ReflTransGen.cases_head (Reaches.to_end hd h hend)
  · obtain ⟨call, hcall, -⟩ := hstarts
    simp [heq, call?, hend] at hcall
  · have hgeneration := (hstep.of_starts hstarts).2.1
    have hbefore := Reaches.generation_le hd
    have hafter := Reaches.generation_le hrest
    omega

/-- The point where a statement is met, with nothing to do after it. -/
def before (stmt : Stmt) (rounds : Nat) (stack : List String) (f : Frame) (w : Walk) : Point :=
  ⟨[.stmt stmt], rounds, stack, f, w⟩

theorem settled_end {stmt : Stmt} {rounds : Nat} {stack : List String} {f : Frame} {w : Walk}
    (h : Reaches s (before stmt rounds stack f w) c') (hend : c'.tasks = []) :
    Settled (w.normalize f) c' := by
  obtain heq | ⟨d, hstep, hrest⟩ := Relation.ReflTransGen.cases_head h
  · rw [← heq] at hend
    cases hend
  · -- The first step is the same from the frame that is normalized already.
    have hstep' : Step s (before stmt rounds stack (w.normalize f) w) d := by
      obtain ⟨task, rest, htasks, hd⟩ := hstep
      cases htasks
      refine ⟨.stmt stmt, [], rfl, ?_⟩
      rw [perform] at hd ⊢
      simpa only [before, Walk.normalize_normalize] using hd
    have hstart : Settled (w.normalize f) (before stmt rounds stack (w.normalize f) w) :=
      .same (w.generation_normalize f).symm .rfl
    exact Reaches.settled hrest (hstep'.guarded trivial) (hstep'.settled trivial hstart)

end Point

open Point (Reaches Starts before)

/-- The frame that a statement leaves is the one it was met in, normalized, unless a module
was started on the way. Then it is, once normalized, the root of the module that is current
at the end, and everything there is visible. -/
theorem Walk.walkStmt_frame {s : Setting} {rounds : Nat} {stack : List String} {stmt : Stmt}
    {f g : Frame} {w w' : Walk}
    (h : (walkStmt s (followWithin s rounds stack) stmt f w).result = .ok (g, w')) :
    ((∀ c, Reaches s (before stmt rounds stack f w) c → ¬c.Starts s) →
        g.home = (w.normalize f).home ∧ g.visibility = (w.normalize f).visibility ∧
          g.generation = (w.normalize f).generation) ∧
      ((∃ c, Reaches s (before stmt rounds stack f w) c ∧ c.Starts s) →
        ∃ m, w'.current = some m ∧ (w'.normalize g).home = m.root ∧
          (w'.normalize g).visibility = .always) := by
  have hreaches : Reaches s (before stmt rounds stack f w) ⟨[], rounds, stack, g, w'⟩ :=
    (Point.runs_stmt (Point.follows_within s rounds stack) stmt).reaches h []
  have hsettled := Point.settled_end hreaches rfl
  constructor
  · intro hnone
    cases hsettled with
    | same hgeneration hlast => exact ⟨hlast.home, hlast.visibility, hlast.generation⟩
    | started hgeneration hm hlast =>
      rw [generation_normalize] at hgeneration
      obtain ⟨d, hd, hstarts⟩ := Point.Reaches.starts_of_lt hreaches hgeneration
      exact absurd hstarts (hnone d hd)
  · rintro ⟨c, hc, hstarts⟩
    have hlt : w.generation < w'.generation := Point.Reaches.lt_of_starts hreaches rfl hc hstarts
    cases hsettled with
    | same hgeneration hlast =>
      rw [generation_normalize] at hgeneration
      exact absurd hgeneration (Nat.ne_of_gt hlt)
    | @started m hgeneration hm hlast =>
      have hroot := atRoot_normalize hm hlast
      exact ⟨m, hm, hroot.home (w'.generation_normalize g),
        hroot.visibility (w'.generation_normalize g)⟩

section Instances

private def unset : Setting where
  catalog := {}
  declarations := {}
  settings := {}

/-- `if (on) MakeEffect("A");` -/
private def starting : Stmt :=
  .ifThen default (.name default "on")
    (.expr (.call default (.name default "MakeEffect") [] [.string default "A"]))

private theorem starting_ends :
    ∃ g w', (Walk.walkStmt unset (Walk.followWithin unset 0 []) starting {} {}).result =
      .ok (g, w') ∧ g.generation = 0 ∧ w'.generation = 1 := by
  have hends : (Walk.walkStmt unset (Walk.followWithin unset 0 []) starting {}
      {}).result.toOption.map (fun r => (r.1.generation, r.2.generation)) = some (0, 1) := by
    decide +kernel
  cases hresult : (Walk.walkStmt unset (Walk.followWithin unset 0 []) starting {} {}).result with
  | error e => simp [hresult, Except.toOption] at hends
  | ok r =>
    simp only [hresult, Except.toOption, Option.map_some, Option.some.injEq,
      Prod.mk.injEq] at hends
    exact ⟨r.1, r.2, rfl, hends⟩

/-- The module is started in a branch, so that the frame that comes back is older than it. -/
theorem Walk.walkStmt_frame_starting :
    ∃ g w', (walkStmt unset (followWithin unset 0 []) starting {} {}).result = .ok (g, w') ∧
      g.generation < w'.generation ∧
      ∃ m, w'.current = some m ∧ (w'.normalize g).home = m.root ∧
        (w'.normalize g).visibility = .always := by
  obtain ⟨g, w', h, hg, hw'⟩ := starting_ends
  have hreaches : Reaches unset (before starting 0 [] {} {}) ⟨[], 0, [], g, w'⟩ :=
    (Point.runs_stmt (Point.follows_within unset 0 []) starting).reaches h []
  have hstarts := Point.Reaches.starts_of_lt hreaches (by rw [hw']; decide)
  exact ⟨g, w', h, by omega, (walkStmt_frame h).2 hstarts⟩

end Instances

end PanelSchema
