import PanelSchema.Extract
import PanelSchema.Proofs.Walk.Frames
import PanelSchema.Proofs.Walk.History

/-!
The modules of a source. Whatever is true at the start of a walk and kept by every step is
true where the walk ends, and there the modules are given out.
-/

namespace PanelSchema

open Syntax (SourceTree Expr Stmt Decl)

/-- What the extraction from a source starts from. -/
def Setting.ofTree (t : SourceTree) (declarations : DeclarationTable) (settings : Settings) :
    Setting :=
  { catalog := Catalog.ofTree t, declarations, settings }

/-- The extraction from a source goes through a point. -/
def Visits (t : SourceTree) (declarations : DeclarationTable) (settings : Settings)
    (c : Point) : Prop :=
  ∃ entry, (Catalog.ofTree t).routine? settings.entryPoint = some entry ∧
    Point.Reaches (.ofTree t declarations settings)
      (.start (.ofTree t declarations settings) entry) c

variable {t : SourceTree} {declarations : DeclarationTable} {settings : Settings}
  {ms : List Module}

theorem extractModules_result_eq_ok :
    (extractModules t declarations settings).result = .ok ms ↔
      ∃ entry f w, (Catalog.ofTree t).routine? settings.entryPoint = some entry ∧
        (Point.walkOf (.ofTree t declarations settings) entry).result = .ok (f, w) ∧
        w.closed.modules = ms := by
  have hcatalog : (catalogOf t).result = .ok (Catalog.ofTree t) := rfl
  unfold extractModules
  rw [Traced.result_bind_of_ok hcatalog]
  cases hentry : (Catalog.ofTree t).routine? settings.entryPoint with
  | none => simp [Traced.fail, Traced.stop]
  | some entry =>
    dsimp only
    rw [Traced.result_bind_of_ok (Traced.result_note _ _), Traced.result_bind_eq_ok]
    constructor
    · rintro ⟨⟨_, w⟩, hw, hms⟩
      obtain ⟨f, w', hwalk, rfl⟩ := Point.walkEntry_result_eq_ok.1 hw
      refine ⟨entry, f, w', rfl, hwalk, ?_⟩
      dsimp only at hms
      split at hms <;> cases hms <;> rfl
    · rintro ⟨entry', f, w, hsame, hwalk, rfl⟩
      cases hsame
      refine ⟨((), w.closed), Point.walkEntry_result_eq_ok.2 ⟨f, w, hwalk, rfl⟩, ?_⟩
      dsimp only
      split <;> rfl

theorem exists_end (h : (extractModules t declarations settings).result = .ok ms) :
    ∃ c, Visits t declarations settings c ∧ c.tasks = [] ∧ c.walk.closed.modules = ms := by
  obtain ⟨entry, f, w, hentry, hwalk, hms⟩ := extractModules_result_eq_ok.1 h
  exact ⟨_, ⟨entry, hentry, Point.reaches_end hwalk⟩, rfl, hms⟩

/-- The module being built where the walk of a source ends. -/
def lastDraft? (t : SourceTree) (declarations : DeclarationTable) (settings : Settings) :
    Option ModuleDraft :=
  ((Catalog.ofTree t).routine? settings.entryPoint).bind fun entry =>
    (Point.walkOf (.ofTree t declarations settings) entry).result.toOption.bind fun after =>
      after.2.current

theorem exists_getLast? {m : ModuleDraft} (h : lastDraft? t declarations settings = some m) :
    ∃ ms, (extractModules t declarations settings).result = .ok ms ∧
      ms.getLast? = some m.finish := by
  obtain ⟨entry, hentry, h⟩ := Option.bind_eq_some_iff.1 h
  obtain ⟨⟨f, w⟩, hwalk, hcurrent⟩ := Option.bind_eq_some_iff.1 h
  have hok : (Point.walkOf (.ofTree t declarations settings) entry).result = .ok (f, w) := by
    cases hresult : (Point.walkOf (.ofTree t declarations settings) entry).result with
    | error e => simp [hresult, Except.toOption] at hwalk
    | ok after => simpa [hresult, Except.toOption] using hwalk
  refine ⟨w.closed.modules, ?_, by simp [Walk.modules_closed hcurrent]⟩
  exact extractModules_result_eq_ok.2 ⟨entry, f, w, hentry, hok, rfl⟩

theorem sound_start (s : Setting) (entry : Routine) : (Point.start s entry).walk.Sound :=
  ⟨by simp [Point.start], by simp [Point.start]⟩

@[simp] theorem frames_start (s : Setting) (entry : Routine) :
    (Point.start s entry).frames = [{}] := rfl

theorem Visits.sound {c : Point} (h : Visits t declarations settings c) : c.walk.Sound := by
  obtain ⟨entry, -, hreaches⟩ := h
  exact hreaches.sound (sound_start _ entry)

theorem Visits.housed {c : Point} (h : Visits t declarations settings c) : c.Housed := by
  obtain ⟨entry, -, hreaches⟩ := h
  apply hreaches.housed (sound_start _ entry)
  intro f hf
  rw [frames_start, List.mem_singleton] at hf
  rw [hf]
  exact ⟨Nat.le_refl _, by simp [Point.start]⟩

/-- A module has a recorded property just when the extraction went through a point that gave
it the property. -/
theorem recorded_iff {E : Point → Prop} {Q : Module → Prop} {k : Nat} {m : Module}
    (hrecords : Point.Records (.ofTree t declarations settings) E Q)
    (h : (extractModules t declarations settings).result = .ok ms) (hm : ms[k]? = some m) :
    Q m ↔ ∃ c, Visits t declarations settings c ∧ c.walk.generation = k + 1 ∧ E c := by
  obtain ⟨c, ⟨entry, hentry, hreaches⟩, htasks, hmodules⟩ := exists_end h
  have hshows : c.walk.Shows k Q ↔ Q m := by simp [Walk.Shows, hmodules, hm]
  have hstart : ¬(Point.start (.ofTree t declarations settings) entry).walk.Shows k Q := by
    simp [Walk.Shows, Point.start, Walk.closed]
  rw [← hshows, hrecords.iff hreaches htasks (sound_start _ entry) rfl hstart]
  constructor
  · rintro ⟨d, hd, hE⟩
    exact ⟨d, ⟨entry, hentry, hd⟩, hE⟩
  · rintro ⟨d, ⟨entry', hentry', hd⟩, hE⟩
    rw [hentry, Option.some_inj] at hentry'
    exact ⟨d, hentry' ▸ hd, hE⟩

/-- Every module of a source is well formed. -/
theorem extractModules_wellFormed (h : (extractModules t declarations settings).result = .ok ms) :
    ∀ m ∈ ms, m.WellFormed := by
  obtain ⟨c, hvisits, -, hmodules⟩ := exists_end h
  rw [← hmodules]
  exact hvisits.sound.closed

/-! ### A module started inside an expression -/

private def methodOf (name : String) (body : List Stmt) : Decl :=
  .method default [] "void" name [] (.block default body)

/-- A routine draws one of two calls, and tests a routine that may start another module:

    void Draw() { if (on) MakeEffect("B"); }
    void OnGUI() {
      var p = FindProperty("_P");
      MakeEffect("A");
      bool open = MakeSubEffect("Inner");
      if (open) { var x = Draw() ? Slider(p) : MakeSubEffect("Lost"); }
    }
-/
def restartedSource : SourceTree :=
  { mark := default
    body :=
      [.classDecl default [] "Panel"
        [methodOf "Draw"
          [.ifThen default (.name default "on")
            (.expr (Expr.calling "MakeEffect" [.string default "B"]))],
        methodOf "OnGUI"
          [.localDecl default "var" "p" (some (Expr.calling "FindProperty" [.string default "_P"])),
          .expr (Expr.calling "MakeEffect" [.string default "A"]),
          .localDecl default "bool" "open"
            (some (Expr.calling "MakeSubEffect" [.string default "Inner"])),
          .ifThen default (.name default "open")
            (.block default
              [.localDecl default "var" "x"
                (some
                  (.conditional default (Expr.calling "Draw" [])
                    (Expr.calling "Slider" [.name default "p"])
                    (Expr.calling "MakeSubEffect" [.string default "Lost"])))])]]] }

theorem restartedSource_modules :
    ∃ ms, (extractModules restartedSource {} {}).result = .ok ms ∧
      ms.map (·.name) = ["A", "B"] := by
  have hnames : (extractModules restartedSource {} {}).result.toOption.map
      (·.map (·.name)) = some ["A", "B"] := by
    decide +kernel
  cases hresult : (extractModules restartedSource {} {}).result with
  | error e => simp [hresult, Except.toOption] at hnames
  | ok ms => exact ⟨ms, rfl, by simpa [hresult, Except.toOption] using hnames⟩

theorem extractModules_wellFormed_restarted :
    ∃ ms, (extractModules restartedSource {} {}).result = .ok ms ∧
      ms.map (·.name) = ["A", "B"] ∧ ∀ m ∈ ms, m.WellFormed := by
  obtain ⟨ms, hresult, hnames⟩ := restartedSource_modules
  exact ⟨ms, hresult, hnames, extractModules_wellFormed hresult⟩

end PanelSchema
