import PanelSchema.Proofs.Extract
import PanelSchema.Proofs.Visibility.Outcome
import PanelSchema.Proofs.Walk.Ending
import PanelSchema.Proofs.Walk.Range

/-!
What stops the extraction. A source without the entry routine has no modules; any other has
them unless the walk comes to a test or a label that negates the least integer, and the
least integer is only there to be negated as the value of an enum member.
-/

namespace PanelSchema

open Syntax (Expr Stmt SwitchSection SourceTree)

namespace TestScope

variable {s : TestScope}

/-! ### Literals and tests -/

theorem unfailing_literal? (s : TestScope) (e : Expr) : (s.literal? e).Unfailing := by
  induction e using TestScope.literal?.induct with
  | case5 m t e ih =>
    rw [literal?]
    exact ih
  | case6 m e ih =>
    rw [literal?]
    apply ih.bind
    intro v hv
    split
    · split
      · intro err herr
        cases herr
        rfl
      · exact Traced.unfailing_of_ok rfl
    · exact Traced.unfailing_of_ok rfl
    · exact Traced.unfailing_of_ok rfl
  | case9 e =>
    rw [literal?]
    · exact Traced.unfailing_of_ok rfl
    all_goals assumption
  | _ =>
    rw [literal?]
    exact Traced.unfailing_of_ok rfl

theorem unfailing_compare (s : TestScope) (l r : Expr) {op : Syntax.BinaryOp}
    (hop : Compares op) : (s.compare l op r).Unfailing := by
  cases hsides : s.sides? l op r with
  | none => exact Traced.unfailing_of_ok (compare_of_no_sides hsides)
  | some c =>
    rw [compare_of_sides hsides]
    by_cases hleast : s.NegatesLeast c.other
    · apply (s.unfailing_literal? c.other).bind
      intro v hv
      exact absurd hleast ((s.literal?_result c.other).1 ⟨v, hv⟩)
    · exact Traced.unfailing_of_ok (compareWith_result (hop.sides hsides) hleast)

theorem unfailing_visibilityOf (s : TestScope) (e : Expr) : (s.visibilityOf e).Unfailing := by
  induction e using TestScope.visibilityOf.induct with
  | case1 m e ih =>
    rw [visibilityOf]
    exact ih.bind fun v _ => Traced.unfailing_of_ok (negated_result v)
  | case2 m t e ih =>
    rw [visibilityOf]
    exact ih
  | case3 m l r ihl ihr =>
    rw [visibilityOf]
    exact ihl.bind fun v _ => ihr.bind fun w _ => Traced.unfailing_of_ok (both_result v w)
  | case4 m l r ihl ihr =>
    rw [visibilityOf]
    exact ihl.bind fun v _ => ihr.bind fun w _ => Traced.unfailing_of_ok rfl
  | case5 m l op r hand hor hop =>
    rw [visibilityOf_comparison hop]
    exact s.unfailing_compare l r hop
  | case6 m l op r hand hor hop =>
    rw [visibilityOf, if_neg hop]
    · exact Traced.unfailing_of_ok rfl
    all_goals assumption
  | case9 e =>
    rw [visibilityOf]
    · exact Traced.unfailing_of_ok rfl
    all_goals assumption
  | _ =>
    rw [visibilityOf]
    exact Traced.unfailing_of_ok rfl

/-- The labels of a section are read, and one of them negates the least integer. -/
def LabelOverflows (s : TestScope) (labels : List (Option Expr)) : Prop :=
  none ∉ labels ∧ ∃ e, some e ∈ labels ∧ s.NegatesLeast e

/-! ### Where the least integer comes from -/

/-- The integers written in an expression of signs, casts and binary operators. -/
def integersIn : Expr → List Int
  | .integer _ n => [n]
  | .unary _ _ e => integersIn e
  | .cast _ _ e => integersIn e
  | .binary _ l _ r => integersIn l ++ integersIn r
  | _ => []

/-- The least integer is the value of an enum member, or an integer as large was written. -/
def LeastGiven (s : TestScope) (e : Expr) : Prop :=
  (∃ dotted, s.catalog.enumValue? dotted = some leastInt) ∨
    ∃ n ∈ integersIn e, n.natAbs = 0x8000000000000000

theorem LeastGiven.mono {e e' : Expr} (h : s.LeastGiven e)
    (hsub : ∀ n ∈ integersIn e, n ∈ integersIn e') : s.LeastGiven e' := by
  rcases h with h | ⟨n, hn, hlarge⟩
  · exact .inl h
  · exact .inr ⟨n, hsub n hn, hlarge⟩

theorem natAbs_numberLiteral {x : Float} {n : Int} (h : numberLiteral x = .int n) :
    n.natAbs < 0x8000000000000000 := by
  unfold numberLiteral at h
  split at h
  · split at h
    · cases h
      assumption
    · cases h
  · cases h

def constant? (s : TestScope) (dotted : String) : Option RuleValue :=
  match s.catalog.enumValue? dotted with
  | some n => some (.int n)
  | none =>
    match s.catalog.number? dotted with
    | some x => some (numberLiteral x)
    | none => (s.catalog.string? dotted).map .str

theorem leastGiven_of_constant? (hs : s.catalog.enums.All EnumDef.InRange) {e : Expr} {n : Int}
    (h : e.dotted?.bind s.constant? = some (.int n)) (hlarge : n.natAbs = 0x8000000000000000) :
    s.LeastGiven e := by
  obtain ⟨dotted, -, h⟩ := Option.bind_eq_some_iff.1 h
  unfold constant? at h
  split at h
  · rename_i k hvalue
    cases h
    have hrange := Catalog.isInt_enumValue hs hvalue
    have hleast : n = leastInt := by
      unfold IsInt greatestInt at hrange
      unfold leastInt at hrange ⊢
      omega
    exact .inl ⟨dotted, hleast ▸ hvalue⟩
  · split at h
    · have hsmall := natAbs_numberLiteral (Option.some_inj.1 h)
      omega
    · obtain ⟨t, -, ht⟩ := Option.map_eq_some_iff.1 h
      cases ht

theorem leastGiven_of_literal? (hs : s.catalog.enums.All EnumDef.InRange) {e : Expr} {n : Int}
    (h : (s.literal? e).result = .ok (some (.int n))) (hlarge : n.natAbs = 0x8000000000000000) :
    s.LeastGiven e := by
  induction e using TestScope.literal?.induct generalizing n with
  | case2 m k =>
    cases h
    exact .inr ⟨k, List.mem_singleton_self k, hlarge⟩
  | case5 m t e ih =>
    rw [literal?] at h
    exact ih h hlarge
  | case6 m e ih =>
    rw [literal?, Traced.result_bind_eq_ok] at h
    obtain ⟨v, hv, h⟩ := h
    split at h
    · split at h
      · cases h
      · cases h
        exact ih hv (by omega)
    all_goals cases h
  | case7 m k =>
    rw [literal?] at h
    exact leastGiven_of_constant? hs (Except.ok.inj h) hlarge
  | case8 m object k =>
    rw [literal?] at h
    exact leastGiven_of_constant? hs (Except.ok.inj h) hlarge
  | case9 e =>
    rw [literal?] at h
    · cases h
    all_goals assumption
  | _ => cases h

theorem NegatesLeast.given (hs : s.catalog.enums.All EnumDef.InRange) {e : Expr}
    (h : s.NegatesLeast e) : s.LeastGiven e := by
  induction e using TestScope.literal?.induct with
  | case5 m t e ih => exact ih h
  | case6 m e ih =>
    rcases h with h | h
    · exact ih h
    · exact leastGiven_of_literal? (e := e) hs h (by decide)
  | case9 e =>
    unfold NegatesLeast at h
    split at h
    · simp_all
    · simp_all
    · cases h
  | _ => cases h

theorem ComparesLeast.given (hs : s.catalog.enums.All EnumDef.InRange) {m : Syntax.Mark}
    {l r : Expr} {op : Syntax.BinaryOp} (h : s.ComparesLeast l op r) :
    s.LeastGiven (.binary m l op r) := by
  obtain ⟨c, hsides, hleast⟩ := h
  unfold sides? at hsides
  split at hsides
  · cases hsides
    exact (hleast.given hs).mono fun n hn => List.mem_append_right _ hn
  · cases hsides
    exact (hleast.given hs).mono fun n hn => List.mem_append_left _ hn
  · cases hsides

theorem Overflows.given (hs : s.catalog.enums.All EnumDef.InRange) {e : Expr}
    (h : s.Overflows e) : s.LeastGiven e := by
  induction e using TestScope.visibilityOf.induct with
  | case1 m e ih => exact ih h
  | case2 m t e ih => exact ih h
  | case3 m l r ihl ihr =>
    rcases h with h | h
    · exact (ihl h).mono fun n hn => List.mem_append_left _ hn
    · exact (ihr h).mono fun n hn => List.mem_append_right _ hn
  | case4 m l r ihl ihr =>
    rcases h with h | h
    · exact (ihl h).mono fun n hn => List.mem_append_left _ hn
    · exact (ihr h).mono fun n hn => List.mem_append_right _ hn
  | case5 m l op r hand hor hop =>
    rw [Overflows] at h
    · exact h.2.given hs
    all_goals assumption
  | case6 m l op r hand hor hop =>
    rw [Overflows] at h
    · exact h.2.given hs
    all_goals assumption
  | case7 m n => cases h
  | case8 m object n => cases h
  | case9 e =>
    rw [Overflows] at h
    · cases h
    all_goals simp_all

end TestScope

namespace Walk

variable {s : Setting} {scope : TestScope} {w : Walk} {f : Frame}

theorem unfailing_branches (s : Setting) (test : Expr) (f : Frame) (w : Walk) :
    (branches s test f w).Unfailing := by
  unfold branches
  apply ((w.scope s).unfailing_visibilityOf test).bind
  intro asked _
  dsimp only
  split <;> exact Traced.unfailing_of_ok rfl

theorem branches_isOk (s : Setting) (test : Expr) (f : Frame) (w : Walk) :
    (∃ frames, (branches s test f w).result = .ok frames) ↔ ¬(w.scope s).Overflows test := by
  rw [← TestScope.visibilityOf_isOk]
  unfold branches
  constructor
  · rintro ⟨frames, h⟩
    obtain ⟨asked, hasked, -⟩ := Traced.result_bind_eq_ok.1 h
    exact ⟨asked, hasked⟩
  · rintro ⟨asked, hasked⟩
    rw [Traced.result_bind_of_ok hasked]
    dsimp only
    split <;> exact ⟨_, rfl⟩

theorem branches_eq_error {test : Expr} {e : Stop} :
    (branches s test f w).result = .error e ↔ (w.scope s).Overflows test ∧ e = .overflow :=
  (unfailing_branches s test f w).error_iff (branches_isOk s test f w)

theorem unfailing_labelValues (scope : TestScope) (es : List Expr) :
    (labelValues scope es).Unfailing := by
  induction es with
  | nil => exact Traced.unfailing_of_ok rfl
  | cons e es ih =>
    exact (scope.unfailing_literal? e).bind fun _ _ => ih.bind fun _ _ => Traced.unfailing_of_ok rfl

theorem labelValues_isOk (scope : TestScope) (es : List Expr) :
    (∃ values, (labelValues scope es).result = .ok values) ↔ ∀ e ∈ es, ¬scope.NegatesLeast e := by
  induction es with
  | nil => simp [labelValues]
  | cons e es ih =>
    rw [List.forall_mem_cons, ← ih, ← scope.literal?_result e, labelValues]
    constructor
    · rintro ⟨values, h⟩
      obtain ⟨value, hvalue, h⟩ := Traced.result_bind_eq_ok.1 h
      obtain ⟨more, hmore, -⟩ := Traced.result_bind_eq_ok.1 h
      exact ⟨⟨value, hvalue⟩, ⟨more, hmore⟩⟩
    · rintro ⟨⟨value, hvalue⟩, ⟨more, hmore⟩⟩
      rw [Traced.result_bind_of_ok hvalue, Traced.result_bind_of_ok hmore]
      exact ⟨_, rfl⟩

theorem unfailing_caseFrame (scope : TestScope) (path : Option String)
    (labels : List (Option Expr)) (f : Frame) : (caseFrame scope path labels f).Unfailing := by
  unfold caseFrame
  split
  · exact Traced.unfailing_of_ok rfl
  · split
    · exact Traced.unfailing_of_ok rfl
    · exact (unfailing_labelValues scope _).bind fun _ _ => Traced.unfailing_of_ok rfl

theorem caseFrame_isOk (scope : TestScope) (path : Option String) (labels : List (Option Expr))
    (f : Frame) :
    (∃ g, (caseFrame scope path labels f).result = .ok g) ↔
      ¬(path.isSome = true ∧ scope.LabelOverflows labels) := by
  unfold caseFrame TestScope.LabelOverflows
  cases path with
  | none => simp
  | some path =>
    dsimp only
    by_cases hdefault : none ∈ labels
    · have hany : labels.any Option.isNone = true := List.any_eq_true.2 ⟨none, hdefault, rfl⟩
      simp [hany, hdefault]
    · have hany : labels.any Option.isNone = false := by
        rw [List.any_eq_false]
        intro label hlabel
        cases label with
        | none => exact absurd hlabel hdefault
        | some e => simp
      have hread : (∃ e, some e ∈ labels ∧ scope.NegatesLeast e) ↔
          ∃ e ∈ labels.filterMap id, scope.NegatesLeast e := by
        simp
      rw [hread, hany, if_neg (by simp)]
      simp only [Option.isSome_some, hdefault, not_false_eq_true, true_and, not_exists, not_and]
      rw [← labelValues_isOk]
      constructor
      · rintro ⟨g, h⟩
        obtain ⟨values, hvalues, -⟩ := Traced.result_bind_eq_ok.1 h
        exact ⟨values, hvalues⟩
      · rintro ⟨values, hvalues⟩
        rw [Traced.result_bind_of_ok hvalues]
        exact ⟨_, rfl⟩

theorem unfailing_caseFrames (scope : TestScope) (path : Option String) (f : Frame)
    (sections : List SwitchSection) : (caseFrames scope path f sections).Unfailing := by
  induction sections with
  | nil => exact Traced.unfailing_of_ok rfl
  | cons sec sections ih =>
    obtain ⟨m, labels, body⟩ := sec
    rw [caseFrames]
    exact (unfailing_caseFrame scope path labels f).bind fun _ _ =>
      ih.bind fun _ _ => Traced.unfailing_of_ok rfl

theorem caseFrames_isOk (scope : TestScope) (path : Option String) (f : Frame)
    (sections : List SwitchSection) :
    (∃ frames, (caseFrames scope path f sections).result = .ok frames) ↔
      ¬(path.isSome = true ∧
        ∃ m labels body, .mk m labels body ∈ sections ∧ scope.LabelOverflows labels) := by
  induction sections with
  | nil => simp [caseFrames]
  | cons sec sections ih =>
    obtain ⟨m, labels, body⟩ := sec
    have hsplit : (path.isSome = true ∧ ∃ m' labels' body',
          SwitchSection.mk m' labels' body' ∈ .mk m labels body :: sections ∧
            scope.LabelOverflows labels') ↔
        path.isSome = true ∧ scope.LabelOverflows labels ∨
          path.isSome = true ∧ ∃ m' labels' body', .mk m' labels' body' ∈ sections ∧
            scope.LabelOverflows labels' := by
      simp only [List.mem_cons, SwitchSection.mk.injEq]
      grind
    rw [hsplit, not_or, ← ih, ← caseFrame_isOk scope path labels f, caseFrames]
    constructor
    · rintro ⟨frames, h⟩
      obtain ⟨first, hfirst, h⟩ := Traced.result_bind_eq_ok.1 h
      obtain ⟨more, hmore, -⟩ := Traced.result_bind_eq_ok.1 h
      exact ⟨⟨first, hfirst⟩, ⟨more, hmore⟩⟩
    · rintro ⟨⟨first, hfirst⟩, ⟨more, hmore⟩⟩
      rw [Traced.result_bind_of_ok hfirst, Traced.result_bind_of_ok hmore]
      exact ⟨_, rfl⟩

theorem caseFrames_eq_error {path : Option String} {sections : List SwitchSection} {e : Stop} :
    (caseFrames scope path f sections).result = .error e ↔
      (path.isSome = true ∧
        ∃ m labels body, .mk m labels body ∈ sections ∧ scope.LabelOverflows labels) ∧
        e = .overflow :=
  (unfailing_caseFrames scope path f sections).error_iff (caseFrames_isOk scope path f sections)

end Walk

/-! ### Whole walks -/

/-- Doing the task negates the least integer. -/
def Task.Overflows (s : Setting) (w : Walk) : Task → Prop
  | .stmt (.ifThen _ test _) => (w.scope s).Overflows test
  | .stmt (.ifElse _ test _ _) => (w.scope s).Overflows test
  | .stmt (.switch _ subject parts) =>
    (w.bindings.resolve? subject).isSome = true ∧
      ∃ m labels body, .mk m labels body ∈ parts ∧ (w.scope s).LabelOverflows labels
  | _ => False

/-- The integers written in the test or the labels of a task. -/
def Task.integers : Task → List Int
  | .stmt (.ifThen _ test _) => TestScope.integersIn test
  | .stmt (.ifElse _ test _ _) => TestScope.integersIn test
  | .stmt (.switch _ _ parts) =>
    parts.flatMap fun sec =>
      match sec with
      | .mk _ labels _ => (labels.filterMap id).flatMap TestScope.integersIn
  | _ => []

namespace Point

variable {s : Setting} {c : Point} {e : Stop}

theorem perform_eq_error {task : Task} :
    (perform s c task).result = .error e ↔ task.Overflows s c.walk ∧ e = .overflow := by
  -- All tasks but the statements with a test are done.
  have hdone : ∀ {x : Traced Point} {c' : Point} {P : Prop}, x.result = .ok c' → ¬P →
      (x.result = .error e ↔ P ∧ e = .overflow) := by
    intro x c' P hx hP
    simp [hx, hP]
  cases task with
  | stmt stmt =>
    rw [perform]
    cases stmt with
    | ifThen m test body =>
      rw [stmt, Task.Overflows, Traced.result_bind_eq_error, Walk.branches_eq_error]
      simp
    | ifElse m test body other =>
      rw [stmt, Task.Overflows, Traced.result_bind_eq_error, Walk.branches_eq_error]
      simp
    | switch m subject sections =>
      rw [stmt, Task.Overflows, Traced.result_bind_eq_error, Walk.caseFrames_eq_error,
        Option.isSome_map]
      simp
    | localDecl m type name value =>
      cases value <;> exact hdone rfl (by simp [Task.Overflows])
    | usingBlock m resource body =>
      rw [stmt]
      split <;> exact hdone rfl (by simp [Task.Overflows])
    | _ => exact hdone rfl (by simp [Task.Overflows])
  | stmts body =>
    cases body <;> exact hdone rfl (by simp [Task.Overflows])
  | sections sections frames =>
    cases sections with
    | nil => exact hdone rfl (by simp [Task.Overflows])
    | cons sec sections =>
      cases sec
      cases frames <;> exact hdone rfl (by simp [Task.Overflows])
  | _ => exact hdone rfl (by simp [Task.Overflows])

/-- The next step negates the least integer. -/
def Overflows (s : Setting) (c : Point) : Prop :=
  ∃ task rest, c.tasks = task :: rest ∧ task.Overflows s c.walk

theorem stops_iff : c.Stops s e ↔ c.Overflows s ∧ e = .overflow := by
  unfold Stops Overflows
  simp only [perform_eq_error]
  grind

/-- The integers written in the test or the labels that the next step reads. -/
def integers (c : Point) : List Int :=
  (c.tasks.head?.map Task.integers).getD []

theorem Overflows.given (hs : s.catalog.enums.All EnumDef.InRange) (h : c.Overflows s) :
    (∃ dotted, s.catalog.enumValue? dotted = some leastInt) ∨
      ∃ n ∈ c.integers, n.natAbs = 0x8000000000000000 := by
  obtain ⟨task, rest, htasks, h⟩ := h
  unfold integers
  rw [htasks, List.head?_cons, Option.map_some, Option.getD_some]
  unfold Task.Overflows at h
  split at h
  · exact TestScope.Overflows.given (s := c.walk.scope s) hs h
  · exact TestScope.Overflows.given (s := c.walk.scope s) hs h
  · obtain ⟨-, m, labels, body, hmem, -, e, he, hleast⟩ := h
    rcases TestScope.NegatesLeast.given (s := c.walk.scope s) hs hleast with h | ⟨n, hn, hlarge⟩
    · exact .inl h
    · refine .inr ⟨n, ?_, hlarge⟩
      refine List.mem_flatMap.2 ⟨_, hmem, List.mem_flatMap.2 ⟨e, ?_, hn⟩⟩
      exact List.mem_filterMap.2 ⟨some e, he, rfl⟩
  · cases h

/-- The counters of a walk are bounded by what was made, and depths are clamped. -/
structure InRange (c : Point) : Prop where
  depths : ∀ f ∈ c.frames, f.InRange
  layout : c.Counted
  generation : c.walk.Numbered

end Point

variable {t : SourceTree} {declarations : DeclarationTable} {settings : Settings}

theorem Visits.inRange {c : Point} (h : Visits t declarations settings c) : c.InRange := by
  obtain ⟨entry, -, hreaches⟩ := h
  refine ⟨?_, ?_, ?_⟩
  · apply hreaches.everywhere (Point.kept_inRange _) (sound_start _ entry)
    intro f hf
    rw [frames_start, List.mem_singleton] at hf
    rw [hf]
    exact (by decide : IsInt 0)
  · exact hreaches.counted fun m hm => by cases hm
  · exact hreaches.numbered rfl

theorem extractModules_result_eq_error {e : Stop} :
    (extractModules t declarations settings).result = .error e ↔
      (Catalog.ofTree t).routine? settings.entryPoint = none ∧
          e = .problem (missingEntryPoint settings.entryPoint t) ∨
        (∃ c, Visits t declarations settings c ∧ c.Overflows (.ofTree t declarations settings)) ∧
          e = .overflow := by
  have hcatalog : (catalogOf t).result = .ok (Catalog.ofTree t) := rfl
  unfold extractModules Visits
  rw [Traced.result_bind_of_ok hcatalog]
  cases hentry : (Catalog.ofTree t).routine? settings.entryPoint with
  | none => simp [Traced.fail, Traced.stop, eq_comm]
  | some entry =>
    dsimp only
    rw [Traced.result_bind_of_ok (Traced.result_note _ _), Traced.result_bind_eq_error]
    have hwalk : (Walk.walkEntry (.ofTree t declarations settings) entry {}).result = .error e ↔
        Point.Leads (.ofTree t declarations settings)
          (.start (.ofTree t declarations settings) entry) e :=
      Point.walkEntry_result_eq_error
    constructor
    · rintro (h | ⟨after, -, h⟩)
      · obtain ⟨c, hreaches, hstops⟩ := hwalk.1 h
        obtain ⟨hoverflows, he⟩ := Point.stops_iff.1 hstops
        exact .inr ⟨⟨c, ⟨entry, rfl, hreaches⟩, hoverflows⟩, he⟩
      · split at h <;> cases h
    · rintro (⟨h, -⟩ | ⟨⟨c, ⟨entry', hentry', hreaches⟩, hoverflows⟩, he⟩)
      · cases h
      · cases hentry'
        exact .inl (hwalk.2 ⟨c, hreaches, Point.stops_iff.2 ⟨hoverflows, he⟩⟩)

/-- Extraction ends in the modules of a source, unless the entry routine is missing or the
walk comes to a test or label that negates the least integer. Only an enum member can have
that value, unless an integer as large is written in the source. All else that is counted
stays in range. -/
theorem extractModules_outcome (t : SourceTree) (declarations : DeclarationTable)
    (settings : Settings) :
    (∀ p, (extractModules t declarations settings).result = .error (.problem p) ↔
      (Catalog.ofTree t).routine? settings.entryPoint = none ∧
        p = missingEntryPoint settings.entryPoint t) ∧
    ((extractModules t declarations settings).result = .error .overflow ↔
      ∃ c, Visits t declarations settings c ∧ c.Overflows (.ofTree t declarations settings)) ∧
    ((∃ ms, (extractModules t declarations settings).result = .ok ms) ↔
      ((Catalog.ofTree t).routine? settings.entryPoint).isSome = true ∧
        ∀ c, Visits t declarations settings c →
          ¬c.Overflows (.ofTree t declarations settings)) ∧
    ∀ c, Visits t declarations settings c →
      c.InRange ∧
        (c.Overflows (.ofTree t declarations settings) →
          (∃ dotted, (Catalog.ofTree t).enumValue? dotted = some leastInt) ∨
            ∃ n ∈ c.integers, n.natAbs = 0x8000000000000000) := by
  refine ⟨?_, ?_, ?_, ?_⟩
  · intro p
    simp [extractModules_result_eq_error]
  · simp [extractModules_result_eq_error]
  · have hnever : ∀ {A : Prop} {p : Stop}, (∀ e, ¬(A ∧ e = p)) ↔ ¬A :=
      fun {_ p} => ⟨fun h hA => h p ⟨hA, rfl⟩, fun h e he => h he.1⟩
    rw [Traced.exists_ok_iff]
    simp only [ne_eq, extractModules_result_eq_error, not_or, forall_and, hnever]
    simp only [not_exists, not_and, Option.isSome_iff_ne_none, ne_eq]
  · intro c hc
    exact ⟨hc.inRange, Point.Overflows.given (Catalog.inRange_ofTree t)⟩

/-- A test compares with the opposite of an enum member, which a float makes the least
integer. -/
def negatingSource : String :=
  "class P\x7benum M\x7bLow=-9.3e18\x7dvoid OnGUI()\x7bvar m=FindProperty(\"_M\");" ++
    "MakeEffect(\"A\");if(m==-M.Low)Slider(m);\x7d\x7d"

theorem extractSource_overflows :
    (extractSource "Panel.cs" negatingSource {} {}).result = .error .overflow := by
  rw [← Traced.stopped?_eq_some]
  decide +kernel

end PanelSchema
