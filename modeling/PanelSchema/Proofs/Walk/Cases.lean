import PanelSchema.Proofs.Overflow
import PanelSchema.Proofs.Walk.Equations

/-!
The sections of a switch. A section asks for one of the values of its labels; a default label,
or labels without any value, ask for nothing. A section is hidden from a value that selects it
only where a label without a value stands beside labels that have one.
-/

namespace PanelSchema

open Syntax (Expr SwitchSection)

namespace TestScope

variable {scope : TestScope} {path : String} {r : Reading} {u : Expr → Bool}
  {labels : List (Option Expr)}

/-- What the labels of a section ask for: nothing if one of them is the default, else one of
the values that can be told. -/
def casesOf (scope : TestScope) (path : String) (labels : List (Option Expr)) : Visibility :=
  if labels.any Option.isNone then .always
  else
    ((labels.filterMap id).filterMap scope.literalOf?).foldl
      (fun v x => v.or (.single path x)) .always

/-- The subject has the value of the label. Of a label whose value cannot be told, `u` says
whether it does. -/
def meets (scope : TestScope) (r : Reading) (u : Expr → Bool) (path : String) (e : Expr) : Bool :=
  match scope.literalOf? e with
  | some v => r.truth path v
  | none => u e

/-- The section is run: it has a default label, or one that the subject meets. -/
def Selects (scope : TestScope) (r : Reading) (u : Expr → Bool) (path : String)
    (labels : List (Option Expr)) : Prop :=
  none ∈ labels ∨ ∃ e, some e ∈ labels ∧ scope.meets r u path e = true

/-- The subject meets only labels whose value cannot be told, beside others whose value is
asked for. -/
structure Drops (scope : TestScope) (r : Reading) (u : Expr → Bool) (path : String)
    (labels : List (Option Expr)) : Prop where
  noDefault : none ∉ labels
  met : ∃ e, some e ∈ labels ∧ scope.literalOf? e = none ∧ u e = true
  asked : ∃ e v, some e ∈ labels ∧ scope.literalOf? e = some v
  unmet : ∀ e v, some e ∈ labels → scope.literalOf? e = some v → r.truth path v = false

theorem mem_values {v : RuleValue} :
    v ∈ (labels.filterMap id).filterMap scope.literalOf? ↔
      ∃ e, some e ∈ labels ∧ scope.literalOf? e = some v := by
  simp

theorem isAlways_foldl_or (path : String) (vs : List RuleValue) (w : Visibility) :
    (vs.foldl (fun v x => v.or (.single path x)) w).isAlways = (w.isAlways && vs.isEmpty) := by
  induction vs generalizing w with
  | nil => simp
  | cons v vs ih =>
    rw [List.foldl_cons, ih, Visibility.isAlways_or]
    simp [Visibility.single, Visibility.isAlways]

theorem met_foldl_or (r : Reading) (path : String) (vs : List RuleValue) (w : Visibility) :
    (vs.foldl (fun v x => v.or (.single path x)) w).met r =
      (w.met r || vs.any (r.truth path)) := by
  induction vs generalizing w with
  | nil => simp
  | cons v vs ih =>
    rw [List.foldl_cons, ih, Visibility.met_or, Visibility.met_single, List.any_cons,
      Bool.or_assoc]

theorem any_isNone_eq_false : labels.any Option.isNone = false ↔ none ∉ labels := by
  rw [List.any_eq_false]
  constructor
  · intro h hnone
    exact h none hnone rfl
  · rintro h (_ | e) hlabel
    · exact absurd hlabel h
    · simp

/-- Where the labels are not met, there is no default, some have a value, and none of these is
the value of the subject. -/
theorem holds_casesOf_eq_false :
    (scope.casesOf path labels).holds r = false ↔
      none ∉ labels ∧ (∃ e v, some e ∈ labels ∧ scope.literalOf? e = some v) ∧
        ∀ e v, some e ∈ labels → scope.literalOf? e = some v → r.truth path v = false := by
  have hsome : ((labels.filterMap id).filterMap scope.literalOf?).isEmpty = false ↔
      ∃ e v, some e ∈ labels ∧ scope.literalOf? e = some v := by
    rw [List.isEmpty_eq_false_iff_exists_mem]
    simp only [mem_values]
    exact exists_comm
  have hnone : ((labels.filterMap id).filterMap scope.literalOf?).any (r.truth path) = false ↔
      ∀ e v, some e ∈ labels → scope.literalOf? e = some v → r.truth path v = false := by
    rw [List.any_eq_false]
    simp only [mem_values, Bool.not_eq_true]
    exact ⟨fun h e v he hv => h v ⟨e, he, hv⟩, fun h v ⟨e, he, hv⟩ => h e v he hv⟩
  rw [← any_isNone_eq_false, ← hsome, ← hnone, casesOf]
  cases labels.any Option.isNone with
  | true => simp
  | false =>
    rw [if_neg Bool.false_ne_true, Visibility.holds, Bool.or_eq_false_iff, isAlways_foldl_or,
      met_foldl_or]
    simp [Visibility.always, Visibility.isAlways, Visibility.met]

theorem selects_and_hidden_iff :
    scope.Selects r u path labels ∧ (scope.casesOf path labels).holds r = false ↔
      scope.Drops r u path labels := by
  rw [holds_casesOf_eq_false]
  constructor
  · rintro ⟨hselects, hdefault, hasked, hunmet⟩
    obtain ⟨e, he, hmeets⟩ := hselects.resolve_left hdefault
    refine ⟨hdefault, ⟨e, he, ?_⟩, hasked, hunmet⟩
    unfold meets at hmeets
    cases hv : scope.literalOf? e with
    | none =>
      rw [hv] at hmeets
      exact ⟨rfl, hmeets⟩
    | some v =>
      rw [hv] at hmeets
      exact absurd hmeets (Bool.eq_false_iff.1 (hunmet e v he hv))
  · rintro ⟨hdefault, ⟨e, he, hnone, hu⟩, hasked, hunmet⟩
    refine ⟨.inr ⟨e, he, ?_⟩, hdefault, hasked, hunmet⟩
    rw [meets, hnone]
    exact hu

end TestScope

def Syntax.SwitchSection.labels : SwitchSection → List (Option Expr)
  | .mk _ labels _ => labels

namespace Walk

variable {scope : TestScope} {path : String} {f : Frame} {labels : List (Option Expr)}

theorem labelValues_eq {es : List Expr} (h : ∀ e ∈ es, ¬scope.NegatesLeast e) :
    (labelValues scope es).result = .ok (es.filterMap scope.literalOf?) := by
  induction es with
  | nil => rfl
  | cons e es ih =>
    rw [List.forall_mem_cons] at h
    rw [labelValues, Traced.result_bind_of_ok (TestScope.literal?_of_not_negatesLeast h.1),
      Traced.result_bind_of_ok (ih h.2)]
    cases hv : scope.literalOf? e <;> simp [hv]

/-- A frame that takes in what the labels of a section ask for. -/
def cased (scope : TestScope) (path : String) (f : Frame) (labels : List (Option Expr)) : Frame :=
  { f with visibility := f.visibility.and (scope.casesOf path labels) }

theorem caseFrame_eq (h : ¬scope.LabelOverflows labels) :
    (caseFrame scope (some path) labels f).result = .ok (cased scope path f labels) := by
  unfold caseFrame cased TestScope.casesOf
  dsimp only
  cases hdefault : labels.any Option.isNone with
  | true =>
    rw [if_pos rfl, if_pos rfl, Visibility.and_always]
    rfl
  | false =>
    have hread : ∀ e ∈ labels.filterMap id, ¬scope.NegatesLeast e := by
      intro e he hleast
      exact h ⟨TestScope.any_isNone_eq_false.1 hdefault, e, by simpa using he, hleast⟩
    rw [if_neg Bool.false_ne_true, if_neg Bool.false_ne_true,
      Traced.result_bind_of_ok (labelValues_eq hread)]
    rfl

/-- Each section has a frame of its own, unless a label overflows. -/
theorem caseFrames_eq_ok {sections : List SwitchSection} {frames : List Frame} :
    (caseFrames scope (some path) f sections).result = .ok frames ↔
      (∀ sec ∈ sections, ¬scope.LabelOverflows sec.labels) ∧
        frames = sections.map fun sec => cased scope path f sec.labels := by
  induction sections generalizing frames with
  | nil => simp [caseFrames, eq_comm]
  | cons sec sections ih =>
    obtain ⟨m, labels, body⟩ := sec
    rw [caseFrames, Traced.result_bind_eq_ok, List.forall_mem_cons, List.map_cons]
    constructor
    · rintro ⟨first, hfirst, h⟩
      obtain ⟨more, hmore, h⟩ := Traced.result_bind_eq_ok.1 h
      cases h
      have hoverflows : ¬scope.LabelOverflows labels := by
        have hisOk := (caseFrame_isOk scope (some path) labels f).1 ⟨first, hfirst⟩
        exact fun h => hisOk ⟨rfl, h⟩
      rw [caseFrame_eq hoverflows] at hfirst
      cases hfirst
      obtain ⟨hsections, rfl⟩ := ih.1 hmore
      exact ⟨⟨hoverflows, hsections⟩, rfl⟩
    · rintro ⟨⟨hoverflows, hsections⟩, rfl⟩
      refine ⟨_, caseFrame_eq hoverflows, ?_⟩
      rw [Traced.result_bind_of_ok (ih.2 ⟨hsections, rfl⟩)]
      rfl

/-- The sections of a switch on a known binding are walked in frames of their own. These are
there, and each is visible wherever its section is run, exactly if no label overflows and no
section drops a label that is met, unless its product with the conditions of the frame is past
the limit. -/
theorem walkStmt_switch_covers_iff {s : Setting} {follow : Follow} {m : Syntax.Mark}
    {subject : Expr} {sections : List SwitchSection} {given : Frame} {w : Walk} {b : Binding}
    {r : Reading} {u : Expr → Bool} (hb : w.bindings.resolve? subject = some b)
    (hf : (w.normalize given).visibility.Aligned)
    (hvisible : (w.normalize given).visibility.holds r = true) :
    let f := w.normalize given
    let framed := caseFrames (w.scope s) (some b.path) f sections
    walkStmt s follow (.switch m subject sections) given w = (do
        let frames ← framed
        let after ← walkSections s follow sections frames w
        pure (f, after.2)) ∧
    ((∃ frames, framed.result = .ok frames ∧
        ∀ (i : Nat) (sec : SwitchSection), sections[i]? = some sec →
          (w.scope s).Selects r u b.path sec.labels →
            ∃ g, frames[i]? = some g ∧ g.visibility.holds r = true) ↔
      ∀ sec ∈ sections, ¬(w.scope s).LabelOverflows sec.labels ∧
        ((w.scope s).Drops r u b.path sec.labels →
          f.visibility.exceedsLimit ((w.scope s).casesOf b.path sec.labels) = true)) := by
  intro f framed
  refine ⟨by rw [walkStmt_switch, hb]; rfl, ?_⟩
  have hcased : ∀ sec : SwitchSection,
      (cased (w.scope s) b.path f sec.labels).visibility.holds r =
        (((w.scope s).casesOf b.path sec.labels).holds r ||
          f.visibility.exceedsLimit ((w.scope s).casesOf b.path sec.labels)) := by
    intro sec
    rw [cased, Visibility.holds_and_limit r hf, hvisible, Bool.true_and]
  constructor
  · rintro ⟨frames, hframes, hcovers⟩ sec hsec
    obtain ⟨hoverflows, rfl⟩ := caseFrames_eq_ok.1 hframes
    refine ⟨hoverflows sec hsec, fun hdrops => ?_⟩
    obtain ⟨hselects, hhidden⟩ := TestScope.selects_and_hidden_iff.2 hdrops
    obtain ⟨i, hi⟩ := List.getElem?_of_mem hsec
    obtain ⟨g, hg, hholds⟩ := hcovers i sec hi hselects
    rw [List.getElem?_map, hi] at hg
    cases hg
    rwa [hcased, hhidden, Bool.false_or] at hholds
  · intro h
    refine ⟨_, caseFrames_eq_ok.2 ⟨fun sec hsec => (h sec hsec).1, rfl⟩, ?_⟩
    intro i sec hi hselects
    refine ⟨_, by rw [List.getElem?_map, hi]; rfl, ?_⟩
    rw [hcased]
    cases hmet : ((w.scope s).casesOf b.path sec.labels).holds r with
    | true => rfl
    | false =>
      have hdrops := TestScope.selects_and_hidden_iff.1 ⟨hselects, hmet⟩
      exact (h sec (List.mem_of_getElem? hi)).2 hdrops

/-! ### Instances -/

section Instances

private def switching : Walk where
  bindings := ⟨[("mode", ⟨"_Mode", .bounded (.values [0, 1, 2])⟩)]⟩

private def thirdMode : Reading :=
  Valuation.reading fun _ => .int 2

/-- `Shared.Two` -/
private def sharedTwo : Expr :=
  .member default (.name default "Shared") "Two"

private def sectionOf (labels : List (Option Expr)) : SwitchSection :=
  .mk default labels []

/-- `case Shared.Two:` on its own, `case 2: case 0:` and `case 1: default:` are visible in the
third mode, which `Shared.Two` stands for. -/
theorem walkStmt_switch_covers_iff_apart :
    let sections := [sectionOf [some sharedTwo],
      sectionOf [some (.integer default 2), some (.integer default 0)],
      sectionOf [some (.integer default 1), none]]
    switching.bindings.resolve? (.name default "mode") =
      some ⟨"_Mode", .bounded (.values [0, 1, 2])⟩ ∧
    (switching.normalize {}).visibility.holds thirdMode = true ∧
    ∃ frames, (caseFrames (switching.scope {}) (some "_Mode") (switching.normalize {})
        sections).result = .ok frames ∧
      ∀ (i : Nat) (sec : SwitchSection), sections[i]? = some sec →
        (switching.scope {}).Selects thirdMode (fun _ => true) "_Mode" sec.labels →
          ∃ g, frames[i]? = some g ∧ g.visibility.holds thirdMode = true := by
  intro sections
  refine ⟨rfl, rfl, (@walkStmt_switch_covers_iff {} (fun _ _ f => pure f) default
    (.name default "mode") sections {} switching _ thirdMode (fun _ => true) rfl
    Visibility.aligned_always rfl).2.2 ?_⟩
  have hread : (switching.scope {}).literalOf? sharedTwo = none := rfl
  intro sec hsec
  simp only [sections, List.mem_cons, List.not_mem_nil, or_false] at hsec
  constructor
  · rintro ⟨-, e, he, hleast⟩
    rcases hsec with rfl | rfl | rfl <;>
      simp [sectionOf, Syntax.SwitchSection.labels] at he
    · subst he
      exact hleast
    · rcases he with rfl | rfl <;> exact hleast
    · subst he
      exact hleast
  · rintro ⟨hdefault, hmet, hasked, -⟩
    rcases hsec with rfl | rfl | rfl
    · simp [sectionOf, Syntax.SwitchSection.labels, hread] at hasked
    · simp [sectionOf, Syntax.SwitchSection.labels] at hmet
      rcases hmet with h | h <;> cases h
    · simp [sectionOf, Syntax.SwitchSection.labels] at hdefault

/-- `case 1: case Shared.Two:` asks for the second mode only: what is drawn in it is hidden in
the third one, which `Shared.Two` stands for. -/
theorem walkStmt_switch_hides_unread_label :
    let sec := sectionOf [some (.integer default 1), some sharedTwo]
    switching.bindings.resolve? (.name default "mode") =
      some ⟨"_Mode", .bounded (.values [0, 1, 2])⟩ ∧
    (switching.scope {}).Selects thirdMode (fun _ => true) "_Mode" sec.labels ∧
    ∃ g, (caseFrames (switching.scope {}) (some "_Mode") (switching.normalize {})
        [sec]).result = .ok [g] ∧ g.visibility.holds thirdMode = false := by
  refine ⟨rfl, .inr ⟨sharedTwo, ?_, rfl⟩, _, rfl, rfl⟩
  simp [sectionOf, Syntax.SwitchSection.labels]

end Instances

end Walk

end PanelSchema
