import PanelSchema.Proofs.Extract
import PanelSchema.Proofs.Visibility.Outcome
import PanelSchema.Proofs.Walk.Return

/-!
The conditions of a walk. Frames are narrowed by the operations on visibilities only, so
that the conditions met in a walk have the form that these operations give them.
-/

namespace PanelSchema

open Syntax (Expr)

theorem Visibility.built_foldl_or (path : String) (values : List RuleValue) :
    (values.foldl (fun v x => v.or (single path x)) always).Built := by
  have hfold : ∀ v : Visibility, v.Built →
      (values.foldl (fun v x => v.or (single path x)) v).Built := by
    induction values with
    | nil => exact fun v hv => hv
    | cons x values ih => exact fun v hv => ih _ (hv.or (.single path x))
  exact hfold always .always

namespace Point

variable {s : Setting} {c : Point}

theorem built_after (call : Call) (h : c.frame.visibility.Built) :
    (c.after s call).1.visibility.Built := by
  obtain ⟨n, heq⟩ | heq | heq := frame_after s c call
  · rw [heq]
    exact h
  · rw [heq]
    exact h
  · rw [heq]
    exact .always

theorem kept_built (s : Setting) : Kept s fun _ f => f.visibility.Built where
  normalize _ hf := by
    unfold Walk.normalize
    split
    · exact hf
    · exact .always
  indentBy _ hf := hf
  assignIndent value hf := by
    rw [(Walk.matches_assignIndent s.catalog value _).visibility]
    exact hf
  branches hf h := by
    obtain ⟨asked, hasked, hframes⟩ := Walk.narrowed_of_branches h
    have hbuilt := TestScope.built_visibilityOf hasked
    obtain ⟨m, name, home, -, -, rfl⟩ | rfl := hframes
    · exact ⟨hf.and hbuilt, hf⟩
    · exact ⟨hf.and hbuilt, hf.and hbuilt.negate⟩
  caseFrames hf h g hg := by
    obtain rfl | ⟨path, values, rfl⟩ := Walk.narrowed_of_caseFrames h hg
    · exact hf
    · exact hf.and (Visibility.built_foldl_or path values)
  after _ _ hf := built_after _ hf
  step _ hf := hf

/-- What the operations build is in canonical form, and so is what a test is read as and what
any frame of a walk asks for. -/
theorem canonical_conditions :
    (∀ v : Visibility, v.Built → v.Canonical) ∧
      (∀ (scope : TestScope) (test : Expr) (v : Visibility),
        (scope.visibilityOf test).result = .ok v → v.Canonical) ∧
      ∀ (s : Setting) (entry : Routine) (c : Point), Reaches s (start s entry) c →
        ∀ f ∈ c.frames, f.visibility.Canonical := by
  refine ⟨fun v hv => hv.canonical, fun scope test v hv => ?_, fun s entry c hc f hf => ?_⟩
  · exact (TestScope.built_visibilityOf hv).canonical
  · have hstart : (start s entry).Everywhere fun _ f => f.visibility.Built := by
      intro f hf
      rw [frames_start, List.mem_singleton] at hf
      rw [hf]
      exact .always
    exact (hc.everywhere (kept_built s) (sound_start s entry) hstart f hf).canonical

section Instances

/-- Neither the glow with the mode at 1 nor the mode at 0. -/
private def neither : Visibility :=
  (((Visibility.single "_Glow" (.bool true)).and (.single "_Mode" (.int 1))).or
    (.single "_Mode" (.int 0))).negate

/-- `mode == 1 || mode == 1` -/
private def askedTwice : Expr :=
  let asked : Expr := .binary default (.name default "mode") .eq (.integer default 1)
  .binary default asked .or asked

private def modeScope : TestScope :=
  Walk.scope {} { bindings := ⟨[("mode", { path := "_Mode", kind := .opaqueValue })]⟩ }

/-- `var mode = FindProperty("_Mode"); if (askedTwice) {}` -/
private def guarded : Routine where
  name := "OnGUI"
  params := []
  body := .block default
    [.localDecl default "var" "mode"
      (some (.call default (.name default "FindProperty") [] [.string default "_Mode"])),
    .ifThen default askedTwice (.block default [])]

private theorem guarded_reaches :
    ∃ c, Reaches {} (start {} guarded) c ∧
      c.frame.visibility = .single "_Mode" (.int 1) := by
  refine ⟨?inside, ?reached, ?narrowed⟩
  case reached =>
    -- Into the block, through the lookup, and into the branch.
    iterate 6
      refine Relation.ReflTransGen.head ⟨_, _, rfl, rfl⟩ ?_
    exact .refl
  case narrowed => rfl

/-- A negation, a test that asks for one thing twice, and a walk into the branch of that
test. -/
theorem canonical_conditions_askedTwice :
    (neither.Built ∧ neither.conditions.length = 2 ∧ neither.Canonical) ∧
      (∃ v, (modeScope.visibilityOf askedTwice).result = .ok v ∧ v.conditions.length = 1 ∧
        v.Canonical) ∧
      ∃ c, Reaches {} (start {} guarded) c ∧
        c.frame.visibility = .single "_Mode" (.int 1) ∧
        ∀ f ∈ c.frames, f.visibility.Canonical := by
  obtain ⟨hbuilt, hread, hwalked⟩ := canonical_conditions
  refine ⟨?_, ?_, ?_⟩
  · have hneither : neither.Built :=
      (((Visibility.Built.single _ _).and (.single _ _)).or (.single _ _)).negate
    exact ⟨hneither, by decide, hbuilt neither hneither⟩
  · have hasked : (modeScope.visibilityOf askedTwice).result = .ok (.single "_Mode" (.int 1)) :=
      rfl
    exact ⟨_, hasked, rfl, hread modeScope askedTwice _ hasked⟩
  · obtain ⟨c, hreaches, hframe⟩ := guarded_reaches
    exact ⟨c, hreaches, hframe, hwalked {} guarded c hreaches⟩

end Instances

end Point

end PanelSchema
