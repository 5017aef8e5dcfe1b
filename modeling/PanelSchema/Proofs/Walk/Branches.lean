import PanelSchema.Proofs.Visibility.Exact
import PanelSchema.Proofs.Visibility.Negation
import PanelSchema.Walk.Step

/-!
The two branches of a test. What a test says depends on the names in it only, and the
branches of a boolean test split the frame they are met in. Other tests can leave cases
that neither of their branches is visible in.
-/

namespace PanelSchema

open Syntax (Expr)

namespace Bindings

/-- The two agree on what the names in an expression stand for. -/
def AgreeOn (bs bs' : Bindings) (e : Expr) : Prop :=
  ∀ n ∈ namesIn e, bs.get? n = bs'.get? n

variable {bs bs' : Bindings}

theorem resolve?_congr {e : Expr} (h : bs.AgreeOn bs' e) : bs.resolve? e = bs'.resolve? e := by
  fun_induction Bindings.resolve? bs e with
  | case1 m n => exact h n (by simp [namesIn])
  | case2 m m' n p => exact h n (by simp [namesIn])
  | case3 m t e ih => exact ih h
  | case4 e hname hmember hcast => simp [resolve?]

theorem AgreeOn.left {m : Syntax.Mark} {op : Syntax.BinaryOp} {l r : Expr}
    (h : bs.AgreeOn bs' (.binary m l op r)) : bs.AgreeOn bs' l :=
  fun n hn => h n (by simp [namesIn, hn])

theorem AgreeOn.right {m : Syntax.Mark} {op : Syntax.BinaryOp} {l r : Expr}
    (h : bs.AgreeOn bs' (.binary m l op r)) : bs.AgreeOn bs' r :=
  fun n hn => h n (by simp [namesIn, hn])

end Bindings

namespace BooleanTest

variable {bs bs' : Bindings} {e : Expr}

theorem congr (he : BooleanTest bs e) (h : bs.AgreeOn bs' e) : BooleanTest bs' e := by
  induction he with
  | @name m n b hb hbool =>
    have hn := h n (by simp [namesIn])
    exact .name (hn ▸ hb) hbool
  | @member m m' n p b hb hbool =>
    have hn := h n (by simp [namesIn])
    exact .member (hn ▸ hb) hbool
  | cast he ih => exact .cast (ih h)
  | not he ih => exact .not (ih h)
  | and hl hr ihl ihr => exact .and (ihl h.left) (ihr h.right)
  | or hl hr ihl ihr => exact .or (ihl h.left) (ihr h.right)
  | compare hop hb hbool hx =>
    exact .compare hop (Bindings.resolve?_congr h.left ▸ hb) hbool hx
  | compareLeft hop hx hb hbool =>
    exact .compareLeft hop hx (Bindings.resolve?_congr h.right ▸ hb) hbool

theorem truth_congr (he : BooleanTest bs e) (h : bs.AgreeOn bs' e) (ρ : Valuation) :
    bs.truth ρ e = bs'.truth ρ e := by
  induction he with
  | @name m n b hb hbool =>
    have hn := h n (by simp [namesIn])
    rw [Bindings.truth_name hb, Bindings.truth_name (hn ▸ hb)]
  | @member m m' n p b hb hbool =>
    have hn := h n (by simp [namesIn])
    rw [Bindings.truth_member hb, Bindings.truth_member (hn ▸ hb)]
  | cast he ih =>
    rw [Bindings.truth, ih h]
    rfl
  | not he ih => rw [Bindings.truth, ih h, Bindings.truth]
  | and hl hr ihl ihr => rw [Bindings.truth, ihl h.left, ihr h.right, Bindings.truth]
  | or hl hr ihl ihr => rw [Bindings.truth, ihl h.left, ihr h.right, Bindings.truth]
  | @compare m l op r b x hop hb hbool hx =>
    have hcomparison : op = .eq ∨ op = .ne ∨ op.isOrdering = true := hop.imp_right .inl
    have hb' : bs'.resolve? l = some b := Bindings.resolve?_congr h.left ▸ hb
    rw [TestScope.truth_comparison hcomparison (Bindings.valueOf?_of_resolve? hb ρ)
      (Bindings.valueOf?_of_literalValue? _ hx ρ),
      TestScope.truth_comparison hcomparison (Bindings.valueOf?_of_resolve? hb' ρ)
      (Bindings.valueOf?_of_literalValue? _ hx ρ)]
  | @compareLeft m l op r b x hop hx hb hbool =>
    have hcomparison : op = .eq ∨ op = .ne ∨ op.isOrdering = true := hop.imp_right .inl
    have hb' : bs'.resolve? r = some b := Bindings.resolve?_congr h.right ▸ hb
    rw [TestScope.truth_comparison hcomparison (Bindings.valueOf?_of_literalValue? _ hx ρ)
      (Bindings.valueOf?_of_resolve? hb ρ),
      TestScope.truth_comparison hcomparison (Bindings.valueOf?_of_literalValue? _ hx ρ)
      (Bindings.valueOf?_of_resolve? hb' ρ)]

end BooleanTest

/-- Every path has the boolean it is assigned. -/
def Valuation.booleans (τ : String → Bool) : Valuation :=
  fun path => .bool (τ path)

/-- The frame is visible under the assignments that `asks` is true of. -/
structure Frame.Asks (f : Frame) (asks : (String → Bool) → Bool) : Prop where
  aligned : f.visibility.Aligned
  holds : ∀ τ, f.visibility.holds (Valuation.booleans τ).reading = asks τ

theorem Frame.Asks.narrow {f : Frame} {asks more : (String → Bool) → Bool} (hf : f.Asks asks)
    {v : Visibility} (hv : ∀ τ, v.Says (Valuation.booleans τ).reading (more τ))
    (hfits : f.visibility.exceedsLimit v = false) :
    ({ f with visibility := f.visibility.and v } : Frame).Asks fun τ => asks τ && more τ where
  aligned := hf.aligned.and (hv fun _ => false).aligned
  holds := by
    intro τ
    rw [Visibility.holds_and _ hf.aligned hfits, hf.holds, (hv τ).holds]

namespace Walk

theorem branches_boolean {s : Setting} {w : Walk} {f : Frame} {test : Expr}
    (htest : BooleanTest w.bindings test)
    (htoggles : ∀ n ∈ namesIn test, w.toggles.get? n = none)
    {asks : (String → Bool) → Bool} (hf : f.Asks asks)
    (hquiet : (branches s test f w).warns = false) :
    ∃ yes no, (branches s test f w).result = .ok (yes, no) ∧
      yes.generation = f.generation ∧ no.generation = f.generation ∧
      yes.Asks (fun τ => asks τ && w.bindings.truth (.booleans τ) test) ∧
      no.Asks (fun τ => asks τ && !w.bindings.truth (.booleans τ) test) := by
  have hreads := fun τ => TestScope.reads_boolean (s := w.scope s)
    (ρ := Valuation.booleans τ) (fun name b _ _ => ⟨τ b.path, rfl⟩) htest
  have hopened : (namesIn test).findSome? w.toggles.get? = none := by
    rw [List.findSome?_eq_none_iff]
    exact htoggles
  unfold branches at hquiet ⊢
  rw [hopened] at hquiet ⊢
  have hread := Traced.warns_of_bind hquiet
  obtain ⟨asked, hasked, -⟩ := hreads (fun _ => false) hread
  have hsaid : ∀ τ, asked.Says (Valuation.booleans τ).reading
      (w.bindings.truth (.booleans τ) test) ∧
      asked.Invertible (Valuation.booleans τ).reading := by
    intro τ
    obtain ⟨v, hv, hP⟩ := hreads τ hread
    rw [hasked] at hv
    cases hv
    exact hP
  rw [Traced.quiet_bind_of_ok hasked] at hquiet
  dsimp only [Option.bind_none] at hquiet
  rw [Traced.quiet_bind_of_ok rfl, Traced.quiet_bind_of_ok rfl, Traced.quiet_bind_of_ok rfl,
    Traced.warns_notesOf, Traced.warns_notesOf, Traced.warns_notesOf,
    Visibility.andNotes_warn, Visibility.andNotes_warn] at hquiet
  obtain ⟨-, hyes, hnegated, hno, -⟩ := hquiet
  rw [Traced.result_bind_of_ok hasked]
  refine ⟨_, _, rfl, rfl, rfl, ?_, ?_⟩
  · exact hf.narrow (fun τ => (hsaid τ).1) hyes
  · exact hf.narrow (fun τ => (hsaid τ).1.negate (hsaid τ).2 hnegated) hno

theorem branches_eq_ok {s : Setting} {w : Walk} {f : Frame} {test : Expr}
    (htoggles : ∀ n ∈ namesIn test, w.toggles.get? n = none) {yes no : Frame} :
    (branches s test f w).result = .ok (yes, no) ↔
      ∃ asked, ((w.scope s).visibilityOf test).result = .ok asked ∧
        { f with visibility := f.visibility.and asked } = yes ∧
        { f with visibility := f.visibility.and asked.negate } = no := by
  have hopened : (namesIn test).findSome? w.toggles.get? = none := by
    rw [List.findSome?_eq_none_iff]
    exact htoggles
  unfold branches
  rw [hopened, Traced.result_bind_eq_ok]
  apply exists_congr
  intro asked
  apply and_congr_right'
  change (.ok _ : Except _ _) = .ok _ ↔ _
  simp

/-- In every case that the frame is visible in, one of the branches of a test is visible:
this is so exactly when no literal overflows and there is no gap between what the test asks
for and its negation. A branch that is past the limit keeps the conditions of the frame. -/
theorem branches_cover_iff {s : Setting} {w : Walk} {f : Frame} {test : Expr} {r : Reading}
    (htoggles : ∀ n ∈ namesIn test, w.toggles.get? n = none)
    (hf : f.visibility.Aligned) (hvisible : f.visibility.holds r = true) :
    (∃ yes no, (branches s test f w).result = .ok (yes, no) ∧
        (yes.visibility.holds r = true ∨ no.visibility.holds r = true)) ↔
      ¬(w.scope s).Overflows test ∧
        ∀ asked, ((w.scope s).visibilityOf test).result = .ok asked → asked.Gap r →
          f.visibility.exceedsLimit asked = true ∨
            f.visibility.exceedsLimit asked.negate = true := by
  rw [← TestScope.visibilityOf_isOk]
  simp only [branches_eq_ok htoggles]
  constructor
  · rintro ⟨yes, no, ⟨asked, hasked, rfl, rfl⟩, hcovers⟩
    refine ⟨⟨asked, hasked⟩, ?_⟩
    intro asked' hasked' hgap
    cases hasked.symm.trans hasked'
    obtain ⟨hunmet, hnegated⟩ := Visibility.gap_iff.1 hgap
    simpa [Visibility.holds_and_limit r hf, hvisible, hunmet, hnegated] using hcovers
  · rintro ⟨⟨asked, hasked⟩, hgaps⟩
    refine ⟨_, _, ⟨asked, hasked, rfl, rfl⟩, ?_⟩
    simp only [Visibility.holds_and_limit r hf, hvisible, Bool.true_and, Bool.or_eq_true]
    cases hmet : asked.holds r with
    | true => exact .inl (.inl rfl)
    | false =>
      cases hnegated : asked.negate.holds r with
      | true => exact .inr (.inl rfl)
      | false =>
        exact (hgaps asked hasked (Visibility.gap_iff.2 ⟨hmet, hnegated⟩)).imp .inr .inr

section Instances

/-- A choice of three modes. -/
private def choosing : Walk where
  bindings := ⟨[("mode", ⟨"_Mode", .bounded (.values [0, 1, 2])⟩)]⟩

private def choices (mode : Int) : Valuation :=
  fun _ => .int mode

private theorem choosing_admits {mode : Int} (hmode : mode ∈ ([0, 1, 2] : List Int)) :
    choosing.bindings.Admit (choices mode) := by
  intro name b hb
  unfold choosing Dict.get? at hb
  by_cases hname : name = "mode"
  · subst hname
    cases hb
    exact ⟨mode, rfl, hmode⟩
  · simp [List.lookup_cons, beq_eq_false_iff_ne.2 hname] at hb

/-- `mode == n` -/
private def choice (n : Int) : Expr :=
  .binary default (.name default "mode") .eq (.integer default n)

/-- Zero is the opposite of one, so the branches of `mode == 1` cover the first mode. -/
theorem branches_cover_iff_choice :
    (∀ n ∈ namesIn (choice 1), choosing.toggles.get? n = none) ∧
    ∃ yes no, (branches {} (choice 1) {} choosing).result = .ok (yes, no) ∧
      (yes.visibility.holds (choices 0).reading = true ∨
        no.visibility.holds (choices 0).reading = true) := by
  have htoggles : ∀ n ∈ namesIn (choice 1), choosing.toggles.get? n = none := fun _ _ => rfl
  refine ⟨htoggles, (branches_cover_iff htoggles Visibility.aligned_always rfl).2 ⟨?_, ?_⟩⟩
  · rw [← TestScope.visibilityOf_isOk]
    exact ⟨_, rfl⟩
  · intro asked hasked hgap
    cases hasked
    refine absurd hgap (Visibility.not_gap_of_opposites fun c hc t ht => ?_)
    cases List.mem_singleton.1 hc
    cases List.mem_singleton.1 ht
    exact ⟨.int 0, rfl, fun _ => rfl⟩

/-- With three modes, `mode != 1` is taken for `mode == 0`: what is drawn in both branches
of `mode == 1` is hidden in the third one. -/
theorem branches_hide_third_choice :
    choosing.bindings.Admit (choices 2) ∧
    (∀ n ∈ namesIn (choice 1), choosing.toggles.get? n = none) ∧
    ∃ yes no, (branches {} (choice 1) {} choosing).result = .ok (yes, no) ∧
      yes.visibility.holds (choices 2).reading = false ∧
      no.visibility.holds (choices 2).reading = false := by
  refine ⟨choosing_admits (by decide), fun _ _ => rfl, _, _, rfl, ?_, ?_⟩
  · decide
  · decide

end Instances

end Walk

end PanelSchema
