import PanelSchema.Proofs.Visibility.Outcome
import PanelSchema.Proofs.Visibility.Truth

/-!
Tests whose conditions say exactly what the test says. Boolean formulas can be
negated; comparisons of other bindings can be combined, but not negated, since
their conditions have no opposites.
-/

namespace PanelSchema

open Syntax (Expr BinaryOp)

/-- Formulas over boolean bindings. -/
inductive BooleanTest (bs : Bindings) : Expr → Prop where
  | name {m n b} (hb : bs.get? n = some b) (hbool : b.isBoolean = true) :
      BooleanTest bs (.name m n)
  | member {m m' n p b} (hb : bs.get? n = some b) (hbool : b.isBoolean = true) :
      BooleanTest bs (.member m (.name m' n) p)
  | cast {m t e} (he : BooleanTest bs e) : BooleanTest bs (.cast m t e)
  | not {m e} (he : BooleanTest bs e) : BooleanTest bs (.unary m .not e)
  | and {m l r} (hl : BooleanTest bs l) (hr : BooleanTest bs r) :
      BooleanTest bs (.binary m l .and r)
  | or {m l r} (hl : BooleanTest bs l) (hr : BooleanTest bs r) :
      BooleanTest bs (.binary m l .or r)
  | compare {m l op r b x} (hop : op = .eq ∨ op = .ne) (hb : bs.resolve? l = some b)
      (hbool : b.isBoolean = true) (hx : literalValue? r = some (.bool x)) :
      BooleanTest bs (.binary m l op r)
  | compareLeft {m l op r b x} (hop : op = .eq ∨ op = .ne) (hx : literalValue? l = some (.bool x))
      (hb : bs.resolve? r = some b) (hbool : b.isBoolean = true) :
      BooleanTest bs (.binary m l op r)

/-- A comparison that can be listed: some value of the domain satisfies it. -/
structure Listed (s : TestScope) (b : Binding) (op : BinaryOp) (n : Int) : Prop where
  comparison : op = .ne ∨ op.isOrdering = true
  listed : ∃ d, b.kind = .bounded d ∧ d.Listable s.cap ∧
    ∃ k, d.Contains k ∧ RuleValue.compares op (.int k) (.int n) = true

/-- Boolean formulas, and outside any negation comparisons of the other bindings with
an integer literal. -/
inductive RecognizedTest (s : TestScope) : Expr → Prop where
  | boolean {e} (he : BooleanTest s.bindings e) : RecognizedTest s e
  | cast {m t e} (he : RecognizedTest s e) : RecognizedTest s (.cast m t e)
  | and {m l r} (hl : RecognizedTest s l) (hr : RecognizedTest s r) :
      RecognizedTest s (.binary m l .and r)
  | or {m l r} (hl : RecognizedTest s l) (hr : RecognizedTest s r) :
      RecognizedTest s (.binary m l .or r)
  | equal {m l r b n} (hb : s.bindings.resolve? l = some b) (hbool : b.isBoolean = false)
      (hn : literalValue? r = some (.int n)) : RecognizedTest s (.binary m l .eq r)
  | equalLeft {m l r b n} (hn : literalValue? l = some (.int n))
      (hb : s.bindings.resolve? r = some b) (hbool : b.isBoolean = false) :
      RecognizedTest s (.binary m l .eq r)
  | compare {m l op r b n} (hb : s.bindings.resolve? l = some b)
      (hn : literalValue? r = some (.int n)) (hlisted : Listed s b op n) :
      RecognizedTest s (.binary m l op r)
  | compareLeft {m l op r b n} (hn : literalValue? l = some (.int n))
      (hb : s.bindings.resolve? r = some b) (hlisted : Listed s b op.swapped n) :
      RecognizedTest s (.binary m l op r)

namespace TestScope

/-- Unless a product is past its limit, the test is read and its visibility is as
asked. -/
def Reads (s : TestScope) (e : Expr) (P : Visibility → Prop) : Prop :=
  (s.visibilityOf e).warns = false → ∃ v, (s.visibilityOf e).result = .ok v ∧ P v

variable {s : TestScope} {P Q R : Visibility → Prop}

theorem Reads.mono {e : Expr} (h : s.Reads e P) (hPQ : ∀ v, P v → Q v) : s.Reads e Q := by
  intro hquiet
  obtain ⟨v, hv, hP⟩ := h hquiet
  exact ⟨v, hv, hPQ v hP⟩

theorem Reads.cast {m : Syntax.Mark} {t : String} {e : Expr} (h : s.Reads e P) :
    s.Reads (.cast m t e) P := by
  intro hquiet
  rw [visibilityOf] at hquiet ⊢
  exact h hquiet

theorem Reads.not {m : Syntax.Mark} {e : Expr} (h : s.Reads e P)
    (hnot : ∀ v, P v → v.negateNotes.any Note.isWarning = false → Q v.negate) :
    s.Reads (.unary m .not e) Q := by
  intro hquiet
  rw [visibilityOf] at hquiet ⊢
  obtain ⟨v, hv, hP⟩ := h (Traced.warns_of_bind hquiet)
  rw [Traced.quiet_bind_of_ok hv] at hquiet
  refine ⟨v.negate, ?_, hnot v hP ?_⟩
  · rw [Traced.result_bind_of_ok hv]
    rfl
  · exact Traced.warns_of_bind hquiet.2

theorem Reads.and {m : Syntax.Mark} {l r : Expr} (hl : s.Reads l P) (hr : s.Reads r Q)
    (hand : ∀ v w, P v → Q w → v.exceedsLimit w = false → R (v.and w)) :
    s.Reads (.binary m l .and r) R := by
  intro hquiet
  rw [visibilityOf] at hquiet ⊢
  obtain ⟨v, hv, hP⟩ := hl (Traced.warns_of_bind hquiet)
  rw [Traced.quiet_bind_of_ok hv] at hquiet
  obtain ⟨w, hw, hQ⟩ := hr (Traced.warns_of_bind hquiet.2)
  rw [Traced.quiet_bind_of_ok hw] at hquiet
  have hfits : v.exceedsLimit w = false := by
    have hnotes := Traced.warns_of_bind hquiet.2.2
    rwa [Traced.warns_notesOf, Visibility.andNotes_warn] at hnotes
  refine ⟨v.and w, ?_, hand v w hP hQ hfits⟩
  rw [Traced.result_bind_of_ok hv, Traced.result_bind_of_ok hw]
  rfl

theorem Reads.or {m : Syntax.Mark} {l r : Expr} (hl : s.Reads l P) (hr : s.Reads r Q)
    (hor : ∀ v w, P v → Q w → R (v.or w)) : s.Reads (.binary m l .or r) R := by
  intro hquiet
  rw [visibilityOf] at hquiet ⊢
  obtain ⟨v, hv, hP⟩ := hl (Traced.warns_of_bind hquiet)
  rw [Traced.quiet_bind_of_ok hv] at hquiet
  obtain ⟨w, hw, hQ⟩ := hr (Traced.warns_of_bind hquiet.2)
  refine ⟨v.or w, ?_, hor v w hP hQ⟩
  rw [Traced.result_bind_of_ok hv, Traced.result_bind_of_ok hw]
  rfl

/-! ### Comparisons -/

theorem literal?_of_literalValue? (s : TestScope) {e : Expr} {v : RuleValue}
    (h : literalValue? e = some v) : s.literal? e = pure (some v) := by
  fun_induction literalValue? e generalizing v with
  | case1 m b => cases h; rfl
  | case2 m n => cases h; rfl
  | case3 m t e ih => exact ih h
  | case4 m e hn ih => cases h
  | case5 m e n hn hleast ih =>
    cases h
    rw [literal?, ih hn]
    change (if n = leastInt then Traced.stop .overflow else pure (some (RuleValue.int (-n)))) = _
    rw [if_neg hleast]
  | case6 m e hn ih => cases h
  | case7 e => cases h

theorem compareWith_of_literalValue? (s : TestScope) (b : Binding) (op : BinaryOp) {e : Expr}
    {v : RuleValue} (h : literalValue? e = some v) :
    s.compareWith b op e =
      match op with
      | .eq => pure (.single b.path v)
      | .ne => s.notEqual b v
      | _ => s.ordered b op v := by
  unfold compareWith
  rw [literal?_of_literalValue? s h]
  rfl

theorem compareWith_of_isOrdering (s : TestScope) (b : Binding) {op : BinaryOp}
    (hop : op.isOrdering = true) {e : Expr} {v : RuleValue} (h : literalValue? e = some v) :
    s.compareWith b op e = s.ordered b op v := by
  rw [compareWith_of_literalValue? s b op h]
  cases op <;> simp_all [BinaryOp.isOrdering]

section Comparison

variable {m : Syntax.Mark} {l r : Expr} {op : BinaryOp} {b : Binding} {v : RuleValue}
  (hop : op = .eq ∨ op = .ne ∨ op.isOrdering = true)

include hop

theorem truth_comparison {bs : Bindings} {ρ : Valuation} {v w : RuleValue}
    (hv : bs.valueOf? ρ l = some v) (hw : bs.valueOf? ρ r = some w) :
    bs.truth ρ (.binary m l op r) = v.compares op w := by
  cases op <;> simp_all [Bindings.truth, BinaryOp.isOrdering]

theorem Reads.compare (hb : s.bindings.resolve? l = some b) (hv : literalValue? r = some v)
    (h : ∃ u, (s.compareWith b op r).result = .ok u ∧ P u) :
    s.Reads (.binary m l op r) P := by
  intro _
  rw [visibilityOf_comparison hop, TestScope.compare, hb,
    Bindings.resolve?_of_literalValue? _ hv]
  exact h

theorem Reads.compareLeft (hv : literalValue? l = some v) (hb : s.bindings.resolve? r = some b)
    (h : ∃ u, (s.compareWith b op.swapped l).result = .ok u ∧ P u) :
    s.Reads (.binary m l op r) P := by
  intro _
  rw [visibilityOf_comparison hop, TestScope.compare, hb,
    Bindings.resolve?_of_literalValue? _ hv]
  exact h

end Comparison

section Exact

variable {b : Binding} {op : BinaryOp} {e : Expr} {ρ : Valuation}

/-- The value at a boolean path is either `z` or its opposite. -/
theorem invertible_single (hρ : ∃ y, ρ b.path = .bool y) (z : Bool) :
    (Visibility.single b.path (.bool z)).Invertible ρ.reading := by
  obtain ⟨y, hy⟩ := hρ
  intro c hc
  rw [List.mem_singleton.1 hc]
  apply Condition.Invertible.single
  simp only [Valuation.reading, hy, RuleValue.bool_beq]
  cases y <;> cases z <;> rfl

theorem says_bare (hb : s.bindings.resolve? e = some b) (hbool : b.isBoolean = true)
    (hρ : ∃ y, ρ b.path = .bool y) :
    (s.bare e).Says ρ.reading (ρ b.path == .bool true) ∧
      (s.bare e).Invertible ρ.reading := by
  have hbare : s.bare e = .single b.path (.bool true) := by simp [bare, hb, hbool]
  rw [hbare]
  exact ⟨Visibility.Says.single ρ.reading b.path (.bool true), invertible_single hρ true⟩

theorem says_compareWith_boolean (hop : op = .eq ∨ op = .ne) (hbool : b.isBoolean = true)
    {x : Bool} (hx : literalValue? e = some (.bool x)) (hρ : ∃ y, ρ b.path = .bool y) :
    ∃ v, (s.compareWith b op e).result = .ok v ∧
      v.Says ρ.reading ((ρ b.path).compares op (.bool x)) ∧ v.Invertible ρ.reading := by
  obtain ⟨y, hy⟩ := hρ
  rw [compareWith_of_literalValue? s b op hx]
  rcases hop with rfl | rfl
  · exact ⟨_, rfl, Visibility.Says.single _ _ _, invertible_single ⟨y, hy⟩ x⟩
  · have hkind : s.notEqual b (.bool x) = pure (.single b.path (.bool !x)) := by
      unfold Binding.isBoolean at hbool
      unfold notEqual
      cases hk : b.kind with
      | boolean => rfl
      | bounded d => simp [hk] at hbool
      | opaqueValue => simp [hk] at hbool
    refine ⟨.single b.path (.bool !x), by rw [hkind]; rfl, ?_, invertible_single ⟨y, hy⟩ _⟩
    have hsaid := Visibility.Says.single ρ.reading b.path (.bool !x)
    simp only [Valuation.reading, hy, RuleValue.bool_beq] at hsaid
    simp only [hy, RuleValue.compares, RuleValue.bool_beq]
    cases x <;> cases y <;> exact hsaid

theorem says_enumerated {path : String} {d : Domain} (hd : d.Listable s.cap)
    (keep : Int → Bool) {k : Int} (hk : d.Contains k) (hkeep : keep k = true) {n : Int}
    (hρ : ρ path = .int n) (hn : d.Contains n) :
    ∃ v, (s.enumerated path d keep).result = .ok v ∧ v.Says ρ.reading (keep n) := by
  obtain ⟨ns, hns, hmem⟩ := Domain.members?_of_listable hd hk
  have hkept : k ∈ ns.filter keep := List.mem_filter.2 ⟨(hmem k).2 hk, hkeep⟩
  have hsaid : (Visibility.ofConditions ((ns.filter keep).map fun i =>
      Condition.single path (.int i))).Says ρ.reading
        (((ns.filter keep).map fun i => Condition.single path (.int i)).any
          (·.holds ρ.reading)) := by
    apply Visibility.Says.ofConditions
    · rw [ne_eq, List.map_eq_nil_iff]
      exact List.ne_nil_of_mem hkept
    · intro c hc
      obtain ⟨i, -, rfl⟩ := List.mem_map.1 hc
      rfl
  have hvalue : ((ns.filter keep).map fun i => Condition.single path (.int i)).any
      (·.holds ρ.reading) = keep n := by
    rw [Bool.eq_iff_iff, List.any_map, List.any_eq_true]
    simp only [Function.comp, Condition.holds_single, Valuation.reading, hρ,
      RuleValue.int_beq, beq_iff_eq, List.mem_filter]
    constructor
    · rintro ⟨i, ⟨-, hi⟩, rfl⟩
      exact hi
    · intro hkeep
      exact ⟨n, ⟨(hmem n).2 hn, hkeep⟩, rfl⟩
  rw [hvalue] at hsaid
  refine ⟨_, ?_, hsaid⟩
  have hsome : (ns.filter keep).isEmpty = false := by
    rw [List.isEmpty_eq_false_iff]
    exact List.ne_nil_of_mem hkept
  unfold enumerated
  rw [hns]
  cases ns with
  | nil => cases (hmem k).2 hk
  | cons i is => simp [hsome]

/-- Where a comparison is listed, the value at the path meets its conditions when it
satisfies the comparison. -/
theorem says_compareWith_listed {n : Int} (hn : literalValue? e = some (.int n))
    (hlisted : Listed s b op n) (hρ : b.Admits (ρ b.path)) :
    ∃ v, (s.compareWith b op e).result = .ok v ∧
      v.Says ρ.reading ((ρ b.path).compares op (.int n)) := by
  obtain ⟨hop, d, hkind, hd, k, hk, hkn⟩ := hlisted
  obtain ⟨i, hi, hin⟩ := hρ.bounded hkind
  rw [hi]
  rcases hop with rfl | hordered
  · rw [compareWith_of_literalValue? s b .ne hn]
    have heq : s.notEqual b (.int n) =
        s.enumerated b.path d (TestScope.differs (.ofInt n)) := by
      rw [notEqual, hkind]
      rfl
    rw [heq]
    have hkeep := says_enumerated hd (TestScope.differs (.ofInt n)) hk
      (by rw [differs_ofInt]; exact hkn) hi hin
    rwa [differs_ofInt] at hkeep
  · rw [compareWith_of_isOrdering s b hordered hn]
    have heq : s.ordered b op (.int n) =
        s.enumerated b.path d fun i => TestScope.holds op (.ofInt i) (.ofInt n) := by
      rw [ordered, hkind]
      rfl
    have hholds : ∀ i, TestScope.holds op (.ofInt i) (.ofInt n) =
        RuleValue.compares op (.int i) (.int n) := by
      intro i
      cases op <;> simp_all [TestScope.holds, RuleValue.compares, BinaryOp.isOrdering]
    have hkeep := says_enumerated hd (fun i => TestScope.holds op (.ofInt i) (.ofInt n)) hk
      ((hholds k).trans hkn) hi hin
    rwa [hholds, ← heq] at hkeep

theorem reads_boolean (hρ : s.bindings.AdmitBooleans ρ) (he : BooleanTest s.bindings e) :
    s.Reads e fun v =>
      v.Says ρ.reading (s.bindings.truth ρ e) ∧ v.Invertible ρ.reading := by
  induction he with
  | @name m n b hb hbool =>
    have hresolve : s.bindings.resolve? (.name m n) = some b := hb
    intro _
    refine ⟨_, rfl, ?_⟩
    rw [Bindings.truth_name hb]
    exact says_bare hresolve hbool (hρ.resolve? hresolve hbool)
  | @member m m' n p b hb hbool =>
    have hresolve : s.bindings.resolve? (.member m (.name m' n) p) = some b := hb
    intro _
    refine ⟨_, rfl, ?_⟩
    rw [Bindings.truth_member hb]
    exact says_bare hresolve hbool (hρ.resolve? hresolve hbool)
  | cast he ih => exact ih.cast
  | not he ih =>
    apply ih.not
    rintro v ⟨hsaid, hinv⟩ hquiet
    exact ⟨hsaid.negate hinv hquiet, hinv.negate hquiet⟩
  | and hl hr ihl ihr =>
    apply ihl.and ihr
    rintro v w ⟨hv, hvinv⟩ ⟨hw, hwinv⟩ hfits
    exact ⟨hv.and hw hfits, hvinv.and hwinv⟩
  | or hl hr ihl ihr =>
    apply ihl.or ihr
    rintro v w ⟨hv, hvinv⟩ ⟨hw, hwinv⟩
    exact ⟨hv.or hw, hvinv.or hwinv⟩
  | @compare m l op r b x hop hb hbool hx =>
    have hcomparison : op = .eq ∨ op = .ne ∨ op.isOrdering = true := hop.imp_right .inl
    apply Reads.compare hcomparison hb hx
    rw [truth_comparison hcomparison (Bindings.valueOf?_of_resolve? hb ρ)
      (Bindings.valueOf?_of_literalValue? _ hx ρ)]
    exact says_compareWith_boolean hop hbool hx (hρ.resolve? hb hbool)
  | @compareLeft m l op r b x hop hx hb hbool =>
    have hcomparison : op = .eq ∨ op = .ne ∨ op.isOrdering = true := hop.imp_right .inl
    have hswapped : op.swapped = .eq ∨ op.swapped = .ne := by
      rcases hop with rfl | rfl <;> simp [BinaryOp.swapped]
    apply Reads.compareLeft hcomparison hx hb
    rw [truth_comparison hcomparison (Bindings.valueOf?_of_literalValue? _ hx ρ)
      (Bindings.valueOf?_of_resolve? hb ρ), ← RuleValue.compares_swapped]
    exact says_compareWith_boolean hswapped hbool hx (hρ.resolve? hb hbool)

theorem reads_recognized (hρ : s.bindings.Admit ρ) (he : RecognizedTest s e) :
    s.Reads e fun v => v.Says ρ.reading (s.bindings.truth ρ e) := by
  induction he with
  | boolean he => exact (reads_boolean hρ.booleans he).mono fun v hv => hv.1
  | cast he ih => exact ih.cast
  | and hl hr ihl ihr => exact ihl.and ihr fun v w hv hw hfits => hv.and hw hfits
  | or hl hr ihl ihr => exact ihl.or ihr fun v w hv hw => hv.or hw
  | @equal m l r b n hb hbool hn =>
    apply Reads.compare (.inl rfl) hb hn
    rw [truth_comparison (.inl rfl) (Bindings.valueOf?_of_resolve? hb ρ)
      (Bindings.valueOf?_of_literalValue? _ hn ρ), compareWith_of_literalValue? s b .eq hn]
    exact ⟨_, rfl, Visibility.Says.single _ _ _⟩
  | @equalLeft m l r b n hn hb hbool =>
    apply Reads.compareLeft (.inl rfl) hn hb
    rw [truth_comparison (.inl rfl) (Bindings.valueOf?_of_literalValue? _ hn ρ)
      (Bindings.valueOf?_of_resolve? hb ρ), ← RuleValue.compares_swapped,
      compareWith_of_literalValue? s b _ hn]
    exact ⟨_, rfl, Visibility.Says.single _ _ _⟩
  | @compare m l op r b n hb hn hlisted =>
    have hcomparison := hlisted.comparison
    apply Reads.compare (.inr hcomparison) hb hn
    rw [truth_comparison (.inr hcomparison) (Bindings.valueOf?_of_resolve? hb ρ)
      (Bindings.valueOf?_of_literalValue? _ hn ρ)]
    exact says_compareWith_listed hn hlisted (hρ.resolve? hb)
  | @compareLeft m l op r b n hn hb hlisted =>
    have hcomparison : op = .ne ∨ op.isOrdering = true := by
      have := hlisted.comparison
      cases op <;> simp_all [BinaryOp.swapped, BinaryOp.isOrdering]
    apply Reads.compareLeft (.inr hcomparison) hn hb
    rw [truth_comparison (.inr hcomparison) (Bindings.valueOf?_of_literalValue? _ hn ρ)
      (Bindings.valueOf?_of_resolve? hb ρ), ← RuleValue.compares_swapped]
    exact says_compareWith_listed hn hlisted (hρ.resolve? hb)

/-- Unless a product is past its limit, the conditions of a recognized test hold
exactly where the test does. -/
theorem visibilityOf_exact (he : RecognizedTest s e) (hquiet : (s.visibilityOf e).warns = false)
    (hρ : s.bindings.Admit ρ) :
    ∃ v, (s.visibilityOf e).result = .ok v ∧
      v.holds ρ.reading = s.bindings.truth ρ e := by
  obtain ⟨v, hv, hsaid⟩ := reads_recognized hρ he hquiet
  exact ⟨v, hv, hsaid.holds⟩

end Exact

/-! ### Instances -/

section Instances

/-- A toggle, and a slider from zero to `width`. -/
private def panel (width : Float) (cap : Nat) : TestScope where
  bindings := ⟨[("on", { path := "_On", kind := .boolean }),
    ("mode", { path := "_Mode", kind := .bounded (.range 0 width) })]⟩
  catalog := {}
  cap := cap

private def panelValues (on : Bool) (mode : Int) : Valuation :=
  fun path => if path = "_On" then .bool on else .int mode

private theorem slider_contains_iff (width : Float) (hi : Int)
    (hhi : (Quantity.ofFloat width).floor? = some hi) (hfits : hi ≤ greatestInt) (n : Int) :
    (Domain.range 0 width).Contains n ↔ 0 ≤ n ∧ n ≤ hi := by
  rw [Domain.contains_range_iff (by decide : (Quantity.ofFloat 0).ceil? = some 0) hhi]
  unfold leastInt
  omega

private theorem panel_admits {width : Float} {mode : Int} (cap : Nat) (on : Bool)
    (hmode : (Domain.range 0 width).Contains mode) :
    (panel width cap).bindings.Admit (panelValues on mode) := by
  intro name b hb
  unfold panel Dict.get? at hb
  by_cases hon : name = "on"
  · subst hon
    cases hb
    exact ⟨on, rfl⟩
  · by_cases hmoded : name = "mode"
    · subst hmoded
      cases hb
      exact ⟨mode, rfl, hmode⟩
    · simp [List.lookup_cons, beq_eq_false_iff_ne.2 hon, beq_eq_false_iff_ne.2 hmoded] at hb

/-- `!(on && !on) && (1 <= mode || on != true)` -/
private def panelTest : Expr :=
  .binary default
    (.unary default .not (.binary default (.name default "on") .and
      (.unary default .not (.name default "on"))))
    .and
    (.binary default (.binary default (.integer default 1) .le (.name default "mode")) .or
      (.binary default (.name default "on") .ne (.bool default true)))

private theorem panelTest_recognized : RecognizedTest (panel 2 64) panelTest := by
  have hon : BooleanTest (panel 2 64).bindings (.name default "on") := .name rfl rfl
  have hmode : RecognizedTest (panel 2 64)
      (.binary default (.integer default 1) .le (.name default "mode")) := by
    refine .compareLeft rfl rfl ⟨.inr rfl, .range 0 2, rfl, ?_, 2, ?_, by decide⟩
    · exact ⟨0, 2, by decide, by decide, by decide, by decide, by decide⟩
    · rw [slider_contains_iff 2 2 (by decide) (by decide)]
      decide
  exact .and (.boolean (.not (.and hon (.not hon))))
    (.or hmode (.boolean (.compare (.inr rfl) rfl rfl rfl)))

theorem visibilityOf_exact_panel :
    ∃ v, ((panel 2 64).visibilityOf panelTest).result = .ok v ∧
      v.holds (panelValues true 2).reading =
        (panel 2 64).bindings.truth (panelValues true 2) panelTest := by
  have hmode : (Domain.range 0 2).Contains 2 := by
    rw [slider_contains_iff 2 2 (by decide) (by decide)]
    decide
  exact visibilityOf_exact panelTest_recognized (by decide) (panel_admits 64 true hmode)

/-- Past the integers that a float can hold, a range of as many members as the cap
allows is not listed any more, and a comparison asks for nothing. -/
theorem visibilityOf_inexact_at_wide_range :
    (∃ ns : List Int, ns.length ≤ 9007199254740993 ∧
      ∀ n, n ∈ ns ↔ (Domain.range 0 9007199254740992).Contains n) ∧
    (Domain.range 0 9007199254740992).Contains 0 ∧
    RuleValue.compares .lt (.int 0) (.int 1) = true ∧
    (panel 9007199254740992 9007199254740993).bindings.Admit (panelValues true 5) ∧
    ((panel 9007199254740992 9007199254740993).visibilityOf
      (.binary default (.name default "mode") .lt (.integer default 1))).warns = false ∧
    ¬∃ v, ((panel 9007199254740992 9007199254740993).visibilityOf
        (.binary default (.name default "mode") .lt (.integer default 1))).result = .ok v ∧
      v.holds (panelValues true 5).reading =
        (panel 9007199254740992 9007199254740993).bindings.truth (panelValues true 5)
          (.binary default (.name default "mode") .lt (.integer default 1)) := by
  have hcontains := slider_contains_iff 9007199254740992 9007199254740992 (by decide)
    (by decide)
  refine ⟨⟨intsBetween 0 9007199254740992, ?_, ?_⟩, ?_, by decide, ?_, by decide, ?_⟩
  · simp [intsBetween]
  · intro n
    rw [mem_intsBetween, hcontains]
  · rw [hcontains]
    decide
  · apply panel_admits
    rw [hcontains]
    decide
  · rintro ⟨v, hv, hholds⟩
    have halways : ((panel 9007199254740992 9007199254740993).visibilityOf
        (.binary default (.name default "mode") .lt (.integer default 1))).result =
          .ok .always := by rfl
    rw [halways] at hv
    cases hv
    revert hholds
    decide

end Instances

end TestScope

end PanelSchema
