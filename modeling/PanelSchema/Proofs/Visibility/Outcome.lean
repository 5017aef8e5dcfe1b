import PanelSchema.Proofs.Visibility.Negation
import PanelSchema.Visibility.Test

/-!
What the reading of a test ends in. Nothing but the negation of the least integer stops it,
and it gives what the operations on visibilities build.
-/

namespace PanelSchema

open Syntax (Expr BinaryOp)

namespace TestScope

/-! ### Literals -/

def NegatesLeast (s : TestScope) : Expr → Prop
  | .cast _ _ e => s.NegatesLeast e
  | .unary _ .minus e =>
    s.NegatesLeast e ∨ (s.literal? e).result = .ok (some (.int leastInt))
  | _ => False

theorem literal?_result (s : TestScope) (e : Expr) :
    (∃ v, (s.literal? e).result = .ok v) ↔ ¬s.NegatesLeast e := by
  induction e using TestScope.literal?.induct with
  | case5 m t e ih =>
    rw [literal?, NegatesLeast]
    exact ih
  | case6 m e ih =>
    rw [literal?, NegatesLeast, not_or, ← ih]
    constructor
    · rintro ⟨v, hv⟩
      obtain ⟨w, hw, hv⟩ := Traced.result_bind_eq_ok.1 hv
      refine ⟨⟨w, hw⟩, fun hleast => ?_⟩
      rw [hw, Except.ok.injEq] at hleast
      subst hleast
      cases hv
    · rintro ⟨⟨w, hw⟩, hleast⟩
      rw [hw, Except.ok.injEq] at hleast
      rw [Traced.result_bind_of_ok hw]
      rcases w with _ | (b | n | x | t)
      · exact ⟨_, rfl⟩
      · exact ⟨_, rfl⟩
      · have hne : n ≠ leastInt := fun h => hleast (by rw [h])
        exact ⟨some (.int (-n)), by simp [hne]⟩
      · exact ⟨_, rfl⟩
      · exact ⟨_, rfl⟩
  | case9 e => simp_all [literal?, NegatesLeast]
  | _ => simp [literal?, NegatesLeast]

/-- The value of a literal, where reading it does not stop. -/
def literalOf? (s : TestScope) (e : Expr) : Option RuleValue :=
  (s.literal? e).result.toOption.join

theorem literal?_of_not_negatesLeast {s : TestScope} {e : Expr} (h : ¬s.NegatesLeast e) :
    (s.literal? e).result = .ok (s.literalOf? e) := by
  obtain ⟨v, hv⟩ := (s.literal?_result e).2 h
  rw [literalOf?, hv]
  rfl

/-! ### Comparisons -/

/-- A comparison of a binding with something else, seen from the binding. -/
structure Sides where
  binding : Binding
  op : BinaryOp
  other : Expr

/-- The sides of a comparison of which exactly one is a known binding. -/
def sides? (s : TestScope) (l : Expr) (op : BinaryOp) (r : Expr) : Option Sides :=
  match s.bindings.resolve? l, s.bindings.resolve? r with
  | some b, none => some ⟨b, op, r⟩
  | none, some b => some ⟨b, op.swapped, l⟩
  | _, _ => none

/-- One condition for each member that is kept, where the members are listed. -/
def listed (s : TestScope) (path : String) (d : Domain) (keep : Int → Bool) : Visibility :=
  .ofConditions ((((d.members? s.cap).getD []).filter keep).map fun n => .single path (.int n))

def opposed (path : String) (value : RuleValue) : Visibility :=
  ((Visibility.opposite? value).map (Visibility.single path)).getD .always

/-- The domain of a bounded binding and the number it is compared with. -/
def bounds? (b : Binding) (value : RuleValue) : Option (Domain × Quantity) :=
  match b.kind with
  | .bounded d => value.quantity?.map fun q => (d, q)
  | _ => none

/-- What the comparison of a binding with a value asks for. -/
def asksFor (s : TestScope) (b : Binding) (op : BinaryOp) (value : RuleValue) : Visibility :=
  match op, bounds? b value with
  | .eq, _ => .single b.path value
  | .ne, some (d, excluded) => s.listed b.path d (differs excluded)
  | .ne, none => opposed b.path value
  | op, some (d, bound) => s.listed b.path d fun n => holds op (.ofInt n) bound
  | _, none => .always

theorem enumerated_result (s : TestScope) (path : String) (d : Domain) (keep : Int → Bool) :
    (s.enumerated path d keep).result = .ok (s.listed path d keep) := by
  unfold enumerated listed
  rcases d.members? s.cap with _ | (_ | ⟨n, ns⟩)
  · rfl
  · rfl
  · dsimp only
    split <;> rfl

theorem inverted_result (path : String) (value : RuleValue) :
    (inverted path value).result = .ok (opposed path value) := by
  unfold inverted opposed
  cases Visibility.opposite? value <;> rfl

theorem notEqual_result (s : TestScope) (b : Binding) (value : RuleValue) :
    (s.notEqual b value).result = .ok (s.asksFor b .ne value) := by
  unfold notEqual asksFor bounds?
  cases b.kind with
  | bounded d =>
    cases value.quantity? with
    | some q => exact s.enumerated_result _ _ _
    | none => exact inverted_result _ _
  | _ => exact inverted_result _ _

theorem asksFor_ordering (s : TestScope) (b : Binding) {op : BinaryOp}
    (hop : op.isOrdering = true) (value : RuleValue) :
    s.asksFor b op value =
      ((bounds? b value).map fun c =>
        s.listed b.path c.1 fun n => holds op (.ofInt n) c.2).getD .always := by
  unfold asksFor
  cases op with
  | lt | le | gt | ge => cases bounds? b value <;> rfl
  | _ => cases hop

theorem ordered_result (s : TestScope) (b : Binding) {op : BinaryOp}
    (hop : op.isOrdering = true) (value : RuleValue) :
    (s.ordered b op value).result = .ok (s.asksFor b op value) := by
  rw [s.asksFor_ordering b hop]
  unfold ordered bounds?
  cases b.kind with
  | bounded d =>
    cases value.quantity? with
    | some q => exact s.enumerated_result _ _ _
    | none => rfl
  | _ => rfl

/-- A comparison of two expressions: equality, inequality or an ordering. -/
def Compares (op : BinaryOp) : Prop :=
  op = .eq ∨ op = .ne ∨ op.isOrdering = true

theorem Compares.swapped {op : BinaryOp} (h : Compares op) : Compares op.swapped := by
  unfold Compares at h ⊢
  cases op <;> simp_all [BinaryOp.swapped, BinaryOp.isOrdering]

theorem compareWith_result {s : TestScope} {b : Binding} {op : BinaryOp} {e : Expr}
    (hop : Compares op) (h : ¬s.NegatesLeast e) :
    (s.compareWith b op e).result =
      .ok (((s.literalOf? e).map (s.asksFor b op)).getD .always) := by
  unfold compareWith
  rw [Traced.result_bind_of_ok (literal?_of_not_negatesLeast h)]
  cases s.literalOf? e with
  | none => rfl
  | some value =>
    dsimp only [Option.map_some, Option.getD_some]
    rcases hop with rfl | rfl | hop
    · rfl
    · exact s.notEqual_result b value
    · rw [← s.ordered_result b hop value]
      cases op with
      | lt | le | gt | ge => rfl
      | _ => cases hop

theorem compare_of_sides {s : TestScope} {l r : Expr} {op : BinaryOp} {c : Sides}
    (h : s.sides? l op r = some c) :
    s.compare l op r = s.compareWith c.binding c.op c.other := by
  unfold sides? at h
  unfold TestScope.compare
  cases hl : s.bindings.resolve? l <;> cases hr : s.bindings.resolve? r <;>
    simp only [hl, hr, Option.some.injEq, reduceCtorEq] at h <;> rw [← h]

theorem compare_of_no_sides {s : TestScope} {l r : Expr} {op : BinaryOp}
    (h : s.sides? l op r = none) : (s.compare l op r).result = .ok .always := by
  unfold sides? at h
  unfold TestScope.compare
  cases hl : s.bindings.resolve? l with
  | some b =>
    cases hr : s.bindings.resolve? r with
    | some b' => rfl
    | none => simp [hl, hr] at h
  | none =>
    cases hr : s.bindings.resolve? r with
    | some b => simp [hl, hr] at h
    | none => rfl

theorem Compares.sides {s : TestScope} {l r : Expr} {op : BinaryOp} (hop : Compares op)
    {c : Sides} (h : s.sides? l op r = some c) : Compares c.op := by
  unfold sides? at h
  split at h <;> cases h
  · exact hop
  · exact hop.swapped

/-- The binding and the literal that a comparison is read as. -/
def read? (s : TestScope) (l : Expr) (op : BinaryOp) (r : Expr) :
    Option (Binding × BinaryOp × RuleValue) :=
  (s.sides? l op r).bind fun c => (s.literalOf? c.other).map fun v => (c.binding, c.op, v)

/-- The literal of a comparison negates the least integer. -/
def ComparesLeast (s : TestScope) (l : Expr) (op : BinaryOp) (r : Expr) : Prop :=
  ∃ c, s.sides? l op r = some c ∧ s.NegatesLeast c.other

/-- What a comparison asks for, which is nothing unless it is read. -/
def comparisonOf (s : TestScope) (l : Expr) (op : BinaryOp) (r : Expr) : Visibility :=
  ((s.read? l op r).map fun c => s.asksFor c.1 c.2.1 c.2.2).getD .always

/-- A comparison is read unless its literal overflows. -/
theorem compare_eq_ok {s : TestScope} {l r : Expr} {op : BinaryOp} (hop : Compares op)
    {v : Visibility} :
    (s.compare l op r).result = .ok v ↔ ¬s.ComparesLeast l op r ∧ s.comparisonOf l op r = v := by
  unfold ComparesLeast comparisonOf read?
  cases hsides : s.sides? l op r with
  | none => simp [compare_of_no_sides hsides]
  | some c =>
    rw [compare_of_sides hsides]
    by_cases hleast : s.NegatesLeast c.other
    · have hstops : (s.compareWith c.binding c.op c.other).result ≠ .ok v := by
        intro h
        obtain ⟨x, hx, -⟩ := Traced.result_bind_eq_ok.1 h
        exact (s.literal?_result c.other).1 ⟨x, hx⟩ hleast
      simp [hstops, hleast]
    · simp [compareWith_result (hop.sides hsides) hleast, hleast, Function.comp_def]

/-! ### Tests -/

@[simp] theorem negated_result (v : Visibility) : (negated v).result = .ok v.negate := rfl

@[simp] theorem both_result (v w : Visibility) : (both v w).result = .ok (v.and w) := rfl

section Inversion

variable {s : TestScope} {m : Syntax.Mark} {l r e : Expr} {op : BinaryOp} {x : Visibility}

attribute [local simp] visibilityOf

theorem visibilityOf_not_eq_ok :
    (s.visibilityOf (.unary m .not e)).result = .ok x ↔
      ∃ v, (s.visibilityOf e).result = .ok v ∧ v.negate = x := by
  rw [visibilityOf, Traced.result_bind_eq_ok]
  simp

theorem visibilityOf_and_eq_ok :
    (s.visibilityOf (.binary m l .and r)).result = .ok x ↔
      ∃ v w, (s.visibilityOf l).result = .ok v ∧ (s.visibilityOf r).result = .ok w ∧
        v.and w = x := by
  rw [visibilityOf, Traced.result_bind_eq_ok]
  simp only [Traced.result_bind_eq_ok]
  simp

theorem visibilityOf_or_eq_ok :
    (s.visibilityOf (.binary m l .or r)).result = .ok x ↔
      ∃ v w, (s.visibilityOf l).result = .ok v ∧ (s.visibilityOf r).result = .ok w ∧
        v.or w = x := by
  rw [visibilityOf, Traced.result_bind_eq_ok]
  simp only [Traced.result_bind_eq_ok]
  simp

theorem visibilityOf_comparison (hop : Compares op) :
    s.visibilityOf (.binary m l op r) = s.compare l op r := by
  unfold Compares at hop
  cases op <;> simp_all [BinaryOp.isOrdering]

theorem visibilityOf_comparison_eq_ok (hop : Compares op) :
    (s.visibilityOf (.binary m l op r)).result = .ok x ↔
      ¬s.ComparesLeast l op r ∧ s.comparisonOf l op r = x := by
  rw [visibilityOf_comparison hop, compare_eq_ok hop]

end Inversion

/-- Some comparison of the test is with a literal that negates the least integer. -/
def Overflows (s : TestScope) : Expr → Prop
  | .unary _ .not e => s.Overflows e
  | .cast _ _ e => s.Overflows e
  | .binary _ l .and r => s.Overflows l ∨ s.Overflows r
  | .binary _ l .or r => s.Overflows l ∨ s.Overflows r
  | .binary _ l op r => Compares op ∧ s.ComparesLeast l op r
  | _ => False

/-- A test is read unless one of its literals overflows. -/
theorem visibilityOf_isOk (s : TestScope) (e : Expr) :
    (∃ v, (s.visibilityOf e).result = .ok v) ↔ ¬s.Overflows e := by
  induction e using TestScope.visibilityOf.induct with
  | case1 m e ih =>
    rw [Overflows, ← ih]
    constructor
    · rintro ⟨x, hx⟩
      obtain ⟨v, hv, -⟩ := visibilityOf_not_eq_ok.1 hx
      exact ⟨v, hv⟩
    · rintro ⟨v, hv⟩
      exact ⟨_, visibilityOf_not_eq_ok.2 ⟨v, hv, rfl⟩⟩
  | case2 m t e ih =>
    rw [visibilityOf, Overflows]
    exact ih
  | case3 m l r ihl ihr =>
    rw [Overflows, not_or, ← ihl, ← ihr]
    constructor
    · rintro ⟨x, hx⟩
      obtain ⟨v, w, hv, hw, -⟩ := visibilityOf_and_eq_ok.1 hx
      exact ⟨⟨v, hv⟩, ⟨w, hw⟩⟩
    · rintro ⟨⟨v, hv⟩, ⟨w, hw⟩⟩
      exact ⟨_, visibilityOf_and_eq_ok.2 ⟨v, w, hv, hw, rfl⟩⟩
  | case4 m l r ihl ihr =>
    rw [Overflows, not_or, ← ihl, ← ihr]
    constructor
    · rintro ⟨x, hx⟩
      obtain ⟨v, w, hv, hw, -⟩ := visibilityOf_or_eq_ok.1 hx
      exact ⟨⟨v, hv⟩, ⟨w, hw⟩⟩
    · rintro ⟨⟨v, hv⟩, ⟨w, hw⟩⟩
      exact ⟨_, visibilityOf_or_eq_ok.2 ⟨v, w, hv, hw, rfl⟩⟩
  | case5 m l op r hand hor hop =>
    have hcompares : Compares op := hop
    rw [Overflows]
    · simp [visibilityOf_comparison_eq_ok hcompares, hcompares]
    all_goals assumption
  | case6 m l op r hand hor hop =>
    have hcompares : ¬Compares op := hop
    rw [visibilityOf, Overflows, if_neg hop]
    · simp [hcompares]
    all_goals assumption
  | case7 m n => simp [visibilityOf, Overflows]
  | case8 m object n => simp [visibilityOf, Overflows]
  | case9 e => simp_all [visibilityOf, Overflows]

/-! ### How a test is read -/

theorem built_asksFor (s : TestScope) (b : Binding) (op : BinaryOp) (value : RuleValue) :
    (s.asksFor b op value).Built := by
  have hlisted : ∀ d keep, (s.listed b.path d keep).Built := by
    intro d keep
    apply Visibility.Built.ofConditions
    intro c hc
    obtain ⟨n, -, rfl⟩ := List.mem_map.1 hc
    exact Condition.canonical_single _ _
  unfold asksFor
  split
  · exact .single _ _
  · exact hlisted _ _
  · unfold opposed
    cases Visibility.opposite? value with
    | none => exact .always
    | some o => exact .single _ _
  · exact hlisted _ _
  · exact .always

theorem built_bare (s : TestScope) (e : Expr) : (s.bare e).Built := by
  unfold bare
  split
  · split
    · exact .single _ _
    · exact .always
  · exact .always

theorem built_visibilityOf {s : TestScope} {e : Expr} {v : Visibility}
    (h : (s.visibilityOf e).result = .ok v) : v.Built := by
  induction e using TestScope.visibilityOf.induct generalizing v with
  | case1 m e ih =>
    obtain ⟨w, hw, rfl⟩ := visibilityOf_not_eq_ok.1 h
    exact (ih hw).negate
  | case2 m t e ih => exact ih h
  | case3 m l r ihl ihr =>
    obtain ⟨v, w, hv, hw, rfl⟩ := visibilityOf_and_eq_ok.1 h
    exact (ihl hv).and (ihr hw)
  | case4 m l r ihl ihr =>
    obtain ⟨v, w, hv, hw, rfl⟩ := visibilityOf_or_eq_ok.1 h
    exact (ihl hv).or (ihr hw)
  | case5 m l op r hand hor hop =>
    obtain ⟨-, rfl⟩ := (visibilityOf_comparison_eq_ok hop).1 h
    unfold comparisonOf
    cases s.read? l op r with
    | none => exact .always
    | some c => exact s.built_asksFor _ _ _
  | case6 m l op r hand hor hop =>
    rw [visibilityOf, if_neg hop] at h
    · cases h
      exact .always
    all_goals assumption
  | case7 m n =>
    cases h
    exact s.built_bare _
  | case8 m object n =>
    cases h
    exact s.built_bare _
  | case9 e =>
    rw [visibilityOf] at h
    · cases h
      exact .always
    all_goals assumption

theorem aligned_visibilityOf {s : TestScope} {e : Expr} {v : Visibility}
    (h : (s.visibilityOf e).result = .ok v) : v.Aligned :=
  (built_visibilityOf h).canonical.aligned

end TestScope

end PanelSchema
