import PanelSchema.Proofs.Visibility.Outcome
import PanelSchema.Proofs.Visibility.Truth

/-!
Tests that are true while their conditions do not hold. Most of what is lost in reading a
test asks for less, which hides nothing. Two things hide: a disjunction keeps the side that
is read and drops the other one, and an inequality asks for the opposite of its literal
where the value may be neither.
-/

namespace PanelSchema

open Syntax (Expr BinaryOp)

/-- A value for every binding: a boolean for the boolean ones, an integer of the domain for
the bounded ones. How they compare with literals of another kind is left open. -/
structure Bindings.Assignment (bs : Bindings) extends Reading where
  /-- The integers at the paths of bounded bindings. -/
  number : String → Int
  boolean : ∀ name b, bs.get? name = some b → b.isBoolean = true →
    truth b.path (.bool false) = !truth b.path (.bool true)
  bounded : ∀ name b d, bs.get? name = some b → b.kind = .bounded d →
    d.Contains (number b.path) ∧ ∀ n, truth b.path (.int n) = (n == number b.path)

/-- Values that the bindings can have, compared as the model compares values. -/
def Valuation.assignment (ρ : Valuation) {bs : Bindings} (h : bs.Admit ρ) : bs.Assignment where
  toReading := ρ.reading
  number path :=
    match ρ path with
    | .int n => n
    | _ => 0
  boolean := by
    intro name b hb hbool
    obtain ⟨x, hx⟩ := (h name b hb).boolean hbool
    cases x <;> simp [Valuation.reading, hx]
  bounded := by
    intro name b d hb hd
    obtain ⟨n, hn, hcontains⟩ := (h name b hb).bounded hd
    simp only [hn, Valuation.reading, RuleValue.int_beq]
    exact ⟨hcontains, fun k => Bool.beq_comm⟩

namespace TestScope

variable (s : TestScope)

instance decidableCompares (op : BinaryOp) : Decidable (Compares op) :=
  inferInstanceAs (Decidable (op = .eq ∨ op = .ne ∨ op.isOrdering = true))

section Truth

variable (a : s.bindings.Assignment) (u : Expr → Bool)

/-- What the comparison of a binding with a literal comes to. An ordering of a binding
without bounds is not settled. -/
def settled? (b : Binding) (op : BinaryOp) (v : RuleValue) : Option Bool :=
  match op, bounds? b v with
  | .eq, _ => some (a.truth b.path v)
  | .ne, some (_, excluded) => some (differs excluded (a.number b.path))
  | .ne, none => some (!a.truth b.path v)
  | op, some (_, bound) => some (holds op (.ofInt (a.number b.path)) bound)
  | _, none => none

def comparisonTruth? (l : Expr) (op : BinaryOp) (r : Expr) : Option Bool :=
  if Compares op then (s.read? l op r).bind fun c => s.settled? a c.1 c.2.1 c.2.2 else none

def bareTruth? (e : Expr) : Option Bool :=
  (s.bindings.resolve? e).bind fun b =>
    if b.isBoolean then some (a.truth b.path (.bool true)) else none

/-- What a test comes to. Parts that speak of anything but known bindings and literals are
as `u` has them. -/
def truthWith : Expr → Bool
  | .unary _ .not e => !truthWith e
  | .cast _ _ e => truthWith e
  | .binary _ l .and r => truthWith l && truthWith r
  | .binary _ l .or r => truthWith l || truthWith r
  | .binary m l op r => (s.comparisonTruth? a l op r).getD (u (.binary m l op r))
  | .name m n => (s.bareTruth? a (.name m n)).getD (u (.name m n))
  | .member m object n => (s.bareTruth? a (.member m object n)).getD (u (.member m object n))
  | e => u e

end Truth

/-- A test without negation. -/
def Positive : Expr → Prop
  | .unary _ .not _ => False
  | .cast _ _ e => Positive e
  | .binary _ l .and r => Positive l ∧ Positive r
  | .binary _ l .or r => Positive l ∧ Positive r
  | _ => True

variable {s} {a : s.bindings.Assignment} {u : Expr → Bool}

/-! ### Comparisons -/

/-- The value is neither the literal that it is to differ from nor the opposite of it,
which is what is asked for. -/
structure Neither (a : s.bindings.Assignment) (b : Binding) (v : RuleValue) : Prop where
  unbounded : bounds? b v = none
  differs : a.truth b.path v = false
  opposite : ∃ o, Visibility.opposite? v = some o ∧ a.truth b.path o = false

theorem bounds?_eq_some {b : Binding} {v : RuleValue} {d : Domain} {q : Quantity}
    (h : bounds? b v = some (d, q)) : b.kind = .bounded d := by
  unfold bounds? at h
  cases hkind : b.kind with
  | bounded d' =>
    simp only [hkind, Option.map_eq_some_iff, Prod.mk.injEq] at h
    obtain ⟨-, -, rfl, -⟩ := h
    rfl
  | _ => simp [hkind] at h

/-- A member that is kept is asked for, unless nothing is. -/
theorem holds_listed {e : Expr} {b : Binding} (hb : s.bindings.resolve? e = some b)
    {d : Domain} (hd : b.kind = .bounded d) {keep : Int → Bool}
    (hkeep : keep (a.number b.path) = true) :
    (s.listed b.path d keep).holds a.toReading = true := by
  obtain ⟨name, hname⟩ := Bindings.exists_get?_of_resolve? hb
  obtain ⟨hcontains, htruth⟩ := a.bounded name b d hname hd
  unfold listed
  cases hmembers : d.members? s.cap with
  | none => rfl
  | some ns =>
    have hmem : a.number b.path ∈ ns := Domain.mem_of_members? hmembers hcontains
    simp only [Visibility.holds, Visibility.met_ofConditions, Option.getD_some, List.any_map,
      Bool.or_eq_true, List.any_eq_true]
    refine .inr ⟨a.number b.path, List.mem_filter.2 ⟨hmem, hkeep⟩, ?_⟩
    simp [htruth]

theorem holds_opposed (a : s.bindings.Assignment) (path : String) (v : RuleValue) :
    (opposed path v).holds a.toReading = false ↔
      ∃ o, Visibility.opposite? v = some o ∧ a.truth path o = false := by
  unfold opposed
  cases Visibility.opposite? v with
  | none => simp
  | some o => simp [Visibility.holds, Visibility.single, Visibility.isAlways, Visibility.met]

theorem settled?_ordering {b : Binding} {op : BinaryOp} (hop : op.isOrdering = true)
    {v : RuleValue} {c : Domain × Quantity} (h : bounds? b v = some c) :
    s.settled? a b op v = some (holds op (.ofInt (a.number b.path)) c.2) := by
  unfold settled?
  rw [h]
  cases op with
  | lt | le | gt | ge => rfl
  | _ => cases hop

/-- A comparison that is true is asked for, but for an inequality with a value that is
neither the literal nor its opposite. -/
theorem settled_hidden_iff {e : Expr} {b : Binding} (hb : s.bindings.resolve? e = some b)
    {op : BinaryOp} (hop : Compares op) (v : RuleValue) (x : Bool) :
    ((s.settled? a b op v).getD x = true ∧ (s.asksFor b op v).holds a.toReading = false) ↔
      op = .ne ∧ Neither a b v := by
  rcases hop with rfl | rfl | hop
  · simp [settled?, asksFor, Visibility.holds, Visibility.single, Visibility.isAlways,
      Visibility.met]
  · cases hbounds : bounds? b v with
    | none =>
      simp only [settled?, asksFor, hbounds, Option.getD_some, Bool.not_eq_true', holds_opposed,
        true_and]
      exact ⟨fun h => ⟨hbounds, h.1, h.2⟩, fun h => ⟨h.differs, h.opposite⟩⟩
    | some c =>
      obtain ⟨d, q⟩ := c
      have hneither : ¬Neither a b v := fun h => by simpa [hbounds] using h.unbounded
      simp only [settled?, asksFor, hbounds, Option.getD_some, hneither, and_false, iff_false,
        not_and, Bool.not_eq_false]
      exact holds_listed hb (bounds?_eq_some hbounds)
  · have hne : op ≠ .ne := by rintro rfl; cases hop
    rw [s.asksFor_ordering b hop]
    simp only [hne, false_and, iff_false, not_and, Bool.not_eq_false]
    cases hbounds : bounds? b v with
    | none => exact fun _ => rfl
    | some c =>
      rw [settled?_ordering hop hbounds]
      simp only [Option.map_some, Option.getD_some]
      exact fun hkeep => holds_listed hb (bounds?_eq_some hbounds) hkeep

/-! ### Tests -/

/-- The test is true and its conditions do not hold, by what is lost in reading it. -/
inductive Misses (a : s.bindings.Assignment) (u : Expr → Bool) : Expr → Prop
  /-- An inequality asks for the opposite of its literal. -/
  | inequality {m l r b v} (hread : s.read? l .ne r = some (b, .ne, v))
      (hneither : Neither a b v) : Misses a u (.binary m l .ne r)
  /-- A disjunction drops a side that asks for nothing. -/
  | unreadLeft {m l r v w} (hl : (s.visibilityOf l).result = .ok v)
      (hr : (s.visibilityOf r).result = .ok w) (hv : v.isAlways = true)
      (htrue : s.truthWith a u l = true) (hw : w.holds a.toReading = false) :
      Misses a u (.binary m l .or r)
  | unreadRight {m l r v w} (hl : (s.visibilityOf l).result = .ok v)
      (hr : (s.visibilityOf r).result = .ok w) (hw : w.isAlways = true)
      (htrue : s.truthWith a u r = true) (hv : v.holds a.toReading = false) :
      Misses a u (.binary m l .or r)
  | orLeft {m l r w} (hl : Misses a u l) (hr : (s.visibilityOf r).result = .ok w)
      (hw : w.met a.toReading = false) : Misses a u (.binary m l .or r)
  | orRight {m l r v} (hl : (s.visibilityOf l).result = .ok v) (hr : Misses a u r)
      (hv : v.met a.toReading = false) : Misses a u (.binary m l .or r)
  | andLeft {m l r} (hl : Misses a u l) (hr : s.truthWith a u r = true) :
      Misses a u (.binary m l .and r)
  /-- A product past the limit drops its right side, and hides nothing by it. -/
  | andRight {m l r v w} (hl : (s.visibilityOf l).result = .ok v)
      (hr : (s.visibilityOf r).result = .ok w) (hfits : v.exceedsLimit w = false)
      (htrue : s.truthWith a u l = true) (hmiss : Misses a u r) :
      Misses a u (.binary m l .and r)
  | cast {m t e} (h : Misses a u e) : Misses a u (.cast m t e)

section Cases

variable {m : Syntax.Mark} {l r : Expr} {op : BinaryOp} {v w : Visibility}

/-- A side that is true leaves the disjunction unmet when it asks for nothing, or when it
is missed itself. -/
theorem misses_or (hl : (s.visibilityOf l).result = .ok v)
    (hr : (s.visibilityOf r).result = .ok w)
    (ihl : Misses a u l ↔ s.truthWith a u l = true ∧ v.holds a.toReading = false)
    (ihr : Misses a u r ↔ s.truthWith a u r = true ∧ w.holds a.toReading = false) :
    Misses a u (.binary m l .or r) ↔
      s.truthWith a u (.binary m l .or r) = true ∧ (v.or w).holds a.toReading = false := by
  simp only [truthWith, Visibility.holds, Visibility.isAlways_or, Visibility.met_or,
    Bool.or_eq_true, Bool.or_eq_false_iff, Bool.and_eq_false_iff] at ihl ihr ⊢
  constructor
  · intro h
    cases h with
    | unreadLeft hl' hr' hv htrue hw =>
      cases hl.symm.trans hl'
      cases hr.symm.trans hr'
      obtain ⟨hasks, hmet⟩ := Bool.or_eq_false_iff.1 hw
      exact ⟨.inl htrue, .inr hasks, Visibility.met_of_isAlways hv _, hmet⟩
    | unreadRight hl' hr' hw htrue hv =>
      cases hl.symm.trans hl'
      cases hr.symm.trans hr'
      obtain ⟨hasks, hmet⟩ := Bool.or_eq_false_iff.1 hv
      exact ⟨.inr htrue, .inl hasks, hmet, Visibility.met_of_isAlways hw _⟩
    | orLeft hmiss hr' hw =>
      cases hr.symm.trans hr'
      obtain ⟨htrue, hasks, hmet⟩ := ihl.1 hmiss
      exact ⟨.inl htrue, .inl hasks, hmet, hw⟩
    | orRight hl' hmiss hv =>
      cases hl.symm.trans hl'
      obtain ⟨htrue, hasks, hmet⟩ := ihr.1 hmiss
      exact ⟨.inr htrue, .inr hasks, hv, hmet⟩
  · rintro ⟨htrue, hasks, hv, hw⟩
    rcases htrue with htrue | htrue
    · cases halways : v.isAlways with
      | false => exact .orLeft (ihl.2 ⟨htrue, halways, hv⟩) hr hw
      | true =>
        have hasks : w.isAlways = false := hasks.resolve_left (by simp [halways])
        exact .unreadLeft hl hr halways htrue (by rw [Visibility.holds_eq_met hasks, hw])
    · cases halways : w.isAlways with
      | false => exact .orRight hl (ihr.2 ⟨htrue, halways, hw⟩) hv
      | true =>
        have hasks : v.isAlways = false := hasks.resolve_right (by simp [halways])
        exact .unreadRight hl hr halways htrue (by rw [Visibility.holds_eq_met hasks, hv])

theorem misses_and (hl : (s.visibilityOf l).result = .ok v)
    (hr : (s.visibilityOf r).result = .ok w)
    (ihl : Misses a u l ↔ s.truthWith a u l = true ∧ v.holds a.toReading = false)
    (ihr : Misses a u r ↔ s.truthWith a u r = true ∧ w.holds a.toReading = false) :
    Misses a u (.binary m l .and r) ↔
      s.truthWith a u (.binary m l .and r) = true ∧ (v.and w).holds a.toReading = false := by
  rw [Visibility.holds_and_limit a.toReading (aligned_visibilityOf hl)]
  simp only [truthWith, Bool.and_eq_true, Bool.and_eq_false_iff, Bool.or_eq_false_iff]
  constructor
  · intro h
    cases h with
    | andLeft hmiss hright =>
      obtain ⟨htrue, hv⟩ := ihl.1 hmiss
      exact ⟨⟨htrue, hright⟩, .inl hv⟩
    | andRight hl' hr' hfits hleft hmiss =>
      cases hl.symm.trans hl'
      cases hr.symm.trans hr'
      obtain ⟨htrue, hw⟩ := ihr.1 hmiss
      exact ⟨⟨hleft, htrue⟩, .inr ⟨hw, hfits⟩⟩
  · rintro ⟨⟨hleft, hright⟩, hv | ⟨hw, hfits⟩⟩
    · exact .andLeft (ihl.2 ⟨hleft, hv⟩) hright
    · exact .andRight hl hr hfits hleft (ihr.2 ⟨hright, hw⟩)

theorem read?_eq_some {b : Binding} {op' : BinaryOp} {x : RuleValue}
    (h : s.read? l op r = some (b, op', x)) :
    (op' = op ∨ op' = op.swapped) ∧ ∃ e, s.bindings.resolve? e = some b := by
  obtain ⟨c, hsides, hx⟩ := Option.bind_eq_some_iff.1 h
  obtain ⟨x', -, hx⟩ := Option.map_eq_some_iff.1 hx
  cases hx
  unfold sides? at hsides
  split at hsides <;> cases hsides
  · exact ⟨.inl rfl, l, by assumption⟩
  · exact ⟨.inr rfl, r, by assumption⟩

theorem misses_comparison (hop : Compares op) :
    Misses a u (.binary m l op r) ↔
      (s.comparisonTruth? a l op r).getD (u (.binary m l op r)) = true ∧
        (s.comparisonOf l op r).holds a.toReading = false := by
  unfold comparisonTruth? comparisonOf
  rw [if_pos hop]
  cases hread : s.read? l op r with
  | none =>
    simp only [Option.bind_none, Option.getD_none, Option.map_none, Visibility.holds_always,
      reduceCtorEq, and_false, iff_false]
    intro h
    cases h with
    | inequality hread' => simp [hread] at hread'
    | _ => simp [Compares, BinaryOp.isOrdering] at hop
  | some c =>
    obtain ⟨b, op', x⟩ := c
    obtain ⟨hseen, e, hb⟩ := read?_eq_some hread
    have hop' : Compares op' := by
      rcases hseen with rfl | rfl
      · exact hop
      · exact hop.swapped
    simp only [Option.bind_some, Option.map_some, Option.getD_some, settled_hidden_iff hb hop']
    constructor
    · intro h
      cases h with
      | inequality hread' hneither =>
        rw [hread] at hread'
        cases hread'
        exact ⟨rfl, hneither⟩
      | _ => simp [Compares, BinaryOp.isOrdering] at hop
    · rintro ⟨rfl, hneither⟩
      have hne : op = .ne := by
        cases op <;> simp [BinaryOp.swapped] at hseen ⊢
      subst hne
      exact .inequality hread hneither

theorem bare_covers {e : Expr} (h : (s.bareTruth? a e).getD (u e) = true) :
    (s.bare e).holds a.toReading = true := by
  unfold bareTruth? at h
  unfold bare
  cases hb : s.bindings.resolve? e with
  | none => rfl
  | some b =>
    dsimp only
    split
    · rename_i hbool
      simp only [hb, hbool, Option.bind_some, if_true, Option.getD_some] at h
      simp [Visibility.holds, h]
    · rfl

end Cases

theorem misses_iff {e : Expr} (he : Positive e) {v : Visibility}
    (hv : (s.visibilityOf e).result = .ok v) :
    Misses a u e ↔ s.truthWith a u e = true ∧ v.holds a.toReading = false := by
  induction e using TestScope.visibilityOf.induct generalizing v with
  | case1 m e ih => exact he.elim
  | case2 m t e ih =>
    rw [truthWith, ← ih he hv]
    exact ⟨fun h => by cases h with | cast h => exact h, .cast⟩
  | case3 m l r ihl ihr =>
    obtain ⟨v, w, hl, hr, rfl⟩ := visibilityOf_and_eq_ok.1 hv
    exact misses_and hl hr (ihl he.1 hl) (ihr he.2 hr)
  | case4 m l r ihl ihr =>
    obtain ⟨v, w, hl, hr, rfl⟩ := visibilityOf_or_eq_ok.1 hv
    exact misses_or hl hr (ihl he.1 hl) (ihr he.2 hr)
  | case5 m l op r hand hor hop =>
    obtain ⟨-, rfl⟩ := (visibilityOf_comparison_eq_ok hop).1 hv
    rw [truthWith]
    · exact misses_comparison hop
    all_goals assumption
  | case6 m l op r hand hor hop =>
    rw [visibilityOf, if_neg hop] at hv
    · cases hv
      simp only [Visibility.holds_always, reduceCtorEq, and_false, iff_false]
      intro h
      cases h <;> simp_all
    all_goals assumption
  | case7 m n =>
    cases hv
    simp only [truthWith]
    constructor
    · intro h
      cases h
    · rintro ⟨htrue, hfalse⟩
      rw [bare_covers htrue] at hfalse
      cases hfalse
  | case8 m object n =>
    cases hv
    simp only [truthWith]
    constructor
    · intro h
      cases h
    · rintro ⟨htrue, hfalse⟩
      rw [bare_covers htrue] at hfalse
      cases hfalse
  | case9 e hnot hcast hand hor hbinary =>
    rw [visibilityOf] at hv
    · cases hv
      simp only [Visibility.holds_always, reduceCtorEq, and_false, iff_false]
      intro h
      cases h with
      | cast => exact hcast _ _ _ rfl
      | _ => exact hbinary _ _ _ _ rfl
    all_goals assumption

/-- Nothing is missed whatever the values are: the sides of a disjunction both ask for
something or both for nothing, and an inequality whose literal has an opposite is one of
members of a domain or of booleans. -/
def Expressed (s : TestScope) : Expr → Prop
  | .cast _ _ e => s.Expressed e
  | .binary _ l .and r => s.Expressed l ∧ s.Expressed r
  | .binary _ l .or r =>
    s.Expressed l ∧ s.Expressed r ∧
      ∀ v w, (s.visibilityOf l).result = .ok v → (s.visibilityOf r).result = .ok w →
        v.isAlways = w.isAlways
  | .binary _ l .ne r =>
    ∀ b v, s.read? l .ne r = some (b, .ne, v) → bounds? b v = none →
      Visibility.opposite? v = none ∨ b.isBoolean = true ∧ ∃ x, v = .bool x
  | _ => True

theorem Neither.not_boolean {b : Binding} {x : Bool} (h : Neither a b (.bool x))
    {e : Expr} (hb : s.bindings.resolve? e = some b) : b.isBoolean = false := by
  obtain ⟨name, hname⟩ := Bindings.exists_get?_of_resolve? hb
  obtain ⟨o, ho, hopposite⟩ := h.opposite
  cases ho
  cases hbool : b.isBoolean with
  | false => rfl
  | true =>
    have htruth := a.boolean name b hname hbool
    have hdiffers := h.differs
    cases x <;> simp_all

theorem Expressed.not_misses {e : Expr} (h : s.Expressed e) : ¬Misses a u e := by
  intro hmiss
  induction hmiss with
  | inequality hread hneither =>
    obtain ⟨-, e, hb⟩ := read?_eq_some hread
    rcases h _ _ hread hneither.unbounded with hnone | ⟨hbool, x, rfl⟩
    · obtain ⟨o, ho, -⟩ := hneither.opposite
      simp [hnone] at ho
    · rw [hneither.not_boolean hb] at hbool
      cases hbool
  | unreadLeft hl hr hv htrue hw =>
    have hasks := h.2.2 _ _ hl hr
    simp [Visibility.holds, ← hasks, hv] at hw
  | unreadRight hl hr hw htrue hv =>
    have hasks := h.2.2 _ _ hl hr
    simp [Visibility.holds, hasks, hw] at hv
  | orLeft hl hr hw ih => exact ih h.1
  | orRight hl hr hv ih => exact ih h.2.1
  | andLeft hl hr ih => exact ih h.1
  | andRight hl hr hfits htrue hmiss ih => exact ih h.2
  | cast h' ih => exact ih h

/-- A test without negation is read, and what it is read as holds whenever the test is
true, exactly when no literal overflows and nothing is missed. -/
theorem visibilityOf_covers_iff (s : TestScope) (a : s.bindings.Assignment) (u : Expr → Bool)
    {e : Expr} (he : Positive e) :
    (∃ v, (s.visibilityOf e).result = .ok v ∧
        (s.truthWith a u e = true → v.holds a.toReading = true)) ↔
      ¬s.Overflows e ∧ ¬Misses a u e := by
  rw [← s.visibilityOf_isOk e]
  constructor
  · rintro ⟨v, hv, hcovers⟩
    refine ⟨⟨v, hv⟩, fun hmiss => ?_⟩
    obtain ⟨htrue, hfalse⟩ := (misses_iff he hv).1 hmiss
    rw [hcovers htrue] at hfalse
    cases hfalse
  · rintro ⟨⟨v, hv⟩, hmiss⟩
    refine ⟨v, hv, fun htrue => ?_⟩
    cases hholds : v.holds a.toReading with
    | true => rfl
    | false => exact absurd ((misses_iff he hv).2 ⟨htrue, hholds⟩) hmiss

section Instances

private def shine : TestScope where
  bindings := ⟨[("glow", ⟨"_Glow", .boolean⟩), ("mode", ⟨"_Mode", .bounded (.values [0, 1, 2])⟩)]⟩
  catalog := {}
  cap := 64

private def shineValues (glow : Bool) (mode : Int) : Valuation :=
  fun path => if path = "_Glow" then .bool glow else .int mode

private theorem shine_admits (glow : Bool) {mode : Int}
    (hmode : mode ∈ ([0, 1, 2] : List Int)) : shine.bindings.Admit (shineValues glow mode) := by
  intro name b hb
  unfold shine Dict.get? at hb
  by_cases hglow : name = "glow"
  · subst hglow
    cases hb
    exact ⟨glow, rfl⟩
  · by_cases hmoded : name = "mode"
    · subst hmoded
      cases hb
      exact ⟨mode, rfl, hmode⟩
    · simp [List.lookup_cons, beq_eq_false_iff_ne.2 hglow, beq_eq_false_iff_ne.2 hmoded] at hb

/-- `(glow || mode != 1) && other` -/
private def shineTest : Expr :=
  .binary default
    (.binary default (.name default "glow") .or
      (.binary default (.name default "mode") .ne (.integer default 1)))
    .and (.name default "other")

private theorem shineTest_expressed : shine.Expressed shineTest := by
  refine ⟨⟨trivial, ?_, ?_⟩, trivial⟩
  · intro b v hread
    cases hread
    exact nofun
  · rintro v w hv hw
    cases hv
    cases hw
    rfl

theorem visibilityOf_covers_iff_shine :
    Positive shineTest ∧
      ∃ v, (shine.visibilityOf shineTest).result = .ok v ∧
        (shine.truthWith ((shineValues false 2).assignment (shine_admits false (by decide)))
            (fun _ => true) shineTest = true →
          v.holds (shineValues false 2).reading = true) := by
  have hpositive : Positive shineTest := ⟨⟨trivial, trivial⟩, trivial⟩
  have hoverflows : ¬shine.Overflows shineTest := by
    rw [← visibilityOf_isOk]
    exact ⟨_, rfl⟩
  exact ⟨hpositive,
    (visibilityOf_covers_iff shine _ _ hpositive).2 ⟨hoverflows, shineTest_expressed.not_misses⟩⟩

/-- `glow || other` is read as `glow`: what is drawn under it is hidden where only the
unread side is true. -/
theorem visibilityOf_hides_unread_side :
    Positive (.binary default (.name default "glow") .or (.name default "other")) ∧
    shine.truthWith ((shineValues false 2).assignment (shine_admits false (by decide)))
      (fun _ => true) (.binary default (.name default "glow") .or (.name default "other")) =
        true ∧
    ¬∃ v, (shine.visibilityOf
        (.binary default (.name default "glow") .or (.name default "other"))).result = .ok v ∧
      v.holds (shineValues false 2).reading = true := by
  refine ⟨⟨trivial, trivial⟩, rfl, ?_⟩
  rintro ⟨v, hv, hholds⟩
  cases hv
  cases hholds

end Instances

end TestScope

end PanelSchema
