import PanelSchema.Proofs.Visibility.Domain
import PanelSchema.Proofs.Visibility.Meaning

/-!
What a test comes to when every path has a value. Nothing here knows how tests
are turned into conditions.
-/

namespace PanelSchema

open Syntax (Expr BinaryOp)

/-- A boolean or an integer literal, under casts and signs. -/
def literalValue? : Expr → Option RuleValue
  | .bool _ b => some (.bool b)
  | .integer _ n => some (.int n)
  | .cast _ _ e => literalValue? e
  | .unary _ .minus e =>
    match literalValue? e with
    | some (.int n) => if n = leastInt then none else some (.int (-n))
    | _ => none
  | _ => none

/-- Whether a comparison holds. Integers are told apart and ordered as a float
holds them. -/
def RuleValue.compares : BinaryOp → RuleValue → RuleValue → Bool
  | .eq, v, w => v == w
  | .ne, .int m, .int n => roundInt m != roundInt n
  | .ne, v, w => !(v == w)
  | .lt, .int m, .int n => roundInt m < roundInt n
  | .le, .int m, .int n => roundInt m ≤ roundInt n
  | .gt, .int m, .int n => roundInt n < roundInt m
  | .ge, .int m, .int n => roundInt n ≤ roundInt m
  | _, _, _ => false

theorem RuleValue.compares_swapped (op : BinaryOp) (v w : RuleValue) :
    compares op.swapped v w = compares op w v := by
  cases op with
  | eq => exact BEq.comm
  | ne =>
    cases v <;> cases w <;>
      simp only [BinaryOp.swapped, compares, bne_comm, BEq.comm]
  | _ => cases v <;> cases w <;> rfl

def Binding.Admits (b : Binding) (v : RuleValue) : Prop :=
  match b.kind with
  | .boolean => ∃ x, v = .bool x
  | .bounded d => ∃ n, v = .int n ∧ d.Contains n
  | .opaqueValue => True

theorem Binding.Admits.boolean {b : Binding} {v : RuleValue} (h : b.Admits v)
    (hb : b.isBoolean = true) : ∃ x, v = .bool x := by
  unfold Binding.Admits at h
  unfold Binding.isBoolean at hb
  cases hkind : b.kind with
  | boolean => simpa only [hkind] using h
  | bounded d => simp [hkind] at hb
  | opaqueValue => simp [hkind] at hb

theorem Binding.Admits.bounded {b : Binding} {v : RuleValue} (h : b.Admits v) {d : Domain}
    (hb : b.kind = .bounded d) : ∃ n, v = .int n ∧ d.Contains n := by
  simpa only [Binding.Admits, hb] using h

namespace Bindings

/-- The value of what an operand is bound to, or of the literal it is. -/
def valueOf? (bs : Bindings) (ρ : Valuation) (e : Expr) : Option RuleValue :=
  match bs.resolve? e with
  | some b => some (ρ b.path)
  | none => literalValue? e

def truth (bs : Bindings) (ρ : Valuation) : Expr → Bool
  | .unary _ .not e => !truth bs ρ e
  | .cast _ _ e => truth bs ρ e
  | .binary _ l .and r => truth bs ρ l && truth bs ρ r
  | .binary _ l .or r => truth bs ρ l || truth bs ρ r
  | .binary _ l op r =>
    match bs.valueOf? ρ l, bs.valueOf? ρ r with
    | some v, some w => v.compares op w
    | _, _ => false
  | e =>
    match bs.valueOf? ρ e with
    | some v => v == .bool true
    | none => false

/-- Every binding has a value it can have. -/
def Admit (bs : Bindings) (ρ : Valuation) : Prop :=
  ∀ name b, bs.get? name = some b → b.Admits (ρ b.path)

def AdmitBooleans (bs : Bindings) (ρ : Valuation) : Prop :=
  ∀ name b, bs.get? name = some b → b.isBoolean = true → ∃ x, ρ b.path = .bool x

theorem exists_get?_of_resolve? {bs : Bindings} {e : Expr} {b : Binding}
    (h : bs.resolve? e = some b) : ∃ name, bs.get? name = some b := by
  fun_induction Bindings.resolve? bs e with
  | case1 m n => exact ⟨n, h⟩
  | case2 m m' n p => exact ⟨n, h⟩
  | case3 m t e ih => exact ih h
  | case4 e => cases h

theorem Admit.resolve? {bs : Bindings} {ρ : Valuation} (h : bs.Admit ρ) {e : Expr}
    {b : Binding} (hb : bs.resolve? e = some b) : b.Admits (ρ b.path) := by
  obtain ⟨name, hname⟩ := exists_get?_of_resolve? hb
  exact h name b hname

theorem Admit.booleans {bs : Bindings} {ρ : Valuation} (h : bs.Admit ρ) :
    bs.AdmitBooleans ρ :=
  fun name b hb hbool => (h name b hb).boolean hbool

theorem AdmitBooleans.resolve? {bs : Bindings} {ρ : Valuation} (h : bs.AdmitBooleans ρ)
    {e : Expr} {b : Binding} (hb : bs.resolve? e = some b) (hbool : b.isBoolean = true) :
    ∃ x, ρ b.path = .bool x := by
  obtain ⟨name, hname⟩ := exists_get?_of_resolve? hb
  exact h name b hname hbool

theorem resolve?_of_literalValue? (bs : Bindings) {e : Expr} {v : RuleValue}
    (h : literalValue? e = some v) : bs.resolve? e = none := by
  fun_induction Bindings.resolve? bs e with
  | case1 m n => cases h
  | case2 m m' n p => cases h
  | case3 m t e ih => exact ih h
  | case4 e => rfl

theorem valueOf?_of_resolve? {bs : Bindings} {e : Expr} {b : Binding}
    (h : bs.resolve? e = some b) (ρ : Valuation) : bs.valueOf? ρ e = some (ρ b.path) := by
  rw [valueOf?, h]

theorem valueOf?_of_literalValue? (bs : Bindings) {e : Expr} {v : RuleValue}
    (h : literalValue? e = some v) (ρ : Valuation) : bs.valueOf? ρ e = some v := by
  rw [valueOf?, resolve?_of_literalValue? bs h]
  exact h

theorem truth_name {bs : Bindings} {n : String} {b : Binding} (h : bs.get? n = some b)
    (ρ : Valuation) (m : Syntax.Mark) :
    bs.truth ρ (.name m n) = (ρ b.path == .bool true) := by
  simp [truth, valueOf?, resolve?, h]

theorem truth_member {bs : Bindings} {n : String} {b : Binding} (h : bs.get? n = some b)
    (ρ : Valuation) (m m' : Syntax.Mark) (p : String) :
    bs.truth ρ (.member m (.name m' n) p) = (ρ b.path == .bool true) := by
  simp [truth, valueOf?, resolve?, h]

end Bindings

end PanelSchema
