import PanelSchema.Syntax.Tree

/-!
Names joined by binary operators. Of the formulas that read in order as a given chain, one is
grouped by the levels of the operators, and within a level from the left.
-/

namespace PanelSchema.Syntax

namespace BinaryOp

def token : BinaryOp → List Char
  | .eq => ['=', '=']
  | .ne => ['!', '=']
  | .lt => ['<']
  | .le => ['<', '=']
  | .gt => ['>']
  | .ge => ['>', '=']
  | .add => ['+']
  | .sub => ['-']
  | .mul => ['*']
  | .div => ['/']
  | .mod => ['%']
  | .and => ['&', '&']
  | .or => ['|', '|']
  | .bitAnd => ['&']
  | .bitOr => ['|']
  | .bitXor => ['^']
  | .coalesce => ['?', '?']

def level : BinaryOp → Nat
  | .coalesce => 0
  | .or => 1
  | .and => 2
  | .bitOr => 3
  | .bitXor => 4
  | .bitAnd => 5
  | .eq | .ne => 6
  | .lt | .le | .gt | .ge => 7
  | .add | .sub => 8
  | .mul | .div | .mod => 9

@[simp] theorem ofToken?_token (op : BinaryOp) : ofToken? op.token = some op := by
  cases op <;> rfl

theorem level_lt (op : BinaryOp) : op.level < 10 := by
  cases op <;> decide

end BinaryOp

inductive Formula where
  | name (n : String)
  | binary (left : Formula) (op : BinaryOp) (right : Formula)
deriving DecidableEq, Repr, Inhabited

namespace Formula

def level : Formula → Nat
  | .name _ => 10
  | .binary _ op _ => op.level

/-- The first name and what is joined to it, in the order of the text. -/
def chain : Formula → String × List (BinaryOp × String)
  | .name n => (n, [])
  | .binary left op right =>
    (left.chain.1, left.chain.2 ++ (op, right.chain.1) :: right.chain.2)

/-- No operand binds looser than its operator, and one on the right not as loose either. -/
def Grouped : Formula → Prop
  | .name _ => True
  | .binary left op right =>
    left.Grouped ∧ right.Grouped ∧ op.level ≤ left.level ∧ op.level < right.level

instance decidableGrouped : (t : Formula) → Decidable t.Grouped
  | .name _ => .isTrue trivial
  | .binary left op right =>
    have := decidableGrouped left
    have := decidableGrouped right
    inferInstanceAs (Decidable
      (left.Grouped ∧ right.Grouped ∧ op.level ≤ left.level ∧ op.level < right.level))

theorem Grouped.level_le {t : Formula} (h : t.Grouped) :
    ∀ x ∈ t.chain.2, t.level ≤ x.1.level := by
  induction t with
  | name n => simp [chain]
  | binary left op right ihl ihr =>
    obtain ⟨hl, hr, hleft, hright⟩ := h
    intro x hx
    rw [chain, List.mem_append, List.mem_cons] at hx
    rw [level]
    rcases hx with hx | rfl | hx
    · exact Nat.le_trans hleft (ihl hl x hx)
    · exact Nat.le_refl _
    · exact Nat.le_trans (Nat.le_of_lt hright) (ihr hr x hx)

/-- The last of the loosest operators is at one place only. -/
theorem loosest_unique {as as' bs bs' : List (BinaryOp × String)} {x x' : BinaryOp × String}
    (h : as ++ x :: bs = as' ++ x' :: bs') (has : ∀ y ∈ as, x.1.level ≤ y.1.level)
    (has' : ∀ y ∈ as', x'.1.level ≤ y.1.level) (hbs : ∀ y ∈ bs, x.1.level < y.1.level)
    (hbs' : ∀ y ∈ bs', x'.1.level < y.1.level) : as = as' ∧ x = x' ∧ bs = bs' := by
  rcases List.append_eq_append_iff.1 h with ⟨cs, rfl, hcs⟩ | ⟨cs, rfl, hcs⟩
  · cases cs with
    | nil => simpa using hcs
    | cons y cs =>
      rw [List.cons_append, List.cons.injEq] at hcs
      obtain ⟨rfl, rfl⟩ := hcs
      have hle := has' x (by simp)
      have hlt := hbs x' (by simp)
      omega
  · cases cs with
    | nil => simpa [eq_comm] using hcs
    | cons y cs =>
      rw [List.cons_append, List.cons.injEq] at hcs
      obtain ⟨rfl, rfl⟩ := hcs
      have hle := has x' (by simp)
      have hlt := hbs' x (by simp)
      omega

theorem Grouped.unique {t u : Formula} (ht : t.Grouped) (hu : u.Grouped)
    (h : t.chain = u.chain) : t = u := by
  induction t generalizing u with
  | name n =>
    cases u with
    | name n' =>
      cases h
      rfl
    | binary left op right => simp [chain] at h
  | binary left op right ihl ihr =>
    cases u with
    | name n => simp [chain] at h
    | binary left' op' right' =>
      obtain ⟨hl, hr, hleft, hright⟩ := ht
      obtain ⟨hl', hr', hleft', hright'⟩ := hu
      rw [chain, chain, Prod.mk.injEq] at h
      obtain ⟨hfirst, hrest⟩ := h
      obtain ⟨hlops, hop, hrops⟩ := loosest_unique hrest
        (fun y hy => Nat.le_trans hleft (hl.level_le y hy))
        (fun y hy => Nat.le_trans hleft' (hl'.level_le y hy))
        (fun y hy => Nat.lt_of_lt_of_le hright (hr.level_le y hy))
        (fun y hy => Nat.lt_of_lt_of_le hright' (hr'.level_le y hy))
      rw [Prod.mk.injEq] at hop
      rw [ihl hl hl' (Prod.ext hfirst hlops), hop.1, ihr hr hr' (Prod.ext hop.2 hrops)]

end Formula

/-- The formula of an expression, if there are only names and binary operators in it. -/
def Expr.formula? : Expr → Option Formula
  | .name _ n => some (.name n)
  | .binary _ left op right =>
    match left.formula?, right.formula? with
    | some l, some r => some (.binary l op r)
    | _, _ => none
  | _ => none

end PanelSchema.Syntax
