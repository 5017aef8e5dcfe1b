import PanelSchema.Model.Basic

/-!
Equality of the values that conditions ask for. It is not reflexive, because of
floats that are no numbers, but two values equal to a third are equal.
-/

namespace PanelSchema

open Float.Model (UnpackedFloat)
open Float.Model.UnpackedFloat (Sign)

/-- What two floats must share to be equal as numbers. The zeros share one key,
and what is not a number has none. -/
private def equalityKey : UnpackedFloat → Option (Option Sign × Nat × Int)
  | .notANumber => none
  | .zero _ => some (none, 0, 0)
  | .infinity s => some (some s, 0, 0)
  | .finite s m e _ => some (some s, m, e)

private theorem compare_sign_eq (s t : Sign) : compare s t = .eq ↔ s = t := by
  cases s <;> cases t <;> simp [compare]

/-- Finite floats have a positive mantissa, so none shares its key with a zero or
an infinity. -/
private theorem beq_iff_equalityKey (a b : UnpackedFloat) :
    a.beq b = true ↔ ∃ k, equalityKey a = some k ∧ equalityKey b = some k := by
  unfold UnpackedFloat.beq
  cases a with
  | notANumber =>
    dsimp only [UnpackedFloat.compare, equalityKey]
    simp
  | infinity s =>
    cases b with
    | infinity t =>
      dsimp only [UnpackedFloat.compare, equalityKey]
      simp only [beq_iff_eq, Option.some.injEq, compare_sign_eq]
      constructor
      · rintro rfl
        exact ⟨_, rfl, rfl⟩
      · rintro ⟨k, rfl, hk⟩
        simpa using hk.symm
    | finite t n f hn =>
      cases s <;> dsimp only [UnpackedFloat.compare, equalityKey] <;> simp <;> omega
    | _ => cases s <;> dsimp only [UnpackedFloat.compare, equalityKey] <;> simp
  | zero s =>
    cases b with
    | infinity t => cases t <;> dsimp only [UnpackedFloat.compare, equalityKey] <;> simp
    | finite t n f hn => cases t <;> dsimp only [UnpackedFloat.compare, equalityKey] <;> simp
    | _ =>
      dsimp only [UnpackedFloat.compare, equalityKey]
      simp
  | finite s m e hm =>
    cases b with
    | notANumber =>
      dsimp only [UnpackedFloat.compare, equalityKey]
      simp
    | infinity t =>
      cases t <;> dsimp only [UnpackedFloat.compare, equalityKey] <;> simp <;> omega
    | zero t => cases s <;> dsimp only [UnpackedFloat.compare, equalityKey] <;> simp
    | finite t n f hn =>
      cases s <;> cases t <;> dsimp only [UnpackedFloat.compare, equalityKey] <;>
        simp [Ordering.then_eq_eq] <;> grind

private theorem float_beq_iff (x y : Float) :
    (x == y) = true ↔
      ∃ k, equalityKey x.toModel.unpack = some k ∧ equalityKey y.toModel.unpack = some k :=
  beq_iff_equalityKey _ _

instance floatPartialEquivBEq : PartialEquivBEq Float where
  symm := by
    intro x y h
    obtain ⟨k, hx, hy⟩ := (float_beq_iff x y).1 h
    exact (float_beq_iff y x).2 ⟨k, hy, hx⟩
  trans := by
    intro x y z h₁ h₂
    obtain ⟨k, hx, hy⟩ := (float_beq_iff x y).1 h₁
    obtain ⟨l, hy', hz⟩ := (float_beq_iff y z).1 h₂
    rw [hy] at hy'
    cases hy'
    exact (float_beq_iff x z).2 ⟨k, hx, hz⟩

namespace RuleValue

@[simp] theorem bool_beq (a b : Bool) : (RuleValue.bool a == .bool b) = (a == b) := rfl

@[simp] theorem int_beq (m n : Int) : (RuleValue.int m == .int n) = (m == n) := rfl

@[simp] theorem float_beq (x y : Float) : (RuleValue.float x == .float y) = (x == y) := rfl

theorem eq_or_floats_of_beq {v w : RuleValue} (h : (v == w) = true) :
    v = w ∨ ∃ x y, v = .float x ∧ w = .float y ∧ (x == y) = true := by
  cases v <;> cases w <;> simp_all [BEq.beq, same]

instance : PartialEquivBEq RuleValue where
  symm := by
    intro v w h
    rcases eq_or_floats_of_beq h with rfl | ⟨x, y, rfl, rfl, hxy⟩
    · exact h
    · rw [float_beq]
      exact BEq.symm hxy
  trans := by
    intro u v w h₁ h₂
    rcases eq_or_floats_of_beq h₁ with rfl | ⟨x, y, rfl, rfl, hxy⟩
    · exact h₂
    · rcases eq_or_floats_of_beq h₂ with rfl | ⟨y', z, hy, rfl, hyz⟩
      · exact h₁
      · cases hy
        rw [float_beq]
        exact BEq.trans hxy hyz

end RuleValue

end PanelSchema
