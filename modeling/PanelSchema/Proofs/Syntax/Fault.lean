import PanelSchema.Proofs.Source.Outline
import PanelSchema.Syntax.Literal

/-!
The two faults a matched source can have. A number may have no value, and a statement may
lack the one it governs: the empty statement leaves no piece.
-/

namespace PanelSchema.Syntax

open Source (Rule grammar statementRules textRules)
open Grammar

/-- The pieces that a piece is read from. Parameters are read for their types and names only,
and an index by its first expression. -/
def readFrom (p : Piece Rule) : List (Piece Rule) :=
  match p.rule with
  | .parameterList => []
  | .indexAccess => p.inner.take 1
  | _ => p.inner

theorem readFrom_eq_inner {p : Piece Rule} (hlist : p.rule ≠ .parameterList)
    (hindex : p.rule ≠ .indexAccess) : readFrom p = p.inner := by
  unfold readFrom
  split
  · contradiction
  · contradiction
  · rfl

theorem mem_of_mem_readFrom {p q : Piece Rule} (h : q ∈ readFrom p) : q ∈ p.inner := by
  unfold readFrom at h
  split at h
  · cases h
  · exact List.mem_of_mem_take h
  · exact h

/-- Reading the first piece comes to the second. -/
inductive Reads : Piece Rule → Piece Rule → Prop where
  | here (p : Piece Rule) : Reads p p
  | inside {p q r : Piece Rule} (hq : q ∈ readFrom p) (h : Reads q r) : Reads p r

theorem Reads.shaped {sp : Spacing} {p q : Piece Rule} (h : Reads p q)
    (hshaped : Shaped grammar sp p) : ∃ sp', Shaped grammar sp' q := by
  induction h generalizing sp with
  | here => exact ⟨sp, hshaped⟩
  | @inside p q _ hq _ ih =>
    cases hshaped with
    | mk _ hinner => exact ih (hinner q (mem_of_mem_readFrom hq))

/-- A number that has no value. -/
def Unvalued (p : Piece Rule) : Prop :=
  p.rule = .number ∧ (numberValue? p.chars).isNone = true

def governingRules : List Rule :=
  [.ifStmt, .elseClause, .usingStmt, .foreachStmt, .forStmt, .whileStmt, .doStmt]

/-- A statement without the one it governs. -/
def Bodiless (p : Piece Rule) : Prop :=
  p.rule ∈ governingRules ∧ ∀ q ∈ p.inner, q.rule ∉ statementRules

def Clean (p : Piece Rule) : Prop :=
  ∀ q, Reads p q → ¬(Unvalued q ∨ Bodiless q)

theorem not_clean_iff {p : Piece Rule} :
    ¬Clean p ↔ ∃ q, Reads p q ∧ (Unvalued q ∨ Bodiless q) := by
  unfold Clean
  push Not
  rfl

theorem clean_iff {p : Piece Rule} :
    Clean p ↔ ¬Unvalued p ∧ ¬Bodiless p ∧ ∀ q ∈ readFrom p, Clean q := by
  constructor
  · intro h
    have hhere := h p (.here p)
    rw [not_or] at hhere
    exact ⟨hhere.1, hhere.2, fun q hq r hr => h r (.inside hq hr)⟩
  · rintro ⟨hvalue, hbody, hinside⟩ q hq
    cases hq with
    | here => exact not_or.2 ⟨hvalue, hbody⟩
    | inside hr h => exact hinside _ hr q h

theorem clean_text {sp : Spacing} {p : Piece Rule} (h : Shaped grammar sp p)
    (hrule : p.rule ∈ textRules) : Clean p := by
  induction h with
  | @mk sp p h _ ih =>
    have hinner := Source.leaves_closed Source.isClosed_textRules h.inner
      (Source.isClosed_textRules p.rule hrule)
    have htext : ∀ r ∈ textRules,
        r ≠ .number ∧ r ≠ .parameterList ∧ r ≠ .indexAccess ∧ r ∉ governingRules := by
      decide
    obtain ⟨hnumber, hlist, hindex, hgoverning⟩ := htext p.rule hrule
    rw [clean_iff, readFrom_eq_inner hlist hindex]
    exact ⟨fun hp => hnumber hp.1, fun hp => hgoverning hp.1,
      fun q hq => ih q hq (hinner q hq).1⟩

theorem clean_whole {p : Piece Rule}
    (hrule : p.rule ∉ .number :: .parameterList :: .indexAccess :: governingRules) :
    Clean p ↔ ∀ q ∈ p.inner, Clean q := by
  simp only [List.mem_cons, not_or] at hrule
  obtain ⟨hnumber, hlist, hindex, hgoverning⟩ := hrule
  rw [clean_iff, readFrom_eq_inner hlist hindex]
  simp [Unvalued, Bodiless, hnumber, hgoverning]

theorem clean_parameterList {p : Piece Rule} (hrule : p.rule = .parameterList) : Clean p := by
  rw [clean_iff]
  simp [Unvalued, Bodiless, governingRules, readFrom, hrule]

theorem clean_governing {p : Piece Rule} (hrule : p.rule ∈ governingRules) :
    Clean p ↔ (∃ q ∈ p.inner, q.rule ∈ statementRules) ∧ ∀ q ∈ p.inner, Clean q := by
  have hother : ∀ r ∈ governingRules, r ≠ .number ∧ r ≠ .parameterList ∧ r ≠ .indexAccess := by
    decide
  obtain ⟨hnumber, hlist, hindex⟩ := hother p.rule hrule
  rw [clean_iff, readFrom_eq_inner hlist hindex]
  simp [Unvalued, Bodiless, hnumber, hrule]

end PanelSchema.Syntax
