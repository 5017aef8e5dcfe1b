import PanelSchema.Proofs.Syntax.Chains

/-!
A source with one class and one field in it, whose value is a chain of binary operators. It is
always read, and the value is the one formula that the levels of the operators allow.
-/

namespace PanelSchema.Syntax

open Source (Rule Identifier EndsName Solid grammar)
open Grammar Build Reading

theorem takesValue_chain (a : Identifier) (ops : Joined) :
    TakesValue (a.text ++ joined ops) (ReadsAs 0 a ops) where
  solid := by
    rw [List.append_assoc]
    exact a.solid _
  not_list := by
    rw [List.append_assoc]
    exact a.refuses 20 (by decide) (by decide) _
  takes := takes_expression a ops

/-- A field whose value is a chain of names and binary operators is read. Its value is the one
formula that reads in order as the chain and in which no operand binds looser than its operator,
nor as loose as it on the right. -/
theorem parse_chain (file : String) (f : FieldFrame) (a : Identifier) (ops : Joined) :
    ∃ tree m m' e t,
      (parse file (f.around (a.text ++ joined ops))).result = .ok tree ∧
      tree.body = [.classDecl m [] (String.ofList f.owner.text)
        [.field m' [] [] (String.ofList f.type.text) (String.ofList f.name.text) (some e)]] ∧
      e.formula? = some t ∧ t.Grouped ∧ t.chain = (a.name, named ops) ∧
      ∀ u : Formula, u.Grouped → u.chain = (a.name, named ops) → u = t := by
  obtain ⟨tree, m, m', e, htree, hbody, t, ht, hgrouped, -, hchain⟩ :=
    FieldFrame.parse_around (fun p hp => hp file) f (takesValue_chain a ops)
  refine ⟨tree, m, m', e, t, htree, hbody, ht, hgrouped, hchain, fun u hu hu' => ?_⟩
  exact hu.unique hgrouped (hu'.trans hchain.symm)

/-- `a ?? (((b < c) > ((d - e) - (g * h))) | i) || j` -/
def mixedFormula : Formula :=
  .binary (.name "a") .coalesce
    (.binary
      (.binary
        (.binary (.binary (.name "b") .lt (.name "c")) .gt
          (.binary (.binary (.name "d") .sub (.name "e")) .sub
            (.binary (.name "g") .mul (.name "h"))))
        .bitOr (.name "i"))
      .or (.name "j"))

/-- Tokens that start alike, comparisons that look like type arguments, and a level twice. -/
theorem parse_chain_mixed :
    ∃ tree m m' e,
      (parse "K.cs" "class K \x7b T f = a ?? b < c > d - e - g * h | i || j; \x7d").result =
        .ok tree ∧
      tree.body = [.classDecl m [] "K" [.field m' [] [] "T" "f" (some e)]] ∧
      e.formula? = some mixedFormula := by
  obtain ⟨tree, m, m', e, t, hparse, hbody, ht, -, -, hunique⟩ :=
    parse_chain "K.cs" smallFrame (letter 'a' (by decide))
      [(.coalesce, letter 'b' (by decide)), (.lt, letter 'c' (by decide)),
        (.gt, letter 'd' (by decide)), (.sub, letter 'e' (by decide)),
        (.sub, letter 'g' (by decide)), (.mul, letter 'h' (by decide)),
        (.bitOr, letter 'i' (by decide)), (.or, letter 'j' (by decide))]
  refine ⟨tree, m, m', e, hparse, hbody, ?_⟩
  rw [ht, ← hunique mixedFormula (by decide) rfl]

end PanelSchema.Syntax
