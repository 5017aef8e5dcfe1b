import PanelSchema.Proofs.Visibility.Canonical

/-!
What a negation says. It asks for an opposite of each condition that it takes in, and a
value that is neither of the two satisfies neither the conditions nor their negation.
-/

namespace PanelSchema

namespace Visibility

theorem aligned_refute (c : Condition) : (ofConditions (refute c)).Aligned :=
  (canonical_ofConditions fun _ => canonical_of_mem_refute).aligned

theorem Aligned.negateStep {v : Visibility} (hv : v.Aligned) (c : Condition) :
    (v.negateStep c).Aligned := by
  unfold Visibility.negateStep
  split
  · exact hv
  · exact hv.and (aligned_refute c)

/-- The conditions among `cs` whose opposites narrow `w`: those with an opposite, unless
the product is past the limit. -/
def refutedFrom (w : Visibility) : List Condition → List Condition
  | [] => []
  | c :: cs =>
    if (refute c).isEmpty || w.exceedsLimit (ofConditions (refute c)) then
      refutedFrom (w.negateStep c) cs
    else
      c :: refutedFrom (w.negateStep c) cs

def refuted (v : Visibility) : List Condition :=
  refutedFrom always v.conditions

theorem holds_negateStep (r : Reading) {w : Visibility} (hw : w.Aligned) (c : Condition) :
    (w.negateStep c).holds r =
      (w.holds r && (((refute c).isEmpty || w.exceedsLimit (ofConditions (refute c))) ||
        (refute c).any (·.holds r))) := by
  unfold negateStep
  split
  · rename_i hnone
    simp [hnone]
  · rename_i hsome
    have hne : (refute c).isEmpty = false := by
      rw [List.isEmpty_eq_false_iff]
      exact hsome
    have hasks : (ofConditions (refute c)).isAlways = false := by
      rw [isAlways_ofConditions, hne]
    rw [holds_and_limit r hw, holds_eq_met hasks, met_ofConditions, hne, Bool.false_or,
      Bool.or_comm]

theorem holds_foldl_negateStep (r : Reading) (cs : List Condition) {w : Visibility}
    (hw : w.Aligned) :
    (cs.foldl negateStep w).holds r =
      (w.holds r && (refutedFrom w cs).all fun c => (refute c).any (·.holds r)) := by
  induction cs generalizing w with
  | nil => simp [refutedFrom]
  | cons c cs ih =>
    rw [List.foldl_cons, ih (hw.negateStep c), holds_negateStep r hw, refutedFrom]
    split
    · rename_i hskipped
      rw [hskipped, Bool.true_or, Bool.and_true]
    · rename_i htaken
      rw [Bool.not_eq_true] at htaken
      rw [htaken, Bool.false_or, List.all_cons, Bool.and_assoc]

/-- The negation holds when each condition it takes in has an opposite that is true. -/
theorem holds_negate (r : Reading) (v : Visibility) :
    v.negate.holds r = v.refuted.all fun c => (refute c).any (·.holds r) := by
  rw [negate, holds_foldl_negateStep r v.conditions aligned_always, holds_always,
    Bool.true_and, refuted]

theorem mem_of_mem_refutedFrom {c : Condition} {cs : List Condition} {w : Visibility}
    (h : c ∈ refutedFrom w cs) : c ∈ cs := by
  induction cs generalizing w with
  | nil => cases h
  | cons d cs ih =>
    rw [refutedFrom] at h
    split at h
    · exact List.mem_cons_of_mem d (ih h)
    · rcases List.mem_cons.1 h with rfl | h
      · exact List.mem_cons_self
      · exact List.mem_cons_of_mem d (ih h)

/-- Neither the conditions nor their negation hold: no condition is met, and one that the
negation takes in has no term whose opposite is true. -/
structure Gap (r : Reading) (v : Visibility) : Prop where
  unmet : v.holds r = false
  unopposed : ∃ c ∈ v.refuted, ∀ t ∈ c.terms, ∀ o, opposite? t.2 = some o → r.truth t.1 o = false

theorem any_refute_eq_false {r : Reading} {c : Condition} :
    (refute c).any (·.holds r) = false ↔
      ∀ t ∈ c.terms, ∀ o, opposite? t.2 = some o → r.truth t.1 o = false := by
  simp only [List.any_eq_false, Bool.not_eq_true]
  constructor
  · intro h t ht o ho
    rw [← Condition.holds_single r t.1 o]
    exact h _ (List.mem_filterMap.2 ⟨t, ht, by simp [ho]⟩)
  · intro h d hd
    obtain ⟨t, ht, hd⟩ := List.mem_filterMap.1 hd
    obtain ⟨o, ho, rfl⟩ := Option.map_eq_some_iff.1 hd
    rw [Condition.holds_single]
    exact h t ht o ho

theorem gap_iff {r : Reading} {v : Visibility} :
    v.Gap r ↔ v.holds r = false ∧ v.negate.holds r = false := by
  rw [holds_negate, List.all_eq_false]
  simp only [Bool.not_eq_true, any_refute_eq_false]
  exact ⟨fun h => ⟨h.unmet, h.unopposed⟩, fun h => ⟨h.1, h.2⟩⟩

/-- There is no gap where each path of a condition has the value asked for or its
opposite. -/
theorem not_gap_of_opposites {r : Reading} {v : Visibility}
    (h : ∀ c ∈ v.refuted, ∀ t ∈ c.terms, ∃ o, opposite? t.2 = some o ∧
      (r.truth t.1 t.2 = false → r.truth t.1 o = true)) : ¬v.Gap r := by
  rintro ⟨hunmet, c, hc, hunopposed⟩
  have hmet : v.met r = false := (Bool.or_eq_false_iff.1 hunmet).2
  have hfails : c.holds r = false := by
    have hall := List.any_eq_false.1 hmet c (mem_of_mem_refutedFrom hc)
    rwa [Bool.not_eq_true] at hall
  obtain ⟨t, ht, hfalse⟩ := List.all_eq_false.1 hfails
  obtain ⟨o, ho, hopposite⟩ := h c hc t ht
  rw [Bool.not_eq_true] at hfalse
  have htrue := hopposite hfalse
  rw [hunopposed t ht o ho] at htrue
  cases htrue

end Visibility

end PanelSchema
