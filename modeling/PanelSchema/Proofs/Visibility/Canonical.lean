import PanelSchema.Proofs.Visibility.Meaning

/-!
The form of conditions. However a visibility is built, its conditions have a value for every
path and ask for something, and neither terms nor conditions are repeated.
-/

namespace PanelSchema

/-- The condition asks for something, and for nothing twice. -/
structure Condition.Canonical (c : Condition) : Prop where
  aligned : c.Aligned
  nonempty : c.terms ≠ []
  distinct : Distinct c.terms

/-- No condition is there twice. -/
structure Visibility.Canonical (v : Visibility) : Prop where
  conditions : ∀ c ∈ v.conditions, c.Canonical
  distinct : Distinct v.conditions

namespace Visibility

/-- What the operations on visibilities build. -/
inductive Built : Visibility → Prop where
  | always : Built always
  | single (path : String) (value : RuleValue) : Built (single path value)
  | ofConditions {cs : List Condition} (h : ∀ c ∈ cs, c.Canonical) : Built (ofConditions cs)
  | and {v w : Visibility} (hv : Built v) (hw : Built w) : Built (v.and w)
  | or {v w : Visibility} (hv : Built v) (hw : Built w) : Built (v.or w)
  | negate {v : Visibility} (hv : Built v) : Built v.negate

end Visibility

/-! ### Terms -/

namespace Condition

theorem canonical_single (path : String) (value : RuleValue) :
    (single path value).Canonical where
  aligned := rfl
  nonempty := by simp
  distinct := distinct_singleton _

theorem terms_addTerm {c : Condition} (hc : c.Aligned) (t : String × RuleValue) :
    (Visibility.addTerm c t).terms = adding c.terms t := by
  -- The two ask for an equal term from different sides, and equality is symmetric.
  have hsame : c.terms.any (fun u => u.1 == t.1 && u.2 == t.2) = c.terms.contains t := by
    rw [List.contains_eq_any_beq]
    congr 1
    funext u
    exact BEq.comm (a := u) (b := t)
  unfold Visibility.addTerm adding
  rw [hsame]
  split
  · rfl
  · exact List.zip_append hc

theorem terms_merge {c : Condition} (hc : c.Aligned) (d : Condition) :
    (Visibility.merge c d).terms = d.terms.foldl adding c.terms := by
  unfold Visibility.merge
  induction d.terms generalizing c with
  | nil => rfl
  | cons t ts ih =>
    rw [List.foldl_cons, ih (Visibility.aligned_addTerm hc t), terms_addTerm hc, List.foldl_cons]

theorem Canonical.merge {c : Condition} (hc : c.Canonical) (d : Condition) :
    (Visibility.merge c d).Canonical where
  aligned := Visibility.aligned_merge hc.aligned d
  nonempty := Visibility.terms_merge_ne_nil hc.aligned hc.nonempty d
  distinct := by
    rw [terms_merge hc.aligned]
    exact hc.distinct.foldl_adding d.terms

end Condition

/-! ### Conditions -/

namespace Visibility

theorem conditions_add (v : Visibility) (c : Condition) :
    (v.add c).conditions = adding v.conditions c := by
  unfold add adding
  split <;> rfl

theorem conditions_foldl_add (cs : List Condition) (v : Visibility) :
    (cs.foldl add v).conditions = cs.foldl adding v.conditions := by
  induction cs generalizing v with
  | nil => rfl
  | cons c cs ih => rw [List.foldl_cons, ih, conditions_add, List.foldl_cons]

theorem canonical_always : always.Canonical where
  conditions _ hc := by cases hc
  distinct := distinct_nil

theorem canonical_single (path : String) (value : RuleValue) : (single path value).Canonical where
  conditions _ hc := List.mem_singleton.1 hc ▸ Condition.canonical_single path value
  distinct := distinct_singleton _

theorem Canonical.foldl_add {v : Visibility} (hv : v.Canonical) {cs : List Condition}
    (hcs : ∀ c ∈ cs, c.Canonical) : (cs.foldl add v).Canonical where
  conditions c hc := (mem_foldl_add hc).elim (hv.conditions c) (hcs c)
  distinct := by
    rw [conditions_foldl_add]
    exact hv.distinct.foldl_adding cs

theorem canonical_ofConditions {cs : List Condition} (h : ∀ c ∈ cs, c.Canonical) :
    (ofConditions cs).Canonical :=
  canonical_always.foldl_add h

theorem Canonical.or {v w : Visibility} (hv : v.Canonical) (hw : w.Canonical) :
    (v.or w).Canonical :=
  hv.foldl_add hw.conditions

theorem Canonical.and {v w : Visibility} (hv : v.Canonical) (hw : w.Canonical) :
    (v.and w).Canonical := by
  unfold Visibility.and
  split
  · exact hw
  · split
    · exact hv
    · apply canonical_ofConditions
      intro e he
      obtain ⟨c, hc, he⟩ := List.mem_flatMap.1 he
      obtain ⟨d, -, rfl⟩ := List.mem_map.1 he
      exact (hv.conditions c hc).merge d

theorem canonical_of_mem_refute {c d : Condition} (h : d ∈ refute c) : d.Canonical := by
  obtain ⟨t, -, hd⟩ := List.mem_filterMap.1 h
  obtain ⟨o, -, rfl⟩ := Option.map_eq_some_iff.1 hd
  exact Condition.canonical_single _ o

theorem Canonical.negateStep {v : Visibility} (hv : v.Canonical) (c : Condition) :
    (v.negateStep c).Canonical := by
  unfold Visibility.negateStep
  split
  · exact hv
  · exact hv.and (canonical_ofConditions fun _ => canonical_of_mem_refute)

theorem canonical_negate (v : Visibility) : v.negate.Canonical := by
  have hfold : ∀ (cs : List Condition) (w : Visibility), w.Canonical →
      (cs.foldl Visibility.negateStep w).Canonical := by
    intro cs
    induction cs with
    | nil => exact fun w hw => hw
    | cons c cs ih => exact fun w hw => ih _ (hw.negateStep c)
  exact hfold v.conditions always canonical_always

theorem Canonical.aligned {v : Visibility} (h : v.Canonical) : v.Aligned :=
  fun c hc => (h.conditions c hc).aligned

theorem Built.canonical {v : Visibility} (h : v.Built) : v.Canonical := by
  induction h with
  | always => exact canonical_always
  | single path value => exact canonical_single path value
  | ofConditions h => exact canonical_ofConditions h
  | and hv hw ihv ihw => exact ihv.and ihw
  | or hv hw ihv ihw => exact ihv.or ihw
  | negate hv ih => exact canonical_negate _

end Visibility

end PanelSchema
