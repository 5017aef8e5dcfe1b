import PanelSchema.Proofs.Distinct
import PanelSchema.Proofs.Traced
import PanelSchema.Proofs.Values
import PanelSchema.Visibility.Basic

/-!
What a visibility says. A reading tells which terms are true. A condition holds
when all of its terms do, a visibility when it asks for nothing or one of its
conditions holds.
-/

namespace PanelSchema

/-- Which terms are true. -/
structure Reading where
  truth : String → RuleValue → Bool
  truth_congr : ∀ path v w, (v == w) = true → truth path v = truth path w

/-- The value at every path. -/
abbrev Valuation := String → RuleValue

def Valuation.reading (ρ : Valuation) : Reading where
  truth path value := ρ path == value
  truth_congr := by
    intro path v w h
    exact BEq.congr_right h

namespace Condition

def holds (r : Reading) (c : Condition) : Bool :=
  c.terms.all fun t => r.truth t.1 t.2

/-- Every path has a value. -/
def Aligned (c : Condition) : Prop :=
  c.paths.length = c.values.length

theorem beq_iff (c d : Condition) :
    (c == d) = true ↔ c.paths = d.paths ∧ (c.values == d.values) = true := by
  change (c.paths == d.paths && c.values == d.values) = true ↔ _
  rw [Bool.and_eq_true, beq_iff_eq]

instance partialEquivBEq : PartialEquivBEq Condition where
  symm := by
    intro c d h
    rw [beq_iff] at h ⊢
    exact ⟨h.1.symm, PartialEquivBEq.symm h.2⟩
  trans := by
    intro c d e hcd hde
    rw [beq_iff] at hcd hde ⊢
    exact ⟨hcd.1.trans hde.1, PartialEquivBEq.trans hcd.2 hde.2⟩

private theorem all_zip_congr (r : Reading) (paths : List String) :
    ∀ {vs ws : List RuleValue}, (vs == ws) = true →
      (paths.zip vs).all (fun t => r.truth t.1 t.2) =
        (paths.zip ws).all fun t => r.truth t.1 t.2 := by
  induction paths with
  | nil => simp
  | cons path rest ih =>
    intro vs ws h
    cases vs with
    | nil => cases ws <;> simp_all
    | cons v vs =>
      cases ws with
      | nil => simp at h
      | cons w ws =>
        rw [List.cons_beq_cons, Bool.and_eq_true] at h
        simp only [List.zip_cons_cons, List.all_cons, ih h.2, r.truth_congr path v w h.1]

theorem holds_congr (r : Reading) {c d : Condition} (h : (c == d) = true) :
    c.holds r = d.holds r := by
  obtain ⟨hpaths, hvalues⟩ := (beq_iff c d).1 h
  unfold holds terms
  rw [hpaths]
  exact all_zip_congr r d.paths hvalues

@[simp] theorem terms_single (path : String) (value : RuleValue) :
    (single path value).terms = [(path, value)] := rfl

@[simp] theorem holds_single (r : Reading) (path : String) (value : RuleValue) :
    (single path value).holds r = r.truth path value := by
  simp [holds]

end Condition

namespace Visibility

def met (r : Reading) (v : Visibility) : Bool :=
  v.conditions.any (·.holds r)

def holds (r : Reading) (v : Visibility) : Bool :=
  v.isAlways || v.met r

def Aligned (v : Visibility) : Prop :=
  ∀ c ∈ v.conditions, c.Aligned

theorem holds_eq_met {v : Visibility} (h : v.isAlways = false) (r : Reading) :
    v.holds r = v.met r := by
  simp [holds, h]

@[simp] theorem holds_always (r : Reading) : always.holds r = true := rfl

theorem met_of_isAlways {v : Visibility} (h : v.isAlways = true) (r : Reading) :
    v.met r = false := by
  rw [met, List.isEmpty_iff.1 h]
  rfl

@[simp] theorem met_single (r : Reading) (path : String) (value : RuleValue) :
    (single path value).met r = r.truth path value := by
  simp [met, single]

/-! ### Adding conditions -/

theorem met_add (r : Reading) (v : Visibility) (c : Condition) :
    (v.add c).met r = (v.met r || c.holds r) := by
  unfold add
  split
  · rename_i hthere
    obtain ⟨d, hd, hcd⟩ := List.contains_iff_exists_mem_beq.1 hthere
    -- An equal condition is there already, so `c` adds nothing.
    cases hc : c.holds r
    · simp
    · have hmet : v.met r = true := by
        rw [met, List.any_eq_true]
        exact ⟨d, hd, by rw [← Condition.holds_congr r hcd, hc]⟩
      simp [hmet]
  · simp [met]

theorem isAlways_add (v : Visibility) (c : Condition) : (v.add c).isAlways = false := by
  unfold add
  split
  · rename_i hthere
    cases hv : v.conditions with
    | nil => simp [hv] at hthere
    | cons d ds => simp [isAlways, hv]
  · simp [isAlways]

theorem mem_add {v : Visibility} {c d : Condition} (h : d ∈ (v.add c).conditions) :
    d ∈ v.conditions ∨ d = c := by
  unfold add at h
  split at h
  · exact .inl h
  · simpa using h

theorem met_foldl_add (r : Reading) (cs : List Condition) (v : Visibility) :
    (cs.foldl add v).met r = (v.met r || cs.any (·.holds r)) := by
  induction cs generalizing v with
  | nil => simp
  | cons c cs ih => rw [List.foldl_cons, ih, met_add, List.any_cons, Bool.or_assoc]

theorem isAlways_foldl_add (cs : List Condition) (v : Visibility) :
    (cs.foldl add v).isAlways = (v.isAlways && cs.isEmpty) := by
  induction cs generalizing v with
  | nil => simp
  | cons c cs ih => rw [List.foldl_cons, ih, isAlways_add]; simp

theorem mem_foldl_add {cs : List Condition} {v : Visibility} {d : Condition}
    (h : d ∈ (cs.foldl add v).conditions) : d ∈ v.conditions ∨ d ∈ cs := by
  induction cs generalizing v with
  | nil => exact .inl h
  | cons c cs ih =>
    rcases ih h with hv | hcs
    · rcases mem_add hv with hv | rfl
      · exact .inl hv
      · exact .inr List.mem_cons_self
    · exact .inr (List.mem_cons_of_mem _ hcs)

theorem met_ofConditions (r : Reading) (cs : List Condition) :
    (ofConditions cs).met r = cs.any (·.holds r) := by
  rw [ofConditions, met_foldl_add]
  rfl

theorem isAlways_ofConditions (cs : List Condition) :
    (ofConditions cs).isAlways = cs.isEmpty := by
  rw [ofConditions, isAlways_foldl_add]
  rfl

theorem mem_ofConditions {cs : List Condition} {d : Condition}
    (h : d ∈ (ofConditions cs).conditions) : d ∈ cs := by
  rcases mem_foldl_add h with hnone | hcs
  · simp [always] at hnone
  · exact hcs

theorem met_or (r : Reading) (v w : Visibility) : (v.or w).met r = (v.met r || w.met r) :=
  met_foldl_add r w.conditions v

theorem isAlways_or (v w : Visibility) : (v.or w).isAlways = (v.isAlways && w.isAlways) :=
  isAlways_foldl_add w.conditions v

theorem mem_or {v w : Visibility} {d : Condition} (h : d ∈ (v.or w).conditions) :
    d ∈ v.conditions ∨ d ∈ w.conditions :=
  mem_foldl_add h

theorem aligned_always : always.Aligned := by
  intro c hc
  cases hc

theorem aligned_single (path : String) (value : RuleValue) : (single path value).Aligned := by
  intro c hc
  rw [List.mem_singleton.1 hc]
  rfl

theorem Aligned.or {v w : Visibility} (hv : v.Aligned) (hw : w.Aligned) : (v.or w).Aligned := by
  intro c hc
  rcases mem_or hc with h | h
  · exact hv c h
  · exact hw c h

/-! ### Products -/

theorem terms_addTerm {c : Condition} (hc : c.Aligned) (t : String × RuleValue) :
    (addTerm c t).terms = c.terms ∨ (addTerm c t).terms = c.terms ++ [t] := by
  unfold addTerm
  split
  · exact .inl rfl
  · right
    unfold Condition.terms
    rw [List.zip_append hc]
    rfl

theorem aligned_addTerm {c : Condition} (hc : c.Aligned) (t : String × RuleValue) :
    (addTerm c t).Aligned := by
  unfold addTerm
  split
  · exact hc
  · unfold Condition.Aligned at hc ⊢
    simp [hc]

theorem holds_addTerm (r : Reading) {c : Condition} (hc : c.Aligned)
    (t : String × RuleValue) :
    (addTerm c t).holds r = (c.holds r && r.truth t.1 t.2) := by
  unfold addTerm
  split
  · rename_i hthere
    obtain ⟨u, hu, hut⟩ := List.any_eq_true.1 hthere
    rw [Bool.and_eq_true, beq_iff_eq] at hut
    cases hholds : c.holds r
    · rfl
    · have htruth : r.truth u.1 u.2 = true := List.all_eq_true.1 hholds u hu
      rw [← hut.1, ← r.truth_congr u.1 u.2 t.2 hut.2, htruth]
      rfl
  · unfold Condition.holds Condition.terms
    rw [List.zip_append hc]
    simp

theorem aligned_merge {c : Condition} (hc : c.Aligned) (d : Condition) :
    (merge c d).Aligned := by
  unfold merge
  induction d.terms generalizing c with
  | nil => exact hc
  | cons t ts ih => exact ih (aligned_addTerm hc t)

theorem holds_merge (r : Reading) {c : Condition} (hc : c.Aligned) (d : Condition) :
    (merge c d).holds r = (c.holds r && d.holds r) := by
  unfold merge
  rw [Condition.holds.eq_1 r d]
  induction d.terms generalizing c with
  | nil => simp
  | cons t ts ih =>
    rw [List.foldl_cons, ih (aligned_addTerm hc t), holds_addTerm r hc, List.all_cons,
      Bool.and_assoc]

theorem mem_terms_merge {c : Condition} (hc : c.Aligned) (d : Condition)
    {t : String × RuleValue} (h : t ∈ (merge c d).terms) : t ∈ c.terms ∨ t ∈ d.terms := by
  unfold merge at h
  generalize d.terms = ts at h ⊢
  induction ts generalizing c with
  | nil => exact .inl h
  | cons u us ih =>
    rcases ih (aligned_addTerm hc u) h with hleft | hright
    · rcases terms_addTerm hc u with heq | heq
      · exact .inl (heq ▸ hleft)
      · rw [heq, List.mem_append, List.mem_singleton] at hleft
        rcases hleft with hleft | rfl
        · exact .inl hleft
        · exact .inr List.mem_cons_self
    · exact .inr (List.mem_cons_of_mem _ hright)

theorem terms_merge_ne_nil {c : Condition} (hc : c.Aligned) (hne : c.terms ≠ [])
    (d : Condition) : (merge c d).terms ≠ [] := by
  unfold merge
  induction d.terms generalizing c with
  | nil => exact hne
  | cons t ts ih =>
    apply ih (aligned_addTerm hc t)
    rcases terms_addTerm hc t with heq | heq
    · rw [heq]
      exact hne
    · rw [heq]
      simp

private theorem and_of_fits {v w : Visibility} (hv : v.isAlways = false)
    (hw : w.isAlways = false) (hfits : v.exceedsLimit w = false) :
    v.and w = ofConditions (v.conditions.flatMap fun c => w.conditions.map (merge c)) := by
  simp [Visibility.and, hv, hw, hfits]

theorem and_of_exceeds {v w : Visibility} (h : v.exceedsLimit w = true) : v.and w = v := by
  cases hv : v.isAlways
  · simp [Visibility.and, hv, h]
  · simp [exceedsLimit, hv] at h

theorem mem_and {v w : Visibility} {e : Condition} (h : e ∈ (v.and w).conditions) :
    e ∈ v.conditions ∨ e ∈ w.conditions ∨
      ∃ c ∈ v.conditions, ∃ d ∈ w.conditions, e = merge c d := by
  cases hv : v.isAlways
  · cases hw : w.isAlways
    · cases hfits : v.exceedsLimit w
      · rw [and_of_fits hv hw hfits] at h
        obtain ⟨c, hc, he⟩ := List.mem_flatMap.1 (mem_ofConditions h)
        obtain ⟨d, hd, rfl⟩ := List.mem_map.1 he
        exact .inr (.inr ⟨c, hc, d, hd, rfl⟩)
      · left
        rwa [and_of_exceeds hfits] at h
    · left
      simpa [Visibility.and, hv, hw] using h
  · right
    left
    simpa [Visibility.and, hv] using h

theorem isAlways_and (v w : Visibility) :
    (v.and w).isAlways = (v.isAlways && w.isAlways) := by
  cases hv : v.isAlways
  · cases hw : w.isAlways
    · cases hfits : v.exceedsLimit w
      · rw [and_of_fits hv hw hfits, isAlways_ofConditions]
        cases hcs : v.conditions with
        | nil => simp [isAlways, hcs] at hv
        | cons c cs =>
          cases hds : w.conditions with
          | nil => simp [isAlways, hds] at hw
          | cons d ds => simp
      · rw [and_of_exceeds hfits, hv]
        rfl
    · simp [Visibility.and, hv, hw]
  · simp [Visibility.and, hv]

/-- A product within the limit is a conjunction. -/
theorem holds_and (r : Reading) {v w : Visibility} (hv : v.Aligned)
    (hfits : v.exceedsLimit w = false) : (v.and w).holds r = (v.holds r && w.holds r) := by
  cases hleft : v.isAlways
  · cases hright : w.isAlways
    · rw [and_of_fits hleft hright hfits]
      have hsome : (ofConditions (v.conditions.flatMap fun c =>
          w.conditions.map (merge c))).isAlways = false := by
        rw [← and_of_fits hleft hright hfits, isAlways_and, hleft]
        rfl
      rw [holds_eq_met hsome, holds_eq_met hleft, holds_eq_met hright, met_ofConditions,
        Bool.eq_iff_iff, Bool.and_eq_true]
      simp only [met, List.any_eq_true, List.mem_flatMap, List.mem_map]
      constructor
      · rintro ⟨e, ⟨c, hc, d, hd, rfl⟩, he⟩
        rw [holds_merge r (hv c hc), Bool.and_eq_true] at he
        exact ⟨⟨c, hc, he.1⟩, ⟨d, hd, he.2⟩⟩
      · rintro ⟨⟨c, hc, hcr⟩, ⟨d, hd, hdr⟩⟩
        refine ⟨merge c d, ⟨c, hc, d, hd, rfl⟩, ?_⟩
        rw [holds_merge r (hv c hc), hcr, hdr]
        rfl
    · simp [Visibility.and, holds, hleft, hright]
  · simp [Visibility.and, holds, hleft]

theorem holds_and_limit (r : Reading) {v : Visibility} (hv : v.Aligned) (w : Visibility) :
    (v.and w).holds r = (v.holds r && (w.holds r || v.exceedsLimit w)) := by
  cases hfits : v.exceedsLimit w
  · rw [holds_and r hv hfits, Bool.or_false]
  · rw [and_of_exceeds hfits, Bool.or_true, Bool.and_true]

theorem exceedsLimit_eq_false {v w : Visibility} :
    v.exceedsLimit w = false ↔ v.isAlways = true ∨ w.isAlways = true ∨
      v.conditions.length * w.conditions.length ≤ productLimit := by
  unfold exceedsLimit
  cases v.isAlways <;> cases w.isAlways <;> simp

/-- A product holds where both sides do. Within the limit it holds only there, and past it
wherever its left side does. -/
theorem holds_and_both (r : Reading) {v w : Visibility} (hv : v.Aligned) :
    (v.holds r = true → w.holds r = true → (v.and w).holds r = true) ∧
      (v.isAlways = true ∨ w.isAlways = true ∨
          v.conditions.length * w.conditions.length ≤ productLimit →
        (v.and w).holds r = true → v.holds r = true ∧ w.holds r = true) ∧
      (v.exceedsLimit w = true → (v.and w).holds r = v.holds r) := by
  refine ⟨fun hleft hright => ?_, fun hfits hboth => ?_, fun hexceeds => ?_⟩
  · rw [holds_and_limit r hv, hleft, hright]
    rfl
  · rwa [holds_and r hv (exceedsLimit_eq_false.2 hfits), Bool.and_eq_true] at hboth
  · rw [and_of_exceeds hexceeds]

/-- With the glow on and the mode at 1, a product of two tests for either and one for the mode
holds, and so do both. -/
theorem holds_and_both_glowOrMode :
    let r := Valuation.reading fun path => if path = "_Mode" then .int 1 else .bool true
    let v := (single "_Glow" (.bool true)).or (single "_Mode" (.int 1))
    let w := single "_Mode" (.int 1)
    v.Aligned ∧ v.conditions.length * w.conditions.length ≤ productLimit ∧
      (v.and w).conditions.length = 2 ∧ (v.and w).holds r = true ∧
      v.holds r = true ∧ w.holds r = true := by
  intro r v w
  have hv : v.Aligned := (aligned_single _ _).or (aligned_single _ _)
  have hfits : v.conditions.length * w.conditions.length ≤ productLimit := by decide
  obtain ⟨hholds, honly, -⟩ := holds_and_both r (w := w) hv
  have hboth : (v.and w).holds r = true := hholds (by decide) (by decide)
  exact ⟨hv, hfits, by decide, hboth, honly (.inr (.inr hfits)) hboth⟩

@[simp] theorem andNotes_warn (v w : Visibility) :
    (v.andNotes w).any Note.isWarning = v.exceedsLimit w := by
  unfold andNotes
  cases v.exceedsLimit w <;> simp [Note.isWarning]

end Visibility

/-! ### Opposites -/

/-- Every term asks for a boolean, and either it or its opposite is true. -/
structure Condition.Invertible (r : Reading) (c : Condition) : Prop where
  aligned : c.Aligned
  nonempty : c.terms ≠ []
  opposite : ∀ t ∈ c.terms, ∃ b, t.2 = .bool b ∧
    r.truth t.1 (.bool !b) = !r.truth t.1 (.bool b)

namespace Condition

theorem Invertible.single {r : Reading} {path : String} {b : Bool}
    (h : r.truth path (.bool !b) = !r.truth path (.bool b)) :
    (Condition.single path (.bool b)).Invertible r where
  aligned := rfl
  nonempty := by simp
  opposite := by
    intro t ht
    rw [terms_single, List.mem_singleton] at ht
    exact ⟨b, by rw [ht], by rw [ht]; exact h⟩

theorem Invertible.merge {r : Reading} {c d : Condition} (hc : c.Invertible r)
    (hd : d.Invertible r) : (Visibility.merge c d).Invertible r where
  aligned := Visibility.aligned_merge hc.aligned d
  nonempty := Visibility.terms_merge_ne_nil hc.aligned hc.nonempty d
  opposite := by
    intro t ht
    rcases Visibility.mem_terms_merge hc.aligned d ht with h | h
    · exact hc.opposite t h
    · exact hd.opposite t h

end Condition

namespace Visibility

def Invertible (r : Reading) (v : Visibility) : Prop :=
  ∀ c ∈ v.conditions, c.Invertible r

theorem Invertible.ofConditions {r : Reading} {cs : List Condition}
    (h : ∀ c ∈ cs, c.Invertible r) : (Visibility.ofConditions cs).Invertible r :=
  fun c hc => h c (mem_ofConditions hc)

theorem Invertible.or {r : Reading} {v w : Visibility} (hv : v.Invertible r)
    (hw : w.Invertible r) : (v.or w).Invertible r := by
  intro c hc
  rcases mem_or hc with h | h
  · exact hv c h
  · exact hw c h

theorem Invertible.and {r : Reading} {v w : Visibility} (hv : v.Invertible r)
    (hw : w.Invertible r) : (v.and w).Invertible r := by
  intro e he
  rcases mem_and he with h | h | ⟨c, hc, d, hd, rfl⟩
  · exact hv e h
  · exact hw e h
  · exact (hv c hc).merge (hw d hd)

theorem Invertible.aligned {r : Reading} {v : Visibility} (h : v.Invertible r) : v.Aligned :=
  fun c hc => (h c hc).aligned

@[simp] theorem opposite?_bool (b : Bool) : opposite? (.bool b) = some (.bool !b) := rfl

private theorem any_opposites (r : Reading) (ts : List (String × RuleValue))
    (h : ∀ t ∈ ts, ∃ b, t.2 = .bool b ∧
      r.truth t.1 (.bool !b) = !r.truth t.1 (.bool b)) :
    (ts.filterMap fun (path, value) => (opposite? value).map (Condition.single path)).any
        (·.holds r) = !ts.all fun t => r.truth t.1 t.2 := by
  induction ts with
  | nil => rfl
  | cons t ts ih =>
    obtain ⟨path, value⟩ := t
    obtain ⟨b, rfl, hb⟩ := h _ List.mem_cons_self
    have hrest := ih fun t ht => h t (List.mem_cons_of_mem _ ht)
    simp only [List.filterMap_cons, opposite?_bool, Option.map_some, List.any_cons,
      List.all_cons, Condition.holds_single, Bool.not_and]
    rw [hrest]
    exact congrArg (· || _) hb

theorem any_refute {r : Reading} {c : Condition} (h : c.Invertible r) :
    (refute c).any (·.holds r) = !c.holds r :=
  any_opposites r c.terms h.opposite

theorem invertible_of_mem_refute {r : Reading} {c d : Condition} (h : c.Invertible r)
    (hd : d ∈ refute c) : d.Invertible r := by
  obtain ⟨⟨path, value⟩, ht, hd⟩ := List.mem_filterMap.1 hd
  obtain ⟨b, rfl, hb⟩ := h.opposite _ ht
  simp only [opposite?_bool, Option.map_some, Option.some.injEq] at hd
  rw [← hd]
  apply Condition.Invertible.single
  rw [Bool.not_not, hb, Bool.not_not]

theorem refute_ne_nil {r : Reading} {c : Condition} (h : c.Invertible r) : refute c ≠ [] := by
  obtain ⟨⟨path, value⟩, ht⟩ := List.exists_mem_of_ne_nil _ h.nonempty
  obtain ⟨b, rfl, -⟩ := h.opposite _ ht
  exact List.ne_nil_of_mem (List.mem_filterMap.2 ⟨_, ht, rfl⟩)

theorem negateStep_of_invertible {r : Reading} {c : Condition} (h : c.Invertible r)
    (v : Visibility) : negateStep v c = v.and (Visibility.ofConditions (refute c)) := by
  unfold negateStep
  split
  · rename_i hnil
    exact absurd hnil (refute_ne_nil h)
  · rfl

theorem negateStepNotes_of_invertible {r : Reading} {c : Condition} (h : c.Invertible r)
    (v : Visibility) :
    negateStepNotes v c = v.andNotes (Visibility.ofConditions (refute c)) := by
  unfold negateStepNotes
  split
  · rename_i hnil
    exact absurd hnil (refute_ne_nil h)
  · rfl

/-- A visibility that asks for something and comes to `b`. -/
structure Says (r : Reading) (v : Visibility) (b : Bool) : Prop where
  asks : v.isAlways = false
  aligned : v.Aligned
  holds : v.holds r = b

theorem Says.single (r : Reading) (path : String) (value : RuleValue) :
    (Visibility.single path value).Says r (r.truth path value) where
  asks := rfl
  aligned := by
    intro c hc
    rw [List.mem_singleton.1 hc]
    rfl
  holds := by rw [holds_eq_met rfl, met_single]

theorem Says.ofConditions {r : Reading} {cs : List Condition} (hne : cs ≠ [])
    (h : ∀ c ∈ cs, c.Aligned) :
    (Visibility.ofConditions cs).Says r (cs.any (·.holds r)) := by
  have hasks : (Visibility.ofConditions cs).isAlways = false := by
    rw [isAlways_ofConditions]
    simpa using hne
  refine ⟨hasks, fun c hc => h c (mem_ofConditions hc), ?_⟩
  rw [holds_eq_met hasks, met_ofConditions]

theorem Says.or {r : Reading} {v w : Visibility} {a b : Bool} (hv : v.Says r a)
    (hw : w.Says r b) : (v.or w).Says r (a || b) := by
  have hasks : (v.or w).isAlways = false := by rw [isAlways_or, hv.asks]; rfl
  refine ⟨hasks, ?_, ?_⟩
  · intro c hc
    rcases mem_or hc with h | h
    · exact hv.aligned c h
    · exact hw.aligned c h
  · rw [holds_eq_met hasks, met_or, ← holds_eq_met hv.asks, ← holds_eq_met hw.asks, hv.holds,
      hw.holds]

theorem Aligned.and {v w : Visibility} (hv : v.Aligned) (hw : w.Aligned) :
    (v.and w).Aligned := by
  intro e he
  rcases mem_and he with h | h | ⟨c, hc, d, -, rfl⟩
  · exact hv e h
  · exact hw e h
  · exact aligned_merge (hv c hc) d

theorem Says.and {r : Reading} {v w : Visibility} {a b : Bool} (hv : v.Says r a)
    (hw : w.Says r b) (hfits : v.exceedsLimit w = false) : (v.and w).Says r (a && b) := by
  refine ⟨by rw [isAlways_and, hv.asks]; rfl, hv.aligned.and hw.aligned, ?_⟩
  rw [holds_and r hv.aligned hfits, hv.holds, hw.holds]

private theorem any_foldl_negateStepNotes {cs : List Condition} {w : Visibility}
    {notes : List Note}
    (hquiet : (cs.foldl (fun (w, notes) c => (negateStep w c, notes ++ negateStepNotes w c))
      (w, notes)).2.any Note.isWarning = false) : notes.any Note.isWarning = false := by
  induction cs generalizing w notes with
  | nil => exact hquiet
  | cons c cs ih =>
    have hmore := ih hquiet
    rw [List.any_append, Bool.or_eq_false_iff] at hmore
    exact hmore.1

/-- The conditions are refuted one after the other, and what is gathered so far stays
invertible. -/
private theorem foldl_negateStep {r : Reading} {cs : List Condition}
    (hcs : ∀ c ∈ cs, c.Invertible r) {w : Visibility} (hw : w.Invertible r)
    {notes : List Note}
    (hquiet : (cs.foldl (fun (w, notes) c => (negateStep w c, notes ++ negateStepNotes w c))
      (w, notes)).2.any Note.isWarning = false) :
    (cs.foldl negateStep w).Invertible r ∧
      (cs.foldl negateStep w).isAlways = (w.isAlways && cs.isEmpty) ∧
      (cs.foldl negateStep w).holds r = (w.holds r && !cs.any (·.holds r)) := by
  induction cs generalizing w notes with
  | nil => exact ⟨hw, by simp, by simp⟩
  | cons c cs ih =>
    have hc := hcs c List.mem_cons_self
    have hrefuted : (Visibility.ofConditions (refute c)).Invertible r :=
      .ofConditions fun d hd => invertible_of_mem_refute hc hd
    have hsaid : (Visibility.ofConditions (refute c)).Says r (!c.holds r) := by
      rw [← any_refute hc]
      exact .ofConditions (refute_ne_nil hc)
        fun d hd => (invertible_of_mem_refute hc hd).aligned
    rw [List.foldl_cons] at hquiet
    simp only [negateStep_of_invertible hc, negateStepNotes_of_invertible hc] at hquiet
    have hfits : w.exceedsLimit (Visibility.ofConditions (refute c)) = false := by
      have hnotes := any_foldl_negateStepNotes hquiet
      rw [List.any_append, andNotes_warn, Bool.or_eq_false_iff] at hnotes
      exact hnotes.2
    obtain ⟨hinv, halways, hholds⟩ :=
      ih (fun d hd => hcs d (List.mem_cons_of_mem _ hd)) (hw.and hrefuted) hquiet
    rw [List.foldl_cons, negateStep_of_invertible hc]
    refine ⟨hinv, ?_, ?_⟩
    · rw [halways, isAlways_and, hsaid.asks]
      simp
    · rw [hholds, holds_and r hw.aligned hfits, hsaid.holds, List.any_cons, Bool.not_or,
        Bool.and_assoc]

section Negation

variable {r : Reading} {v : Visibility} (hv : v.Invertible r)
  (hquiet : v.negateNotes.any Note.isWarning = false)

include hv hquiet

theorem Invertible.negate : v.negate.Invertible r :=
  (foldl_negateStep hv (by intro c hc; cases hc) hquiet).1

theorem Says.negate {b : Bool} (h : v.Says r b) : v.negate.Says r (!b) := by
  obtain ⟨hinv, halways, hholds⟩ :=
    foldl_negateStep hv (w := Visibility.always) (by intro c hc; cases hc) hquiet
  refine ⟨?_, hinv.aligned, ?_⟩
  · have hne : v.conditions.isEmpty = false := h.asks
    rw [Visibility.negate, halways, hne]
    rfl
  · rw [Visibility.negate, hholds, ← h.holds, holds_eq_met h.asks]
    rfl

end Negation

end Visibility

end PanelSchema
