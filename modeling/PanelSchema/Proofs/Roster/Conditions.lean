import Mathlib.Data.Multiset.ZeroCons
import PanelSchema.Proofs.Roster.Merging
import PanelSchema.Proofs.Values

/-!
The conditions under which the properties of a roster are shown in the end, and what the order
of the showings has to do with them.
-/

namespace PanelSchema

/-! ### Indistinct conditions -/

/-- The same, or equal as far as conditions are compared. -/
def Indistinct {α : Type} [BEq α] (a b : α) : Prop :=
  a = b ∨ (a == b) = true

namespace Indistinct

variable {α : Type} [BEq α] [PartialEquivBEq α] {a b c : α}

theorem trans (hab : Indistinct a b) (hbc : Indistinct b c) : Indistinct a c := by
  rcases hab with rfl | hab
  · exact hbc
  · rcases hbc with rfl | hbc
    · exact .inr hab
    · exact .inr (PartialEquivBEq.trans hab hbc)

instance indistinctTrans : IsTrans α Indistinct :=
  ⟨fun _ _ _ => Indistinct.trans⟩

theorem eraseDups_swap (a b : α) (xs : List α) :
    Multiset.Rel Indistinct ((b :: a :: xs).eraseDups : Multiset α) ((a :: b :: xs).eraseDups) := by
  have hrefl : ∀ ys : List α, Multiset.Rel Indistinct (ys : Multiset α) ys :=
    fun ys => Multiset.rel_refl_of_refl_on fun _ _ => .inl rfl
  rw [List.eraseDups_cons, List.eraseDups_cons, List.filter_cons, List.filter_cons]
  cases hab : (a == b) with
  | true =>
    have hba : (b == a) = true := PartialEquivBEq.symm hab
    have hsame : (fun c => !(c == b)) = fun c => !(c == a) := by
      funext c
      rw [BEq.congr_right hab]
    rw [hba, hsame]
    exact .cons (.inr hba) (hrefl _)
  | false =>
    have hba : (b == a) = false := by rw [BEq.comm, hab]
    rw [hba]
    simp only [Bool.not_false, if_true, List.eraseDups_cons, List.filter_filter, Bool.and_comm]
    rw [← Multiset.cons_coe, ← Multiset.cons_coe, ← Multiset.cons_coe, ← Multiset.cons_coe,
      Multiset.cons_swap]
    exact .cons (.inl rfl) (.cons (.inl rfl) (hrefl _))

/-- Whichever order elements come in, what is left without repetition is indistinct. The first of
equal elements is kept, so it may be another one. -/
theorem eraseDups_of_perm {xs ys : List α} (h : xs.Perm ys) {p : α → Bool}
    (hp : ∀ a b, (a == b) = true → p a = p b) :
    Multiset.Rel Indistinct ((xs.filter p).eraseDups : Multiset α) ((ys.filter p).eraseDups) := by
  induction h generalizing p with
  | nil => exact .zero
  | cons a h ih =>
    rw [List.filter_cons, List.filter_cons]
    cases ha : p a with
    | false => exact ih hp
    | true =>
      rw [if_pos rfl, if_pos rfl, List.eraseDups_cons, List.eraseDups_cons, List.filter_filter,
        List.filter_filter]
      refine .cons (.inl rfl) (ih fun b c hbc => ?_)
      rw [hp b c hbc, BEq.congr_left hbc]
  | swap a b l =>
    cases ha : p a <;> cases hb : p b <;> simp only [List.filter_cons, ha, hb]
    case true.true => exact eraseDups_swap a b _
    all_goals exact Multiset.rel_refl_of_refl_on fun _ _ => .inl rfl
  | trans _ _ ih₁ ih₂ => exact (ih₁ hp).trans _ (ih₂ hp)

end Indistinct

namespace Roster

variable {policy : ConditionPolicy} {calls : List RosterCall} {id : String}

/-! ### Showings that ask for nothing -/

theorem seenAlways_after_of_wins {r : Roster} (h : r.policy = .lastUnconditionalWins)
    (c : RosterCall) : (r.after c).seenAlways = r.seenAlways := by
  cases c with
  | attach d v =>
    by_cases hd : d.identifier = ""
    · rw [after, attach_of_empty r hd]
    · rw [after, attach_of_ne hd, ← seenAlways_enter r d]
      unfold showAt
      rw [policy_enter, h]
      split <;> rfl
  | hint id text =>
    rw [after, hint]
    split <;> rfl

theorem seenAlways_ofCalls_of_wins :
    (ofCalls .lastUnconditionalWins calls).seenAlways = [] := by
  induction calls using List.reverseRecOn with
  | nil => rfl
  | append_singleton calls c ih => rw [ofCalls_concat, seenAlways_after_of_wins policy_ofCalls, ih]

/-- Some places are those of the identifiers that were shown without asking for anything. -/
def SeenAs (calls : List RosterCall) (seen : List Nat) : Prop :=
  (∀ i ∈ seen, i < (attached calls).length) ∧
    ∀ i id, (attached calls)[i]? = some id →
      (i ∈ seen ↔ (visibilitiesOf calls id).any (·.isAlways) = true)

theorem SeenAs.of_other {seen : List Nat} (h : SeenAs calls seen) {c : RosterCall}
    (hattached : attached (calls ++ [c]) = attached calls)
    (hc : ∀ id ∈ attached calls, c.visibility? id = none) : SeenAs (calls ++ [c]) seen := by
  unfold SeenAs
  rw [hattached]
  refine ⟨h.1, fun i id hi => ?_⟩
  rw [h.2 i id hi, visibilitiesOf_concat, hc id (List.mem_of_getElem? hi), Option.toList_none,
    List.append_nil]

/-- An identifier that stands at a place stood there before, or is the new one at the end. -/
theorem getElem?_attached_concat {d : Draft} (hd : d.identifier ≠ "") {v : Visibility} {i : Nat}
    (hi : (attached (calls ++ [.attach d v]))[i]? = some id) :
    (attached calls)[i]? = some id ∨
      (attached calls).length ≤ i ∧ id = d.identifier ∧ visibilitiesOf calls id = [] := by
  have hself : (RosterCall.attach d v).identifier? = some d.identifier := if_neg hd
  rw [attached_concat, hself] at hi
  dsimp only at hi
  split at hi
  · exact .inl hi
  · rename_i hnew
    rw [List.getElem?_append] at hi
    split at hi
    · exact .inl hi
    · rename_i hle
      have hid : id = d.identifier := by
        have := List.mem_of_getElem? hi
        simpa using this
      refine .inr ⟨Nat.not_lt.1 hle, hid, ?_⟩
      rw [visibilitiesOf_eq_nil]
      by_contra hne
      exact hnew (List.contains_iff_mem.2 (mem_attached.2 ⟨hd, hid ▸ hne⟩))

theorem SeenAs.attach {seen seen' : List Nat} (h : SeenAs calls seen) {d : Draft}
    (hd : d.identifier ≠ "") {v : Visibility} {place : Nat}
    (hplace : (attached (calls ++ [.attach d v]))[place]? = some d.identifier)
    (hmem : ∀ i, i ∈ seen' ↔ i ∈ seen ∨ i = place ∧ v.isAlways = true) :
    SeenAs (calls ++ [.attach d v]) seen' := by
  have hprefix := attached_prefix calls [.attach d v]
  have hdistinct : (attached (calls ++ [.attach d v])).Nodup := nodup_eraseDups _
  have hlt := (List.getElem?_eq_some_iff.1 hplace).1
  refine ⟨fun i hi => ?_, fun i id hi => ?_⟩
  · rcases (hmem i).1 hi with hi | ⟨rfl, -⟩
    · exact (h.1 i hi).trans_le hprefix.length_le
    · exact hlt
  · have hbefore : i ∈ seen ↔ (visibilitiesOf calls id).any (·.isAlways) = true := by
      rcases getElem?_attached_concat hd hi with hi | ⟨hle, -, hnone⟩
      · exact h.2 i id hi
      · have hnot : i ∉ seen := fun hseen => Nat.not_lt.2 hle (h.1 i hseen)
        simp [hnone, hnot]
    rw [hmem, hbefore, visibilitiesOf_concat, RosterCall.visibility?]
    by_cases hid : d.identifier = id
    · have hi' : i = place :=
        ((List.getElem?_inj hlt hdistinct).1 (hplace.trans (hid ▸ hi.symm))).symm
      simp [hid, hi']
    · have hi' : i ≠ place := by
        rintro rfl
        exact hid (Option.some.inj (hplace.symm.trans hi))
      simp [hid, hi']

theorem seenAs_ofCalls : SeenAs calls (ofCalls .disjunction calls).seenAlways := by
  induction calls using List.reverseRecOn with
  | nil => simp [SeenAs, ofCalls, attached]
  | append_singleton calls c ih =>
    rw [ofCalls_concat]
    cases c with
    | hint id text =>
      have hsame : ((ofCalls .disjunction calls).after (.hint id text)).seenAlways =
          (ofCalls .disjunction calls).seenAlways := by
        rw [after, hint]
        split <;> rfl
      exact hsame ▸ ih.of_other (attached_concat _) fun _ _ => rfl
    | attach d v =>
      by_cases hd : d.identifier = ""
      · rw [after, attach_of_empty _ hd]
        refine ih.of_other ?_ fun id hid => if_neg ?_
        · rw [attached_concat, RosterCall.identifier?, if_pos hd]
        · rintro rfl
          exact (mem_attached.1 hid).1 hd
      · have hplace : _ = some ((ofCalls .disjunction calls).enter d).2 := idxOf?_attached hd v
        refine ih.attach hd (getElem?_of_idxOf? hplace) fun i => ?_
        rw [after, attach_of_ne hd,
          mem_seenAlways_showAt ((policy_enter _ d).trans policy_ofCalls), seenAlways_enter]

/-! ### The end -/

/-- The conditions that showings leave in the end. -/
def conditionsOf : ConditionPolicy → List Visibility → List Condition
  | .lastUnconditionalWins, vs =>
    ((vs.rtakeWhile fun v => !v.isAlways).flatMap (·.conditions)).eraseDups
  | .disjunction, vs =>
    if vs.any (·.isAlways) then [] else (vs.flatMap (·.conditions)).eraseDups

theorem finish_ofCalls :
    (ofCalls policy calls).finish = (attached calls).map fun id =>
      { entry policy calls id with
        conditions := conditionsOf policy (visibilitiesOf calls id) } := by
  unfold finish
  apply List.ext_getElem?
  intro i
  rw [properties_ofCalls, List.getElem?_mapIdx, List.getElem?_map, List.getElem?_map]
  cases hi : (attached calls)[i]? with
  | none => rfl
  | some id =>
    cases policy with
    | lastUnconditionalWins =>
      rw [seenAlways_ofCalls_of_wins]
      rfl
    | disjunction =>
      have hseen : (ofCalls .disjunction calls).seenAlways.contains i =
          (visibilitiesOf calls id).any (·.isAlways) := by
        rw [Bool.eq_iff_iff, List.contains_iff_mem]
        exact seenAs_ofCalls.2 i id hi
      dsimp only [Option.map_some, conditionsOf]
      rw [hseen]
      split <;> rfl

theorem perm_attached {calls calls' : List RosterCall} (h : calls.Perm calls') :
    (attached calls).Perm (attached calls') := by
  have hmem : ∀ id, id ∈ attached calls ↔ id ∈ attached calls' := by
    intro id
    unfold attached
    rw [List.mem_eraseDups, List.mem_eraseDups]
    exact (h.filterMap _).mem_iff
  exact (List.perm_ext_iff_of_nodup (nodup_eraseDups _) (nodup_eraseDups _)).2 hmem

theorem indistinct_conditionsOf {vs ws : List Visibility} (h : vs.Perm ws) :
    Multiset.Rel Indistinct (conditionsOf .disjunction vs : Multiset Condition)
      (conditionsOf .disjunction ws) := by
  dsimp only [conditionsOf]
  rw [h.any_eq]
  split
  · exact .zero
  · have hall := Indistinct.eraseDups_of_perm (h.flatMap_right (·.conditions))
      (p := fun _ => true) fun _ _ _ => rfl
    simpa using hall

/-- What any calls leave of the conditions. Under the policy of the last unconditional showing,
those of later ones; under the other, those of all, or none if one of them is unconditional,
and there the order of the calls is only that of the conditions. -/
theorem finish_conditions (policy : ConditionPolicy) (calls : List RosterCall) :
    ((ofCalls policy calls).finish.map fun p => (p.identifier, p.conditions)) =
        ((attached calls).map fun id =>
          (id, conditionsOf policy (visibilitiesOf calls id))) ∧
      ∀ calls' : List RosterCall, calls.Perm calls' →
        ((ofCalls .disjunction calls).finish.map (·.identifier)).Perm
            ((ofCalls .disjunction calls').finish.map (·.identifier)) ∧
          ∀ p ∈ (ofCalls .disjunction calls).finish, ∀ q ∈ (ofCalls .disjunction calls').finish,
            p.identifier = q.identifier →
              Multiset.Rel Indistinct (p.conditions : Multiset Condition) q.conditions := by
  have hids : ∀ cs : List RosterCall,
      (ofCalls .disjunction cs).finish.map (·.identifier) = attached cs := by
    intro cs
    rw [finish_ofCalls, List.map_map]
    exact List.map_id _
  refine ⟨?_, fun calls' h => ⟨?_, fun p hp q hq hpq => ?_⟩⟩
  · rw [finish_ofCalls, List.map_map]
    rfl
  · rw [hids, hids]
    exact perm_attached h
  · rw [finish_ofCalls, List.mem_map] at hp hq
    obtain ⟨id, -, rfl⟩ := hp
    obtain ⟨id', -, rfl⟩ := hq
    obtain rfl : id = id' := hpq
    exact indistinct_conditionsOf (h.filterMap _)

/-- One property is shown under two conditions. -/
def shownTwice : List RosterCall :=
  [.attach { identifier := "_Glow" } (.single "_Mode" (.int 0)),
    .attach { identifier := "_Glow" } (.single "_Mode" (.int 1))]

theorem finish_conditions_shownTwice :
    ((ofCalls .disjunction shownTwice).finish.map fun p => (p.identifier, p.conditions)) =
        [("_Glow", [.single "_Mode" (.int 0), .single "_Mode" (.int 1)])] ∧
      ∀ p ∈ (ofCalls .disjunction shownTwice).finish,
        ∀ q ∈ (ofCalls .disjunction shownTwice.reverse).finish, p.identifier = q.identifier →
          Multiset.Rel Indistinct (p.conditions : Multiset Condition) q.conditions := by
  obtain ⟨hconditions, hreordered⟩ := finish_conditions .disjunction shownTwice
  exact ⟨hconditions, (hreordered _ (List.reverse_perm _).symm).2⟩

end Roster

end PanelSchema
