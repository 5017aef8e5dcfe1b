import Mathlib.Data.List.Forall2
import PanelSchema.Proofs.Roster
import PanelSchema.Proofs.Walk.Effects

/-!
The two policies side by side. Rosters under them that are shown the same drafts differ in
the conditions of properties only, and a property whose conditions differ is one that the
policy which defers clearing will show always.
-/

namespace PanelSchema

/-- The property without its conditions. -/
def Property.bare (p : Property) : Property :=
  { p with conditions := [] }

/-- The same property, shown always or under the same conditions. -/
structure Property.Widens (p q : Property) : Prop where
  bare : q.bare = p.bare
  conditions : q.conditions = [] ∨ q.conditions = p.conditions

/-- The same module, but for conditions of properties that are shown always. -/
structure Module.Widens (m n : Module) : Prop where
  frame : { n with properties := [] } = { m with properties := [] }
  properties : List.Forall₂ Property.Widens m.properties n.properties

namespace Roster

def conditionsAt (r : Roster) (i : Nat) : Option (List Condition) :=
  r.properties[i]?.map (·.conditions)

/-- The roster `q` is what `r` is under the policy that defers clearing. -/
structure Widens (r q : Roster) : Prop where
  clears : r.policy = .lastUnconditionalWins
  defers : q.policy = .disjunction
  unseen : r.seenAlways = []
  bare : q.properties.map Property.bare = r.properties.map Property.bare
  conditions : ∀ i, i ∉ q.seenAlways → q.conditionsAt i = r.conditionsAt i

theorem widens_empty : Widens { policy := .lastUnconditionalWins } { policy := .disjunction } :=
  ⟨rfl, rfl, rfl, rfl, fun _ _ => rfl⟩

variable {r q : Roster}

theorem conditionsAt_update {f : Property → Property} {g : List Condition → List Condition}
    (hf : ∀ p, (f p).conditions = g p.conditions) (r : Roster) (i j : Nat) :
    (r.update i f).conditionsAt j =
      if i = j then (r.conditionsAt j).map g else r.conditionsAt j := by
  unfold conditionsAt
  rw [← List.getElem?_map, ← List.getElem?_map, map_update hf, List.getElem?_modify]
  split <;> simp

namespace Widens

theorem length (h : r.Widens q) : q.properties.length = r.properties.length := by
  simpa using congrArg List.length h.bare

theorem index? (h : r.Widens q) (id : String) : q.index? id = r.index? id := by
  have hindex : ∀ r : Roster, r.index? id =
      (r.properties.map Property.bare).findIdx? (·.identifier == id) := by
    intro r
    rw [List.findIdx?_map]
    rfl
  rw [hindex, hindex, h.bare]

theorem update (h : r.Widens q) (i : Nat) (f b : Property → Property)
    (g : List Condition → List Condition) (hb : ∀ p, (f p).bare = b p.bare)
    (hg : ∀ p, (f p).conditions = g p.conditions) : (r.update i f).Widens (q.update i f) where
  clears := h.clears
  defers := h.defers
  unseen := h.unseen
  bare := by rw [map_update hb, map_update hb, h.bare]
  conditions := by
    intro j hj
    rw [conditionsAt_update hg, conditionsAt_update hg, h.conditions j hj]

theorem enter (h : r.Widens q) (d : Draft) :
    (r.enter d).1.Widens (q.enter d).1 ∧ (q.enter d).2 = (r.enter d).2 := by
  unfold Roster.enter
  rw [h.index?]
  cases r.index? d.identifier with
  | some i =>
    exact ⟨h.update i (·.absorb d) (·.absorb d) id (fun _ => rfl) (fun _ => rfl), rfl⟩
  | none =>
    refine ⟨⟨h.clears, h.defers, h.unseen, ?_, ?_⟩, h.length⟩
    · simp [h.bare]
    · intro j hj
      have hold := h.conditions j hj
      unfold conditionsAt at hold ⊢
      rw [List.getElem?_append, List.getElem?_append, h.length]
      split
      · exact hold
      · rfl

theorem showAlways (h : r.Widens q) (i : Nat) {v : Visibility} (hv : v.isAlways = true) :
    (r.showAt i v).Widens (q.showAt i v) := by
  have hcleared : r.showAt i v = r.update i Property.bare := by
    rw [Roster.showAt, if_pos hv, h.clears]
    rfl
  have hkept : q.showAt i v =
      if q.seenAlways.contains i then q else { q with seenAlways := i :: q.seenAlways } := by
    rw [Roster.showAt, if_pos hv, h.defers]
  have hbare : q.properties.map Property.bare =
      (r.update i Property.bare).properties.map Property.bare := by
    rw [map_update (f := Property.bare) (g := id) (fun _ => rfl), List.modify_id, h.bare]
  have hothers : ∀ j, i ≠ j → j ∉ q.seenAlways →
      q.conditionsAt j = (r.update i Property.bare).conditionsAt j := by
    intro j hij hj
    rw [conditionsAt_update (f := Property.bare) (g := fun _ => []) (fun _ => rfl), if_neg hij,
      h.conditions j hj]
  rw [hcleared, hkept]
  split
  · rename_i hseen
    refine ⟨h.clears, h.defers, h.unseen, hbare, ?_⟩
    intro j hj
    refine hothers j ?_ hj
    rintro rfl
    exact hj (List.contains_iff_mem.1 hseen)
  · refine ⟨h.clears, h.defers, h.unseen, hbare, ?_⟩
    intro j hj
    rw [List.mem_cons, not_or] at hj
    exact hothers j (Ne.symm hj.1) hj.2

theorem showAt (h : r.Widens q) (i : Nat) (v : Visibility) :
    (r.showAt i v).Widens (q.showAt i v) := by
  cases hv : v.isAlways with
  | true => exact h.showAlways i hv
  | false =>
    unfold Roster.showAt
    rw [hv]
    exact h.update i (·.showUnder v) id
      (v.conditions.foldl fun cs c => if cs.contains c then cs else cs ++ [c])
      (fun _ => rfl) (fun _ => rfl)

theorem attach (h : r.Widens q) (d : Draft) (v : Visibility) :
    (r.attach d v).1.Widens (q.attach d v).1 ∧ (q.attach d v).2 = (r.attach d v).2 := by
  unfold Roster.attach
  split
  · exact ⟨h, rfl⟩
  · obtain ⟨henter, hplace⟩ := h.enter d
    dsimp only
    rw [hplace]
    exact ⟨henter.showAt _ v, rfl⟩

theorem hint (h : r.Widens q) (identifier text : String) :
    (r.hint identifier text).Widens (q.hint identifier text) := by
  unfold Roster.hint
  rw [h.index?]
  cases r.index? identifier with
  | none => exact h
  | some i =>
    exact h.update i _ (fun p => { p with hints := addGivenHint p.hints text }) id
      (fun _ => rfl) (fun _ => rfl)

theorem hints (h : r.Widens q) (identifier : String) (texts : List String) :
    (texts.foldl (fun r text => r.hint identifier text) r).Widens
      (texts.foldl (fun r text => r.hint identifier text) q) := by
  induction texts generalizing r q with
  | nil => exact h
  | cons text texts ih => exact ih (h.hint identifier text)

theorem finish (h : r.Widens q) : List.Forall₂ Property.Widens r.finish q.finish := by
  rw [List.forall₂_iff_get]
  refine ⟨by simp [Roster.finish, h.length], ?_⟩
  intro i hr hq
  replace hr : i < r.properties.length := by simpa [Roster.finish] using hr
  replace hq : i < q.properties.length := by simpa [Roster.finish] using hq
  have hbare : q.properties[i].bare = r.properties[i].bare := by
    have hmap := congrArg (·[i]?) h.bare
    simpa [hr, hq] using hmap
  simp only [Roster.finish, List.get_eq_getElem, List.getElem_mapIdx, h.unseen,
    List.contains_nil, Bool.false_eq_true, if_false]
  split
  · exact ⟨hbare, .inl rfl⟩
  · rename_i hunseen
    refine ⟨hbare, .inr ?_⟩
    have hconditions := h.conditions i (by simpa using hunseen)
    simpa [conditionsAt, hr, hq] using hconditions

end Widens

end Roster

/-! ### Modules -/

/-- The draft of a module under either policy. -/
structure ModuleDraft.Widens (m n : ModuleDraft) : Prop where
  name : n.name = m.name
  keyword : n.keyword = m.keyword
  secondaryKeyword : n.secondaryKeyword = m.secondaryKeyword
  root : n.root = m.root
  layout : n.layout = m.layout
  roster : m.roster.Widens n.roster

namespace ModuleDraft.Widens

variable {m n : ModuleDraft}

theorem shown (h : m.Widens n) (d : Draft) (f : Frame) : (m.shown d f).Widens (n.shown d f) := by
  obtain ⟨hroster, hplace⟩ := h.roster.attach d f.visibility
  refine ⟨h.name, h.keyword, h.secondaryKeyword, h.root, ?_, hroster⟩
  unfold ModuleDraft.shown
  dsimp only
  rw [hplace, h.layout]

theorem declared (h : m.Widens n) (name : String) (label : Option String) (order : Option Int)
    (f : Frame) : (m.declared name label order f).Widens (n.declared name label order f) := by
  refine ⟨h.name, h.keyword, h.secondaryKeyword, h.root, ?_, h.roster⟩
  unfold ModuleDraft.declared
  rw [h.layout]

theorem hinted (h : m.Widens n) (id : String) (hints : List String) :
    (m.hinted id hints).Widens (n.hinted id hints) :=
  ⟨h.name, h.keyword, h.secondaryKeyword, h.root, h.layout, h.roster.hints id hints⟩

theorem finish (h : m.Widens n) : m.finish.Widens n.finish := by
  refine ⟨?_, h.roster.finish⟩
  unfold ModuleDraft.finish
  rw [h.name, h.keyword, h.secondaryKeyword, h.layout]

end ModuleDraft.Widens

end PanelSchema
