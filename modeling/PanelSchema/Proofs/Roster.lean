import PanelSchema.Proofs.Visibility.Meaning
import PanelSchema.Roster

/-!
What showing drafts makes of a roster. Every identifier keeps one place, and under
the policy that defers clearing a property is visible where one of its showings is.
-/

namespace PanelSchema

namespace Roster

def identifiers (r : Roster) : List String :=
  r.properties.map (·.identifier)

theorem map_update_of_getElem? {α : Type} {view : Property → α} {f : Property → Property}
    {g : α → α} {r : Roster} {i : Nat}
    (hf : ∀ p, r.properties[i]? = some p → view (f p) = g (view p)) :
    (r.update i f).properties.map view = (r.properties.map view).modify i g := by
  unfold update
  apply List.ext_getElem?
  intro j
  simp only [List.getElem?_map, List.getElem?_modify]
  by_cases hij : i = j
  · subst hij
    cases hp : r.properties[i]? with
    | none => rfl
    | some p => simp [hf p hp]
  · simp [hij]

theorem map_update {α : Type} {view : Property → α} {f : Property → Property} {g : α → α}
    (hf : ∀ p, view (f p) = g (view p)) (r : Roster) (i : Nat) :
    (r.update i f).properties.map view = (r.properties.map view).modify i g :=
  map_update_of_getElem? fun p _ => hf p

theorem identifiers_update {f : Property → Property}
    (hf : ∀ p, (f p).identifier = p.identifier) (r : Roster) (i : Nat) :
    (r.update i f).identifiers = r.identifiers := by
  unfold identifiers
  rw [map_update (g := id) hf, List.modify_id]

theorem identifiers_of_index? {r : Roster} {id : String} {i : Nat}
    (h : r.index? id = some i) : r.identifiers[i]? = some id := by
  obtain ⟨hi, hid, -⟩ := List.findIdx?_eq_some_iff_getElem.1 h
  rw [identifiers, List.getElem?_map, List.getElem?_eq_getElem hi]
  simpa using hid

theorem identifier_of_index? {r : Roster} {id : String} {i : Nat} (h : r.index? id = some i)
    {p : Property} (hp : r.properties[i]? = some p) : p.identifier = id := by
  have hid := identifiers_of_index? h
  rwa [identifiers, List.getElem?_map, hp, Option.map_some, Option.some_inj] at hid

theorem not_mem_of_index? {r : Roster} {id : String} (h : r.index? id = none) :
    id ∉ r.identifiers := by
  intro hmem
  obtain ⟨p, hp, rfl⟩ := List.mem_map.1 hmem
  have := List.findIdx?_eq_none_iff.1 h p hp
  simp at this

theorem identifiers_showAt (r : Roster) (i : Nat) (v : Visibility) :
    (r.showAt i v).identifiers = r.identifiers := by
  unfold showAt
  split
  · split
    · apply identifiers_update
      intro p
      rfl
    · split <;> rfl
  · apply identifiers_update
    intro p
    rfl

theorem identifiers_enter (r : Roster) (d : Draft) :
    (d.identifier ∈ r.identifiers ∧ (r.enter d).1.identifiers = r.identifiers ∨
      d.identifier ∉ r.identifiers ∧
        (r.enter d).1.identifiers = r.identifiers ++ [d.identifier]) ∧
    (r.enter d).1.identifiers[(r.enter d).2]? = some d.identifier := by
  unfold enter
  cases hi : r.index? d.identifier with
  | some i =>
    have hid := identifiers_of_index? hi
    have hkeep : (r.update i (·.absorb d)).identifiers = r.identifiers := by
      apply identifiers_update
      intro p
      rfl
    exact ⟨.inl ⟨List.mem_of_getElem? hid, hkeep⟩, hkeep ▸ hid⟩
  | none =>
    refine ⟨.inr ⟨not_mem_of_index? hi, ?_⟩, ?_⟩
    · simp [identifiers, Draft.toProperty]
    · simp [identifiers, Draft.toProperty]

theorem identifiers_prefix_enter (r : Roster) (d : Draft) :
    r.identifiers <+: (r.enter d).1.identifiers := by
  obtain ⟨-, heq⟩ | ⟨-, heq⟩ := (identifiers_enter r d).1
  · exact heq ▸ List.prefix_rfl
  · exact heq ▸ List.prefix_append _ _

/-- Identifiers name their properties. -/
structure Named (r : Roster) : Prop where
  distinct : r.identifiers.Nodup
  nonempty : ∀ id ∈ r.identifiers, id ≠ ""

theorem named_empty (policy : ConditionPolicy) : Named { policy } :=
  ⟨List.nodup_nil, by simp [identifiers]⟩

theorem Named.of_identifiers_eq {r r' : Roster} (h : r.Named)
    (heq : r'.identifiers = r.identifiers) : r'.Named :=
  ⟨heq ▸ h.distinct, heq ▸ h.nonempty⟩

theorem Named.enter {r : Roster} (h : r.Named) {d : Draft} (hd : d.identifier ≠ "") :
    (r.enter d).1.Named := by
  obtain ⟨-, heq⟩ | ⟨hnew, heq⟩ := (identifiers_enter r d).1
  · exact h.of_identifiers_eq heq
  · constructor
    · rw [heq, List.nodup_append]
      refine ⟨h.distinct, by simp, ?_⟩
      intro a ha b hb hab
      rw [List.mem_singleton] at hb
      rw [hab, hb] at ha
      exact hnew ha
    · intro id hid
      rw [heq, List.mem_append, List.mem_singleton] at hid
      rcases hid with hid | rfl
      · exact h.nonempty id hid
      · exact hd

theorem Named.attach {r : Roster} (h : r.Named) (d : Draft) (v : Visibility) :
    (r.attach d v).1.Named := by
  unfold Roster.attach
  split
  · exact h
  · rename_i hempty
    exact (h.enter (by simpa using hempty)).of_identifiers_eq (identifiers_showAt _ _ v)

theorem attach_of_empty (r : Roster) {d : Draft} (hd : d.identifier = "") (v : Visibility) :
    r.attach d v = (r, none) := by
  simp [Roster.attach, hd]

theorem attach_of_ne {r : Roster} {d : Draft} (hd : d.identifier ≠ "") (v : Visibility) :
    r.attach d v = ((r.enter d).1.showAt (r.enter d).2 v, some (r.enter d).2) := by
  simp [Roster.attach, hd]

theorem mem_identifiers_attach {r : Roster} {d : Draft} (hd : d.identifier ≠ "")
    (v : Visibility) (id : String) :
    id ∈ (r.attach d v).1.identifiers ↔ id ∈ r.identifiers ∨ id = d.identifier := by
  rw [attach_of_ne hd, identifiers_showAt]
  obtain ⟨hold, heq⟩ | ⟨-, heq⟩ := (identifiers_enter r d).1
  · rw [heq]
    constructor
    · exact .inl
    · rintro (hid | rfl)
      · exact hid
      · exact hold
  · rw [heq, List.mem_append, List.mem_singleton]

theorem identifiers_hint (r : Roster) (id text : String) :
    (r.hint id text).identifiers = r.identifiers := by
  unfold hint
  split
  · apply identifiers_update
    intro p
    rfl
  · rfl

theorem identifiers_foldl_hint (hints : List String) (id : String) (r : Roster) :
    (hints.foldl (fun r h => r.hint id h) r).identifiers = r.identifiers := by
  induction hints generalizing r with
  | nil => rfl
  | cons h hints ih => rw [List.foldl_cons, ih, identifiers_hint]

/-! ### Deferred clearing -/

/-- Every property was shown, always or under conditions. -/
structure Shown (r : Roster) : Prop where
  policy : r.policy = .disjunction
  seen : ∀ i ∈ r.seenAlways, i < r.identifiers.length
  asked : ∀ i p, r.properties[i]? = some p → i ∈ r.seenAlways ∨ p.conditions ≠ []

def visibleAt (x : Reading) (r : Roster) (i : Nat) : Bool :=
  r.seenAlways.contains i || r.properties[i]?.any fun p => Visibility.met x ⟨p.conditions⟩

theorem conditions_showUnder (p : Property) (v : Visibility) :
    (⟨(p.showUnder v).conditions⟩ : Visibility) = Visibility.or ⟨p.conditions⟩ v := by
  have hadd : ∀ (cs : List Condition) (c : Condition),
      (⟨if cs.contains c then cs else cs ++ [c]⟩ : Visibility) = Visibility.add ⟨cs⟩ c := by
    intro cs c
    unfold Visibility.add
    split <;> rfl
  unfold Property.showUnder Visibility.or
  generalize p.conditions = cs
  dsimp only
  induction v.conditions generalizing cs with
  | nil => rfl
  | cons d ds ih => rw [List.foldl_cons, List.foldl_cons, ← hadd, ih]

theorem showAt_always {r : Roster} (h : r.policy = .disjunction) (i : Nat) {v : Visibility}
    (hv : v.isAlways = true) :
    r.showAt i v =
      if r.seenAlways.contains i then r else { r with seenAlways := i :: r.seenAlways } := by
  unfold showAt
  rw [if_pos hv, h]

theorem showAt_asking (r : Roster) (i : Nat) {v : Visibility} (hv : v.isAlways = false) :
    r.showAt i v = r.update i (·.showUnder v) := by
  unfold showAt
  rw [if_neg (by simp [hv])]

theorem mem_seenAlways_showAt {r : Roster} (h : r.policy = .disjunction) (i j : Nat)
    (v : Visibility) :
    j ∈ (r.showAt i v).seenAlways ↔ j ∈ r.seenAlways ∨ j = i ∧ v.isAlways = true := by
  cases hv : v.isAlways with
  | true =>
    rw [showAt_always h i hv]
    by_cases hseen : i ∈ r.seenAlways
    · simp only [List.contains_iff_mem, hseen, if_true, and_true]
      constructor
      · exact .inl
      · rintro (hj | rfl)
        · exact hj
        · exact hseen
    · simp [hseen, or_comm]
  | false =>
    rw [showAt_asking r i hv]
    simp [update]

theorem met_showAt (x : Reading) {r : Roster} (h : r.policy = .disjunction) {i : Nat}
    (hi : i < r.properties.length) (v : Visibility) (j : Nat) :
    ((r.showAt i v).properties[j]?.any fun p => Visibility.met x ⟨p.conditions⟩) =
      ((r.properties[j]?.any fun p => Visibility.met x ⟨p.conditions⟩) ||
        (j == i && v.met x)) := by
  cases hv : v.isAlways with
  | true =>
    have hnone : v.met x = false := by
      rw [Visibility.met, List.isEmpty_iff.1 hv]
      rfl
    rw [showAt_always h i hv, hnone, Bool.and_false, Bool.or_false]
    split <;> rfl
  | false =>
    rw [showAt_asking r i hv, update, List.getElem?_modify]
    by_cases hji : j = i
    · subst hji
      simp [List.getElem?_eq_getElem hi, conditions_showUnder, Visibility.met_or]
    · have hij : ¬i = j := fun heq => hji heq.symm
      simp [hij, hji]

theorem visibleAt_showAt (x : Reading) {r : Roster} (h : r.policy = .disjunction) {i : Nat}
    (hi : i < r.properties.length) (v : Visibility) (j : Nat) :
    (r.showAt i v).visibleAt x j = (r.visibleAt x j || (j == i && v.holds x)) := by
  rw [Bool.eq_iff_iff]
  simp only [visibleAt, met_showAt x h hi, Visibility.holds, Bool.or_eq_true,
    Bool.and_eq_true, List.contains_iff_mem, mem_seenAlways_showAt h, beq_iff_eq]
  grind

theorem enter_cases (r : Roster) (d : Draft) :
    (∃ i, i < r.properties.length ∧ r.enter d = (r.update i (·.absorb d), i)) ∨
      r.enter d =
        ({ r with properties := r.properties ++ [d.toProperty] }, r.properties.length) := by
  unfold enter
  cases hi : r.index? d.identifier with
  | some i =>
    obtain ⟨hlt, -⟩ := List.findIdx?_eq_some_iff_getElem.1 hi
    exact .inl ⟨i, hlt, rfl⟩
  | none => exact .inr rfl

theorem visibleAt_enter (x : Reading) (r : Roster) (d : Draft) (j : Nat) :
    (r.enter d).1.visibleAt x j = r.visibleAt x j := by
  obtain ⟨i, hi, heq⟩ | heq := enter_cases r d
  · rw [heq, visibleAt, update, List.getElem?_modify]
    cases hj : r.properties[j]? with
    | none => simp [visibleAt, hj]
    | some p =>
      by_cases hij : i = j
      · simp [visibleAt, hj, hij, Property.absorb]
      · simp [visibleAt, hj, hij]
  · rw [heq, visibleAt, visibleAt, List.getElem?_append]
    by_cases hj : j < r.properties.length
    · simp [hj]
    · by_cases hlast : j - r.properties.length = 0
      · simp [hj, hlast, Draft.toProperty, Visibility.met]
      · simp [hj, hlast]

theorem properties_enter_of_ne (r : Roster) (d : Draft) {j : Nat} (hj : j ≠ (r.enter d).2) :
    (r.enter d).1.properties[j]? = r.properties[j]? := by
  obtain ⟨i, hi, heq⟩ | heq := enter_cases r d
  · rw [heq] at hj ⊢
    have hij : ¬i = j := fun h => hj h.symm
    simp [update, hij]
  · rw [heq] at hj ⊢
    rw [List.getElem?_append]
    dsimp only at hj
    split
    · rfl
    · have hlast : j - r.properties.length ≠ 0 := by omega
      simp [hlast]
      omega

theorem enter_lt (r : Roster) (d : Draft) :
    (r.enter d).2 < (r.enter d).1.properties.length := by
  obtain ⟨i, hi, heq⟩ | heq := enter_cases r d
  · simpa [heq, update] using hi
  · simp [heq]

theorem policy_enter (r : Roster) (d : Draft) : (r.enter d).1.policy = r.policy := by
  obtain ⟨i, hi, heq⟩ | heq := enter_cases r d
  · rw [heq]
    rfl
  · rw [heq]

theorem seenAlways_enter (r : Roster) (d : Draft) :
    (r.enter d).1.seenAlways = r.seenAlways := by
  obtain ⟨i, hi, heq⟩ | heq := enter_cases r d
  · rw [heq]
    rfl
  · rw [heq]

theorem policy_showAt (r : Roster) (i : Nat) (v : Visibility) :
    (r.showAt i v).policy = r.policy := by
  unfold showAt
  split
  · split
    · rfl
    · split <;> rfl
  · rfl

theorem properties_showAt_of_ne (r : Roster) {i j : Nat} (hj : j ≠ i) (v : Visibility) :
    (r.showAt i v).properties[j]? = r.properties[j]? := by
  have hij : ¬i = j := fun h => hj h.symm
  unfold showAt
  split
  · split
    · simp [update, hij]
    · split <;> rfl
  · simp [update, hij]

theorem shown_empty : Shown { policy := .disjunction } :=
  ⟨rfl, by simp, by simp⟩

theorem Shown.attach {r : Roster} (h : r.Shown) {d : Draft} (hd : d.identifier ≠ "")
    (v : Visibility) : (r.attach d v).1.Shown := by
  rw [attach_of_ne hd]
  have hpolicy : (r.enter d).1.policy = .disjunction := (policy_enter r d).trans h.policy
  refine ⟨(policy_showAt _ _ v).trans hpolicy, ?_, ?_⟩
  · intro j hj
    rw [mem_seenAlways_showAt hpolicy, seenAlways_enter] at hj
    rw [identifiers_showAt]
    rcases hj with hj | ⟨rfl, -⟩
    · exact Nat.lt_of_lt_of_le (h.seen j hj) (identifiers_prefix_enter r d).length_le
    · exact (List.getElem?_eq_some_iff.1 (identifiers_enter r d).2).1
  · intro j p hp
    rw [mem_seenAlways_showAt hpolicy, seenAlways_enter]
    by_cases hj : j = (r.enter d).2
    · cases hv : v.isAlways with
      | true => exact .inl (.inr ⟨hj, rfl⟩)
      | false =>
        right
        rw [showAt_asking _ _ hv, update, hj, List.getElem?_modify_eq] at hp
        obtain ⟨q, -, rfl⟩ := Option.map_eq_some_iff.1 hp
        have hasks := Visibility.isAlways_or ⟨q.conditions⟩ v
        rw [← conditions_showUnder, hv, Bool.and_false] at hasks
        simpa [Visibility.isAlways] using hasks
    · rw [properties_showAt_of_ne _ hj, properties_enter_of_ne r d hj] at hp
      exact (h.asked j p hp).imp_left .inl

def Visible (x : Reading) (r : Roster) (id : String) : Prop :=
  ∃ i, r.identifiers[i]? = some id ∧ r.visibleAt x i = true

theorem Shown.lt_of_visibleAt {r : Roster} (h : r.Shown) {x : Reading} {i : Nat}
    (hi : r.visibleAt x i = true) : i < r.identifiers.length := by
  rw [visibleAt, Bool.or_eq_true, List.contains_iff_mem, Option.any_eq_true] at hi
  rcases hi with hi | ⟨p, hp, -⟩
  · exact h.seen i hi
  · rw [identifiers, List.length_map]
    exact (List.getElem?_eq_some_iff.1 hp).1

theorem visible_attach (x : Reading) {r : Roster} (h : r.Shown) {d : Draft}
    (hd : d.identifier ≠ "") (v : Visibility) (id : String) :
    (r.attach d v).1.Visible x id ↔
      r.Visible x id ∨ id = d.identifier ∧ v.holds x = true := by
  obtain ⟨-, hplace⟩ := identifiers_enter r d
  have hkept : ∀ i, i < r.identifiers.length →
      (r.enter d).1.identifiers[i]? = r.identifiers[i]? := by
    intro i hi
    rw [List.prefix_iff_getElem?.1 (identifiers_prefix_enter r d) i hi,
      List.getElem?_eq_getElem hi]
  have hvisible : ∀ i, (r.attach d v).1.visibleAt x i = true ↔
      r.visibleAt x i = true ∨ i = (r.enter d).2 ∧ v.holds x = true := by
    intro i
    rw [attach_of_ne hd,
      visibleAt_showAt x ((policy_enter r d).trans h.policy) (enter_lt r d) v i,
      visibleAt_enter]
    simp
  have hidentifiers : (r.attach d v).1.identifiers = (r.enter d).1.identifiers := by
    rw [attach_of_ne hd]
    exact identifiers_showAt _ _ v
  unfold Visible
  rw [hidentifiers]
  constructor
  · rintro ⟨i, hid, hi⟩
    rcases (hvisible i).1 hi with hi | ⟨rfl, hv⟩
    · exact .inl ⟨i, hkept i (h.lt_of_visibleAt hi) ▸ hid, hi⟩
    · rw [hplace, Option.some_inj] at hid
      exact .inr ⟨hid.symm, hv⟩
  · rintro (⟨i, hid, hi⟩ | ⟨rfl, hv⟩)
    · rw [← hkept i (h.lt_of_visibleAt hi)] at hid
      exact ⟨i, hid, (hvisible i).2 (.inl hi)⟩
    · exact ⟨(r.enter d).2, hplace, (hvisible _).2 (.inr ⟨rfl, hv⟩)⟩

theorem identifiers_finish (r : Roster) : r.finish.map (·.identifier) = r.identifiers := by
  unfold finish identifiers
  apply List.ext_getElem?
  intro i
  simp only [List.getElem?_map, List.getElem?_mapIdx, Option.map_map]
  congr 1
  funext p
  dsimp only [Function.comp]
  split <;> rfl

theorem holds_finish (x : Reading) {r : Roster} (h : r.Shown) (hnamed : r.Named)
    {p : Property} (hp : p ∈ r.finish) :
    Visibility.holds x ⟨p.conditions⟩ = true ↔ r.Visible x p.identifier := by
  obtain ⟨i, hi⟩ := List.mem_iff_getElem?.1 hp
  have hid : r.identifiers[i]? = some p.identifier := by
    rw [← identifiers_finish, List.getElem?_map, hi]
    rfl
  rw [finish, List.getElem?_mapIdx, Option.map_eq_some_iff] at hi
  obtain ⟨q, hq, rfl⟩ := hi
  have hplace : Visibility.holds x
      ⟨(if r.seenAlways.contains i then { q with conditions := [] } else q).conditions⟩ =
        r.visibleAt x i := by
    by_cases hseen : i ∈ r.seenAlways
    · simp [visibleAt, hseen, Visibility.holds, Visibility.isAlways]
    · have hasks : (⟨q.conditions⟩ : Visibility).isAlways = false := by
        simpa [hseen, Visibility.isAlways] using h.asked i q hq
      simp [visibleAt, hseen, hq, Visibility.holds, hasks]
  rw [hplace]
  constructor
  · exact fun hvisible => ⟨i, hid, hvisible⟩
  · rintro ⟨j, hj, hvisible⟩
    have hlt := (List.getElem?_eq_some_iff.1 hid).1
    rwa [(List.getElem?_inj hlt hnamed.distinct).1 (hid.trans hj.symm)]

end Roster

end PanelSchema
