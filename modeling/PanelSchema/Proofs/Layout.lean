import PanelSchema.Layout

/-!
What a layout keeps. Sections have names of their own and stand below the parent they
name, and a property is listed once, in the section it was placed in.
-/

namespace PanelSchema

namespace Layout

/-! ### Changes of one section -/

/-- The change leaves the place of a section among the others alone. -/
structure Inner (g : SectionLayout → SectionLayout) : Prop where
  name : ∀ s, (g s).name = s.name
  parent : ∀ s, (g s).parent = s.parent
  depth : ∀ s, (g s).depth = s.depth

theorem getElem?_update (l : Layout) (handle : Nat) (g : SectionLayout → SectionLayout)
    (h : Nat) :
    (l.update handle g).sections[h]? =
      if handle = h then l.sections[h]?.map g else l.sections[h]? := by
  unfold update
  rw [List.getElem?_modify]
  split <;> simp_all

theorem length_update (l : Layout) (handle : Nat) (g : SectionLayout → SectionLayout) :
    (l.update handle g).sections.length = l.sections.length := by
  simp [update]

theorem map_update {α : Type} {g : SectionLayout → SectionLayout} {view : SectionLayout → α}
    (hg : ∀ s, view (g s) = view s) (l : Layout) (handle : Nat) :
    (l.update handle g).sections.map view = l.sections.map view := by
  apply List.ext_getElem?
  intro h
  rw [List.getElem?_map, List.getElem?_map, getElem?_update]
  split
  · cases l.sections[h]? with
    | none => rfl
    | some s => simp [hg]
  · rfl

theorem inner_revisit (label : Option String) (order : Option Int) :
    Inner (revisit label order) := by
  constructor
  all_goals
    intro s
    unfold revisit
    cases label <;> cases order <;> dsimp only <;> split <;> rfl

theorem properties_revisit (label : Option String) (order : Option Int) (s : SectionLayout) :
    (revisit label order s).properties = s.properties := by
  unfold revisit
  cases label <;> cases order <;> dsimp only <;> split <;> rfl

/-! ### Names and parents -/

/-- The names of the sections, with their parents and depths. -/
def outline (l : Layout) : List (String × Option String × Nat) :=
  l.sections.map fun s => (s.name, s.parent, s.depth)

theorem mem_outline {l : Layout} {name : String} {parent : Option String} {depth : Nat} :
    (name, parent, depth) ∈ l.outline ↔
      ∃ s ∈ l.sections, s.name = name ∧ s.parent = parent ∧ s.depth = depth := by
  simp [outline]

theorem length_outline (l : Layout) : l.outline.length = l.sections.length := by
  simp [outline]

theorem outline_update {g : SectionLayout → SectionLayout} (hg : Inner g) (l : Layout)
    (handle : Nat) : (l.update handle g).outline = l.outline :=
  map_update (fun s => by rw [hg.name, hg.parent, hg.depth]) l handle

/-- Names are not used twice. The first section is the root, and a section that has a parent
is one below it. -/
structure Nested (l : Layout) (root : String) : Prop where
  names : (l.outline.map (·.1)).Nodup
  root : l.outline[0]? = some (root, none, 0)
  parents : ∀ name q depth, (name, some q, depth) ∈ l.outline →
    ∃ above d, (q, above, d) ∈ l.outline ∧ d + 1 = depth

theorem Nested.of_outline_eq {l l' : Layout} {root : String} (h : l.Nested root)
    (heq : l'.outline = l.outline) : l'.Nested root :=
  ⟨heq ▸ h.names, heq ▸ h.root, heq ▸ h.parents⟩

theorem not_mem_names_of_handle? {l : Layout} {name : String} (h : l.handle? name = none) :
    name ∉ l.outline.map (·.1) := by
  intro hmem
  obtain ⟨entry, hentry, hname⟩ := List.mem_map.1 hmem
  obtain ⟨s, hs, rfl⟩ := List.mem_map.1 hentry
  have hother := List.findIdx?_eq_none_iff.1 h s hs
  exact ne_of_beq_false hother hname

theorem visit_cases (l : Layout) (name : String) (label parent : Option String)
    (order : Option Int) :
    (∃ handle, l.handle? name = some handle ∧
      l.visit name label parent order = (l.update handle (revisit label order), handle)) ∨
    l.handle? name = none ∧
      (l.visit name label parent order).1.sections =
        l.sections ++ [l.fresh name label parent order] ∧
      (l.visit name label parent order).1.placements = l.placements := by
  unfold visit
  cases hhandle : l.handle? name with
  | some handle => exact .inl ⟨handle, rfl, rfl⟩
  | none => exact .inr ⟨rfl, rfl, rfl⟩

theorem outline_visit (l : Layout) (name : String) (label parent : Option String)
    (order : Option Int) :
    name ∈ l.outline.map (·.1) ∧ (l.visit name label parent order).1.outline = l.outline ∨
    name ∉ l.outline.map (·.1) ∧ (l.visit name label parent order).1.outline = l.outline ++
      [(name, (l.fresh name label parent order).parent,
        (l.fresh name label parent order).depth)] := by
  obtain ⟨handle, hhandle, heq⟩ | ⟨hnew, hsections, -⟩ := visit_cases l name label parent order
  · obtain ⟨hlt, hname, -⟩ := List.findIdx?_eq_some_iff_getElem.1 hhandle
    refine .inl ⟨?_, ?_⟩
    · rw [← eq_of_beq hname, outline, List.map_map]
      exact List.mem_map_of_mem (List.getElem_mem hlt)
    · rw [heq, outline_update (inner_revisit label order)]
  · refine .inr ⟨not_mem_names_of_handle? hnew, ?_⟩
    rw [outline, hsections, List.map_append, List.map_singleton]
    rfl

theorem fresh_parent {l : Layout} {name q : String} {label parent : Option String}
    {order : Option Int} (h : (l.fresh name label parent order).parent = some q) :
    ∃ above d, (q, above, d) ∈ l.outline ∧ d + 1 = (l.fresh name label parent order).depth := by
  unfold fresh at h ⊢
  dsimp only at h ⊢
  obtain ⟨t, ht, rfl⟩ := Option.map_eq_some_iff.1 h
  obtain ⟨handle, -, hget⟩ := Option.bind_eq_some_iff.1 ht
  refine ⟨t.parent, t.depth, mem_outline.2 ⟨t, List.mem_of_getElem? hget, rfl, rfl, rfl⟩, ?_⟩
  rw [ht]
  rfl

theorem fresh_parent_isSome (l : Layout) (name : String) (label : Option String)
    (order : Option Int) (home : Nat) :
    (l.fresh name label ((l.get? home).map (·.name)) order).parent.isSome = true ↔
      home < l.sections.length := by
  unfold fresh get?
  cases hhome : l.sections[home]? with
  | none =>
    have hout := List.getElem?_eq_none_iff.1 hhome
    simp [hout]
  | some t =>
    have hin := (List.getElem?_eq_some_iff.1 hhome).1
    -- The parent is looked up by its name, which is one of the layout.
    have hknown : (l.handle? t.name).isSome = true := by
      unfold handle?
      rw [List.findIdx?_isSome]
      exact List.any_eq_true.2 ⟨t, List.mem_of_getElem? hhome, by simp⟩
    obtain ⟨handle, hhandle⟩ := Option.isSome_iff_exists.1 hknown
    have hlt := (List.findIdx?_eq_some_iff_getElem.1 hhandle).1
    simp [hhandle, hlt, hin]

theorem Nested.visit {l : Layout} {root : String} (h : l.Nested root) (name : String)
    (label parent : Option String) (order : Option Int) :
    (l.visit name label parent order).1.Nested root := by
  obtain ⟨-, heq⟩ | ⟨hnew, heq⟩ := outline_visit l name label parent order
  · exact h.of_outline_eq heq
  · constructor
    · rw [heq, List.map_append, List.map_singleton, List.nodup_append]
      refine ⟨h.names, by simp, ?_⟩
      intro a ha b hb hab
      rw [List.mem_singleton] at hb
      rw [hab, hb] at ha
      exact hnew ha
    · rw [heq, List.getElem?_append_left (List.getElem?_eq_some_iff.1 h.root).1, h.root]
    · intro s q depth hs
      rw [heq, List.mem_append, List.mem_singleton] at hs
      obtain ⟨above, d, hmem, hd⟩ : ∃ above d, (q, above, d) ∈ l.outline ∧ d + 1 = depth := by
        rcases hs with hs | hs
        · exact h.parents s q depth hs
        · simp only [Prod.mk.injEq] at hs
          obtain ⟨-, hparent, rfl⟩ := hs
          exact fresh_parent hparent.symm
      exact ⟨above, d, by simp [heq, hmem], hd⟩

theorem length_le_visit (l : Layout) (name : String) (label parent : Option String)
    (order : Option Int) :
    l.sections.length ≤ (l.visit name label parent order).1.sections.length := by
  rw [← length_outline, ← length_outline]
  obtain ⟨-, heq⟩ | ⟨-, heq⟩ := outline_visit l name label parent order <;> simp [heq]

/-! ### Placements -/

/-- Whether the section of a handle lists a property. -/
def Lists (l : Layout) (handle i : Nat) : Prop :=
  ∃ s, l.sections[handle]? = some s ∧ i ∈ s.properties

/-- The handle of the section that a property was placed in. -/
def home? (l : Layout) (i : Nat) : Option Nat :=
  (l.placements.lookup i).map (·.home)

/-- Properties are listed where they were placed, and once. -/
structure Placed (l : Layout) : Prop where
  lists_iff : ∀ handle i, l.Lists handle i ↔ l.home? i = some handle
  once : ∀ s ∈ l.sections, s.properties.Nodup

theorem inner_push (property : Nat) :
    Inner fun s => { s with properties := s.properties ++ [property] } :=
  ⟨fun _ => rfl, fun _ => rfl, fun _ => rfl⟩

theorem inner_withdraw (property : Nat) :
    Inner fun s => { s with properties := s.properties.filter (· != property) } :=
  ⟨fun _ => rfl, fun _ => rfl, fun _ => rfl⟩

theorem lists_push {l : Layout} {home : Nat} (hhome : home < l.sections.length)
    (property handle i : Nat) :
    (l.push home property).Lists handle i ↔
      l.Lists handle i ∨ handle = home ∧ i = property := by
  unfold push Lists
  rw [getElem?_update]
  by_cases hhandle : home = handle
  · subst hhandle
    rw [if_pos rfl, List.getElem?_eq_getElem hhome]
    simp
  · have hne : ¬handle = home := fun h => hhandle h.symm
    simp [hhandle, hne]

theorem lists_withdraw (l : Layout) (home property handle i : Nat) :
    (l.withdraw home property).Lists handle i ↔
      l.Lists handle i ∧ ¬(handle = home ∧ i = property) := by
  unfold withdraw Lists
  rw [getElem?_update]
  by_cases hhandle : home = handle
  · subst hhandle
    rw [if_pos rfl]
    cases l.sections[home]? with
    | none => simp
    | some s => simp
  · have hne : ¬handle = home := fun h => hhandle h.symm
    simp [hhandle, hne]

private theorem lookup_filter_ne (ps : List (Nat × Placement)) (k i : Nat) :
    (ps.filter (·.1 != k)).lookup i = if i = k then none else ps.lookup i := by
  induction ps with
  | nil => simp
  | cons p ps ih =>
    obtain ⟨j, p⟩ := p
    by_cases hjk : j = k
    · subst hjk
      by_cases hi : i = j
      · simpa [hi] using ih
      · have hne : (i == j) = false := by simpa using hi
        simpa [hi, List.lookup_cons, hne] using ih
    · by_cases hij : i = j
      · subst hij
        simp [hjk]
      · have hne : (i == j) = false := by simpa using hij
        simpa [hjk, List.lookup_cons, hne] using ih

theorem lookup_record (l : Layout) (property : Nat) (p : Placement) (i : Nat) :
    (l.record property p).placements.lookup i =
      if i = property then some p else l.placements.lookup i := by
  unfold record
  by_cases hi : i = property
  · simp [hi]
  · have hne : (i == property) = false := by simpa using hi
    rw [List.lookup_cons, hne, lookup_filter_ne, if_neg hi, if_neg hi]

theorem home?_record (l : Layout) (property : Nat) (p : Placement) (i : Nat) :
    (l.record property p).home? i = if i = property then some p.home else l.home? i := by
  rw [home?, lookup_record]
  split <;> rfl

theorem place_cases (l : Layout) (home property : Nat) (unconditional : Bool) :
    l.place home property unconditional = l ∨
    home < l.sections.length ∧ l.home? property = none ∧
      l.place home property unconditional =
        (l.push home property).record property { home, unconditional } ∨
    home < l.sections.length ∧ ∃ previous, l.home? property = some previous ∧
      l.place home property unconditional =
        ((l.withdraw previous property).push home property).record property
          { home, unconditional } := by
  unfold place home?
  split
  · exact .inl rfl
  · rename_i hhome
    cases l.placements.lookup property with
    | none => exact .inr (.inl ⟨by omega, rfl, rfl⟩)
    | some previous =>
      dsimp only
      split
      · exact .inr (.inr ⟨by omega, previous.home, rfl, rfl⟩)
      · exact .inl rfl

theorem outline_place (l : Layout) (home property : Nat) (unconditional : Bool) :
    (l.place home property unconditional).outline = l.outline := by
  have hrecord : ∀ (l' : Layout) p, (l'.record property p).outline = l'.outline :=
    fun _ _ => rfl
  obtain heq | ⟨-, -, heq⟩ | ⟨-, previous, -, heq⟩ := place_cases l home property unconditional
  · rw [heq]
  · rw [heq, hrecord, push, outline_update (inner_push property)]
  · rw [heq, hrecord, push, outline_update (inner_push property), withdraw,
      outline_update (inner_withdraw property)]

theorem Placed.update {l : Layout} (h : l.Placed) {g : SectionLayout → SectionLayout}
    (hg : ∀ s, (g s).properties = s.properties) (handle : Nat) :
    (l.update handle g).Placed := by
  have hview := map_update hg l handle
  have hlists : ∀ handle' i, (l.update handle g).Lists handle' i ↔ l.Lists handle' i := by
    intro handle' i
    have hat := congrArg (·[handle']?) hview
    simp only [List.getElem?_map] at hat
    unfold Lists
    cases h₁ : (l.update handle g).sections[handle']? <;> cases h₂ : l.sections[handle']? <;>
      simp_all
  constructor
  · intro handle' i
    rw [hlists, h.lists_iff]
    rfl
  · intro s hs
    have hs := List.mem_map_of_mem (f := (·.properties)) hs
    rw [hview, List.mem_map] at hs
    obtain ⟨s', hs', heq⟩ := hs
    exact heq ▸ h.once s' hs'

theorem Placed.visit {l : Layout} (h : l.Placed) (name : String)
    (label parent : Option String) (order : Option Int) :
    (l.visit name label parent order).1.Placed := by
  obtain ⟨handle, -, heq⟩ | ⟨-, hsections, hplacements⟩ :=
    visit_cases l name label parent order
  · rw [heq]
    exact h.update (properties_revisit label order) handle
  · constructor
    · intro handle i
      rw [home?, hplacements, ← home?, ← h.lists_iff]
      unfold Lists
      rw [hsections, List.getElem?_append]
      split
      · rfl
      · rename_i hhandle
        have hnone : l.sections[handle]? = none := by
          rw [List.getElem?_eq_none_iff]
          omega
        rw [hnone]
        cases hnew : handle - l.sections.length with
        | zero => simp [fresh]
        | succ n => simp
    · intro s hs
      rw [hsections, List.mem_append, List.mem_singleton] at hs
      rcases hs with hs | rfl
      · exact h.once s hs
      · exact List.nodup_nil

theorem home?_visit (l : Layout) (name : String) (label parent : Option String)
    (order : Option Int) (i : Nat) :
    (l.visit name label parent order).1.home? i = l.home? i := by
  obtain ⟨handle, -, heq⟩ | ⟨-, -, hplacements⟩ := visit_cases l name label parent order
  · rw [heq]
    rfl
  · rw [home?, hplacements, home?]

theorem Placed.push_record {l : Layout} {home property : Nat}
    (hlists : ∀ handle i, i ≠ property → (l.Lists handle i ↔ l.home? i = some handle))
    (hnone : ∀ handle, ¬l.Lists handle property) (honce : ∀ s ∈ l.sections, s.properties.Nodup)
    (hhome : home < l.sections.length) (unconditional : Bool) :
    ((l.push home property).record property { home, unconditional }).Placed := by
  constructor
  · intro handle i
    change (l.push home property).Lists handle i ↔ _
    rw [lists_push hhome, home?_record]
    change _ ↔ (if i = property then some home else l.home? i) = some handle
    by_cases hi : i = property
    · subst hi
      simp [hnone, eq_comm]
    · simp [hi, hlists handle i hi]
  · intro s hs
    obtain ⟨handle, hs⟩ := List.mem_iff_getElem?.1 hs
    change (l.push home property).sections[handle]? = some s at hs
    unfold push at hs
    rw [getElem?_update] at hs
    split at hs
    · obtain ⟨s', hs', rfl⟩ := Option.map_eq_some_iff.1 hs
      have hnew : property ∉ s'.properties := fun hmem => hnone handle ⟨s', hs', hmem⟩
      rw [List.nodup_append]
      refine ⟨honce s' (List.mem_of_getElem? hs'), by simp, ?_⟩
      intro a ha b hb hab
      rw [List.mem_singleton] at hb
      rw [hab, hb] at ha
      exact hnew ha
    · exact honce s (List.mem_of_getElem? hs)

theorem Placed.place {l : Layout} (h : l.Placed) (home property : Nat) (unconditional : Bool) :
    (l.place home property unconditional).Placed := by
  obtain heq | ⟨hhome, hnone, heq⟩ | ⟨hhome, previous, hprevious, heq⟩ :=
    place_cases l home property unconditional
  · rwa [heq]
  · rw [heq]
    apply Placed.push_record
    · exact fun handle i _ => h.lists_iff handle i
    · intro handle hlists
      rw [h.lists_iff, hnone] at hlists
      cases hlists
    · exact h.once
    · exact hhome
  · rw [heq]
    apply Placed.push_record
    · intro handle i hi
      rw [lists_withdraw, h.lists_iff]
      simp [hi]
      rfl
    · intro handle hlists
      rw [lists_withdraw, h.lists_iff, hprevious] at hlists
      obtain ⟨hsome, hne⟩ := hlists
      cases hsome
      exact hne ⟨rfl, rfl⟩
    · intro s hs
      obtain ⟨handle, hs⟩ := List.mem_iff_getElem?.1 hs
      unfold withdraw at hs
      rw [getElem?_update] at hs
      split at hs
      · obtain ⟨s', hs', rfl⟩ := Option.map_eq_some_iff.1 hs
        exact (h.once s' (List.mem_of_getElem? hs')).filter _
      · exact h.once s (List.mem_of_getElem? hs)
    · unfold withdraw
      rwa [length_update]

theorem home?_place (l : Layout) (home property : Nat) (unconditional : Bool) (i : Nat) :
    ((l.place home property unconditional).home? i).isSome = true ↔
      (l.home? i).isSome = true ∨ i = property ∧ home < l.sections.length := by
  unfold place
  split
  · rename_i hhome
    have hout : ¬home < l.sections.length := by omega
    simp [hout]
  · rename_i hhome
    have hin : home < l.sections.length := by omega
    cases hlookup : l.placements.lookup property with
    | none =>
      have hkept : (l.push home property).home? i = l.home? i := rfl
      rw [home?_record, hkept]
      by_cases hi : i = property
      · simp [hi, hin]
      · simp [hi]
    | some previous =>
      dsimp only
      split
      · have hkept : ((l.withdraw previous.home property).push home property).home? i =
            l.home? i := rfl
        rw [home?_record, hkept]
        by_cases hi : i = property
        · simp [hi, hin]
        · simp [hi]
      · by_cases hi : i = property
        · subst hi
          simp [home?, hlookup]
        · simp [hi]

end Layout

end PanelSchema
