import Mathlib.Data.List.Nodup
import PanelSchema.Proofs.Distinct
import PanelSchema.Proofs.Module

/-!
The sections of a layout after any calls. Each is given by the visits of its name: by the first
of them its parent and depth, by the first that has one its label, by all of them its order.
-/

namespace PanelSchema

/-- What a section is visited with. -/
structure SectionVisit where
  name : String
  label : Option String := none
  parent : Option String := none
  order : Option Int := none

/-- A call that changes a layout. -/
inductive LayoutCall where
  | visit (v : SectionVisit)
  | place (home property : Nat) (unconditional : Bool)

def LayoutCall.visit? : LayoutCall → Option SectionVisit
  | .visit v => some v
  | .place .. => none

namespace Layout

def after (l : Layout) : LayoutCall → Layout
  | .visit v => (l.visit v.name v.label v.parent v.order).1
  | .place home property unconditional => l.place home property unconditional

/-- A new layout after some calls. -/
def ofCalls (calls : List LayoutCall) : Layout :=
  calls.foldl after {}

def visits (calls : List LayoutCall) : List SectionVisit :=
  calls.filterMap LayoutCall.visit?

/-- The names of the sections, in the order in which they were made. -/
def made (vs : List SectionVisit) : List String :=
  (vs.map (·.name)).eraseDups

/-- The names of the sections that were there when the one of `name` was made. -/
def madeBefore (vs : List SectionVisit) (name : String) : List String :=
  (made vs).takeWhile (· != name)

def visitsOf (vs : List SectionVisit) (name : String) : List SectionVisit :=
  vs.filter (·.name == name)

def givenLabel? (vs : List SectionVisit) (name : String) : Option String :=
  (visitsOf vs name).findSome? (·.label)

def labelOf (vs : List SectionVisit) (name : String) : String :=
  (givenLabel? vs name).getD name

/-- The parent that the section was made with, if there was one of that name. -/
def parentOf? (vs : List SectionVisit) (name : String) : Option String :=
  ((visitsOf vs name).head?.bind (·.parent)).filter (madeBefore vs name).contains

/-- Whether the section was made without an order of its own. -/
def Unordered (vs : List SectionVisit) (name : String) : Bool :=
  ((visitsOf vs name).head?.bind (·.order)).isNone

/-- The order that the section was made with: its own, or else the number of sections before
it that were made without one. -/
def firstOrder (vs : List SectionVisit) (name : String) : Int :=
  ((visitsOf vs name).head?.bind (·.order)).getD ((madeBefore vs name).countP (Unordered vs))

/-- The least of the orders that the section was given. -/
def orderOf (vs : List SectionVisit) (name : String) : Int :=
  ((visitsOf vs name).tail.filterMap (·.order)).foldl min (firstOrder vs name)

/-- What lies above a name, the nearest first. -/
inductive Ancestry (parent? : String → Option String) : String → List String → Prop where
  | top {name : String} (h : parent? name = none) : Ancestry parent? name []
  | under {name q : String} {above : List String} (h : parent? name = some q)
      (hq : Ancestry parent? q above) : Ancestry parent? name (q :: above)

variable {vs : List SectionVisit} {v : SectionVisit} {name : String} {l : Layout}

/-! ### One more visit -/

theorem visitsOf_concat_self (vs : List SectionVisit) (v : SectionVisit) :
    visitsOf (vs ++ [v]) v.name = visitsOf vs v.name ++ [v] := by
  simp [visitsOf]

theorem visitsOf_concat_of_ne (h : v.name ≠ name) :
    visitsOf (vs ++ [v]) name = visitsOf vs name := by
  simp [visitsOf, h]

theorem mem_made : name ∈ made vs ↔ ∃ v ∈ vs, v.name = name := by
  rw [made, List.mem_eraseDups, List.mem_map]

theorem mem_made_iff_visitsOf : name ∈ made vs ↔ visitsOf vs name ≠ [] := by
  rw [mem_made, visitsOf, Ne, List.filter_eq_nil_iff]
  simp

theorem nodup_made (vs : List SectionVisit) : (made vs).Nodup :=
  nodup_eraseDups _

theorem made_concat (vs : List SectionVisit) (v : SectionVisit) :
    made (vs ++ [v]) = adding (made vs) v.name := by
  rw [made, List.map_append, List.map_singleton, eraseDups_concat]
  rfl

theorem made_concat_of_mem (h : v.name ∈ made vs) : made (vs ++ [v]) = made vs := by
  rw [made_concat, adding, if_pos (List.contains_iff_mem.2 h)]

theorem made_concat_of_not_mem (h : v.name ∉ made vs) :
    made (vs ++ [v]) = made vs ++ [v.name] := by
  rw [made_concat, adding, if_neg (by simpa using h)]

theorem head?_visitsOf_concat (h : name ∈ made vs) (v : SectionVisit) :
    (visitsOf (vs ++ [v]) name).head? = (visitsOf vs name).head? := by
  by_cases hv : v.name = name
  · subst hv
    rw [visitsOf_concat_self]
    exact List.head?_append_of_ne_nil _ (mem_made_iff_visitsOf.1 h)
  · rw [visitsOf_concat_of_ne hv]

theorem takeWhile_append_of_mem {names : List String} (h : name ∈ names) (more : List String) :
    (names ++ more).takeWhile (· != name) = names.takeWhile (· != name) := by
  rw [List.takeWhile_append, if_neg]
  intro hlength
  have hall := (List.takeWhile_prefix (· != name)).eq_of_length hlength
  have hne := List.all_eq_true.1 (List.all_takeWhile (p := (· != name))) name (hall.symm ▸ h)
  simp at hne

theorem madeBefore_concat (h : name ∈ made vs) (v : SectionVisit) :
    madeBefore (vs ++ [v]) name = madeBefore vs name := by
  unfold madeBefore
  by_cases hv : v.name ∈ made vs
  · rw [made_concat_of_mem hv]
  · rw [made_concat_of_not_mem hv, takeWhile_append_of_mem h]

theorem madeBefore_concat_self (h : v.name ∉ made vs) :
    madeBefore (vs ++ [v]) v.name = made vs := by
  have hne : ∀ n ∈ made vs, (n != v.name) = true := by
    intro n hn
    rw [bne_iff_ne]
    rintro rfl
    exact h hn
  rw [madeBefore, made_concat_of_not_mem h, List.takeWhile_append_of_pos hne]
  simp

theorem parentOf?_concat (h : name ∈ made vs) (v : SectionVisit) :
    parentOf? (vs ++ [v]) name = parentOf? vs name := by
  rw [parentOf?, head?_visitsOf_concat h, madeBefore_concat h, parentOf?]

theorem mem_made_of_parentOf? {q : String} (h : parentOf? vs name = some q) : q ∈ made vs := by
  obtain ⟨-, hq⟩ := Option.filter_eq_some_iff.1 h
  exact (List.takeWhile_prefix _).subset (List.contains_iff_mem.1 hq)

theorem unordered_concat (h : name ∈ made vs) (v : SectionVisit) :
    Unordered (vs ++ [v]) name = Unordered vs name := by
  rw [Unordered, head?_visitsOf_concat h, Unordered]

theorem countP_unordered_concat {names : List String} (h : names ⊆ made vs)
    (v : SectionVisit) : names.countP (Unordered (vs ++ [v])) = names.countP (Unordered vs) := by
  apply List.countP_congr
  intro n hn
  rw [unordered_concat (h hn)]

theorem firstOrder_concat (h : name ∈ made vs) (v : SectionVisit) :
    firstOrder (vs ++ [v]) name = firstOrder vs name := by
  have hbefore : madeBefore vs name ⊆ made vs := (List.takeWhile_prefix _).subset
  rw [firstOrder, head?_visitsOf_concat h, madeBefore_concat h, countP_unordered_concat hbefore,
    firstOrder]

theorem Ancestry.concat {above : List String} (hname : name ∈ made vs)
    (h : Ancestry (parentOf? vs) name above) (v : SectionVisit) :
    Ancestry (parentOf? (vs ++ [v])) name above := by
  induction h with
  | top h => exact .top (parentOf?_concat hname v ▸ h)
  | under h hq ih =>
    exact .under (parentOf?_concat hname v ▸ h) (ih (mem_made_of_parentOf? h))

/-! ### What a section recalls -/

/-- The section is what the visits of its name make of it. -/
structure Recalls (vs : List SectionVisit) (s : SectionLayout) : Prop where
  label : s.label = labelOf vs s.name
  labelGiven : s.labelGiven = (givenLabel? vs s.name).isSome
  parent : s.parent = parentOf? vs s.name
  order : s.order = orderOf vs s.name
  depth : ∃ above, Ancestry (parentOf? vs) s.name above ∧ s.depth = above.length

theorem Recalls.concat_of_ne {s : SectionLayout} (h : Recalls vs s) (hs : s.name ∈ made vs)
    (hv : v.name ≠ s.name) : Recalls (vs ++ [v]) s where
  label := by rw [h.label, labelOf, labelOf, givenLabel?, givenLabel?, visitsOf_concat_of_ne hv]
  labelGiven := by rw [h.labelGiven, givenLabel?, givenLabel?, visitsOf_concat_of_ne hv]
  parent := by rw [h.parent, parentOf?_concat hs]
  order := by
    rw [h.order, orderOf, orderOf, visitsOf_concat_of_ne hv, firstOrder_concat hs]
  depth := by
    obtain ⟨above, habove, hdepth⟩ := h.depth
    exact ⟨above, habove.concat hs v, hdepth⟩

theorem revisit_label (label : Option String) (order : Option Int) (s : SectionLayout) :
    (revisit label order s).label = if s.labelGiven then s.label else label.getD s.label := by
  unfold revisit
  cases label <;> cases order <;> cases h : s.labelGiven <;> rfl

theorem revisit_labelGiven (label : Option String) (order : Option Int) (s : SectionLayout) :
    (revisit label order s).labelGiven = (s.labelGiven || label.isSome) := by
  unfold revisit
  cases label <;> cases order <;> cases h : s.labelGiven <;> simp [h]

theorem revisit_order (label : Option String) (order : Option Int) (s : SectionLayout) :
    (revisit label order s).order = order.toList.foldl min s.order := by
  unfold revisit
  cases label <;> cases order <;> cases h : s.labelGiven <;> rfl

theorem Recalls.revisit {s : SectionLayout} (h : Recalls vs s) (hs : v.name ∈ made vs)
    (hv : s.name = v.name) : Recalls (vs ++ [v]) (revisit v.label v.order s) := by
  have hinner := inner_revisit v.label v.order
  have hname : (Layout.revisit v.label v.order s).name = v.name := (hinner.name s).trans hv
  have hgiven : givenLabel? (vs ++ [v]) v.name = (givenLabel? vs v.name).or v.label := by
    rw [givenLabel?, visitsOf_concat_self, List.findSome?_append, givenLabel?]
    simp
  have hlabel := h.label
  have hlabelGiven := h.labelGiven
  have horder := h.order
  rw [hv] at hlabel hlabelGiven horder
  constructor
  · rw [revisit_label, hlabelGiven, hlabel, hname, labelOf, labelOf, hgiven]
    cases givenLabel? vs v.name <;> rfl
  · rw [revisit_labelGiven, hlabelGiven, hname, hgiven]
    cases givenLabel? vs v.name <;> simp
  · rw [hinner.parent, h.parent, hname, hv, parentOf?_concat hs]
  · rw [revisit_order, horder, hname, orderOf, orderOf, visitsOf_concat_self,
      firstOrder_concat hs, List.tail_append_of_ne_nil (mem_made_iff_visitsOf.1 hs),
      List.filterMap_append, List.foldl_append]
    cases hv : v.order <;> simp [hv]
  · obtain ⟨above, habove, hdepth⟩ := h.depth
    refine ⟨above, ?_, by rw [hinner.depth, hdepth]⟩
    rw [hname, ← hv]
    exact habove.concat (hv ▸ hs) v

/-! ### What a layout remembers -/

/-- Every section is what its visits make of it, and as many orders were drawn as sections
were made without one. -/
structure Remembers (l : Layout) (vs : List SectionVisit) : Prop where
  names : l.sections.map (·.name) = made vs
  nextOrder : l.nextOrder = (made vs).countP (Unordered vs)
  sections : ∀ s ∈ l.sections, Recalls vs s

theorem getElem?_of_handle? {handle : Nat} (h : l.handle? name = some handle) :
    ∃ s, l.sections[handle]? = some s ∧ s.name = name := by
  obtain ⟨hlt, hname, -⟩ := List.findIdx?_eq_some_iff_getElem.1 h
  exact ⟨_, List.getElem?_eq_getElem hlt, eq_of_beq hname⟩

namespace Remembers

variable (h : l.Remembers vs)

include h

theorem mem_made {s : SectionLayout} (hs : s ∈ l.sections) : s.name ∈ made vs :=
  h.names ▸ List.mem_map_of_mem hs

theorem handle?_eq_none : l.handle? name = none ↔ name ∉ made vs := by
  rw [← h.names, handle?, List.findIdx?_eq_none_iff]
  simp

theorem eq_of_name_eq {i j : Nat} {s t : SectionLayout} (hs : l.sections[i]? = some s)
    (ht : l.sections[j]? = some t) (hst : s.name = t.name) : i = j := by
  have hnodup : (l.sections.map (·.name)).Nodup := h.names ▸ nodup_made vs
  have hi := (List.getElem?_eq_some_iff.1 hs).1
  refine (List.getElem?_inj (by simpa using hi) hnodup).1 ?_
  rw [List.getElem?_map, List.getElem?_map, hs, ht, Option.map_some, Option.map_some, hst]

theorem parent_eq (parent : Option String) :
    ((parent.bind l.handle?).bind l.get?).map (·.name) = parent.filter (made vs).contains := by
  cases parent with
  | none => rfl
  | some q =>
    rw [Option.bind_some]
    cases hq : l.handle? q with
    | none =>
      rw [Option.filter_some, if_neg (by simpa using h.handle?_eq_none.1 hq)]
      rfl
    | some handle =>
      obtain ⟨s, hs, rfl⟩ := getElem?_of_handle? hq
      have hmem := List.contains_iff_mem.2 (h.mem_made (List.mem_of_getElem? hs))
      rw [Option.filter_some, if_pos hmem, Option.bind_some, get?, hs]
      rfl

theorem fresh (hv : v.name ∉ made vs) :
    Recalls (vs ++ [v]) (l.fresh v.name v.label v.parent v.order) := by
  have hfirst : visitsOf (vs ++ [v]) v.name = [v] := by
    rw [visitsOf_concat_self, not_not.1 (mt mem_made_iff_visitsOf.2 hv), List.nil_append]
  have hgiven : givenLabel? (vs ++ [v]) v.name = v.label := by
    rw [givenLabel?, hfirst]
    simp
  have hparent : parentOf? (vs ++ [v]) v.name = v.parent.filter (made vs).contains := by
    rw [parentOf?, hfirst, madeBefore_concat_self hv]
    rfl
  rw [← h.parent_eq] at hparent
  constructor
  · rw [labelOf, Layout.fresh, hgiven]
  · rw [Layout.fresh, hgiven]
  · exact hparent.symm
  · rw [orderOf, Layout.fresh, hfirst, firstOrder, hfirst, madeBefore_concat_self hv,
      countP_unordered_concat (List.Subset.refl _), ← h.nextOrder]
    rfl
  · cases habove : (v.parent.bind l.handle?).bind l.get? with
    | none =>
      refine ⟨[], .top ?_, ?_⟩
      · rw [Layout.fresh, hparent, habove]
        rfl
      · rw [Layout.fresh, habove]
        rfl
    | some t =>
      obtain ⟨handle, -, ht⟩ := Option.bind_eq_some_iff.1 habove
      have hmem := List.mem_of_getElem? ht
      obtain ⟨above, hancestry, hdepth⟩ := (h.sections t hmem).depth
      refine ⟨t.name :: above, .under ?_ (hancestry.concat (h.mem_made hmem) v), ?_⟩
      · rw [Layout.fresh, hparent, habove]
        rfl
      · rw [Layout.fresh, habove, List.length_cons, ← hdepth]
        rfl

theorem revisited (hv : v.name ∈ made vs) {handle : Nat} (hhandle : l.handle? v.name = some handle) :
    (l.update handle (revisit v.label v.order)).Remembers (vs ++ [v]) where
  names := by
    rw [map_update (inner_revisit v.label v.order).name, h.names, made_concat_of_mem hv]
  nextOrder := by
    rw [made_concat_of_mem hv, countP_unordered_concat (List.Subset.refl _)]
    exact h.nextOrder
  sections := by
    intro s hs
    obtain ⟨t, ht, htname⟩ := getElem?_of_handle? hhandle
    obtain ⟨i, hi⟩ := List.mem_iff_getElem?.1 hs
    rw [getElem?_update] at hi
    split at hi
    · rename_i heq
      subst heq
      rw [ht, Option.map_some, Option.some_inj] at hi
      exact hi ▸ (h.sections t (List.mem_of_getElem? ht)).revisit hv htname
    · rename_i hne
      have hmem := List.mem_of_getElem? hi
      refine (h.sections s hmem).concat_of_ne (h.mem_made hmem) ?_
      intro hname
      exact hne (h.eq_of_name_eq ht hi (htname.trans hname))

theorem visit (v : SectionVisit) :
    (l.visit v.name v.label v.parent v.order).1.Remembers (vs ++ [v]) := by
  unfold Layout.visit
  cases hhandle : l.handle? v.name with
  | some handle =>
    refine h.revisited ?_ hhandle
    by_contra hnot
    rw [h.handle?_eq_none.2 hnot] at hhandle
    cases hhandle
  | none =>
    have hv := h.handle?_eq_none.1 hhandle
    refine ⟨?_, ?_, fun s hs => ?_⟩
    · rw [made_concat_of_not_mem hv, ← h.names, List.map_append]
      rfl
    · have hself : Unordered (vs ++ [v]) v.name = v.order.isNone := by
        rw [Unordered, visitsOf_concat_self, not_not.1 (mt mem_made_iff_visitsOf.2 hv)]
        rfl
      rw [made_concat_of_not_mem hv, List.countP_append, List.countP_singleton, hself,
        countP_unordered_concat (List.Subset.refl _), h.nextOrder]
      cases v.order <;> simp
    · rcases List.mem_append.1 hs with hs | hs
      · have hmem := h.mem_made hs
        refine (h.sections s hs).concat_of_ne hmem ?_
        intro hname
        exact hv (hname ▸ hmem)
      · rw [List.mem_singleton.1 hs]
        exact h.fresh hv

theorem update (handle : Nat) (g : List Nat → List Nat) :
    (l.update handle fun s => { s with properties := g s.properties }).Remembers vs := by
  have hname : ∀ s : SectionLayout,
      ({ s with properties := g s.properties } : SectionLayout).name = s.name := fun _ => rfl
  refine ⟨?_, h.nextOrder, fun s hs => ?_⟩
  · rw [map_update hname, h.names]
  · obtain ⟨i, hi⟩ := List.mem_iff_getElem?.1 hs
    rw [getElem?_update] at hi
    split at hi
    · obtain ⟨t, ht, rfl⟩ := Option.map_eq_some_iff.1 hi
      obtain ⟨hlabel, hgiven, hparent, horder, hdepth⟩ := h.sections t (List.mem_of_getElem? ht)
      exact ⟨hlabel, hgiven, hparent, horder, hdepth⟩
    · exact h.sections s (List.mem_of_getElem? hi)

theorem place (home property : Nat) (unconditional : Bool) :
    (l.place home property unconditional).Remembers vs := by
  have hrecord : ∀ {l' : Layout} p, l'.Remembers vs → (l'.record property p).Remembers vs :=
    fun _ h' => ⟨h'.names, h'.nextOrder, h'.sections⟩
  obtain heq | ⟨-, -, heq⟩ | ⟨-, previous, -, heq⟩ := place_cases l home property unconditional
  · rwa [heq]
  · rw [heq]
    exact hrecord _ (h.update home (· ++ [property]))
  · rw [heq]
    exact hrecord _ ((h.update previous (·.filter (· != property))).update home (· ++ [property]))

end Remembers

theorem ofCalls_concat (calls : List LayoutCall) (c : LayoutCall) :
    ofCalls (calls ++ [c]) = (ofCalls calls).after c := by
  rw [ofCalls, List.foldl_append]
  rfl

theorem visits_concat (calls : List LayoutCall) (c : LayoutCall) :
    visits (calls ++ [c]) = visits calls ++ c.visit?.toList := by
  rw [visits, List.filterMap_append]
  cases c <;> rfl

theorem remembers_ofCalls (calls : List LayoutCall) :
    (ofCalls calls).Remembers (visits calls) := by
  induction calls using List.reverseRecOn with
  | nil => exact ⟨rfl, rfl, fun s hs => by cases hs⟩
  | append_singleton calls c ih =>
    rw [ofCalls_concat, visits_concat]
    cases c with
    | visit v => exact ih.visit v
    | place home property unconditional =>
      rw [LayoutCall.visit?, Option.toList_none, List.append_nil]
      exact ih.place home property unconditional

/-! ### The end -/

theorem pairwise_idxOf {names : List String} (h : names.Nodup) :
    names.Pairwise fun a b => names.idxOf a < names.idxOf b := by
  rw [List.pairwise_iff_getElem]
  intro i j hi hj hij
  rwa [h.idxOf_getElem i hi, h.idxOf_getElem j hj]

/-- Sections are sorted by order, and those of one order are in the order in which they were
made. -/
theorem Remembers.finish_sorted (h : l.Remembers vs) (root : String) :
    (l.finish root).Pairwise fun s t => s.order < t.order ∨
      s.order = t.order ∧ (made vs).idxOf s.name < (made vs).idxOf t.name := by
  have hmade : l.sections.Pairwise fun s t =>
      (made vs).idxOf s.name < (made vs).idxOf t.name := by
    have hnames := pairwise_idxOf (nodup_made vs)
    rw [← h.names, List.pairwise_map] at hnames
    rw [← h.names]
    exact hnames
  rw [finish_eq, List.pairwise_map]
  exact pairwise_mergeSort_key SectionLayout.order hmade

/-- What calls make of the sections. Each name has one section. It has the first label that it
was given, the least of its orders, the parent it was made with, and it is as deep as there are
sections above it. -/
theorem finish_sections (calls : List LayoutCall) (root : String) :
    (((ofCalls calls).finish root).map (·.name)).Nodup ∧
      (∀ name, name ∈ ((ofCalls calls).finish root).map (·.name) ↔
        ∃ v ∈ visits calls, v.name = name) ∧
      ((ofCalls calls).finish root).Pairwise (fun s t => s.order < t.order ∨
        s.order = t.order ∧
          (made (visits calls)).idxOf s.name < (made (visits calls)).idxOf t.name) ∧
      ∀ s ∈ (ofCalls calls).finish root,
        s.label = labelOf (visits calls) s.name ∧
          s.order = orderOf (visits calls) s.name ∧
          s.parent = parentOf? (visits calls) s.name ∧
          ∃ above, Ancestry (parentOf? (visits calls)) s.name above ∧
            s.depth = above.length := by
  have h := remembers_ofCalls calls
  have hnames : (((ofCalls calls).finish root).map (·.name)).Perm (made (visits calls)) := by
    rw [← h.names]
    have hperm := (finish_perm (ofCalls calls) root).map (·.name)
    rwa [List.map_map] at hperm
  refine ⟨hnames.nodup_iff.2 (nodup_made _), fun name => ?_, h.finish_sorted root, ?_⟩
  · rw [hnames.mem_iff, mem_made]
  · intro s hs
    obtain ⟨t, ht, rfl⟩ := mem_finish.1 hs
    obtain ⟨hlabel, -, hparent, horder, hdepth⟩ := h.sections t ht
    exact ⟨hlabel, horder, hparent, hdepth⟩

/-- A section is visited again, with a label, a lower order and another parent. -/
def rimTwice : List LayoutCall :=
  [.visit { name := "Glow" },
    .visit { name := "Rim", parent := some "Glow" },
    .visit { name := "Edge", label := some "Edges", parent := some "Rim", order := some 7 },
    .visit { name := "Tint", parent := some "Base" },
    .visit { name := "Rim", label := some "Rim Light", parent := some "Tint",
             order := some (-1) }]

theorem finish_sections_rimTwice :
    ∃ s ∈ (ofCalls rimTwice).finish "Glow", s.name = "Rim" ∧ s.label = "Rim Light" ∧
      s.order = -1 ∧ s.parent = some "Glow" ∧ s.depth = 1 := by
  obtain ⟨-, hnames, -, hfields⟩ := finish_sections rimTwice "Glow"
  have hvisited : ∃ v ∈ visits rimTwice, v.name = "Rim" := ⟨_, .tail _ (.head _), rfl⟩
  obtain ⟨s, hs, hname⟩ := List.mem_map.1 ((hnames "Rim").2 hvisited)
  obtain ⟨hlabel, horder, hparent, above, habove, hdepth⟩ := hfields s hs
  rw [hname] at hlabel horder hparent habove
  refine ⟨s, hs, hname, hlabel, horder, hparent, ?_⟩
  cases habove with
  | top h => cases h
  | under h hq =>
    cases h
    cases hq with
    | top h => exact hdepth
    | under h hq => cases h

end Layout

end PanelSchema
