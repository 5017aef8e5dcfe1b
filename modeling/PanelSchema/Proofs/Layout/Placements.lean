import PanelSchema.Proofs.Layout.Sections

/-!
Where the properties of a layout are after any calls. The first unconditional showing of a
property decides, or its first showing if none is unconditional, and a section lists its
properties in the order in which they were decided.
-/

namespace PanelSchema

namespace Layout

/-- A showing of a property in a section that exists. -/
structure Showing where
  /-- Its position among the calls. -/
  time : Nat
  home : Nat
  property : Nat
  unconditional : Bool

def Showing.placement (x : Showing) : Placement :=
  { home := x.home, unconditional := x.unconditional }

/-- The showing that a call makes after the visits of sections. Handles number the sections
that were made. -/
def showing? (vs : List SectionVisit) (time : Nat) : LayoutCall → Option Showing
  | .visit _ => none
  | .place home property unconditional =>
    if home < (made vs).length then some { time, home, property, unconditional } else none

def showings (calls : List LayoutCall) : List Showing :=
  calls.zipIdx.filterMap fun c => showing? (visits (calls.take c.2)) c.2 c.1

def firstChoice (xs : List Showing) : Option Showing :=
  (xs.find? (·.unconditional)).or xs.head?

/-- The showing that decides where a property is. -/
def decisive? (calls : List LayoutCall) (i : Nat) : Option Showing :=
  firstChoice ((showings calls).filter (·.property == i))

def DecidedBefore (calls : List LayoutCall) (i j : Nat) : Prop :=
  ∃ x y, decisive? calls i = some x ∧ decisive? calls j = some y ∧ x.time < y.time

variable {calls calls' : List LayoutCall} {x y : Showing} {i j : Nat} {l l' : Layout}

/-! ### Showings -/

theorem showings_concat (calls : List LayoutCall) (c : LayoutCall) :
    showings (calls ++ [c]) =
      showings calls ++ (showing? (visits calls) calls.length c).toList := by
  have hbefore : ∀ d ∈ calls.zipIdx,
      showing? (visits ((calls ++ [c]).take d.2)) d.2 d.1 =
        showing? (visits (calls.take d.2)) d.2 d.1 := by
    intro d hd
    have hlt : d.2 < calls.length := by simpa using List.snd_lt_of_mem_zipIdx hd
    rw [List.take_append_of_le_length (Nat.le_of_lt hlt)]
  rw [showings, List.zipIdx_append, List.filterMap_append, List.filterMap_congr hbefore]
  congr 1
  have hall : (calls ++ [c]).take calls.length = calls := by simp
  cases hc : showing? (visits calls) calls.length c <;> simp [hall, hc]

theorem mem_showings : x ∈ showings calls ↔
    calls[x.time]? = some (.place x.home x.property x.unconditional) ∧
      x.home < (made (visits (calls.take x.time))).length := by
  simp only [showings, List.mem_filterMap, Prod.exists, List.mem_zipIdx_iff_getElem?]
  constructor
  · rintro ⟨c, time, hc, hx⟩
    cases c with
    | visit v => cases hx
    | place home property unconditional =>
      rw [showing?] at hx
      split at hx
      · rename_i hhome
        cases hx
        exact ⟨hc, hhome⟩
      · cases hx
  · rintro ⟨hc, hhome⟩
    exact ⟨_, x.time, hc, if_pos hhome⟩

theorem time_lt (h : x ∈ showings calls) : x.time < calls.length :=
  (List.getElem?_eq_some_iff.1 (mem_showings.1 h).1).1

theorem firstChoice_eq_none {xs : List Showing} : firstChoice xs = none ↔ xs = [] := by
  cases xs <;> simp [firstChoice]

theorem mem_of_firstChoice {xs : List Showing} (h : firstChoice xs = some x) : x ∈ xs := by
  rcases Option.or_eq_some_iff.1 h with hfound | ⟨-, hhead⟩
  · exact List.mem_of_find?_eq_some hfound
  · exact List.mem_of_head? hhead

/-- The choice is conditional only if all of them are. -/
theorem find?_of_firstChoice {xs : List Showing} (h : firstChoice xs = some y) :
    xs.find? (·.unconditional) = if y.unconditional then some y else none := by
  unfold firstChoice at h
  cases hfound : xs.find? (·.unconditional) with
  | some z =>
    rw [hfound] at h
    cases h
    rw [if_pos (List.find?_some hfound)]
  | none =>
    rw [hfound] at h
    have hy := List.find?_eq_none.1 hfound y (List.mem_of_head? h)
    rw [if_neg hy]

theorem firstChoice_concat {xs : List Showing} (h : firstChoice xs = some y) (x : Showing) :
    firstChoice (xs ++ [x]) =
      if x.unconditional && !y.unconditional then some x else some y := by
  have hne : xs ≠ [] := by
    rintro rfl
    cases h
  have hfound := find?_of_firstChoice h
  unfold firstChoice at h ⊢
  rw [List.find?_append, List.head?_append_of_ne_nil _ hne, hfound]
  rw [hfound] at h
  cases hy : y.unconditional with
  | true => simp
  | false =>
    rw [hy] at h
    have hhead : xs.head? = some y := h
    cases hx : x.unconditional <;> simp [hx, hhead]

theorem decisive?_isSome :
    (decisive? calls i).isSome = true ↔ ∃ x ∈ showings calls, x.property = i := by
  rw [← not_iff_not, Bool.not_eq_true, Option.isSome_eq_false_iff, Option.isNone_iff_eq_none,
    decisive?, firstChoice_eq_none, List.filter_eq_nil_iff]
  simp

theorem mem_of_decisive? (h : decisive? calls i = some x) : x ∈ showings calls :=
  (List.mem_filter.1 (mem_of_firstChoice h)).1

theorem decisive?_of_showings_eq (h : showings calls' = showings calls) (i : Nat) :
    decisive? calls' i = decisive? calls i := by
  rw [decisive?, h, decisive?]

section OneMore

variable (h : showings calls' = showings calls ++ [x])

include h

theorem decisive?_other (hi : x.property ≠ i) : decisive? calls' i = decisive? calls i := by
  rw [decisive?, h, List.filter_append, List.filter_cons_of_neg (by simpa using hi)]
  simp [decisive?]

theorem decisive?_first (hnone : decisive? calls x.property = none) :
    decisive? calls' x.property = some x := by
  rw [decisive?, firstChoice_eq_none] at hnone
  have hself : [x].filter (·.property == x.property) = [x] := by simp
  rw [decisive?, h, List.filter_append, hnone, hself, List.nil_append]
  unfold firstChoice
  cases hx : x.unconditional <;> simp [hx]

theorem decisive?_again (hy : decisive? calls x.property = some y) :
    decisive? calls' x.property =
      if x.unconditional && !y.unconditional then some x else some y := by
  have hself : [x].filter (·.property == x.property) = [x] := by simp
  rw [decisive?, h, List.filter_append, hself]
  exact firstChoice_concat hy x

end OneMore

/-! ### What a layout settles -/

/-- Properties are where they were decided to be, and in that order. -/
structure Settled (l : Layout) (calls : List LayoutCall) : Prop where
  placements : ∀ i, l.placements.lookup i = (decisive? calls i).map Showing.placement
  placed : l.Placed
  ordered : ∀ s ∈ l.sections, s.properties.Pairwise (DecidedBefore calls)

namespace Settled

theorem home?_eq (h : l.Settled calls) (i : Nat) :
    l.home? i = (decisive? calls i).map (·.home) := by
  rw [home?, h.placements, Option.map_map]
  rfl

theorem lists_iff (h : l.Settled calls) (handle : Nat) :
    l.Lists handle i ↔ (decisive? calls i).map (·.home) = some handle := by
  rw [h.placed.lists_iff, h.home?_eq]

theorem exists_decisive? (h : l.Settled calls) {s : SectionLayout} (hs : s ∈ l.sections)
    (hi : i ∈ s.properties) : ∃ y, decisive? calls i = some y ∧ y.time < calls.length := by
  obtain ⟨handle, hhandle⟩ := List.mem_iff_getElem?.1 hs
  obtain ⟨y, hy, -⟩ := Option.map_eq_some_iff.1 ((h.lists_iff handle).1 ⟨s, hhandle, hi⟩)
  exact ⟨y, hy, time_lt (mem_of_decisive? hy)⟩

/-- Where nothing is decided, only sections without properties may come. -/
theorem of_unchanged (h : l.Settled calls) (hplacements : l'.placements = l.placements)
    (hplaced : l'.Placed)
    (hsections : ∀ s ∈ l'.sections, s.properties ∈ [] :: l.sections.map (·.properties))
    (hdecisive : ∀ i, decisive? calls' i = decisive? calls i) : l'.Settled calls' := by
  have hbefore : DecidedBefore calls' = DecidedBefore calls := by
    funext i j
    simp only [DecidedBefore, hdecisive]
  refine ⟨fun i => by rw [hplacements, h.placements, hdecisive], hplaced, fun s hs => ?_⟩
  rw [hbefore]
  rcases List.mem_cons.1 (hsections s hs) with hnone | hsame
  · rw [hnone]
    exact .nil
  · obtain ⟨t, ht, heq⟩ := List.mem_map.1 hsame
    exact heq ▸ h.ordered t ht

theorem push_record (h : l.Settled calls) (hshowings : showings calls' = showings calls ++ [x])
    (htime : x.time = calls.length) (hself : decisive? calls' x.property = some x)
    (hplacements : l'.placements = l.placements)
    (hplaced : ((l'.push x.home x.property).record x.property x.placement).Placed)
    (hsections : ∀ s ∈ l'.sections, x.property ∉ s.properties ∧
      ∃ t ∈ l.sections, s.properties.Sublist t.properties) :
    ((l'.push x.home x.property).record x.property x.placement).Settled calls' := by
  have hordered : ∀ s ∈ l'.sections, s.properties.Pairwise (DecidedBefore calls') := by
    intro s hs
    obtain ⟨hnot, t, ht, hsub⟩ := hsections s hs
    refine ((h.ordered t ht).sublist hsub).imp_of_mem ?_
    rintro i j hi hj ⟨y, z, hy, hz, hlt⟩
    refine ⟨y, z, ?_, ?_, hlt⟩
    · rwa [decisive?_other hshowings fun heq => hnot (heq ▸ hi)]
    · rwa [decisive?_other hshowings fun heq => hnot (heq ▸ hj)]
  refine ⟨fun i => ?_, hplaced, fun s hs => ?_⟩
  · rw [lookup_record]
    split
    · rename_i hi
      rw [hi, hself]
      rfl
    · rename_i hi
      rw [decisive?_other hshowings (Ne.symm hi), ← h.placements, ← hplacements]
      rfl
  · obtain ⟨handle, hhandle⟩ := List.mem_iff_getElem?.1 hs
    change (l'.push x.home x.property).sections[handle]? = some s at hhandle
    rw [push, getElem?_update] at hhandle
    split at hhandle
    · obtain ⟨t, ht, rfl⟩ := Option.map_eq_some_iff.1 hhandle
      have hmem := List.mem_of_getElem? ht
      obtain ⟨hnot, t', ht', hsub⟩ := hsections t hmem
      rw [List.pairwise_append]
      refine ⟨hordered t hmem, List.pairwise_singleton _ _, fun j hj k hk => ?_⟩
      rw [List.mem_singleton.1 hk]
      obtain ⟨y, hy, hlt⟩ := h.exists_decisive? ht' (hsub.subset hj)
      refine ⟨y, x, ?_, hself, htime ▸ hlt⟩
      rwa [decisive?_other hshowings fun heq => hnot (heq ▸ hj)]
    · exact hordered s (List.mem_of_getElem? hhandle)

theorem visit (h : l.Settled calls) (v : SectionVisit) :
    (l.visit v.name v.label v.parent v.order).1.Settled (calls ++ [.visit v]) := by
  have hdecisive : ∀ i, decisive? (calls ++ [.visit v]) i = decisive? calls i := by
    apply decisive?_of_showings_eq
    rw [showings_concat]
    exact List.append_nil _
  have hplaced := h.placed.visit v.name v.label v.parent v.order
  obtain ⟨handle, -, heq⟩ | ⟨-, hsections, hplacements⟩ :=
    visit_cases l v.name v.label v.parent v.order
  · rw [heq] at hplaced ⊢
    refine h.of_unchanged rfl hplaced (fun s hs => ?_) hdecisive
    rw [← map_update (properties_revisit v.label v.order) l handle]
    exact List.mem_cons_of_mem _ (List.mem_map_of_mem hs)
  · refine h.of_unchanged hplacements hplaced (fun s hs => ?_) hdecisive
    rw [hsections, List.mem_append, List.mem_singleton] at hs
    rcases hs with hs | rfl
    · exact List.mem_cons_of_mem _ (List.mem_map_of_mem hs)
    · exact List.mem_cons_self

theorem place_first (h : l.Settled calls) (hshowings : showings calls' = showings calls ++ [x])
    (htime : x.time = calls.length) (hhome : x.home < l.sections.length)
    (hnone : l.placements.lookup x.property = none) :
    (l.place x.home x.property x.unconditional).Settled calls' := by
  have hplaced := h.placed.place x.home x.property x.unconditional
  have hundecided : decisive? calls x.property = none := by
    rw [h.placements, Option.map_eq_none_iff] at hnone
    exact hnone
  unfold Layout.place at hplaced ⊢
  rw [if_neg (Nat.not_le.2 hhome), hnone] at hplaced ⊢
  refine h.push_record hshowings htime (decisive?_first hshowings hundecided) rfl hplaced ?_
  intro s hs
  refine ⟨fun hmem => ?_, s, hs, .refl _⟩
  obtain ⟨y, hy, -⟩ := h.exists_decisive? hs hmem
  rw [hundecided] at hy
  cases hy

theorem withdraw_sections (h : l.Settled calls) (hy : decisive? calls i = some y) :
    ∀ s ∈ (l.withdraw y.home i).sections, i ∉ s.properties ∧
      ∃ t ∈ l.sections, s.properties.Sublist t.properties := by
  intro s hs
  obtain ⟨handle, hhandle⟩ := List.mem_iff_getElem?.1 hs
  refine ⟨fun hmem => ?_, ?_⟩
  · have hlists : (l.withdraw y.home i).Lists handle i := ⟨s, hhandle, hmem⟩
    rw [lists_withdraw, h.lists_iff, hy, Option.map_some, Option.some_inj] at hlists
    exact hlists.2 ⟨hlists.1.symm, rfl⟩
  · rw [withdraw, getElem?_update] at hhandle
    split at hhandle
    · obtain ⟨t, ht, rfl⟩ := Option.map_eq_some_iff.1 hhandle
      exact ⟨t, List.mem_of_getElem? ht, List.filter_sublist⟩
    · exact ⟨s, List.mem_of_getElem? hhandle, .refl _⟩

theorem place_again (h : l.Settled calls) (hshowings : showings calls' = showings calls ++ [x])
    (htime : x.time = calls.length) (hhome : x.home < l.sections.length)
    (hy : decisive? calls x.property = some y) :
    (l.place x.home x.property x.unconditional).Settled calls' := by
  have hplaced := h.placed.place x.home x.property x.unconditional
  have hagain := decisive?_again hshowings hy
  have hsome := h.placements x.property
  rw [hy] at hsome
  unfold Layout.place at hplaced ⊢
  rw [if_neg (Nat.not_le.2 hhome), hsome] at hplaced ⊢
  cases hmoves : x.unconditional && !y.unconditional with
  | true =>
    simp only [Option.map_some, Showing.placement, hmoves, if_true] at hplaced ⊢ hagain
    have hsame : (l.withdraw y.home x.property).placements = l.placements := rfl
    exact h.push_record hshowings htime hagain hsame hplaced (h.withdraw_sections hy)
  | false =>
    simp only [Option.map_some, Showing.placement, hmoves] at hplaced ⊢ hagain
    refine h.of_unchanged rfl hplaced (fun s hs => ?_) fun i => ?_
    · exact List.mem_cons_of_mem _ (List.mem_map_of_mem hs)
    · by_cases hi : x.property = i
      · rw [← hi, hagain, hy]
        rfl
      · exact decisive?_other hshowings hi

theorem place (h : l.Settled calls) (hl : l.Remembers (visits calls)) (home property : Nat)
    (unconditional : Bool) :
    (l.place home property unconditional).Settled
      (calls ++ [.place home property unconditional]) := by
  have hlength : (made (visits calls)).length = l.sections.length := by
    rw [← hl.names, List.length_map]
  have hshowings := showings_concat calls (.place home property unconditional)
  rw [showing?, hlength] at hshowings
  by_cases hhome : home < l.sections.length
  · rw [if_pos hhome] at hshowings
    cases hdecided : decisive? calls property with
    | none =>
      refine h.place_first hshowings rfl hhome ?_
      rw [h.placements, hdecided]
      rfl
    | some y => exact h.place_again hshowings rfl hhome hdecided
  · rw [if_neg hhome, Option.toList_none, List.append_nil] at hshowings
    rw [Layout.place, if_pos (Nat.not_lt.1 hhome)]
    refine h.of_unchanged rfl h.placed (fun s hs => ?_) (decisive?_of_showings_eq hshowings)
    exact List.mem_cons_of_mem _ (List.mem_map_of_mem hs)

end Settled

theorem settled_ofCalls (calls : List LayoutCall) : (ofCalls calls).Settled calls := by
  induction calls using List.reverseRecOn with
  | nil =>
    refine ⟨fun i => rfl, ⟨?_, ?_⟩, ?_⟩
    · simp [ofCalls, Lists, home?]
    · simp [ofCalls]
    · simp [ofCalls]
  | append_singleton calls c ih =>
    rw [ofCalls_concat]
    cases c with
    | visit v => exact ih.visit v
    | place home property unconditional =>
      exact ih.place (remembers_ofCalls calls) home property unconditional

/-! ### The end -/

/-- A property has a decisive showing if it was placed by the handle of a section that existed. -/
theorem exists_decisive?_iff : (∃ x, decisive? calls i = some x) ↔
    ∃ time home unconditional, calls[time]? = some (.place home i unconditional) ∧
      home < (ofCalls (calls.take time)).sections.length := by
  have hlength : ∀ time, (made (visits (calls.take time))).length =
      (ofCalls (calls.take time)).sections.length := by
    intro time
    rw [← (remembers_ofCalls _).names, List.length_map]
  rw [← Option.isSome_iff_exists, decisive?_isSome]
  constructor
  · rintro ⟨x, hx, rfl⟩
    obtain ⟨hcall, hhome⟩ := mem_showings.1 hx
    exact ⟨x.time, x.home, x.unconditional, hcall, hlength x.time ▸ hhome⟩
  · rintro ⟨time, home, unconditional, hcall, hhome⟩
    rw [← hlength] at hhome
    exact ⟨⟨time, home, i, unconditional⟩, mem_showings.2 ⟨hcall, hhome⟩, rfl⟩

/-- Where calls leave the properties. Those are listed that were placed by the handle of a
section, each once. The section is that of the first unconditional placing, or else of the
first, and these come in one section in the order in which they were made. -/
theorem finish_placements (calls : List LayoutCall) (root : String) :
    (∀ i, (∃ s ∈ (ofCalls calls).finish root, i ∈ s.properties) ↔
        ∃ time home unconditional, calls[time]? = some (.place home i unconditional) ∧
          home < (ofCalls (calls.take time)).sections.length) ∧
      (((ofCalls calls).finish root).flatMap (·.properties)).Nodup ∧
      (∀ i handle, (∃ s, (ofCalls calls).get? handle = some s ∧ i ∈ s.properties) ↔
        ∃ x, decisive? calls i = some x ∧ x.home = handle) ∧
      (((ofCalls calls).finish root).map fun s => (s.name, s.properties)).Perm
        ((ofCalls calls).sections.map fun s => (s.name, s.properties)) ∧
      ∀ s ∈ (ofCalls calls).finish root, s.properties.Pairwise (DecidedBefore calls) := by
  have h := settled_ofCalls calls
  refine ⟨fun i => ?_, h.placed.finish_once root, fun i handle => ?_, ?_, fun s hs => ?_⟩
  · rw [← exists_decisive?_iff]
    constructor
    · rintro ⟨s, hs, hi⟩
      obtain ⟨t, ht, rfl⟩ := mem_finish.1 hs
      obtain ⟨x, hx, -⟩ := h.exists_decisive? ht hi
      exact ⟨x, hx⟩
    · rintro ⟨x, hx⟩
      obtain ⟨t, ht, hi⟩ := (h.lists_iff x.home).2 (by rw [hx]; rfl)
      exact ⟨given root t, mem_finish.2 ⟨t, List.mem_of_getElem? ht, rfl⟩, hi⟩
  · rw [← Option.map_eq_some_iff]
    exact h.lists_iff handle
  · have hperm := (finish_perm (ofCalls calls) root).map fun s => (s.name, s.properties)
    rwa [List.map_map] at hperm
  · obtain ⟨t, ht, rfl⟩ := mem_finish.1 hs
    exact h.ordered t ht

/-- A property is placed three times, another one once, and one in a section that is not
there. -/
def movedOnce : List LayoutCall :=
  [.visit { name := "Root" }, .visit { name := "Child", parent := some "Root" },
    .place 1 0 false, .place 0 0 false, .place 0 1 true, .place 7 2 true, .place 0 0 true]

theorem finish_placements_movedOnce :
    (∃ s ∈ (ofCalls movedOnce).finish "Root", s.properties = [1, 0] ∧
      s.properties.Pairwise (DecidedBefore movedOnce)) ∧
    ∃ s, (ofCalls movedOnce).get? 0 = some s ∧ 0 ∈ s.properties := by
  obtain ⟨-, -, hplace, -, hordered⟩ := finish_placements movedOnce "Root"
  have hroot : given "Root" ⟨"Root", "Root", false, none, 0, 0, [1, 0]⟩ ∈
      (ofCalls movedOnce).finish "Root" :=
    mem_finish.2 ⟨_, .head _, rfl⟩
  exact ⟨⟨_, hroot, rfl, hordered _ hroot⟩, (hplace 0 0).2 ⟨⟨6, 0, 0, true⟩, rfl, rfl⟩⟩

end Layout

end PanelSchema
