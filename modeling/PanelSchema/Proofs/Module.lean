import Mathlib.Data.List.Nodup
import Mathlib.Data.List.Perm.Basic
import PanelSchema.Proofs.Layout
import PanelSchema.Proofs.Roster
import PanelSchema.Proofs.Walk.Effects

/-!
Modules as they are built and as they are given out. What is true of a draft from its
start on makes the finished module well formed.
-/

namespace PanelSchema

/-- What every module given out satisfies. -/
structure Module.WellFormed (m : Module) : Prop where
  identified : ∀ p ∈ m.properties, p.identifier ≠ ""
  distinct : (m.properties.map (·.identifier)).Nodup
  names : (m.sections.map (·.name)).Nodup
  /-- Exactly one section is the root. -/
  root : ∃ r, m.sections.filter (·.isRoot) = [r] ∧
    r.name = m.name ∧ r.parent = none ∧ r.depth = 0
  parents : ∀ s ∈ m.sections, ∀ q, s.parent = some q →
    ∃ t ∈ m.sections, t.name = q ∧ t ≠ s ∧ t.depth + 1 = s.depth
  ordered : m.sections.Pairwise fun s t => s.order ≤ t.order
  known : ∀ s ∈ m.sections, ∀ i ∈ s.properties, i < m.properties.length
  /-- No property is listed twice, in one section or in two. -/
  once : (m.sections.flatMap (·.properties)).Nodup

namespace Layout

/-- A section as it is given out. -/
def given (root : String) (s : SectionLayout) : Section :=
  { name := s.name
    label := s.label
    parent := s.parent
    isRoot := s.name == root && s.parent.isNone
    depth := s.depth
    order := s.order
    properties := s.properties }

theorem finish_eq (l : Layout) (root : String) :
    l.finish root = (l.sections.mergeSort fun a b => a.order ≤ b.order).map (given root) :=
  rfl

theorem finish_perm (l : Layout) (root : String) :
    (l.finish root).Perm (l.sections.map (given root)) := by
  rw [finish_eq]
  exact (List.mergeSort_perm _ _).map _

theorem mem_finish {l : Layout} {root : String} {s : Section} :
    s ∈ l.finish root ↔ ∃ t ∈ l.sections, given root t = s := by
  rw [(finish_perm l root).mem_iff, List.mem_map]

theorem finish_ordered (l : Layout) (root : String) :
    (l.finish root).Pairwise fun s t => s.order ≤ t.order := by
  rw [finish_eq, List.pairwise_map]
  have hsorted : (l.sections.mergeSort fun a b => a.order ≤ b.order).Pairwise
      fun a b => decide (a.order ≤ b.order) = true := by
    apply List.pairwise_mergeSort
    · intro a b c hab hbc
      simp only [decide_eq_true_eq] at hab hbc ⊢
      omega
    · intro a b
      simp only [Bool.or_eq_true, decide_eq_true_eq]
      omega
  exact hsorted.imp fun h => of_decide_eq_true h

theorem Nested.finish_root {l : Layout} {root : String} (h : l.Nested root) :
    ∃ r, (l.finish root).filter (·.isRoot) = [r] ∧
      r.name = root ∧ r.parent = none ∧ r.depth = 0 := by
  have hroot := h.root
  have hnames := h.names
  unfold outline at hroot hnames
  cases hsections : l.sections with
  | nil => simp [hsections] at hroot
  | cons r rest =>
    rw [hsections, List.map_cons, List.getElem?_cons_zero, Option.some_inj] at hroot
    simp only [Prod.mk.injEq] at hroot
    obtain ⟨hname, hparent, hdepth⟩ := hroot
    rw [hsections, List.map_map, List.map_cons, List.nodup_cons] at hnames
    have hothers : (rest.map (given root)).filter (·.isRoot) = [] := by
      rw [List.filter_eq_nil_iff]
      intro s hs
      obtain ⟨t, ht, rfl⟩ := List.mem_map.1 hs
      have hne : t.name ≠ root := fun heq =>
        hnames.1 (List.mem_map.2 ⟨t, ht, heq.trans hname.symm⟩)
      simp [given, hne]
    have hperm := (finish_perm l root).filter (·.isRoot)
    have hfirst : (given root r).isRoot = true := by simp [given, hname, hparent]
    rw [hsections, List.map_cons, List.filter_cons_of_pos hfirst, hothers,
      List.perm_singleton] at hperm
    exact ⟨given root r, hperm, hname, hparent, hdepth⟩

theorem Placed.finish_once {l : Layout} (h : l.Placed) (root : String) :
    ((l.finish root).flatMap (·.properties)).Nodup := by
  rw [((finish_perm l root).flatMap_right _).nodup_iff, List.flatMap_map, List.nodup_flatMap]
  refine ⟨h.once, ?_⟩
  rw [List.pairwise_iff_getElem]
  intro a b ha hb hab i hia hib
  have hhome := (h.lists_iff a i).1 ⟨_, List.getElem?_eq_getElem ha, hia⟩
  have hhome' := (h.lists_iff b i).1 ⟨_, List.getElem?_eq_getElem hb, hib⟩
  rw [hhome, Option.some_inj] at hhome'
  omega

end Layout

namespace ModuleDraft

/-- What is true of a module while it is built. -/
structure Sound (m : ModuleDraft) : Prop where
  root : m.root = 0
  named : m.roster.Named
  nested : m.layout.Nested m.name
  placed : m.layout.Placed
  known : ∀ i, (m.layout.home? i).isSome = true → i < m.roster.identifiers.length

theorem Sound.nonempty {m : ModuleDraft} (h : m.Sound) : 0 < m.layout.sections.length := by
  rw [← Layout.length_outline]
  exact (List.getElem?_eq_some_iff.1 h.nested.root).1

theorem finish_identifiers (m : ModuleDraft) :
    m.finish.properties.map (·.identifier) = m.roster.identifiers :=
  Roster.identifiers_finish m.roster

theorem Sound.finish {m : ModuleDraft} (h : m.Sound) : m.finish.WellFormed where
  identified := by
    intro p hp
    apply h.named.nonempty
    rw [← finish_identifiers]
    exact List.mem_map_of_mem hp
  distinct := by
    rw [finish_identifiers]
    exact h.named.distinct
  names := by
    have hperm := (Layout.finish_perm m.layout m.name).map (·.name)
    have hnames := h.nested.names
    rw [Layout.outline, List.map_map] at hnames
    rw [List.map_map] at hperm
    exact hperm.nodup_iff.2 hnames
  root := h.nested.finish_root
  parents := by
    intro s hs q hq
    obtain ⟨s', hs', rfl⟩ := Layout.mem_finish.1 hs
    obtain ⟨above, d, hmem, hdepth⟩ :=
      h.nested.parents s'.name q s'.depth (Layout.mem_outline.2 ⟨s', hs', rfl, hq, rfl⟩)
    obtain ⟨t, ht, hname, -, rfl⟩ := Layout.mem_outline.1 hmem
    refine ⟨Layout.given m.name t, Layout.mem_finish.2 ⟨t, ht, rfl⟩, hname, ?_, hdepth⟩
    intro heq
    have hsame : t.depth = s'.depth := congrArg Section.depth heq
    omega
  ordered := Layout.finish_ordered m.layout m.name
  known := by
    intro s hs i hi
    obtain ⟨s', hs', rfl⟩ := Layout.mem_finish.1 hs
    obtain ⟨handle, hhandle⟩ := List.mem_iff_getElem?.1 hs'
    have hhome := (h.placed.lists_iff handle i).1 ⟨s', hhandle, hi⟩
    have hlt := h.known i (by rw [hhome]; rfl)
    rwa [← finish_identifiers, List.length_map] at hlt
  once := h.placed.finish_once m.name

theorem outline_opened (s : Setting) (name : String) (keywords : List String) :
    (opened s name keywords).layout.outline = [(name, none, 0)] :=
  rfl

theorem sound_opened (s : Setting) (name : String) (keywords : List String) :
    (opened s name keywords).Sound where
  root := rfl
  named := Roster.named_empty _
  nested := by
    have houtline := outline_opened s name keywords
    exact ⟨by simp [houtline], by rw [houtline]; rfl, by simp [houtline]⟩
  placed := by
    have hempty : Layout.Placed {} :=
      ⟨by simp [Layout.Lists, Layout.home?], by simp⟩
    exact hempty.visit name none none none
  known := by simp [opened, Layout.visit, Layout.handle?, Layout.home?]

theorem outline_shown (m : ModuleDraft) (d : Draft) (f : Frame) :
    (m.shown d f).layout.outline = m.layout.outline := by
  unfold shown
  dsimp only
  split
  · exact Layout.outline_place _ _ _ _
  · rfl

theorem Sound.declared {m : ModuleDraft} (h : m.Sound) (name : String) (label : Option String)
    (order : Option Int) (f : Frame) : (m.declared name label order f).Sound where
  root := h.root
  named := h.named
  nested := h.nested.visit _ _ _ _
  placed := h.placed.visit _ _ _ _
  known := by
    intro i hi
    apply h.known i
    rwa [ModuleDraft.declared, Layout.home?_visit] at hi

theorem Sound.shown {m : ModuleDraft} (h : m.Sound) (d : Draft) (f : Frame) :
    (m.shown d f).Sound := by
  unfold ModuleDraft.shown
  by_cases hd : d.identifier = ""
  · rw [Roster.attach_of_empty m.roster hd]
    exact h
  · have hnamed := h.named.attach d f.visibility
    have hprefix := Roster.identifiers_prefix_enter m.roster d
    have hplace := (List.getElem?_eq_some_iff.1 (Roster.identifiers_enter m.roster d).2).1
    rw [Roster.attach_of_ne hd] at hnamed ⊢
    have hnested := h.nested.of_outline_eq
      (Layout.outline_place m.layout f.home (m.roster.enter d).2 f.visibility.isAlways)
    refine ⟨h.root, hnamed, hnested, h.placed.place _ _ _, ?_⟩
    intro i hi
    rw [Layout.home?_place] at hi
    rw [Roster.identifiers_showAt]
    rcases hi with hi | ⟨rfl, -⟩
    · exact Nat.lt_of_lt_of_le (h.known i hi) hprefix.length_le
    · exact hplace

theorem Sound.hinted {m : ModuleDraft} (h : m.Sound) (id : String) (hints : List String) :
    (m.hinted id hints).Sound := by
  have hidentifiers := Roster.identifiers_foldl_hint hints id m.roster
  refine ⟨h.root, h.named.of_identifiers_eq hidentifiers, h.nested, h.placed, ?_⟩
  intro i hi
  rw [ModuleDraft.hinted, hidentifiers]
  exact h.known i hi

end ModuleDraft

/-- The modules given out so far are well formed, and the current one is being built as it
should be. -/
structure Walk.Sound (w : Walk) : Prop where
  modules : ∀ m ∈ w.modules, m.WellFormed
  current : ∀ m, w.current = some m → m.Sound

theorem Walk.Sound.closed {w : Walk} (h : w.Sound) : ∀ m ∈ w.closed.modules, m.WellFormed := by
  unfold Walk.closed
  cases hcurrent : w.current with
  | none => exact h.modules
  | some draft =>
    intro m hm
    rw [List.mem_append, List.mem_singleton] at hm
    rcases hm with hm | rfl
    · exact h.modules m hm
    · exact (h.current draft hcurrent).finish

end PanelSchema
