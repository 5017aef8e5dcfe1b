import PanelSchema.Proofs.Extract

/-!
When a module is one tree that lists all its properties. A property is listed, and a section
stands below another, because of a call met in a frame that is in a section of the current
module. A frame that is left over from an earlier module need not be in one.
-/

namespace PanelSchema

open Syntax (SourceTree)

namespace Module

/-- A section that one comes to from the root, going from sections to those below. -/
inductive Reached (m : Module) : Section → Prop where
  | root {s} (hs : s ∈ m.sections) (hroot : s.isRoot = true) : Reached m s
  | child {s t} (ht : Reached m t) (hs : s ∈ m.sections) (hparent : s.parent = some t.name) :
    Reached m s

/-- Every property is in a section, and the sections are one tree. -/
structure Rooted (m : Module) : Prop where
  listed : ∀ i < m.properties.length, ∃ s ∈ m.sections, i ∈ s.properties
  parented : ∀ s ∈ m.sections, s.isRoot = false → s.parent.isSome = true
  reached : ∀ s ∈ m.sections, m.Reached s

theorem WellFormed.reached {m : Module} (hm : m.WellFormed)
    (hparented : ∀ s ∈ m.sections, s.isRoot = false → s.parent.isSome = true) :
    ∀ s ∈ m.sections, m.Reached s := by
  intro s hs
  -- A parent is one less deep, so the way up ends, and only the root may have no parent.
  induction hdepth : s.depth generalizing s with
  | zero =>
    cases hroot : s.isRoot with
    | true => exact .root hs hroot
    | false =>
      obtain ⟨q, hq⟩ := Option.isSome_iff_exists.1 (hparented s hs hroot)
      obtain ⟨t, -, -, -, ht⟩ := hm.parents s hs q hq
      omega
  | succ depth ih =>
    cases hroot : s.isRoot with
    | true => exact .root hs hroot
    | false =>
      obtain ⟨q, hq⟩ := Option.isSome_iff_exists.1 (hparented s hs hroot)
      obtain ⟨t, ht, hname, -, htdepth⟩ := hm.parents s hs q hq
      exact .child (ih t ht (by omega)) hs (by rw [hq, hname])

/-- A property of that identifier is in a section. -/
def Lists (id : String) (m : Module) : Prop :=
  ∃ s ∈ m.sections, ∃ i ∈ s.properties, (m.properties.map (·.identifier))[i]? = some id

def Knows (id : String) (m : Module) : Prop :=
  id ∈ m.properties.map (·.identifier)

def Has (name : String) (m : Module) : Prop :=
  name ∈ m.sections.map (·.name) ∧ name ≠ m.name

def Nests (name : String) (m : Module) : Prop :=
  ∃ s ∈ m.sections, s.name = name ∧ s.parent.isSome = true

theorem WellFormed.has_of_not_root {m : Module} (hm : m.WellFormed) {s : Section}
    (hs : s ∈ m.sections) (hroot : s.isRoot = false) : m.Has s.name := by
  refine ⟨List.mem_map_of_mem hs, fun hname => ?_⟩
  obtain ⟨r, hr, hrname, -⟩ := hm.root
  have hrmem : r ∈ m.sections.filter (·.isRoot) := by simp [hr]
  rw [List.mem_filter] at hrmem
  have heq := List.inj_on_of_nodup_map hm.names hs hrmem.1 (hname.trans hrname.symm)
  rw [heq, hrmem.2] at hroot
  cases hroot

theorem WellFormed.rooted_iff {m : Module} (hm : m.WellFormed) :
    m.Rooted ↔ (∀ p ∈ m.properties, m.Lists p.identifier) ∧
      ∀ s ∈ m.sections, s.isRoot = false → m.Nests s.name := by
  constructor
  · intro h
    constructor
    · intro p hp
      obtain ⟨i, hi⟩ := List.mem_iff_getElem?.1 hp
      obtain ⟨s, hs, his⟩ := h.listed i (List.getElem?_eq_some_iff.1 hi).1
      exact ⟨s, hs, i, his, by rw [List.getElem?_map, hi, Option.map_some]⟩
    · intro s hs hroot
      exact ⟨s, hs, rfl, h.parented s hs hroot⟩
  · rintro ⟨hlists, hnests⟩
    have hparented : ∀ s ∈ m.sections, s.isRoot = false → s.parent.isSome = true := by
      intro s hs hroot
      obtain ⟨s', hs', hname, hparent⟩ := hnests s hs hroot
      exact List.inj_on_of_nodup_map hm.names hs' hs hname ▸ hparent
    refine ⟨?_, hparented, hm.reached hparented⟩
    intro i hi
    obtain ⟨s, hs, j, hj, hid⟩ := hlists m.properties[i] (List.getElem_mem hi)
    have hi' : i < (m.properties.map (·.identifier)).length := by rwa [List.length_map]
    have hsame : (m.properties.map (·.identifier))[i]? =
        (m.properties.map (·.identifier))[j]? := by
      rw [hid, List.getElem?_map, List.getElem?_eq_getElem hi, Option.map_some]
    rw [List.getElem?_inj hi' hm.distinct] at hsame
    exact ⟨s, hs, hsame ▸ hj⟩

end Module

namespace ModuleDraft

theorem Sound.lists_finish {m : ModuleDraft} (h : m.Sound) (id : String) :
    m.finish.Lists id ↔
      ∃ i, (m.layout.home? i).isSome = true ∧ m.roster.identifiers[i]? = some id := by
  unfold Module.Lists
  rw [finish_identifiers]
  constructor
  · rintro ⟨s, hs, i, hi, hid⟩
    obtain ⟨s', hs', rfl⟩ := Layout.mem_finish.1 hs
    obtain ⟨handle, hhandle⟩ := List.mem_iff_getElem?.1 hs'
    have hhome := (h.placed.lists_iff handle i).1 ⟨s', hhandle, hi⟩
    exact ⟨i, by rw [hhome]; rfl, hid⟩
  · rintro ⟨i, hi, hid⟩
    obtain ⟨handle, hhome⟩ := Option.isSome_iff_exists.1 hi
    obtain ⟨s', hhandle, hi⟩ := (h.placed.lists_iff handle i).2 hhome
    exact ⟨_, Layout.mem_finish.2 ⟨s', List.mem_of_getElem? hhandle, rfl⟩, i, hi, hid⟩

theorem nests_finish (m : ModuleDraft) (name : String) :
    m.finish.Nests name ↔ ∃ q depth, (name, some q, depth) ∈ m.layout.outline := by
  constructor
  · rintro ⟨s, hs, rfl, hparent⟩
    obtain ⟨s', hs', rfl⟩ := Layout.mem_finish.1 hs
    obtain ⟨q, hq⟩ := Option.isSome_iff_exists.1 hparent
    exact ⟨q, s'.depth, Layout.mem_outline.2 ⟨s', hs', rfl, hq, rfl⟩⟩
  · rintro ⟨q, depth, hmem⟩
    obtain ⟨s', hs', hname, hq, -⟩ := Layout.mem_outline.1 hmem
    refine ⟨_, Layout.mem_finish.2 ⟨s', hs', rfl⟩, hname, ?_⟩
    exact Option.isSome_iff_exists.2 ⟨q, hq⟩

theorem knows_finish (m : ModuleDraft) (id : String) :
    m.finish.Knows id ↔ id ∈ m.roster.identifiers := by
  rw [Module.Knows, finish_identifiers]

theorem has_finish (m : ModuleDraft) (name : String) :
    m.finish.Has name ↔ name ∈ m.layout.outline.map (·.1) ∧ name ≠ m.name := by
  have hperm := (Layout.finish_perm m.layout m.name).map (·.name)
  rw [List.map_map] at hperm
  rw [Layout.outline, List.map_map]
  exact and_congr_left' hperm.mem_iff

theorem shown_of_empty (m : ModuleDraft) {d : Draft} (hd : d.identifier = "") (f : Frame) :
    m.shown d f = m := by
  unfold shown
  rw [Roster.attach_of_empty m.roster hd]

theorem Sound.lists_shown {m : ModuleDraft} (h : m.Sound) {d : Draft} (hd : d.identifier ≠ "")
    (f : Frame) (id : String) :
    (m.shown d f).finish.Lists id ↔
      m.finish.Lists id ∨ d.identifier = id ∧ f.home < m.layout.sections.length := by
  rw [(h.shown d f).lists_finish, h.lists_finish]
  have hkept : ∀ i < m.roster.identifiers.length,
      (m.roster.enter d).1.identifiers[i]? = m.roster.identifiers[i]? := by
    intro i hi
    obtain ⟨more, hmore⟩ := Roster.identifiers_prefix_enter m.roster d
    rw [← hmore, List.getElem?_append_left hi]
  have hplace := (Roster.identifiers_enter m.roster d).2
  unfold ModuleDraft.shown
  rw [Roster.attach_of_ne hd]
  simp only [Layout.home?_place, Roster.identifiers_showAt]
  constructor
  · rintro ⟨i, hi | ⟨rfl, hhome⟩, hid⟩
    · rw [hkept i (h.known i hi)] at hid
      exact .inl ⟨i, hi, hid⟩
    · rw [hplace, Option.some_inj] at hid
      exact .inr ⟨hid, hhome⟩
  · rintro (⟨i, hi, hid⟩ | ⟨rfl, hhome⟩)
    · exact ⟨i, .inl hi, by rw [hkept i (h.known i hi), hid]⟩
    · exact ⟨_, .inr ⟨rfl, hhome⟩, hplace⟩

theorem Sound.has_declared {m : ModuleDraft} (h : m.Sound) (name' : String)
    (label : Option String) (order : Option Int) (f : Frame) (name : String) :
    (m.declared name' label order f).finish.Has name ↔
      m.finish.Has name ∨ name' = name ∧ name ∉ m.layout.outline.map (·.1) := by
  have hroot : m.name ∈ m.layout.outline.map (·.1) :=
    List.mem_map_of_mem (List.mem_of_getElem? h.nested.root)
  rw [has_finish, has_finish]
  unfold ModuleDraft.declared
  dsimp only
  obtain ⟨hold, heq⟩ | ⟨hnew, heq⟩ := Layout.outline_visit m.layout name' label
    ((m.layout.get? f.home).map (·.name)) order
  · rw [heq]
    grind
  · rw [heq, List.map_append, List.map_singleton, List.mem_append, List.mem_singleton]
    grind

theorem nests_declared (m : ModuleDraft) (name' : String) (label : Option String)
    (order : Option Int) (f : Frame) (name : String) :
    (m.declared name' label order f).finish.Nests name ↔
      m.finish.Nests name ∨ (name' = name ∧ name ∉ m.layout.outline.map (·.1)) ∧
        f.home < m.layout.sections.length := by
  rw [nests_finish, nests_finish, ← Layout.fresh_parent_isSome m.layout name' label order f.home]
  unfold declared
  dsimp only
  obtain ⟨hold, heq⟩ | ⟨hnew, heq⟩ := Layout.outline_visit m.layout name' label
    ((m.layout.get? f.home).map (·.name)) order
  · rw [heq]
    have hno : ¬(name' = name ∧ name ∉ m.layout.outline.map (·.1)) :=
      fun hand => hand.2 (hand.1 ▸ hold)
    simp only [hno, false_and, or_false]
  · rw [heq, Option.isSome_iff_exists]
    simp only [List.mem_append, List.mem_singleton, Prod.mk.injEq]
    constructor
    · rintro ⟨q, depth, hmem | ⟨rfl, hq, -⟩⟩
      · exact .inl ⟨q, depth, hmem⟩
      · exact .inr ⟨⟨rfl, hnew⟩, q, hq.symm⟩
    · rintro (⟨q, depth, hmem⟩ | ⟨⟨rfl, -⟩, q, hq⟩)
      · exact ⟨q, depth, .inl hmem⟩
      · exact ⟨q, _, .inr ⟨rfl, hq.symm, rfl⟩⟩

end ModuleDraft

namespace Point

/-- A property of that identifier is drawn next. -/
def Draws (s : Setting) (id : String) (c : Point) : Prop :=
  ∃ d, c.act? s = some (.draw d) ∧ d.identifier = id

/-- A section of that name, which the current module does not have yet, is declared next. -/
def Adds (s : Setting) (name : String) (c : Point) : Prop :=
  c.act? s = some (.declare name) ∧
    ∃ m, c.walk.current = some m ∧ name ∉ m.layout.outline.map (·.1)

/-- The frame is in a section of the current module. -/
def InSection (c : Point) : Prop :=
  ∃ m, c.walk.current = some m ∧ c.frame.home < m.layout.sections.length

variable {s : Setting} {c : Point} {m : ModuleDraft}

theorem inSection_iff (hm : c.walk.current = some m) :
    c.InSection ↔ c.frame.home < m.layout.sections.length := by
  simp [InSection, hm]

theorem draws_iff {d : Draft} (h : c.act? s = some (.draw d)) (id : String) :
    c.Draws s id ↔ d.identifier = id := by
  simp [Draws, h]

theorem adds_iff {name name' : String} (h : c.act? s = some (.declare name'))
    (hm : c.walk.current = some m) :
    c.Adds s name ↔ name' = name ∧ name ∉ m.layout.outline.map (·.1) := by
  simp [Adds, h, hm]

theorem call?_isSome_of_act? (h : (c.act? s).isSome = true) : c.call?.isSome = true := by
  cases hcall : c.call? with
  | none => simp [act?, hcall] at h
  | some call => rfl

/-- A property is listed since it was drawn in a section. -/
theorem records_lists {id : String} (hid : id ≠ "") :
    Records s (fun c => c.Draws s id ∧ c.InSection) (Module.Lists id) where
  opened := by
    intro name keywords
    rw [(ModuleDraft.sound_opened s name keywords).lists_finish]
    simp [ModuleDraft.opened, Roster.identifiers]
  touch := by
    intro c m m' htouch hm hsound
    have hfinish' := (htouch.sound hsound).lists_finish id
    cases htouch with
    | @declared name label order h =>
      have hdraws : ¬c.Draws s id := by simp [Draws, h]
      rw [hfinish', hsound.lists_finish]
      simp [hdraws, ModuleDraft.declared, Layout.home?_visit]
    | @shown d h =>
      by_cases hd : d.identifier = ""
      · have hne : d.identifier ≠ id := fun heq => hid (heq.symm.trans hd)
        rw [ModuleDraft.shown_of_empty m hd, draws_iff h]
        simp [hne]
      · rw [hsound.lists_shown hd, draws_iff h, inSection_iff hm]
    | hinted id' hints h =>
      have hdraws : ¬c.Draws s id := by simp [Draws, h]
      rw [hfinish', hsound.lists_finish]
      simp [hdraws, ModuleDraft.hinted, Roster.identifiers_foldl_hint]
  act := by
    rintro c ⟨⟨d, hd, -⟩, m, hm, -⟩
    simp [hd, hm]

/-- A section stands below another since it was added in a section. -/
theorem records_nests (name : String) :
    Records s (fun c => c.Adds s name ∧ c.InSection) (Module.Nests name) where
  opened := by
    intro root keywords
    rw [ModuleDraft.nests_finish]
    simp [ModuleDraft.outline_opened]
  touch := by
    intro c m m' htouch hm hsound
    cases htouch with
    | @declared name' label order h =>
      rw [ModuleDraft.nests_declared, adds_iff h hm, inSection_iff hm]
    | @shown d h =>
      have hadds : ¬c.Adds s name := by simp [Adds, h]
      simp [hadds, ModuleDraft.nests_finish, ModuleDraft.outline_shown]
    | hinted id' hints h =>
      have hadds : ¬c.Adds s name := by simp [Adds, h]
      simp [hadds, ModuleDraft.nests_finish, ModuleDraft.hinted]
  act := by
    rintro c ⟨⟨hact, m, hm, -⟩, -⟩
    simp [hact, hm]

/-- A property is known since it was drawn. -/
theorem records_knows {id : String} (hid : id ≠ "") :
    Records s (fun c => c.Draws s id ∧ c.walk.current.isSome = true) (Module.Knows id) where
  opened := by
    intro name keywords
    rw [ModuleDraft.knows_finish]
    simp [ModuleDraft.opened, Roster.identifiers]
  touch := by
    intro c m m' htouch hm hsound
    rw [ModuleDraft.knows_finish, ModuleDraft.knows_finish, hm]
    cases htouch with
    | @declared name label order h =>
      have hdraws : ¬c.Draws s id := by simp [Draws, h]
      simp [hdraws, ModuleDraft.declared]
    | @shown d h =>
      by_cases hd : d.identifier = ""
      · have hne : d.identifier ≠ id := fun heq => hid (heq.symm.trans hd)
        rw [ModuleDraft.shown_of_empty m hd, draws_iff h]
        simp [hne]
      · rw [ModuleDraft.shown, Roster.mem_identifiers_attach hd, draws_iff h]
        simp [eq_comm]
    | hinted id' hints h =>
      have hdraws : ¬c.Draws s id := by simp [Draws, h]
      simp [hdraws, ModuleDraft.hinted, Roster.identifiers_foldl_hint]
  act := by
    rintro c ⟨⟨d, hd, -⟩, hcurrent⟩
    simp [hd, hcurrent]

/-- A module has a section since it was added. -/
theorem records_has (name : String) : Records s (fun c => c.Adds s name) (Module.Has name) where
  opened := by
    intro root keywords
    have hname : (ModuleDraft.opened s root keywords).name = root := rfl
    rw [ModuleDraft.has_finish, ModuleDraft.outline_opened, hname]
    simp
  touch := by
    intro c m m' htouch hm hsound
    cases htouch with
    | @declared name' label order h => rw [hsound.has_declared, adds_iff h hm]
    | @shown d h =>
      have hadds : ¬c.Adds s name := by simp [Adds, h]
      have hname : (m.shown d c.frame).name = m.name := rfl
      rw [ModuleDraft.has_finish, ModuleDraft.has_finish, ModuleDraft.outline_shown, hname]
      simp [hadds]
    | hinted id' hints h =>
      have hadds : ¬c.Adds s name := by simp [Adds, h]
      simp [hadds, ModuleDraft.has_finish, ModuleDraft.hinted]
  act := by
    rintro c ⟨hact, m, hm, -⟩
    simp [hact, hm]

end Point

variable {t : SourceTree} {declarations : DeclarationTable} {settings : Settings}
  {ms : List Module}

/-- A frame made since the current module started is in one of its sections. -/
theorem Visits.inSection {c : Point} (h : Visits t declarations settings c)
    (hcurrent : c.walk.current.isSome = true)
    (hgeneration : c.frame.generation = c.walk.generation) : c.InSection := by
  obtain ⟨m, hm⟩ := Option.isSome_iff_exists.1 hcurrent
  exact ⟨m, hm, h.housed.frame.home hgeneration m hm⟩

section

variable (h : (extractModules t declarations settings).result = .ok ms) {k : Nat} {m : Module}
  (hm : ms[k]? = some m)
include h hm

/-- A module is rooted just when each property was drawn in one of its sections, and each
section besides the root was added in one. -/
theorem rooted_iff_inSection (hwf : m.WellFormed) :
    m.Rooted ↔
      (∀ p ∈ m.properties, ∃ c, Visits t declarations settings c ∧ c.walk.generation = k + 1 ∧
        c.Draws (.ofTree t declarations settings) p.identifier ∧ c.InSection) ∧
      ∀ sec ∈ m.sections, sec.isRoot = false →
        ∃ c, Visits t declarations settings c ∧ c.walk.generation = k + 1 ∧
          c.Adds (.ofTree t declarations settings) sec.name ∧ c.InSection := by
  have hlists := fun p hp => recorded_iff (Point.records_lists (hwf.identified p hp)) h hm
  have hnests := fun name => recorded_iff (Point.records_nests name) h hm
  rw [hwf.rooted_iff]
  constructor
  · rintro ⟨hlisted, hnested⟩
    exact ⟨fun p hp => (hlists p hp).1 (hlisted p hp),
      fun sec hsec hroot => (hnests sec.name).1 (hnested sec hsec hroot)⟩
  · rintro ⟨hdrawn, hadded⟩
    exact ⟨fun p hp => (hlists p hp).2 (hdrawn p hp),
      fun sec hsec hroot => (hnests sec.name).2 (hadded sec hsec hroot)⟩

theorem rooted_of_calls_current (hwf : m.WellFormed)
    (hcalls : ∀ c, Visits t declarations settings c → c.call?.isSome = true →
      c.walk.generation = k + 1 → c.frame.generation = k + 1) : m.Rooted := by
  have hin : ∀ c, Visits t declarations settings c → c.walk.generation = k + 1 →
      (c.act? (.ofTree t declarations settings)).isSome = true ∧
        c.walk.current.isSome = true → c.InSection := by
    intro c hc hgeneration ⟨hact, hcurrent⟩
    apply hc.inSection hcurrent
    rw [hcalls c hc (Point.call?_isSome_of_act? hact) hgeneration, hgeneration]
  rw [rooted_iff_inSection h hm hwf]
  constructor
  · intro p hp
    have hrecords := Point.records_knows (s := .ofTree t declarations settings)
      (hwf.identified p hp)
    obtain ⟨c, hc, hgeneration, hdraws⟩ :=
      (recorded_iff hrecords h hm).1 (List.mem_map_of_mem hp)
    exact ⟨c, hc, hgeneration, hdraws.1, hin c hc hgeneration (hrecords.act hdraws)⟩
  · intro sec hsec hroot
    have hrecords := Point.records_has (s := .ofTree t declarations settings) sec.name
    obtain ⟨c, hc, hgeneration, hadds⟩ :=
      (recorded_iff hrecords h hm).1 (hwf.has_of_not_root hsec hroot)
    exact ⟨c, hc, hgeneration, hadds, hin c hc hgeneration (hrecords.act hadds)⟩

end

/-- A module is one tree that lists all its properties just when each property was drawn in
one of its sections, and each section besides the root was first met in one. It is so where
no call is met in a frame that is left over from an earlier module. -/
theorem extractModules_rooted_iff (h : (extractModules t declarations settings).result = .ok ms)
    {k : Nat} {m : Module} (hm : ms[k]? = some m) :
    (m.Rooted ↔
      (∀ p ∈ m.properties, ∃ c, Visits t declarations settings c ∧ c.walk.generation = k + 1 ∧
        c.Draws (.ofTree t declarations settings) p.identifier ∧ c.InSection) ∧
      ∀ sec ∈ m.sections, sec.isRoot = false →
        ∃ c, Visits t declarations settings c ∧ c.walk.generation = k + 1 ∧
          c.Adds (.ofTree t declarations settings) sec.name ∧ c.InSection) ∧
    ((∀ c, Visits t declarations settings c → c.call?.isSome = true →
        c.walk.generation = k + 1 → c.frame.generation = k + 1) → m.Rooted) := by
  have hwf : m.WellFormed := by
    obtain ⟨c, hvisits, -, hmodules⟩ := exists_end h
    exact hvisits.sound.closed m (hmodules ▸ List.mem_of_getElem? hm)
  exact ⟨rooted_iff_inSection h hm hwf, rooted_of_calls_current h hm hwf⟩

/-- The second module of the source has a property that is in no section, and a section that
is neither the root nor below another. -/
private theorem restartedSource_last :
    ∃ ms m, (extractModules restartedSource {} {}).result = .ok ms ∧ ms[1]? = some m ∧
      m.properties.map (·.identifier) = ["_P"] ∧ (∀ s ∈ m.sections, s.properties = []) ∧
      ∃ s ∈ m.sections, s.isRoot = false ∧ s.parent = none := by
  have houtline : (lastDraft? restartedSource {} {}).map (·.layout.outline) =
      some [("B", none, 0), ("Lost", none, 0)] := by decide +kernel
  have hproperties : (lastDraft? restartedSource {} {}).map
      (·.layout.sections.map (·.properties)) = some [[], []] := by decide +kernel
  have hids : (lastDraft? restartedSource {} {}).map (·.roster.identifiers) = some ["_P"] := by
    decide +kernel
  have hname : (lastDraft? restartedSource {} {}).map (·.name) = some "B" := by decide +kernel
  obtain ⟨m, hm, hname⟩ := Option.map_eq_some_iff.1 hname
  rw [hm, Option.map_some, Option.some_inj] at houtline hproperties hids
  obtain ⟨ms, hresult, hlast⟩ := exists_getLast? hm
  obtain ⟨ms', hresult', hnames⟩ := restartedSource_modules
  have hms : ms' = ms := by simpa [hresult] using hresult'.symm
  refine ⟨ms, m.finish, hresult, ?_, ?_, ?_, ?_⟩
  · have hlength : ms.length = 2 := by simpa [hms] using congrArg List.length hnames
    rw [← hlast, List.getLast?_eq_getElem?, hlength]
  · rw [ModuleDraft.finish_identifiers, hids]
  · intro s hs
    obtain ⟨s', hs', rfl⟩ := Layout.mem_finish.1 hs
    have hmem : s'.properties ∈ m.layout.sections.map (·.properties) :=
      List.mem_map_of_mem hs'
    rw [hproperties] at hmem
    simpa [Layout.given] using hmem
  · have hmem : ("Lost", none, 0) ∈ m.layout.outline := by simp [houtline]
    obtain ⟨s', hs', hlost, hparent, -⟩ := Layout.mem_outline.1 hmem
    refine ⟨_, Layout.mem_finish.2 ⟨s', hs', rfl⟩, ?_, hparent⟩
    simp [Layout.given, hlost, hname]

/-- A left-over frame is what the lost property and the stray section come from. -/
theorem extractModules_rooted_iff_restarted :
    ∃ ms m, (extractModules restartedSource {} {}).result = .ok ms ∧ ms[1]? = some m ∧
      ¬m.Rooted ∧
      ∃ c, Visits restartedSource {} {} c ∧ c.call?.isSome = true ∧
        c.walk.generation = 2 ∧ c.frame.generation ≠ 2 := by
  obtain ⟨ms, m, hresult, hm, -, -, s, hs, hroot, hparent⟩ := restartedSource_last
  have hunrooted : ¬m.Rooted := by
    intro h
    have := h.parented s hs hroot
    simp [hparent] at this
  refine ⟨ms, m, hresult, hm, hunrooted, ?_⟩
  by_contra hnone
  apply hunrooted
  apply (extractModules_rooted_iff hresult hm).2
  intro c hc hcall hgeneration
  by_contra hframe
  exact hnone ⟨c, hc, hcall, hgeneration, hframe⟩

theorem extractModules_loses_property :
    ∃ ms, (extractModules restartedSource {} {}).result = .ok ms ∧
      ∃ m ∈ ms, 0 < m.properties.length ∧ (∀ s ∈ m.sections, 0 ∉ s.properties) ∧
        (∃ s ∈ m.sections, s.isRoot = false ∧ s.parent = none) ∧ ¬m.Rooted := by
  obtain ⟨ms, m, hresult, hm, hids, hproperties, hstray⟩ := restartedSource_last
  have hlength : m.properties.length = 1 := by simpa using congrArg List.length hids
  have hunlisted : ∀ s ∈ m.sections, 0 ∉ s.properties := by
    intro s hs
    simp [hproperties s hs]
  refine ⟨ms, hresult, m, List.mem_of_getElem? hm, by omega, hunlisted, hstray, ?_⟩
  intro h
  obtain ⟨s, hs, hmem⟩ := h.listed 0 (by omega)
  exact hunlisted s hs hmem

end PanelSchema
