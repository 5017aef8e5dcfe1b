import PanelSchema.Proofs.Roster
import PanelSchema.Proofs.Walk.Effects

/-!
Modules without the texts that identifiers were written as. Nothing that is done to a module
depends on these texts, so modules that are alike without them stay alike.
-/

namespace PanelSchema

/-- The property, without the text its identifier was written as unless that counts. -/
def Property.view (kept : String → Bool) (p : Property) : Property :=
  { p with rawIdentifier := if kept p.identifier then p.rawIdentifier else "" }

/-- The draft, without the text its identifier was written as unless that counts. It does not
where there is no identifier. -/
def Draft.view (kept : String → Bool) (d : Draft) : Draft :=
  { d with
    rawIdentifier :=
      if kept d.identifier = true ∧ d.identifier ≠ "" then d.rawIdentifier else "" }

def Module.view (kept : String → Bool) (m : Module) : Module :=
  { m with properties := m.properties.map (Property.view kept) }

def Roster.view (kept : String → Bool) (r : Roster) : Roster :=
  { r with properties := r.properties.map (Property.view kept) }

def ModuleDraft.view (kept : String → Bool) (m : ModuleDraft) : ModuleDraft :=
  { m with roster := m.roster.view kept }

section

variable {kept : String → Bool}

theorem Property.view_absorb {p : Property} {d : Draft} (hp : p.identifier = d.identifier)
    (hd : d.identifier ≠ "") :
    (p.absorb d).view kept = ((p.view kept).absorb (d.view kept)).view kept := by
  cases hkept : kept d.identifier <;>
    simp [Property.view, Draft.view, Property.absorb, hp, hkept, hd]

theorem Draft.view_toProperty {d : Draft} (hd : d.identifier ≠ "") :
    d.toProperty.view kept = (d.view kept).toProperty.view kept := by
  cases hkept : kept d.identifier <;>
    simp [Property.view, Draft.view, Draft.toProperty, hkept, hd]

namespace Roster

variable {r q : Roster} (h : q.view kept = r.view kept)
include h

theorem policy_eq : q.policy = r.policy :=
  (congrArg Roster.policy h :)

theorem seenAlways_eq : q.seenAlways = r.seenAlways :=
  (congrArg Roster.seenAlways h :)

theorem map_view_eq :
    q.properties.map (Property.view kept) = r.properties.map (Property.view kept) :=
  congrArg Roster.properties h

theorem index?_eq (id : String) : q.index? id = r.index? id := by
  have hindex : ∀ r : Roster, r.index? id =
      (r.properties.map (Property.view kept)).findIdx? (·.identifier == id) := by
    intro r
    rw [List.findIdx?_map]
    rfl
  rw [hindex, hindex, map_view_eq h]

theorem view_update {f f' g : Property → Property} {i : Nat}
    (hf : ∀ p, r.properties[i]? = some p → (f p).view kept = g (p.view kept))
    (hf' : ∀ p, q.properties[i]? = some p → (f' p).view kept = g (p.view kept)) :
    (q.update i f').view kept = (r.update i f).view kept := by
  have hproperties : (q.update i f').properties.map (Property.view kept) =
      (r.update i f).properties.map (Property.view kept) := by
    rw [map_update_of_getElem? hf, map_update_of_getElem? hf', map_view_eq h]
  change Roster.mk q.policy _ q.seenAlways = Roster.mk r.policy _ r.seenAlways
  rw [hproperties, policy_eq h, seenAlways_eq h]

theorem view_enter {d d' : Draft} (hd : d'.view kept = d.view kept) (hid : d.identifier ≠ "") :
    (q.enter d').1.view kept = (r.enter d).1.view kept ∧ (q.enter d').2 = (r.enter d).2 := by
  have hsame : d'.identifier = d.identifier := (congrArg Draft.identifier hd :)
  have hid' : d'.identifier ≠ "" := hsame ▸ hid
  unfold Roster.enter
  rw [index?_eq h, hsame]
  cases hi : r.index? d.identifier with
  | some i =>
    refine ⟨view_update h (g := fun p => (p.absorb (d.view kept)).view kept) ?_ ?_, rfl⟩
    · intro p hp
      exact Property.view_absorb (identifier_of_index? hi hp) hid
    · intro p hp
      rw [← hd]
      rw [← index?_eq h, ← hsame] at hi
      exact Property.view_absorb (identifier_of_index? hi hp) hid'
  | none =>
    have hlength : q.properties.length = r.properties.length := by
      simpa using congrArg List.length (map_view_eq h)
    refine ⟨?_, hlength⟩
    unfold Roster.view
    rw [policy_eq h, seenAlways_eq h, List.map_append, List.map_append, map_view_eq h,
      List.map_singleton, List.map_singleton, Draft.view_toProperty hid,
      Draft.view_toProperty hid', hd]

theorem view_showAt (i : Nat) (v : Visibility) :
    (q.showAt i v).view kept = (r.showAt i v).view kept := by
  unfold Roster.showAt
  rw [policy_eq h, seenAlways_eq h]
  split
  · split
    · exact view_update h (g := fun p => { p with conditions := [] }) (fun _ _ => rfl)
        (fun _ _ => rfl)
    · split
      · exact h
      · unfold Roster.view
        rw [map_view_eq h]
  · exact view_update h (g := (·.showUnder v)) (fun _ _ => rfl) (fun _ _ => rfl)

theorem view_attach {d d' : Draft} (hd : d'.view kept = d.view kept) (v : Visibility) :
    (q.attach d' v).1.view kept = (r.attach d v).1.view kept ∧
      (q.attach d' v).2 = (r.attach d v).2 := by
  have hsame : d'.identifier = d.identifier := (congrArg Draft.identifier hd :)
  by_cases hid : d.identifier = ""
  · rw [attach_of_empty q (hsame.trans hid), attach_of_empty r hid]
    exact ⟨h, rfl⟩
  · obtain ⟨hentered, hplace⟩ := view_enter h hd hid
    rw [attach_of_ne (hsame ▸ hid), attach_of_ne hid, hplace]
    exact ⟨view_showAt hentered _ v, rfl⟩

theorem view_hint (id text : String) :
    (q.hint id text).view kept = (r.hint id text).view kept := by
  unfold Roster.hint
  rw [index?_eq h]
  cases r.index? id with
  | none => exact h
  | some i =>
    exact view_update h (g := fun p => { p with hints := addGivenHint p.hints text })
      (fun _ _ => rfl) (fun _ _ => rfl)

theorem view_hints (id : String) (texts : List String) :
    (texts.foldl (fun r text => r.hint id text) q).view kept =
      (texts.foldl (fun r text => r.hint id text) r).view kept := by
  induction texts generalizing q r with
  | nil => exact h
  | cons text texts ih => exact ih (view_hint h id text)

theorem view_finish :
    q.finish.map (Property.view kept) = r.finish.map (Property.view kept) := by
  have hfinish : ∀ r : Roster, r.finish.map (Property.view kept) = (r.view kept).finish := by
    intro r
    unfold Roster.finish Roster.view
    apply List.ext_getElem?
    intro i
    simp only [List.getElem?_map, List.getElem?_mapIdx]
    cases r.properties[i]? with
    | none => rfl
    | some p =>
      dsimp only [Option.map_some]
      split <;> rfl
  rw [hfinish, hfinish, h]

end Roster

namespace ModuleDraft

variable {m n : ModuleDraft} (h : n.view kept = m.view kept)
include h

theorem exists_roster :
    ∃ roster, n = { m with roster } ∧ roster.view kept = m.roster.view kept := by
  obtain ⟨name, keyword, secondaryKeyword, root, layout, roster⟩ := m
  obtain ⟨name', keyword', secondaryKeyword', root', layout', roster'⟩ := n
  simp only [ModuleDraft.view, ModuleDraft.mk.injEq] at h
  obtain ⟨rfl, rfl, rfl, rfl, rfl, hroster⟩ := h
  exact ⟨roster', rfl, hroster⟩

theorem layout_eq : n.layout = m.layout := by
  obtain ⟨roster, rfl, -⟩ := exists_roster h
  rfl

theorem root_eq : n.root = m.root := by
  obtain ⟨roster, rfl, -⟩ := exists_roster h
  rfl

theorem view_shown {d d' : Draft} (hd : d'.view kept = d.view kept) (f : Frame) :
    (n.shown d' f).view kept = (m.shown d f).view kept := by
  obtain ⟨roster, rfl, hroster⟩ := exists_roster h
  obtain ⟨hattached, hplace⟩ := Roster.view_attach hroster hd f.visibility
  unfold ModuleDraft.shown ModuleDraft.view
  dsimp only
  rw [hattached, hplace]

theorem view_declared (name : String) (label : Option String) (order : Option Int) (f : Frame) :
    (n.declared name label order f).view kept = (m.declared name label order f).view kept := by
  obtain ⟨roster, rfl, hroster⟩ := exists_roster h
  unfold ModuleDraft.declared ModuleDraft.view
  dsimp only
  rw [hroster]

theorem view_hinted (id : String) (hints : List String) :
    (n.hinted id hints).view kept = (m.hinted id hints).view kept := by
  obtain ⟨roster, rfl, hroster⟩ := exists_roster h
  unfold ModuleDraft.hinted ModuleDraft.view
  dsimp only
  rw [Roster.view_hints hroster]

theorem view_finish : n.finish.view kept = m.finish.view kept := by
  obtain ⟨roster, rfl, hroster⟩ := exists_roster h
  unfold ModuleDraft.finish Module.view
  dsimp only
  rw [Roster.view_finish hroster]

end ModuleDraft

end

end PanelSchema
