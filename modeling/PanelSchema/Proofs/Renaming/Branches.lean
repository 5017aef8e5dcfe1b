import PanelSchema.Proofs.Renaming.Effects

/-!
Tests under other names for locals. They ask for the same values of the same properties, and
they open the same sections, so the branches of both walks have the same frames.
-/

namespace PanelSchema

open Syntax (Expr SwitchSection)

namespace Walk.Renamed

variable {f : String → String} (hf : Renaming f) {kept : String → Bool} {s : Setting}
  (hs : s.catalog.FixedBy f) {w w' : Walk} (h : w.Renamed f kept w')

include hf hs in
theorem literal? (w w' : Walk) (e : Expr) :
    (w'.scope (s.mapNames f)).literal? (e.mapNames f) = (w.scope s).literal? e := by
  have hpath : ∀ {path path' : String}, PathRenamed f path path' →
      (s.catalog.mapNames f).enumValue? path' = s.catalog.enumValue? path ∧
        (s.catalog.mapNames f).number? path' = s.catalog.number? path ∧
        (s.catalog.mapNames f).string? path' = s.catalog.string? path := by
    intro path path' hpath
    exact ⟨Catalog.enumValue?_renamed hf hs hpath, Catalog.find?_renamed hf hs.numbers hpath,
      Catalog.find?_renamed hf hs.strings hpath⟩
  fun_induction TestScope.literal? (w.scope s) e with
  | case1 | case2 | case3 | case4 => rfl
  | case5 m type e ih => exact ih
  | case6 m e ih => rw [Expr.mapNames, TestScope.literal?, ih]
  | case7 m n =>
    refine congrArg pure (hf.bind_dotted? ?_ (.name m n))
    intro path path' h
    obtain ⟨henum, hnumber, hstring⟩ := hpath h
    dsimp only [Walk.scope, Setting.mapNames]
    rw [henum, hnumber, hstring]
  | case8 m object n =>
    refine congrArg pure (hf.bind_dotted? ?_ (.member m object n))
    intro path path' h
    obtain ⟨henum, hnumber, hstring⟩ := hpath h
    dsimp only [Walk.scope, Setting.mapNames]
    rw [henum, hnumber, hstring]
  | case9 e hbool hinteger hfloat hstring hcast hminus hname hmember =>
    cases e with
    | bool m b => exact absurd rfl (hbool m b)
    | integer m n => exact absurd rfl (hinteger m n)
    | float m x => exact absurd rfl (hfloat m x)
    | string m text => exact absurd rfl (hstring m text)
    | cast m type e => exact absurd rfl (hcast m type e)
    | unary m op e =>
      cases op with
      | minus => exact absurd rfl (hminus m e)
      | _ => rfl
    | name m n => exact absurd rfl (hname m n)
    | member m object n => exact absurd rfl (hmember m object n)
    | new m type args init => cases init <;> rfl
    | _ => rfl

include hf hs h in
theorem compare (l : Expr) (op : Syntax.BinaryOp) (r : Expr) :
    (w'.scope (s.mapNames f)).compare (l.mapNames f) op (r.mapNames f) =
      (w.scope s).compare l op r := by
  have hleft : (w'.scope (s.mapNames f)).bindings.resolve? (l.mapNames f) =
      (w.scope s).bindings.resolve? l := h.resolve? l
  have hright : (w'.scope (s.mapNames f)).bindings.resolve? (r.mapNames f) =
      (w.scope s).bindings.resolve? r := h.resolve? r
  have hwith : ∀ b op other, (w'.scope (s.mapNames f)).compareWith b op (other.mapNames f) =
      (w.scope s).compareWith b op other := by
    intro b op other
    unfold TestScope.compareWith
    rw [literal? hf hs w w' other]
    rfl
  unfold TestScope.compare
  rw [hleft, hright]
  split
  · exact hwith _ op r
  · exact hwith _ op.swapped l
  · rfl

include hf hs h in
theorem visibilityOf (e : Expr) :
    (w'.scope (s.mapNames f)).visibilityOf (e.mapNames f) = (w.scope s).visibilityOf e := by
  have hbare : ∀ e : Expr, (w'.scope (s.mapNames f)).bare (e.mapNames f) = (w.scope s).bare e := by
    intro e
    have hresolve : (w'.scope (s.mapNames f)).bindings.resolve? (e.mapNames f) =
        (w.scope s).bindings.resolve? e := h.resolve? e
    rw [TestScope.bare, TestScope.bare, hresolve]
  fun_induction TestScope.visibilityOf (w.scope s) e with
  | case1 m e ih => rw [Expr.mapNames, TestScope.visibilityOf, ih]
  | case2 m type e ih => exact ih
  | case3 m l r ihl ihr => rw [Expr.mapNames, TestScope.visibilityOf, ihl, ihr]
  | case4 m l r ihl ihr => rw [Expr.mapNames, TestScope.visibilityOf, ihl, ihr]
  | case5 m l op r hand hor hop =>
    rw [Expr.mapNames, TestScope.visibilityOf, if_pos hop, h.compare hf hs]
    · exact hand
    · exact hor
  | case6 m l op r hand hor hop =>
    rw [Expr.mapNames, TestScope.visibilityOf, if_neg hop]
    · exact hand
    · exact hor
  | case7 m n => exact congrArg pure (hbare (.name m n))
  | case8 m object n => exact congrArg pure (hbare (.member m object n))
  | case9 e hnot hcast hand hor hbinary hname hmember =>
    cases e with
    | unary m op e =>
      cases op with
      | not => exact absurd rfl (hnot m e)
      | _ => rfl
    | cast m type e => exact absurd rfl (hcast m type e)
    | binary m l op r => exact absurd rfl (hbinary m l op r)
    | name m n => exact absurd rfl (hname m n)
    | member m object n => exact absurd rfl (hmember m object n)
    | new m type args init => cases init <;> rfl
    | _ => rfl

include h in
theorem normalize (frame : Frame) : w'.normalize frame = w.normalize frame := by
  have hroot : w'.current.map (·.root) = w.current.map (·.root) := by
    rcases h.current_cases with ⟨hm, hn⟩ | ⟨m, n, hm, hn, hview⟩
    · rw [hm, hn]
    · rw [hm, hn, Option.map_some, Option.map_some, ModuleDraft.root_eq hview]
  unfold Walk.normalize
  rw [h.generation, hroot]

include h in
theorem opened (test : Expr) :
    (((namesIn (test.mapNames f)).findSome? w'.toggles.get?).bind fun name =>
        w'.current.bind (·.layout.handle? name)) =
      ((namesIn test).findSome? w.toggles.get?).bind fun name =>
        w.current.bind (·.layout.handle? name) := by
  have htoggles : w'.toggles.get? ∘ f = w.toggles.get? := funext h.toggles.get?
  have hlayout : ∀ name, w'.current.bind (·.layout.handle? name) =
      w.current.bind (·.layout.handle? name) := by
    intro name
    rcases h.current_cases with ⟨hm, hn⟩ | ⟨m, n, hm, hn, hview⟩
    · rw [hm, hn]
    · rw [hm, hn, Option.bind_some, Option.bind_some, ModuleDraft.layout_eq hview]
  rw [namesIn_mapNames, List.findSome?_map, htoggles, funext hlayout]

include hf hs h in
theorem branches (test : Expr) (frame : Frame) :
    w'.branches (s.mapNames f) (test.mapNames f) frame = w.branches s test frame := by
  unfold Walk.branches
  rw [h.visibilityOf hf hs, h.opened]

include hf hs in
theorem caseFrame (w w' : Walk) (path : Option String) (labels : List (Option Expr))
    (frame : Frame) :
    Walk.caseFrame (w'.scope (s.mapNames f)) path (labels.map (Option.map (Expr.mapNames f)))
        frame =
      Walk.caseFrame (w.scope s) path labels frame := by
  have hvalues : ∀ es : List Expr,
      Walk.labelValues (w'.scope (s.mapNames f)) (es.map (Expr.mapNames f)) =
        Walk.labelValues (w.scope s) es := by
    intro es
    induction es with
    | nil => rfl
    | cons e es ih =>
      rw [List.map_cons, Walk.labelValues, Walk.labelValues, literal? hf hs w w', ih]
  have hdefault : (labels.map (Option.map (Expr.mapNames f))).any Option.isNone =
      labels.any Option.isNone := by
    rw [List.any_map]
    congr 1
    funext label
    cases label <;> rfl
  have hlabels : (labels.map (Option.map (Expr.mapNames f))).filterMap id =
      (labels.filterMap id).map (Expr.mapNames f) := by
    rw [List.filterMap_map, List.map_filterMap]
    rfl
  unfold Walk.caseFrame
  rw [hdefault, hlabels, hvalues]

include hf hs in
theorem caseFrames (w w' : Walk) (path : Option String) (frame : Frame)
    (sections : List SwitchSection) :
    Walk.caseFrames (w'.scope (s.mapNames f)) path frame
        (sections.map (SwitchSection.mapNames f)) =
      Walk.caseFrames (w.scope s) path frame sections := by
  induction sections with
  | nil => rfl
  | cons sec rest ih =>
    obtain ⟨m, labels, body⟩ := sec
    rw [List.map_cons, SwitchSection.mapNames, Walk.caseFrames, Walk.caseFrames,
      caseFrame hf hs w w', ih]

end Walk.Renamed

end PanelSchema
