import PanelSchema.Proofs.Renaming.Catalog
import PanelSchema.Proofs.Renaming.View

/-!
Two walks that differ in the names of locals. What one knows of a local, the other knows of
its new name, and their modules are the same, but for the texts that identifiers were
written as.
-/

namespace PanelSchema

open Syntax (Expr Stmt SwitchSection)

/-! ### Dictionaries -/

/-- What one dictionary says of a name, the other says of its new name, up to `view`. -/
def Dict.Renamed {α : Type} (f : String → String) (view : α → α) (d d' : Dict α) : Prop :=
  ∀ n, (d'.get? (f n)).map view = (d.get? n).map view

namespace Dict.Renamed

variable {α : Type} {f : String → String} {view : α → α} {d d' : Dict α}

theorem empty : ({} : Dict α).Renamed f view {} :=
  fun _ => rfl

theorem contains (h : d.Renamed f view d') (n : String) : d'.contains (f n) = d.contains n := by
  simpa [Dict.contains] using congrArg Option.isSome (h n)

theorem get? {d d' : Dict α} (h : d.Renamed f id d') (n : String) : d'.get? (f n) = d.get? n := by
  simpa using h n

theorem insert (hf : Renaming f) (h : d.Renamed f view d') (name : String) {value value' : α}
    (hvalue : view value' = view value) :
    (d.insert name value).Renamed f view (d'.insert (f name) value') := by
  intro n
  rw [Dict.get?_insert, Dict.get?_insert]
  by_cases hn : n = name
  · simp [hn, hvalue]
  · have hne : f n ≠ f name := fun heq => hn (hf.injective heq)
    simpa [hn, hne] using h n

theorem erase (hf : Renaming f) (h : d.Renamed f view d') (name : String) :
    (d.erase name).Renamed f view (d'.erase (f name)) := by
  intro n
  rw [Dict.get?_erase, Dict.get?_erase]
  by_cases hn : n = name
  · simp [hn]
  · have hne : f n ≠ f name := fun heq => hn (hf.injective heq)
    simpa [hn, hne] using h n

theorem set (hf : Renaming f) (h : d.Renamed f view d') (name : String) {value value' : Option α}
    (hvalue : value'.map view = value.map view) :
    (d.set name value).Renamed f view (d'.set (f name) value') := by
  cases value with
  | none =>
    rw [Option.map_none, Option.map_eq_none_iff] at hvalue
    rw [hvalue]
    exact h.erase hf name
  | some v =>
    obtain ⟨v', rfl, hv⟩ := Option.map_eq_some_iff.1 hvalue
    exact h.insert hf name hv

theorem takeOver (hf : Renaming f) (h : d.Renamed f view d') (source name : String) :
    Dict.Renamed f view (((d.get? source).map (d.insert name)).getD d)
      (((d'.get? (f source)).map (d'.insert (f name))).getD d') := by
  have hsource := h source
  cases hvalue : d.get? source with
  | none =>
    rw [hvalue, Option.map_none, Option.map_eq_none_iff] at hsource
    rw [hsource]
    exact h
  | some v =>
    rw [hvalue] at hsource
    obtain ⟨v', hv', hv⟩ := Option.map_eq_some_iff.1 hsource
    rw [hv']
    exact h.insert hf name hv

end Dict.Renamed

/-! ### Walks -/

structure Preamble.Renamed (f : String → String) (kept : String → Bool) (p p' : Preamble) :
    Prop where
  drafts : p.drafts.Renamed f (Draft.view kept) p'.drafts
  bindings : p.bindings.Renamed f id p'.bindings

/-- A walk, and the walk over the renamed source. The identifiers in `kept` have also been
written alike. -/
structure Walk.Renamed (f : String → String) (kept : String → Bool) (w w' : Walk) : Prop where
  modules : w'.modules.map (Module.view kept) = w.modules.map (Module.view kept)
  current : w'.current.map (ModuleDraft.view kept) = w.current.map (ModuleDraft.view kept)
  generation : w'.generation = w.generation
  drafts : w.drafts.Renamed f (Draft.view kept) w'.drafts
  bindings : w.bindings.Renamed f id w'.bindings
  toggles : w.toggles.Renamed f id w'.toggles
  strings : w.strings.Renamed f id w'.strings
  preamble : Option.Rel (Preamble.Renamed f kept) w.preamble w'.preamble

def Setting.mapNames (f : String → String) (s : Setting) : Setting :=
  { s with catalog := s.catalog.mapNames f }

def Target.mapNames (f : String → String) : Target → Target
  | .named n => .named (f n)
  | .place e => .place (e.mapNames f)
  | .discard => .discard

/-! ### What expressions stand for -/

theorem Target.name?_place (e : Expr) : (Target.place e).name? = e.local? := by
  cases e with
  | member m object n =>
    rw [Expr.local?]
    cases hthis : object.isThis with
    | true =>
      obtain ⟨m', rfl⟩ := Expr.isThis_iff.1 hthis
      rfl
    | false =>
      rw [Target.name?]
      · rfl
      · intro n' heq
        cases heq
      · intro m' n' heq
        cases heq
      · intro m' m'' n' heq
        cases heq
        cases hthis
  | _ => rfl

theorem Walk.draftLocal?_member (w : Walk) (m : Syntax.Mark) (object : Expr) (n : String) :
    w.draftLocal? (.member m object n) =
      if object.isThis then if w.drafts.contains n then some n else none
      else w.draftLocal? object := by
  cases hthis : object.isThis with
  | true =>
    obtain ⟨m', rfl⟩ := Expr.isThis_iff.1 hthis
    rfl
  | false =>
    rw [Walk.draftLocal?]
    · rfl
    · rintro m' rfl
      cases hthis

namespace Renaming

variable {f : String → String} (hf : Renaming f)
include hf

theorem local? (e : Expr) : (e.mapNames f).local? = e.local?.map f := by
  cases e with
  | member m object n =>
    rw [Expr.mapNames, Expr.local?, Expr.local?, hf.isThis]
    cases object.isThis <;> rfl
  | new m type args init => cases init <;> rfl
  | _ => rfl

theorem name? (target : Target) : (target.mapNames f).name? = target.name?.map f := by
  cases target with
  | named n => rfl
  | discard => rfl
  | place e => rw [Target.mapNames, Target.name?_place, Target.name?_place, hf.local?]

omit hf in
theorem asName? (e : Expr) : (e.mapNames f).asName? = e.asName?.map f := by
  cases e with
  | new m type args init => cases init <;> rfl
  | _ => rfl

omit hf in
theorem finalName?_cases (e : Expr) :
    (e.mapNames f).finalName? = e.finalName? ∨ (e.mapNames f).finalName? = e.finalName?.map f := by
  cases e with
  | name m n => exact .inr rfl
  | member m object n =>
    rw [Expr.mapNames, Expr.finalName?, Expr.finalName?]
    cases object.isThis with
    | true => exact .inr rfl
    | false => exact .inl rfl
  | new m type args init => cases init <;> exact .inl rfl
  | _ => exact .inl rfl

theorem finalName?_eq_iff {k : String} (hk : f k = k) (e : Expr) :
    (e.mapNames f).finalName? = some k ↔ e.finalName? = some k := by
  rcases finalName?_cases e with h | h
  · rw [h]
  · rw [h, Option.map_eq_some_iff]
    constructor
    · rintro ⟨n, hn, hnk⟩
      rw [hn, (hf.apply_eq_iff hk).1 hnk]
    · intro hn
      exact ⟨k, hn, hk⟩

theorem isIndentLevel (e : Expr) :
    PanelSchema.isIndentLevel (e.mapNames f) = PanelSchema.isIndentLevel e := by
  have hiff := hf.finalName?_eq_iff (hf.eq_of_reserved (z := "indentLevel") (by simp)) e
  unfold PanelSchema.isIndentLevel
  rw [Bool.eq_iff_iff, beq_iff_eq, beq_iff_eq, hiff]

end Renaming

mutual

theorem namesIn_mapNames (f : String → String) :
    ∀ e : Expr, namesIn (e.mapNames f) = (namesIn e).map f
  | .name _ _ => rfl
  | .member _ object _ => namesIn_mapNames f object
  | .unary _ _ e | .cast _ _ e => namesIn_mapNames f e
  | .binary _ l _ r => by
    rw [Expr.mapNames, namesIn, namesIn, namesIn_mapNames f l, namesIn_mapNames f r,
      List.map_append]
  | .call _ callee _ args => by
    rw [Expr.mapNames, namesIn, namesIn, namesIn_mapNames f callee, namesInAll_mapNames f args,
      List.map_append]
  | .conditional _ test yes no => by
    rw [Expr.mapNames, namesIn, namesIn, namesIn_mapNames f test, namesIn_mapNames f yes,
      namesIn_mapNames f no, List.map_append, List.map_append]
  | .new _ _ _ none | .new _ _ _ (some _) | .assign .. | .index .. | .typeOf .. | .string ..
  | .integer .. | .float .. | .bool .. | .list .. | .null _ => rfl

theorem namesInAll_mapNames (f : String → String) :
    ∀ es : List Expr, namesInAll (Expr.mapNamesAll f es) = (namesInAll es).map f
  | [] => rfl
  | e :: es => by
    rw [Expr.mapNamesAll, namesInAll, namesInAll, namesIn_mapNames f e, namesInAll_mapNames f es,
      List.map_append]

end

theorem Walk.caption?_call (c : Catalog) (w : Walk) (m : Syntax.Mark) (callee : Expr)
    (typeArgs : List String) (args : List Expr) :
    w.caption? c (.call m callee typeArgs args) =
      if callee.finalName? = some "TrTextContent" ∨ callee.finalName? = some "TrTempContent" ∨
          callee.finalName? = some "TempContent" then
        (args.head?.bind (w.string? c)).map fun label =>
          { label, tooltip := args[1]?.bind (w.string? c) }
      else none := by
  rw [Walk.caption?]
  split <;> simp_all

namespace Walk.Renamed

variable {f : String → String} (hf : Renaming f) {kept : String → Bool} {c : Catalog}
  (hc : c.FixedBy f) {w w' : Walk} (h : w.Renamed f kept w')

include hf hc h in
theorem string? (e : Expr) :
    w'.string? (c.mapNames f) (e.mapNames f) = w.string? c e := by
  have hlocal : (e.mapNames f).asName?.bind w'.strings.get? = e.asName?.bind w.strings.get? := by
    rw [Renaming.asName?]
    cases e.asName? with
    | none => rfl
    | some n => exact h.strings.get? n
  rw [Walk.string?, Walk.string?, hlocal, Catalog.evalString?_mapNames hf hc]

include h in
theorem heldIn (n : String) :
    (if w'.drafts.contains (f n) then some (f n) else none) =
      (if w.drafts.contains n then some n else none).map f := by
  rw [h.drafts.contains]
  split <;> rfl

include hf h in
theorem draftLocal? : ∀ e : Expr, w'.draftLocal? (e.mapNames f) = (w.draftLocal? e).map f
  | .name _ n => h.heldIn n
  | .member _ object n => by
    rw [Expr.mapNames, draftLocal?_member, draftLocal?_member, hf.isThis, draftLocal? object]
    cases object.isThis with
    | true => exact h.heldIn n
    | false => rfl
  | .cast _ _ e => draftLocal? e
  | .binary _ l _ r => by
    rw [Expr.mapNames, Walk.draftLocal?, Walk.draftLocal?, draftLocal? l, draftLocal? r]
    cases w.draftLocal? l <;> rfl
  | .new _ _ _ none | .new _ _ _ (some _) | .unary .. | .conditional .. | .call .. | .assign ..
  | .index .. | .typeOf .. | .string .. | .integer .. | .float .. | .bool .. | .list ..
  | .null _ => rfl

include hf hc h in
theorem string?_comp :
    w'.string? (c.mapNames f) ∘ Expr.mapNames f = w.string? c :=
  funext (h.string? hf hc)

include hf hc h in
theorem caption? (e : Expr) :
    w'.caption? (c.mapNames f) (e.mapNames f) = w.caption? c e := by
  have hpath : ∀ e : Expr, (e.mapNames f).dotted?.bind (c.mapNames f).caption? =
      e.dotted?.bind c.caption? :=
    hf.bind_dotted? fun _ _ => Catalog.find?_renamed hf hc.captions
  cases e with
  | new m type args init =>
    cases init with
    | none => exact Catalog.captionOf?_mapNames hf hc (.new m type args none)
    | some es => exact Catalog.captionOf?_mapNames hf hc (.new m type args (some es))
  | call m callee typeArgs args =>
    have hname : ∀ k ∈ ["TrTextContent", "TrTempContent", "TempContent"],
        ((callee.mapNames f).finalName? = some k ↔ callee.finalName? = some k) :=
      fun k hk => hf.finalName?_eq_iff (hf.eq_of_reserved (by revert k; decide)) callee
    rw [Expr.mapNames, caption?_call, caption?_call, Expr.mapNamesAll_eq, List.head?_map,
      List.getElem?_map, Option.bind_map, Option.bind_map, h.string?_comp hf hc]
    simp only [hname "TrTextContent" (by simp), hname "TrTempContent" (by simp),
      hname "TempContent" (by simp)]
  | name m n =>
    have hstring := h.string? hf hc (.name m n)
    rw [Expr.mapNames] at hstring ⊢
    rw [Walk.caption?, Walk.caption?, hstring]
    cases w.string? c (.name m n) with
    | some text => rfl
    | none => exact hpath (.name m n)
  | member m object n =>
    have hstring := h.string? hf hc (.member m object n)
    rw [Expr.mapNames] at hstring ⊢
    rw [Walk.caption?, Walk.caption?, hstring]
    cases w.string? c (.member m object n) with
    | some text => rfl
    | none => exact hpath (.member m object n)
  | _ => rfl

include hf hc h in
theorem caption?_comp :
    w'.caption? (c.mapNames f) ∘ Expr.mapNames f = w.caption? c :=
  funext (h.caption? hf hc)

end Walk.Renamed

namespace Walk

variable {f : String → String} (hf : Renaming f) {c : Catalog} (hc : c.FixedBy f)
include hf hc

theorem evalNumber?_comp :
    (c.mapNames f).evalNumber? ∘ Expr.mapNames f = c.evalNumber? :=
  funext (Catalog.evalNumber?_mapNames hf hc)

theorem textList?_mapNames (e : Expr) :
    textList? (c.mapNames f) (e.mapNames f) = textList? c e := by
  have hpath : ∀ e : Expr, (e.mapNames f).dotted?.bind (c.mapNames f).list? =
      e.dotted?.bind c.list? :=
    hf.bind_dotted? fun _ _ => Catalog.find?_renamed hf hc.lists
  cases e with
  | name m n => exact hpath (.name m n)
  | member m object n => exact hpath (.member m object n)
  | new m type args init =>
    cases init with
    | none => rfl
    | some es => exact Catalog.textList?_mapNames (.new m type args (some es))
  | list m es => exact Catalog.textList?_mapNames (.list m es)
  | _ => rfl

theorem textList?_comp : textList? (c.mapNames f) ∘ Expr.mapNames f = textList? c :=
  funext (textList?_mapNames hf hc)

omit hf hc in
theorem namedType?_comp : namedType? ∘ Expr.mapNames f = namedType? := by
  funext e
  cases e with
  | new m type args init => cases init <;> rfl
  | _ => rfl

theorem rangeOf?_mapNames (args : List Expr) :
    rangeOf? (c.mapNames f) (args.map (Expr.mapNames f)) = rangeOf? c args := by
  rw [rangeOf?, rangeOf?, List.filterMap_map, evalNumber?_comp hf hc]

omit hf hc in
theorem assignIndent_of_not_binary (c : Catalog) {value : Expr}
    (h : ∀ m l op r, value ≠ .binary m l op r) (frame : Frame) :
    assignIndent c value frame =
      (c.evalNumber? value).elim frame fun x => { frame with depth := floatToInt x } := by
  cases value with
  | binary m l op r => exact absurd rfl (h m l op r)
  | _ =>
    unfold assignIndent
    dsimp only
    generalize c.evalNumber? _ = number
    cases number <;> rfl

theorem assignIndent_mapNames (value : Expr) (frame : Frame) :
    assignIndent (c.mapNames f) (value.mapNames f) frame = assignIndent c value frame := by
  have hnumber := Catalog.evalNumber?_mapNames hf hc
  by_cases hvalue : ∃ m l op r, value = .binary m l op r
  · obtain ⟨m, l, op, r, rfl⟩ := hvalue
    have hwhole := hnumber (.binary m l op r)
    rw [Expr.mapNames] at hwhole ⊢
    unfold assignIndent
    dsimp only
    rw [hf.isIndentLevel, hnumber r, hwhole]
  · have hplain : ∀ m l op r, value ≠ .binary m l op r :=
      fun m l op r h => hvalue ⟨m, l, op, r, h⟩
    have hplain' : ∀ m l op r, value.mapNames f ≠ .binary m l op r := by
      cases value with
      | binary m l op r => exact absurd rfl (hplain m l op r)
      | new m type args init => cases init <;> simp [Expr.mapNames]
      | _ => simp [Expr.mapNames]
    rw [assignIndent_of_not_binary _ hplain, assignIndent_of_not_binary _ hplain', hnumber]

theorem scopeIndent?_mapNames (resource : Stmt) :
    scopeIndent? (c.mapNames f) (resource.mapNames f) = scopeIndent? c resource := by
  have hcreated : ∀ e : Expr,
      scopeIndent? (c.mapNames f) (.expr (e.mapNames f)) = scopeIndent? c (.expr e) := by
    intro e
    cases e with
    | new m type args init =>
      have hargs : (args.map (Expr.mapNames f)).head?.bind (c.mapNames f).evalNumber? =
          args.head?.bind c.evalNumber? := by
        rw [List.head?_map, Option.bind_map, evalNumber?_comp hf hc]
      cases init <;> cases type <;>
        simp only [Expr.mapNames, Expr.mapNamesAll_eq, scopeIndent?, hargs]
    | _ => rfl
  cases resource with
  | localDecl m type n value =>
    cases value with
    | none => rfl
    | some value => exact hcreated value
  | expr e => exact hcreated e
  | _ => rfl

theorem routineOf?_mapNames {callee : Expr} {method method' : String}
    (hmethod : PathRenamed f method method') :
    routineOf? (c.mapNames f) (callee.mapNames f) method' =
      (routineOf? c callee method).map (Routine.mapNames f) := by
  have hroutine : ∀ {path path' : String}, PathRenamed f path path' →
      (c.mapNames f).routine? path' = (c.routine? path).map (Routine.mapNames f) := by
    intro path path' h
    change Catalog.find? (c.routines.map _) path' = _
    rw [Catalog.find?_map, Catalog.find?_renamed hf hc.routines h]
    rfl
  have hpath : PathRenamed f (callee.dotted?.getD method)
      ((callee.mapNames f).dotted?.getD method') := by
    have hrel := hf.dotted? callee
    revert hrel
    generalize callee.dotted? = path
    generalize (callee.mapNames f).dotted? = path'
    intro hrel
    cases hrel with
    | none => exact hmethod
    | some hrel => exact hrel
  rw [routineOf?, routineOf?, hroutine hpath]
  cases c.routine? (callee.dotted?.getD method) with
  | some r => rfl
  | none => exact hroutine hmethod

end Walk

end PanelSchema
