import Mathlib.Data.List.InsertIdx
import PanelSchema.Proofs.Renaming.Walk

/-!
Calls under other names for locals. A call of the vocabulary does the same to both walks, as
long as a local that receives a module keeps its name, since that name becomes a path.
-/

namespace PanelSchema

open Syntax (Expr)

namespace Draft

variable {kept : String → Bool}

theorem view_hints (texts : List String) (d : Draft) :
    (texts.foldl Draft.hint d).view kept = texts.foldl Draft.hint (d.view kept) := by
  induction texts generalizing d with
  | nil => rfl
  | cons text texts ih => exact ih (d.hint text)

theorem binding_eq {d d' : Draft} (h : d'.view kept = d.view kept) : d'.binding = d.binding := by
  have hview : ∀ d : Draft, d.binding = (d.view kept).binding := fun _ => rfl
  rw [hview d, hview d', h]

theorem identifier_eq {d d' : Draft} (h : d'.view kept = d.view kept) :
    d'.identifier = d.identifier :=
  (congrArg Draft.identifier h :)

end Draft

theorem Walk.view_describe (s : Setting) (w : Walk) (method : String) (type : PropertyType)
    (typeArgs : List String) (args rest : List Expr) (d : Draft) (kept : String → Bool) :
    (w.describe s method type typeArgs args rest d).view kept =
      w.describe s method type typeArgs args rest (d.view kept) := by
  unfold Walk.describe
  dsimp only
  repeat' split
  all_goals rfl

namespace Walk.Renamed

variable {f : String → String} (hf : Renaming f) {kept : String → Bool} {s : Setting}
  (hs : s.catalog.FixedBy f) {w w' : Walk} (h : w.Renamed f kept w')

include h in
theorem current_cases :
    (w.current = none ∧ w'.current = none) ∨
      ∃ m n, w.current = some m ∧ w'.current = some n ∧ n.view kept = m.view kept := by
  have hcurrent := h.current
  cases hm : w.current with
  | none =>
    rw [hm, Option.map_none, Option.map_eq_none_iff] at hcurrent
    exact .inl ⟨rfl, hcurrent⟩
  | some m =>
    rw [hm] at hcurrent
    obtain ⟨n, hn, hview⟩ := Option.map_eq_some_iff.1 hcurrent
    exact .inr ⟨m, n, rfl, hn, hview⟩

include h in
theorem draft_cases (l : String) :
    (w.drafts.get? l = none ∧ w'.drafts.get? (f l) = none) ∨
      ∃ d d', w.drafts.get? l = some d ∧ w'.drafts.get? (f l) = some d' ∧
        d'.view kept = d.view kept := by
  have hdraft := h.drafts l
  cases hd : w.drafts.get? l with
  | none =>
    rw [hd, Option.map_none, Option.map_eq_none_iff] at hdraft
    exact .inl ⟨rfl, hdraft⟩
  | some d =>
    rw [hd] at hdraft
    obtain ⟨d', hd', hview⟩ := Option.map_eq_some_iff.1 hdraft
    exact .inr ⟨d, d', rfl, hd', hview⟩

/-! ### Modules and sections -/

include h in
theorem closed : w.closed.Renamed f kept w'.closed := by
  unfold Walk.closed
  rcases h.current_cases with ⟨hm, hn⟩ | ⟨m, n, hm, hn, hview⟩
  · rw [hm, hn]
    exact h
  · rw [hm, hn]
    refine { h with modules := ?_, current := rfl }
    simp [h.modules, ModuleDraft.view_finish hview]

include h in
theorem preamble_cases :
    (w.preamble = none ∧ w'.preamble = none) ∨
      ∃ p p', w.preamble = some p ∧ w'.preamble = some p' ∧ p.Renamed f kept p' := by
  have hpreamble := h.preamble
  revert hpreamble
  generalize w.preamble = p
  generalize w'.preamble = p'
  intro hpreamble
  cases hpreamble with
  | none => exact .inl ⟨rfl, rfl⟩
  | some hp => exact .inr ⟨_, _, rfl, rfl, hp⟩

include h in
theorem enterPreamble : (Walk.enterPreamble w).Renamed f kept (Walk.enterPreamble w') := by
  unfold Walk.enterPreamble
  rcases h.preamble_cases with ⟨hp, hp'⟩ | ⟨p, p', hp, hp', hrenamed⟩
  · rw [hp, hp']
    exact { h with preamble := .some ⟨h.drafts, h.bindings⟩ }
  · rw [hp, hp']
    refine { h with drafts := hrenamed.drafts, bindings := hrenamed.bindings, preamble := ?_ }
    exact .some hrenamed

include hf h in
/-- The name of a local that receives a module becomes a path, so it has to stay. -/
theorem started (name : String) (keywords : List String) {target : Target}
    (htarget : ∀ l, target.name? = some l → f l = l) :
    (w.started s name keywords target).Renamed f kept
      (w'.started (s.mapNames f) name keywords (target.mapNames f)) := by
  have hclosed := h.closed
  have hopened : (ModuleDraft.opened (s.mapNames f) name keywords) =
      ModuleDraft.opened s name keywords := rfl
  have hbase := hclosed.enterPreamble
  unfold Walk.started
  rw [hf.name?, hopened, hclosed.generation]
  cases hl : target.name? with
  | none =>
    exact { hbase with toggles := .empty, generation := rfl, current := rfl }
  | some l =>
    rw [Option.map_some, htarget l hl]
    have hbound := hbase.bindings.insert hf l (rfl : id (⟨l, .boolean⟩ : Binding) = _)
    rw [htarget l hl] at hbound
    exact { hbase with toggles := .empty, generation := rfl, current := rfl, bindings := hbound }

include hf hs h in
theorem effected (args : List Expr) (frame : Frame) {target : Target}
    (htarget : ∀ l, target.name? = some l → f l = l) :
    (w.effected s args frame target).2.Renamed f kept
        (w'.effected (s.mapNames f) (args.map (Expr.mapNames f)) frame (target.mapNames f)).2 ∧
      (w'.effected (s.mapNames f) (args.map (Expr.mapNames f)) frame (target.mapNames f)).1 =
        (w.effected s args frame target).1 := by
  have htexts : (args.map (Expr.mapNames f)).filterMap (w'.string? (s.catalog.mapNames f)) =
      args.filterMap (w.string? s.catalog) := by
    rw [List.filterMap_map, h.string?_comp hf hs]
  unfold Walk.effected
  rw [Setting.mapNames, htexts]
  cases (args.filterMap (w.string? s.catalog)).reverse with
  | nil => exact ⟨h, rfl⟩
  | cons name keywords =>
    have hstarted := h.started hf (s := s) name (keywords.take 2).reverse htarget
    refine ⟨hstarted, ?_⟩
    dsimp only
    rw [← Setting.mapNames, hstarted.generation]

include hf hs h in
theorem sectioned (args : List Expr) (frame : Frame) (target : Target) :
    (w.sectioned s args frame target).Renamed f kept
      (w'.sectioned (s.mapNames f) (args.map (Expr.mapNames f)) frame (target.mapNames f)) := by
  unfold Walk.sectioned
  rw [Setting.mapNames, List.head?_map, List.getElem?_map, Option.bind_map, Option.bind_map,
    h.string?_comp hf hs, ← List.map_drop, List.findSome?_map, evalNumber?_comp hf hs, hf.name?]
  rcases h.current_cases with ⟨hm, hn⟩ | ⟨m, n, hm, hn, hview⟩
  · rw [hm, hn]
    exact h
  · rw [hm, hn]
    cases args.head?.bind (w.string? s.catalog) with
    | none => exact h
    | some name =>
      dsimp only
      have hcurrent := congrArg some (ModuleDraft.view_declared hview name
        (args[1]?.bind (w.string? s.catalog))
        (((args.drop 1).findSome? s.catalog.evalNumber?).map floatToInt) frame)
      cases target.name? with
      | none => exact { h with current := hcurrent }
      | some l =>
        exact { h with current := hcurrent, toggles := h.toggles.insert hf l rfl }

/-! ### Properties -/

variable {d d' : Draft} (hd : d'.view kept = d.view kept)

include h hd in
theorem shown (frame : Frame) : (w.shown d frame).Renamed f kept (w'.shown d' frame) := by
  refine { h with current := ?_ }
  unfold Walk.shown
  rcases h.current_cases with ⟨hm, hn⟩ | ⟨m, n, hm, hn, hview⟩
  · rw [hm, hn]
    rfl
  · rw [hm, hn]
    exact congrArg some (ModuleDraft.view_shown hview hd frame)

include hf h hd in
theorem boundTo (name : String) :
    (w.boundTo d name).Renamed f kept (w'.boundTo d' (f name)) := by
  refine { h with bindings := ?_ }
  unfold Walk.boundTo
  rw [Draft.identifier_eq hd, Draft.binding_eq hd]
  dsimp only
  split
  · exact h.bindings
  · exact h.bindings.insert hf name rfl

include hf h hd in
theorem keptAs (l : String) (target : Target) :
    (w.keptAs l d target).Renamed f kept (w'.keptAs (f l) d' (target.mapNames f)) := by
  have hheld : ({ w with drafts := w.drafts.insert l d } : Walk).Renamed f kept
      { w' with drafts := w'.drafts.insert (f l) d' } :=
    { h with drafts := h.drafts.insert hf l hd }
  have hbound := hheld.boundTo hf hd l
  unfold Walk.keptAs
  rw [hf.name?]
  cases target.name? with
  | none => exact hbound
  | some name =>
    dsimp only [Option.map_some]
    rw [hbound.drafts.contains]
    split
    · exact hbound
    · exact hbound.boundTo hf hd name

include hf h in
theorem drawnLocal? (args : List Expr) (target : Target) :
    w'.drawnLocal? (args.map (Expr.mapNames f)) (target.mapNames f) =
      (w.drawnLocal? args target).map fun found =>
        (f found.1, found.2.map (Expr.mapNames f)) := by
  have hlocal : w'.draftLocal? ∘ Expr.mapNames f = Option.map f ∘ w.draftLocal? :=
    funext (h.draftLocal? hf)
  have hposition : (args.map (Expr.mapNames f)).findIdx? (fun a => (w'.draftLocal? a).isSome) =
      args.findIdx? fun a => (w.draftLocal? a).isSome := by
    rw [List.findIdx?_map]
    congr 1
    funext a
    simp [h.draftLocal? hf a]
  unfold Walk.drawnLocal?
  rw [hposition]
  cases args.findIdx? fun a => (w.draftLocal? a).isSome with
  | some i =>
    dsimp only
    rw [List.getElem?_map, Option.bind_map, hlocal, List.eraseIdx_map]
    cases args[i]? with
    | none => rfl
    | some a => cases hl : w.draftLocal? a <;> simp [hl]
  | none =>
    cases target with
    | named n => rfl
    | discard => rfl
    | place e =>
      dsimp only [Target.mapNames]
      rw [h.draftLocal? hf e]
      cases w.draftLocal? e <;> rfl

include hf hs h in
theorem describe (method : String) (type : PropertyType) (typeArgs : List String)
    (args rest : List Expr) (d : Draft) :
    w'.describe (s.mapNames f) method type typeArgs (args.map (Expr.mapNames f))
        (rest.map (Expr.mapNames f)) d =
      w.describe s method type typeArgs args rest d := by
  unfold Walk.describe
  rw [Setting.mapNames, List.findSome?_map, h.caption?_comp hf hs, rangeOf?_mapNames hf hs,
    List.filterMap_map, namedType?_comp, List.findSome?_map, textList?_comp hf hs]
  rfl

include hf hs h in
theorem drawn (method : String) (type : PropertyType) (typeArgs : List String)
    (args : List Expr) (frame : Frame) (target : Target) :
    (w.drawn s method type typeArgs args frame target).Renamed f kept
      (w'.drawn (s.mapNames f) method type typeArgs (args.map (Expr.mapNames f)) frame
        (target.mapNames f)) := by
  unfold Walk.drawn Walk.drawing?
  rw [h.drawnLocal? hf]
  cases w.drawnLocal? args target with
  | none => exact h
  | some found =>
    obtain ⟨l, rest⟩ := found
    dsimp only [Option.map_some, Option.bind_some]
    rcases h.draft_cases l with ⟨hd, hd'⟩ | ⟨d, d', hd, hd', hview⟩
    · rw [hd, hd']
      exact h
    · rw [hd, hd']
      dsimp only [Option.map_some]
      rw [h.describe hf hs]
      have hdescribed : (w.describe s method type typeArgs args rest d').view kept =
          (w.describe s method type typeArgs args rest d).view kept := by
        rw [view_describe, view_describe, hview]
      have hdrawn := congrArg
        (fun d : Draft => { d with indented := d.indented || 0 < frame.depth }) hdescribed
      exact (h.keptAs hf hdrawn l target).shown hdrawn frame

include hf hs h in
theorem hint (args : List Expr) :
    (w.hint s args).Renamed f kept
      (w'.hint (s.mapNames f) (args.map (Expr.mapNames f))) := by
  have hlocal : w'.draftLocal? ∘ Expr.mapNames f = Option.map f ∘ w.draftLocal? :=
    funext (h.draftLocal? hf)
  have hfound : (args.map (Expr.mapNames f)).findSome? w'.draftLocal? =
      (args.findSome? w.draftLocal?).map f := by
    rw [List.findSome?_map, hlocal, List.map_findSome?]
  unfold Walk.hint
  rw [Setting.mapNames, hfound, List.filterMap_map, h.string?_comp hf hs]
  cases args.findSome? w.draftLocal? with
  | none => exact h
  | some l =>
    dsimp only [Option.map_some]
    rcases h.draft_cases l with ⟨hd, hd'⟩ | ⟨d, d', hd, hd', hview⟩
    · rw [hd, hd']
      exact h
    · rw [hd, hd']
      have hhinted : ((args.filterMap (w.string? s.catalog)).foldl Draft.hint d').view kept =
          ((args.filterMap (w.string? s.catalog)).foldl Draft.hint d).view kept := by
        rw [Draft.view_hints, Draft.view_hints, hview]
      refine { h with current := ?_, drafts := h.drafts.insert hf l hhinted }
      dsimp only
      rw [Draft.identifier_eq hview]
      rcases h.current_cases with ⟨hm, hn⟩ | ⟨m, n, hm, hn, hmodule⟩
      · rw [hm, hn]
      · rw [hm, hn]
        exact congrArg some (ModuleDraft.view_hinted hmodule d.identifier _)

include hf hs h in
theorem identifierOf (source : Option Expr) :
    (w'.identifierOf (s.catalog.mapNames f) (source.map (Expr.mapNames f))).1 =
      (w.identifierOf s.catalog source).1 := by
  cases source with
  | none => rfl
  | some e =>
    have hstring := h.string? hf hs e
    cases e with
    | string m text => rfl
    | new m type args init => cases init <;> exact congrArg (·.getD "") hstring
    | _ => exact congrArg (·.getD "") hstring

include hf hs h in
theorem declareProperty (l : String) (source : Option Expr) (indented : Bool)
    (hraw : kept (w.identifierOf s.catalog source).1 = true →
      (w.identifierOf s.catalog source).1 ≠ "" →
      (w'.identifierOf (s.catalog.mapNames f) (source.map (Expr.mapNames f))).2 =
        (w.identifierOf s.catalog source).2) :
    (w.declareProperty s l source indented).Renamed f kept
      (w'.declareProperty (s.mapNames f) (f l) (source.map (Expr.mapNames f)) indented) := by
  have hid := h.identifierOf hf hs source
  unfold Walk.declareProperty
  rw [Setting.mapNames]
  generalize w.identifierOf s.catalog source = found at hid hraw
  generalize w'.identifierOf (s.catalog.mapNames f) (source.map (Expr.mapNames f)) = found'
    at hid hraw
  obtain ⟨id, raw⟩ := found
  obtain ⟨id', raw'⟩ := found'
  dsimp only at hid hraw ⊢
  subst hid
  have hplain : ({ identifier := id', rawIdentifier := raw', indented } : Draft).view kept =
      ({ identifier := id', rawIdentifier := raw, indented } : Draft).view kept := by
    unfold Draft.view
    split
    · rename_i hkept
      rw [hraw hkept.1 hkept.2]
    · rfl
  cases s.declarations.get? id' with
  | none =>
    refine { h with drafts := h.drafts.insert hf l hplain, bindings := ?_ }
    dsimp only
    split
    · exact h.bindings
    · exact h.bindings.insert hf l (Draft.binding_eq hplain)
  | some m =>
    have hrich := congrArg (·.enrich m) hplain
    refine { h with drafts := h.drafts.insert hf l hrich, bindings := ?_ }
    dsimp only
    split
    · exact h.bindings
    · exact h.bindings.insert hf l (Draft.binding_eq hrich)

omit h in
theorem written_identifierOf {e : Expr} (he : (e.mapNames f).dotted? = e.dotted?)
    (c c' : Catalog) (w w' : Walk) :
    (w'.identifierOf c' (some (e.mapNames f))).2 = (w.identifierOf c (some e)).2 := by
  cases e with
  | string m text => rfl
  | new m type args init => cases init <;> exact congrArg (·.getD "") he
  | _ => exact congrArg (·.getD "") he

/-- A call may be met in both walks. A local that receives a module keeps its name, and an
argument that gives an identifier is written as it was, if that counts. -/
structure Meets (f : String → String) (kept : String → Bool) (s : Setting) (w : Walk)
    (shape : CallShape) (args : List Expr) (target : Target) : Prop where
  effect : shape = .effect → ∀ l, target.name? = some l → f l = l
  lookup : shape = .propertyLookup → target.name?.isSome = true → ∀ e, args.head? = some e →
    kept (w.identifierOf s.catalog (some e)).1 = true →
      (w.identifierOf s.catalog (some e)).1 ≠ "" → (e.mapNames f).dotted? = e.dotted?

include hf hs h in
theorem shaped {shape : CallShape} (method : String) (typeArgs : List String)
    {args : List Expr} (frame : Frame) {target : Target}
    (hmeets : Meets f kept s w shape args target) :
    (w.shaped s shape method typeArgs args frame target).2.Renamed f kept
        (w'.shaped (s.mapNames f) shape method typeArgs (args.map (Expr.mapNames f)) frame
          (target.mapNames f)).2 ∧
      (w'.shaped (s.mapNames f) shape method typeArgs (args.map (Expr.mapNames f)) frame
          (target.mapNames f)).1 =
        (w.shaped s shape method typeArgs args frame target).1 := by
  cases shape with
  | propertyLookup =>
    unfold Walk.shaped
    dsimp only
    rw [hf.name?, List.head?_map]
    cases hl : target.name? with
    | none => exact ⟨h, rfl⟩
    | some l =>
      refine ⟨h.declareProperty hf hs l args.head? _ ?_, rfl⟩
      intro hkept hid
      cases he : args.head? with
      | none => rfl
      | some e =>
        rw [he] at hkept hid
        have hwritten := hmeets.lookup rfl (by simp [hl]) e he hkept hid
        exact written_identifierOf hwritten _ _ w w'
  | effect => exact h.effected hf hs args frame (hmeets.effect rfl)
  | subEffect => exact ⟨h.sectioned hf hs args frame target, rfl⟩
  | indent => exact ⟨h, rfl⟩
  | unindent => exact ⟨h, rfl⟩
  | bind type => exact ⟨h.drawn hf hs method type typeArgs args frame target, rfl⟩
  | hint => exact ⟨h.hint hf hs args, rfl⟩
  | unrecognized => exact ⟨h, rfl⟩

/-! ### Aliases and parameters -/

include hf h in
theorem aliasLocal (source name : String) :
    (w.aliasLocal source name).Renamed f kept (w'.aliasLocal (f source) (f name)) :=
  { h with
    drafts := h.drafts.takeOver hf source name
    bindings := h.bindings.takeOver hf source name
    toggles := h.toggles.takeOver hf source name }

include hf h in
theorem holdsText (name text : String) :
    ({ w with strings := w.strings.insert name text } : Walk).Renamed f kept
      { w' with strings := w'.strings.insert (f name) text } :=
  { h with strings := h.strings.insert hf name rfl }

/-- Two locals are known as the same. -/
structure SameMeaning (kept : String → Bool) (m m' : LocalMeaning) : Prop where
  draft : m'.draft.map (Draft.view kept) = m.draft.map (Draft.view kept)
  binding : m'.binding = m.binding
  toggle : m'.toggle = m.toggle
  string : m'.string = m.string

include h in
theorem meaningOf (name : String) :
    SameMeaning kept (w.meaningOf name) (w'.meaningOf (f name)) :=
  ⟨h.drafts name, h.bindings.get? name, h.toggles.get? name, h.strings.get? name⟩

include hf h in
theorem setMeaning (name : String) {m m' : LocalMeaning} (hm : SameMeaning kept m m') :
    (w.setMeaning name m).Renamed f kept (w'.setMeaning (f name) m') :=
  { h with
    drafts := h.drafts.set hf name hm.draft
    bindings := h.bindings.set hf name (by rw [hm.binding])
    toggles := h.toggles.set hf name (by rw [hm.toggle])
    strings := h.strings.set hf name (by rw [hm.string]) }

include h in
theorem resolve? : ∀ e : Expr, w'.bindings.resolve? (e.mapNames f) = w.bindings.resolve? e
  | .name _ n => h.bindings.get? n
  | .cast _ _ e => resolve? e
  | .member _ object _ => by
    cases object with
    | name m n => exact h.bindings.get? n
    | new m type args init => cases init <;> rfl
    | _ => rfl
  | .new _ _ _ none | .new _ _ _ (some _) | .unary .. | .binary .. | .assign .. | .conditional ..
  | .call .. | .index .. | .typeOf .. | .string .. | .integer .. | .float .. | .bool ..
  | .list .. | .null _ => rfl

include hf hs h in
theorem argumentMeaning (arg : Expr) :
    SameMeaning kept (w.argumentMeaning s.catalog arg)
      (w'.argumentMeaning (s.catalog.mapNames f) (arg.mapNames f)) where
  draft := by
    unfold Walk.argumentMeaning
    dsimp only
    rw [h.draftLocal? hf arg]
    cases w.draftLocal? arg with
    | none => rfl
    | some l => exact h.drafts l
  binding := h.resolve? arg
  toggle := by
    unfold Walk.argumentMeaning
    dsimp only
    rw [Renaming.asName?]
    cases arg.asName? with
    | none => rfl
    | some n => exact h.toggles.get? n
  string := h.string? hf hs arg

abbrev SameSaved (f : String → String) (kept : String → Bool) :
    List (String × LocalMeaning) → List (String × LocalMeaning) → Prop :=
  List.Forall₂ fun p p' => p'.1 = f p.1 ∧ SameMeaning kept p.2 p'.2

include hf hs h in
theorem bindParams (params : List (String × Expr)) :
    (Walk.bindParams s.catalog params w).1.Renamed f kept
        (Walk.bindParams (s.catalog.mapNames f)
          (params.map fun p => (f p.1, p.2.mapNames f)) w').1 ∧
      SameSaved f kept (Walk.bindParams s.catalog params w).2
        (Walk.bindParams (s.catalog.mapNames f)
          (params.map fun p => (f p.1, p.2.mapNames f)) w').2 := by
  induction params generalizing w w' with
  | nil => exact ⟨h, .nil⟩
  | cons p params ih =>
    obtain ⟨hbound, hsaved⟩ := ih (h.setMeaning hf p.1 (h.argumentMeaning hf hs p.2))
    exact ⟨hbound, .cons ⟨rfl, h.meaningOf p.1⟩ hsaved⟩

include hf h in
theorem restore {saved saved' : List (String × LocalMeaning)}
    (hsaved : SameSaved f kept saved saved') :
    (w.restore saved).Renamed f kept (w'.restore saved') := by
  unfold Walk.restore
  induction hsaved generalizing w w' with
  | nil => exact h
  | cons hp _ ih =>
    rw [List.foldl_cons, List.foldl_cons, hp.1]
    exact ih (h.setMeaning hf _ hp.2)

end Walk.Renamed

end PanelSchema
