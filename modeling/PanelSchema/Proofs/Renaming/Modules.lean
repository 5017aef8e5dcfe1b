import Mathlib.Data.Set.Finite.Lemmas
import PanelSchema.Proofs.Extract
import PanelSchema.Proofs.Renaming.Run

/-!
The modules of a renamed source. They are those of the source itself, but for the texts that
identifiers were written as, and such a text changes only if a lookup of the same identifier
is written as a path that starts with the local which is renamed.
-/

namespace PanelSchema

open Syntax (Expr Stmt SwitchSection Decl SourceTree)

variable {t : SourceTree} {declarations : DeclarationTable} {settings : Settings}

theorem extractModules_result_of_entry {entry : Routine}
    (h : (Catalog.ofTree t).routine? settings.entryPoint = some entry) :
    (extractModules t declarations settings).result =
      (Point.walkOf (.ofTree t declarations settings) entry).result.map
        fun after => after.2.closed.modules := by
  cases hwalk : (Point.walkOf (.ofTree t declarations settings) entry).result with
  | ok after => exact extractModules_result_eq_ok.2 ⟨entry, after.1, after.2, h, hwalk, rfl⟩
  | error e =>
    have hcatalog : (catalogOf t).result = .ok (Catalog.ofTree t) := rfl
    have hentry : (Walk.walkEntry (.ofTree t declarations settings) entry {}).result = .error e :=
      Point.walkEntry_result_eq_error.2 (Point.walkOf_result_eq_error.1 hwalk)
    unfold extractModules
    rw [Traced.result_bind_of_ok hcatalog, h]
    dsimp only
    rw [Traced.result_bind_of_ok (Traced.result_note _ _)]
    exact Traced.result_bind_eq_error.2 (.inl hentry)

theorem extractModules_result_of_missing
    (h : (Catalog.ofTree t).routine? settings.entryPoint = none) :
    (extractModules t declarations settings).result =
      .error (.problem (missingEntryPoint settings.entryPoint t)) := by
  have hcatalog : (catalogOf t).result = .ok (Catalog.ofTree t) := rfl
  unfold extractModules
  rw [Traced.result_bind_of_ok hcatalog, h]
  rfl

section

variable {f : String → String} (hf : Renaming f) (ht : (Catalog.ofTree t).FixedBy f)
  (hmembers : ∀ p ∈ t.compared, f p.1 = p.2 ↔ p.1 = p.2)
include hf ht hmembers

theorem Setting.ofTree_mapNames :
    Setting.ofTree (t.mapNames f) declarations settings =
      (Setting.ofTree t declarations settings).mapNames f := by
  unfold Setting.ofTree Setting.mapNames
  rw [Catalog.ofTree_mapNames hf ht hmembers]

theorem Catalog.routine?_ofTree_mapNames (name : String) :
    (Catalog.ofTree (t.mapNames f)).routine? name =
      ((Catalog.ofTree t).routine? name).map (Routine.mapNames f) := by
  rw [Catalog.ofTree_mapNames hf ht hmembers]
  exact Catalog.find?_map _ _ _

/-- A renaming that keeps what is declared, and what becomes visible in modules, keeps the
modules. -/
theorem extractModules_mapNames (kept : String → Bool)
    (hready : ∀ c, Visits t declarations settings c →
      Point.Renamed.Ready f kept (.ofTree t declarations settings) c) :
    (extractModules (t.mapNames f) declarations settings).result.map
        (List.map (Module.view kept)) =
      (extractModules t declarations settings).result.map (List.map (Module.view kept)) := by
  have hroutine := Catalog.routine?_ofTree_mapNames hf ht hmembers settings.entryPoint
  cases hentry : (Catalog.ofTree t).routine? settings.entryPoint with
  | none =>
    rw [hentry, Option.map_none] at hroutine
    rw [extractModules_result_of_missing hentry, extractModules_result_of_missing hroutine]
    rfl
  | some entry =>
    rw [hentry, Option.map_some] at hroutine
    rw [extractModules_result_of_entry hentry, extractModules_result_of_entry hroutine,
      Setting.ofTree_mapNames hf ht hmembers]
    have hvisited : ∀ c, Point.Reaches (.ofTree t declarations settings)
        (.start (.ofTree t declarations settings) entry) c →
        Point.Renamed.Ready f kept (.ofTree t declarations settings) c :=
      fun c hc => hready c ⟨entry, hentry, hc⟩
    have halike := Point.Renamed.walkOf hf ht hvisited
    cases hresult : (Point.walkOf (.ofTree t declarations settings) entry).result with
    | ok r =>
      obtain ⟨r', hresult', -, hrenamed⟩ := halike.of_ok hresult
      rw [hresult']
      exact congrArg Except.ok hrenamed.closed.modules
    | error e => rw [halike.of_error hresult]

omit hmembers in
theorem Visits.call_fixed (hnames : ∀ n ∈ t.names, f n = n) {c : Point}
    (hc : Visits t declarations settings c) {call : Call} (hcall : c.call? = some call) :
    call.mapNames f = call.mapNames id := by
  obtain ⟨entry, hentry, hreaches⟩ := hc
  have hmembers : ∀ p ∈ t.compared, f p.1 = p.2 ↔ p.1 = p.2 := by
    intro p hp
    rw [hnames p.1 (t.mem_names_of_compared hp).1]
  have hkept : (Catalog.ofTree t).FixedBy id := .of_keys (fun _ _ _ _ => rfl) ht.this
  have hmembers' : ∀ p ∈ t.compared, id p.1 = p.2 ↔ p.1 = p.2 := fun _ _ => Iff.rfl
  have htree : t.mapNames f = t.mapNames id := Syntax.SourceTree.mapNames_congr hnames
  have hsame : (Setting.ofTree t declarations settings).mapNames f =
      (Setting.ofTree t declarations settings).mapNames id := by
    rw [← Setting.ofTree_mapNames hf ht hmembers, htree,
      Setting.ofTree_mapNames .unmoved hkept hmembers']
  have hroutine := Catalog.routine?_ofTree_mapNames hf ht hmembers settings.entryPoint
  rw [htree, Catalog.routine?_ofTree_mapNames .unmoved hkept hmembers', hentry] at hroutine
  exact Point.Renamed.call_fixed hf ht hkept hsame (Option.some.inj hroutine).symm hreaches hcall

end

/-! ### One name for another -/

/-- The local that receives the module which is about to start. -/
def Point.receiver? (c : Point) : Option String :=
  c.call?.bind fun call => if call.shape = .effect then call.target.name? else none

/-- The identifier that a local is about to get the property of, and the argument that gives
it. -/
def Point.lookup? (s : Setting) (c : Point) : Option (String × Expr) :=
  c.call?.bind fun call =>
    if call.shape = .propertyLookup ∧ call.target.name?.isSome = true then
      (call.args.head?.map fun e => ((c.walk.identifierOf s.catalog (some e)).1, e)).filter
        fun found => found.1 ≠ ""
    else none

/-- An identifier is looked up by a path that starts with a local. -/
def WrittenWith (t : SourceTree) (declarations : DeclarationTable) (settings : Settings)
    (x id : String) : Prop :=
  ∃ c e, Visits t declarations settings c ∧
    c.lookup? (.ofTree t declarations settings) = some (id, e) ∧ e.root? = some x

/-- A name that locals of a source may have: no constant, enum or routine is known by it or
under it, and no member of an enum is given by the name of an earlier member that has it. -/
structure LocalName (t : SourceTree) (z : String) : Prop extends Ordinary z where
  unknown : ∀ key ∈ (Catalog.ofTree t).keys, z ∉ dottedParts key
  uncompared : (z, z) ∉ t.compared

theorem Module.view_of_forall {kept : String → Bool} (h : ∀ id, kept id = true) :
    Module.view kept = id := by
  have hproperty : Property.view kept = id := by
    funext p
    rw [Property.view, h, if_pos rfl, id]
  funext m
  rw [Module.view, hproperty, List.map_id, id]

theorem exists_localName (t : SourceTree) (y : String) :
    ∃ z, LocalName t z ∧ z ∉ t.names ∧ z ≠ y := by
  let word (k : Nat) : String := String.ofList (List.replicate (k + 1) '-')
  have hword : Function.Injective word := by
    intro j k h
    simpa [word] using congrArg String.length h
  obtain ⟨_, ⟨k, rfl⟩, hnew⟩ := (Set.infinite_range_of_injective hword).exists_notMem_finset
    (y :: (t.names ++ (Catalog.ofTree t).keys.flatMap dottedParts)).toFinset
  rw [List.mem_toFinset, List.mem_cons, List.mem_append, List.mem_flatMap, not_or, not_or] at hnew
  obtain ⟨hy, hnames, hkeys⟩ := hnew
  have hne : ∀ text : String, text.toList.head? ≠ some '-' → word k ≠ text := by
    rintro _ h rfl
    exact h (by simp [word, List.replicate_succ])
  refine ⟨word k, ⟨⟨by simp [word], ?_, ?_⟩, ?_, ?_⟩, hnames, hy⟩
  · unfold CallShape.ofMethod
    split <;> first | rfl | exact absurd ‹_› (hne _ (by decide))
  · simp only [List.mem_cons, List.not_mem_nil, or_false, not_or]
    refine ⟨hne _ ?_, hne _ ?_, hne _ ?_, hne _ ?_, hne _ ?_⟩ <;> decide
  · intro key hkey hz
    exact hkeys ⟨key, hkey, hz⟩
  · intro hpair
    exact hnames (t.mem_names_of_compared hpair).1

theorem Renaming.root? {f : String → String} (hf : Renaming f) :
    ∀ e : Expr, (e.mapNames f).root? = e.root?.map f
  | .name .. => rfl
  | .member _ object n => by
    rw [Syntax.Expr.mapNames, Syntax.Expr.root?, Syntax.Expr.root?, hf.isThis, hf.root? object]
    cases object.isThis <;> rfl
  | .new _ _ _ none | .new _ _ _ (some _) | .unary .. | .binary .. | .assign .. | .conditional ..
  | .cast .. | .call .. | .index .. | .typeOf .. | .string .. | .integer .. | .float .. | .bool ..
  | .list .. | .null _ => rfl

theorem Renaming.dotted?_of_root? {f : String → String} (hf : Renaming f) :
    ∀ e : Expr, (∀ n, e.root? = some n → f n = n) → (e.mapNames f).dotted? = e.dotted?
  | .name _ n, h => by rw [Syntax.Expr.mapNames, h n rfl]
  | .member _ object n, h => by
    rw [Syntax.Expr.root?] at h
    rw [Syntax.Expr.mapNames]
    cases hthis : object.isThis with
    | true =>
      obtain ⟨m, rfl⟩ := Syntax.Expr.isThis_iff.1 hthis
      have hn : f n = n := h n (if_pos hthis)
      rw [if_pos rfl, hn, Syntax.Expr.mapNames, hf.this]
    | false =>
      rw [hthis] at h
      have hobject := Renaming.dotted?_of_root? hf object h
      rw [if_neg Bool.false_ne_true, Syntax.Expr.dotted?, Syntax.Expr.dotted?, hobject]
  | .new _ _ _ none, _ | .new _ _ _ (some _), _ => rfl
  | .unary .., _ | .binary .., _ | .assign .., _ | .conditional .., _ | .cast .., _ | .call .., _
  | .index .., _ | .typeOf .., _ | .string .., _ | .integer .., _ | .float .., _ | .bool .., _
  | .list .., _ | .null _, _ => rfl

section

variable {x y : String}

theorem Renaming.swap (hx : Ordinary x) (hy : Ordinary y) : Renaming (Equiv.swap x y) where
  injective := (Equiv.swap x y).injective
  ordinary z hz := by
    by_cases hzx : z = x
    · exact hzx ▸ hx
    by_cases hzy : z = y
    · exact hzy ▸ hy
    exact absurd (Equiv.swap_apply_of_ne_of_ne hzx hzy) hz

theorem Fixes.swap {path : String} (hx : x ∉ dottedParts path) (hy : y ∉ dottedParts path) :
    Fixes (Equiv.swap x y) path := by
  intro z hz
  have hzx : z ≠ x := fun h => hx (h ▸ hz)
  have hzy : z ≠ y := fun h => hy (h ▸ hz)
  exact Equiv.swap_apply_of_ne_of_ne hzx hzy

theorem LocalName.fixedBy_swap (hx : LocalName t x) (hy : LocalName t y)
    (hthis : (Catalog.ofTree t).enums.get? "this" = none) :
    (Catalog.ofTree t).FixedBy (Equiv.swap x y) :=
  .of_keys (fun key hkey => .swap (hx.unknown key hkey) (hy.unknown key hkey)) hthis

theorem LocalName.compared_swap (hx : LocalName t x) (hfresh : y ∉ t.names) :
    ∀ p ∈ t.compared, Equiv.swap x y p.1 = p.2 ↔ p.1 = p.2 := by
  rintro ⟨n, k⟩ hp
  obtain ⟨hn, hk⟩ := t.mem_names_of_compared hp
  dsimp only at hn hk ⊢
  have hny : n ≠ y := fun h => hfresh (h ▸ hn)
  by_cases hnx : n = x
  · subst hnx
    have hky : y ≠ k := fun h => hfresh (h ▸ hk)
    have hkx : n ≠ k := fun h => hx.uncompared (h ▸ hp)
    rw [Equiv.swap_apply_left]
    exact iff_of_false hky hkx
  · rw [Equiv.swap_apply_of_ne_of_ne hnx hny]

/-- A call that is come to is met alike under another name for `x`. -/
theorem Visits.ready_swap {kept : String → Bool} {c : Point}
    (hc : Visits t declarations settings c) (hx : LocalName t x) (hy : LocalName t y)
    (hfresh : y ∉ t.names) (hthis : (Catalog.ofTree t).enums.get? "this" = none)
    (heffect : c.receiver? ≠ some x)
    (hunwritten : ∀ id, kept id = true → ¬WrittenWith t declarations settings x id) :
    Point.Renamed.Ready (Equiv.swap x y) kept (.ofTree t declarations settings) c := by
  intro call hcall
  -- A name that is as new as `y` may stand for it, so the call has neither.
  obtain ⟨z, hz, hfresh', hzy⟩ := exists_localName t y
  have hf : Renaming (Equiv.swap y z) := .swap hy.toOrdinary hz.toOrdinary
  have hfixed := hc.call_fixed hf (hy.fixedBy_swap hz hthis)
    (fun n hn => Equiv.swap_apply_of_ne_of_ne (fun h => hfresh (h ▸ hn))
      fun h => hfresh' (h ▸ hn)) hcall
  have hne : ∀ {n}, Equiv.swap y z n = n → n ≠ y := by
    rintro _ h rfl
    exact hzy (by simpa using h)
  constructor
  case effect =>
    intro hshape l hl
    have hreceiver : c.receiver? = some l := by
      rw [Point.receiver?, hcall, Option.bind_some, if_pos hshape, hl]
    have hlx : l ≠ x := fun h => heffect (h ▸ hreceiver)
    have htarget := congrArg (fun call => call.target.name?) hfixed
    have hly : l ≠ y := hne (by simpa [Call.mapNames, hf.name?, Renaming.unmoved.name?, hl]
      using htarget)
    exact Equiv.swap_apply_of_ne_of_ne hlx hly
  case lookup =>
    intro hshape htarget e he hkept hidentifier
    have hlookup : c.lookup? (.ofTree t declarations settings) =
        some ((c.walk.identifierOf (Catalog.ofTree t) (some e)).1, e) := by
      rw [Point.lookup?, hcall, Option.bind_some, if_pos ⟨hshape, htarget⟩, he, Option.map_some]
      exact Option.filter_some_pos (decide_eq_true hidentifier)
    refine (Renaming.swap hx.toOrdinary hy.toOrdinary).dotted?_of_root? e fun n hn => ?_
    have hnx : n ≠ x := fun h => hunwritten _ hkept ⟨c, e, hc, hlookup, h ▸ hn⟩
    have hroot := congrArg (fun call => call.args.head?.bind Syntax.Expr.root?) hfixed
    have hny : n ≠ y := hne (by simpa [Call.mapNames, he, hf.root?, Renaming.unmoved.root?, hn]
      using hroot)
    exact Equiv.swap_apply_of_ne_of_ne hnx hny

/-- A local that receives no module may have any other name. The modules stay as they are but
for the texts that identifiers were written as. The text of an identifier stays too, unless
the identifier is looked up by a path that starts with the local. -/
theorem extractModules_rename (hx : LocalName t x) (hy : LocalName t y) (hfresh : y ∉ t.names)
    (hthis : (Catalog.ofTree t).enums.get? "this" = none)
    (heffect : ∀ c, Visits t declarations settings c → c.receiver? ≠ some x) :
    (∀ kept : String → Bool,
      (∀ id, kept id = true → ¬WrittenWith t declarations settings x id) →
      (extractModules (t.rename x y) declarations settings).result.map
          (List.map (Module.view kept)) =
        (extractModules t declarations settings).result.map (List.map (Module.view kept))) ∧
    ((∀ id, ¬WrittenWith t declarations settings x id) →
      (extractModules (t.rename x y) declarations settings).result =
        (extractModules t declarations settings).result) := by
  have hf : Renaming (Equiv.swap x y) := .swap hx.toOrdinary hy.toOrdinary
  have hmodules : ∀ kept : String → Bool,
      (∀ id, kept id = true → ¬WrittenWith t declarations settings x id) →
      (extractModules (t.rename x y) declarations settings).result.map
          (List.map (Module.view kept)) =
        (extractModules t declarations settings).result.map (List.map (Module.view kept)) := by
    intro kept hunwritten
    rw [Syntax.SourceTree.rename_eq_swap hfresh]
    exact extractModules_mapNames hf (hx.fixedBy_swap hy hthis) (hx.compared_swap hfresh) kept
      fun c hc => hc.ready_swap hx hy hfresh hthis (heffect c hc) hunwritten
  refine ⟨hmodules, ?_⟩
  intro hnone
  have hall := hmodules (fun _ => true) fun id _ => hnone id
  rwa [Module.view_of_forall fun _ => rfl, List.map_id_fun, Except.map_id] at hall

end

/-! ### A local that a constant is reached through -/

def Point.next? (s : Setting) (c : Point) : Option Point :=
  match c.tasks with
  | [] => none
  | task :: rest => (perform s { c with tasks := rest } task).result.toOption

/-- Whether all points from `c` on have a property, if there are fewer than `n` of them. -/
def Point.always (s : Setting) (p : Point → Bool) : Nat → Point → Bool
  | 0, _ => false
  | n + 1, c => p c && (c.next? s).all (Point.always s p n)

theorem Point.Step.next? {s : Setting} {c c' : Point} (h : Step s c c') : c.next? s = some c' := by
  obtain ⟨task, rest, htasks, hperform⟩ := h
  rw [Point.next?, htasks]
  dsimp only
  rw [hperform]
  rfl

theorem Point.Reaches.of_always {s : Setting} {p : Point → Bool} {n : Nat} {c d : Point}
    (h : Point.always s p n c = true) (hd : Reaches s c d) : p d = true := by
  induction n generalizing c with
  | zero => cases h
  | succ n ih =>
    rw [Point.always, Bool.and_eq_true] at h
    rcases Relation.ReflTransGen.cases_head hd with rfl | ⟨c', hstep, hrest⟩
    · exact h.1
    · have hnext := h.2
      rw [hstep.next?] at hnext
      exact ih hnext hrest

theorem Visits.of_always {p : Point → Bool} (n : Nat) {c : Point}
    (h : ((Catalog.ofTree t).routine? settings.entryPoint).all (fun entry =>
      Point.always (.ofTree t declarations settings) p n
        (.start (.ofTree t declarations settings) entry)) = true)
    (hc : Visits t declarations settings c) : p c = true := by
  obtain ⟨entry, hentry, hreaches⟩ := hc
  rw [hentry] at h
  exact hreaches.of_always h

/-- An identifier is a constant that is reached through a local:

    class Panel {
      class Names { const string Glow = "_Glow"; }
      void OnGUI() {
        var style = Style();
        var glow = FindProperty(style.Names.Glow);
        var rim = FindProperty("_Rim");
        MakeEffect("A");
        Slider(glow);
        Slider(rim);
      }
    }
-/
def styledSource : SourceTree :=
  let constant : Expr :=
    .member default (.member default (.name default "style") "Names") "Glow"
  { mark := default
    body :=
      [.classDecl default [] "Panel"
        [.classDecl default [] "Names"
          [.field default [] ["const"] "string" "Glow" (some (.string default "_Glow"))],
        .method default [] "void" "OnGUI" []
          (.block default
            [.localDecl default "var" "style" (some (Expr.calling "Style" [])),
            .localDecl default "var" "glow" (some (Expr.calling "FindProperty" [constant])),
            .localDecl default "var" "rim" (some (Expr.calling "FindProperty" [.string default "_Rim"])),
            .expr (Expr.calling "MakeEffect" [.string default "A"]),
            .expr (Expr.calling "Slider" [.name default "glow"]),
            .expr (Expr.calling "Slider" [.name default "rim"])])]] }

private theorem localName_of_all {z : String}
    (hplain : '.' ∉ z.toList ∧ CallShape.ofMethod z = .unrecognized ∧
      z ∉ ["TrTextContent", "TrTempContent", "TempContent", "this", "indentLevel"])
    (hunknown : ((Catalog.ofTree t).keys.all fun key => !(dottedParts key).contains z) = true)
    (huncompared : (z, z) ∉ t.compared) : LocalName t z where
  plain := hplain.1
  unrecognized := hplain.2.1
  unreserved := hplain.2.2
  unknown key hkey hz := by simpa [hz] using List.all_eq_true.1 hunknown key hkey
  uncompared := huncompared

private theorem styledSource_renamable :
    LocalName styledSource "style" ∧ LocalName styledSource "look" ∧
      "look" ∉ styledSource.names ∧ (Catalog.ofTree styledSource).enums.get? "this" = none ∧
      ∀ c, Visits styledSource {} {} c → c.receiver? ≠ some "style" := by
  refine ⟨localName_of_all (by decide) (by decide +kernel) (by decide),
    localName_of_all (by decide) (by decide +kernel) (by decide), by decide, rfl, ?_⟩
  intro c hc
  have h : (c.receiver? != some "style") = true :=
    hc.of_always (p := fun c => c.receiver? != some "style") 40 (by decide +kernel)
  simpa using h

/-- The text of the other identifier stays as it is. -/
theorem extractModules_rename_styled :
    LocalName styledSource "style" ∧ LocalName styledSource "look" ∧
      "look" ∉ styledSource.names ∧ (Catalog.ofTree styledSource).enums.get? "this" = none ∧
      (∀ c, Visits styledSource {} {} c → c.receiver? ≠ some "style") ∧
      ¬WrittenWith styledSource {} {} "style" "_Rim" ∧
      (extractModules (styledSource.rename "style" "look") {} {}).result.map
          (List.map (Module.view (· == "_Rim"))) =
        (extractModules styledSource {} {}).result.map
          (List.map (Module.view (· == "_Rim"))) := by
  obtain ⟨hx, hy, hfresh, hthis, heffect⟩ := styledSource_renamable
  have hrim : ¬WrittenWith styledSource {} {} "style" "_Rim" := by
    rintro ⟨c, e, hc, hlookup, hroot⟩
    have h := hc.of_always
      (p := fun c => (c.lookup? (.ofTree styledSource {} {})).all fun found =>
        found.1 != "_Rim" || found.2.root? != some "style") 40 (by decide +kernel)
    simp [hlookup, hroot] at h
  refine ⟨hx, hy, hfresh, hthis, heffect, hrim, ?_⟩
  apply (extractModules_rename hx hy hfresh hthis heffect).1
  intro id hid
  rw [beq_iff_eq] at hid
  rwa [hid]

/-- A local that never holds a text is part of the text that an identifier was written as. -/
theorem extractModules_rename_changes_text :
    LocalName styledSource "style" ∧ LocalName styledSource "look" ∧
      "look" ∉ styledSource.names ∧ (Catalog.ofTree styledSource).enums.get? "this" = none ∧
      (∀ c, Visits styledSource {} {} c →
        c.receiver? ≠ some "style" ∧ c.walk.strings.get? "style" = none) ∧
      (extractModules (styledSource.rename "style" "look") {} {}).result ≠
        (extractModules styledSource {} {}).result := by
  obtain ⟨hx, hy, hfresh, hthis, heffect⟩ := styledSource_renamable
  refine ⟨hx, hy, hfresh, hthis, ?_, ?_⟩
  · intro c hc
    have h := hc.of_always (p := fun c => !c.walk.strings.contains "style") 40 (by decide +kernel)
    exact ⟨heffect c hc, by simpa [Dict.contains] using h⟩
  · intro hsame
    have hlook : (extractModules (styledSource.rename "style" "look") {} {}).result.toOption.map
        (·.map (·.properties.map (·.rawIdentifier))) =
          some [["look.Names.Glow", "\"_Rim\""]] := by decide +kernel
    rw [hsame] at hlook
    revert hlook
    decide +kernel

end PanelSchema
