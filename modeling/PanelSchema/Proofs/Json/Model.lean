import PanelSchema.Declaration.Json
import PanelSchema.Proofs.Catalog
import PanelSchema.Proofs.Json.Records

/-!
Modules and declarations are read back from what they were written as. All that was left out is
filled in again. Besides floats whose text gives another float, only one thing comes back
changed: a default that is a vector of four numbers looks like a color, and is taken for one.
-/

namespace PanelSchema

open Decoder (Restores)
open Json (IsWritten rereadFloat)

/-! ### Scalars -/

theorem isWord_of_isInt {n : Int} (h : IsInt n) : Json.IsWord n :=
  ⟨h.1, h.2.trans (by decide)⟩

theorem Decoder.restores_int {n : Int} (hn : IsInt n) (depth : Nat) :
    Restores .int depth (.int n) n :=
  ⟨isWord_of_isInt hn, if_pos hn.2⟩

theorem map_eq_self_iff {α : Type} {f : α → α} {xs : List α} :
    xs.map f = xs ↔ ∀ a ∈ xs, f a = a := by
  have h := List.map_inj_left (f := f) (g := id) (l := xs)
  rwa [List.map_id] at h

namespace RuleValue

/-- The numbers of a value are among those that a text holds. -/
def Fits : RuleValue → Prop
  | .int n => IsInt n
  | .float x => IsWritten x
  | _ => True

def floats : RuleValue → List Float
  | .float x => [x]
  | _ => []

/-- What is read back of a value. -/
def reread : RuleValue → RuleValue
  | .float x => .float (rereadFloat x)
  | v => v

theorem restores_toJson {v : RuleValue} (hv : v.Fits) (depth : Nat) :
    Restores decode depth v.toJson v.reread := by
  constructor
  · cases v with
    | int n => exact isWord_of_isInt hv
    | float x => exact hv
    | _ => trivial
  · unfold decode
    rw [Decoder.sound_asRead]
    cases v with
    | int n => exact congrArg Except.ok (if_pos hv.2)
    | _ => rfl

theorem reread_eq_self_iff {v : RuleValue} :
    v.reread = v ↔ ∀ x ∈ v.floats, rereadFloat x = x := by
  cases v <;> simp [reread, floats]

end RuleValue

namespace PropertyDefault

def Fits : PropertyDefault → Prop
  | .int n => IsInt n
  | .float x => IsWritten x
  | .color r g b a => IsWritten r ∧ IsWritten g ∧ IsWritten b ∧ IsWritten a
  | .vector xs => ∀ x ∈ xs, IsWritten x

def floats : PropertyDefault → List Float
  | .int _ => []
  | .float x => [x]
  | .color r g b a => [r, g, b, a]
  | .vector xs => xs

/-- What is read back of a default. Four numbers are a color, whatever they were before. -/
def reread : PropertyDefault → PropertyDefault
  | .int n => .int n
  | .float x => .float (rereadFloat x)
  | .color r g b a => .color (rereadFloat r) (rereadFloat g) (rereadFloat b) (rereadFloat a)
  | .vector xs => ofNumbers (xs.map rereadFloat)

theorem restores_toJson {d : PropertyDefault} (hd : d.Fits) {depth : Nat} (hdepth : 1 < depth) :
    Restores decode depth d.toJson d.reread := by
  cases d with
  | int n =>
    refine ⟨isWord_of_isInt hd, ?_⟩
    rw [decode, Decoder.sound_asRead]
    exact congrArg Except.ok (if_pos hd.2)
  | float x => exact ⟨hd, rfl⟩
  | color r g b a => exact ⟨⟨hdepth, hd.1, hd.2.1, hd.2.2.1, hd.2.2.2, trivial⟩, rfl⟩
  | vector xs =>
    have hitems : ∀ x ∈ xs, Restores Decoder.float (depth - 1) (.float x) (Json.rereadFloat x) :=
      fun x hx => Decoder.restores_float (hd x hx)
    obtain ⟨hreadable, htaken⟩ := Decoder.restores_items hitems
    refine ⟨⟨hdepth, hreadable⟩, ?_⟩
    rw [decode, Decoder.sound_asRead, toJson, Json.asRead]
    dsimp only [bind, Except.bind]
    rw [htaken]
    rfl

theorem toJson_not_null (d : PropertyDefault) : d.toJson.asRead ≠ .null := by
  cases d <;> nofun

theorem ofNumbers_eq_vector_iff {xs ys : List Float} :
    ofNumbers xs = .vector ys ↔ xs = ys ∧ xs.length ≠ 4 := by
  unfold ofNumbers
  split
  · simp
  · rename_i hfour
    have hlength : xs.length ≠ 4 := by
      intro hlength
      rcases xs with _ | ⟨r, _ | ⟨g, _ | ⟨b, _ | ⟨a, _ | ⟨x, xs⟩⟩⟩⟩⟩
      case cons.cons.cons.cons.nil => exact hfour r g b a rfl
      all_goals simp at hlength
    simp [hlength]

theorem reread_eq_self_iff {d : PropertyDefault} :
    d.reread = d ↔
      (∀ x ∈ d.floats, rereadFloat x = x) ∧ ∀ xs, d = .vector xs → xs.length ≠ 4 := by
  cases d with
  | vector xs => simp [reread, floats, ofNumbers_eq_vector_iff, map_eq_self_iff]
  | _ => simp [reread, floats]

theorem map_reread_eq_self_iff {o : Option PropertyDefault} :
    o.map (·.reread) = o ↔ (∀ x ∈ o.toList.flatMap (·.floats), rereadFloat x = x) ∧
      ∀ xs, o = some (.vector xs) → xs.length ≠ 4 := by
  cases o <;> simp [reread_eq_self_iff]

end PropertyDefault

/-! ### Records -/

theorem PropertyType.restores_toJson (t : PropertyType) (depth : Nat) :
    Restores decode depth t.toJson t :=
  ⟨trivial, by cases t <;> rfl⟩

namespace ValueRange

def Fits (r : ValueRange) : Prop :=
  IsWritten r.min ∧ IsWritten r.max

def floats (r : ValueRange) : List Float :=
  [r.min, r.max]

def reread (r : ValueRange) : ValueRange :=
  { min := rereadFloat r.min, max := rereadFloat r.max }

theorem restores_toJson {r : ValueRange} (hr : r.Fits) {depth : Nat} (hdepth : 1 < depth) :
    Restores decode depth r.toJson r.reread := by
  refine .record ?_ hdepth (by decide)
  exact .field (Decoder.restores_float hr.1) (.field (Decoder.restores_float hr.2) .nil)

theorem map_reread_eq_self_iff {o : Option ValueRange} :
    o.map (·.reread) = o ↔ ∀ x ∈ o.toList.flatMap (·.floats), rereadFloat x = x := by
  have hself : ∀ r : ValueRange, r.reread = r ↔ ∀ x ∈ r.floats, rereadFloat x = x := by
    rintro ⟨min, max⟩
    simp [reread, floats]
  cases o <;> simp [hself]

end ValueRange

namespace Condition

def Fits (c : Condition) : Prop :=
  ∀ v ∈ c.values, v.Fits

def floats (c : Condition) : List Float :=
  c.values.flatMap (·.floats)

def reread (c : Condition) : Condition :=
  { c with values := c.values.map (·.reread) }

theorem restores_toJson {c : Condition} (hc : c.Fits) {depth : Nat} (hdepth : 2 < depth) :
    Restores decode depth c.toJson c.reread := by
  refine .record (.field ?_ (.field ?_ .nil)) (by omega) (by decide)
  · exact Decoder.restores_same (by omega) fun s _ => Decoder.restores_string s
  · exact Decoder.restores_list (by omega) fun v hv => RuleValue.restores_toJson (hc v hv) _

theorem reread_eq_self_iff {c : Condition} :
    c.reread = c ↔ ∀ x ∈ c.floats, rereadFloat x = x := by
  have hfield : c.reread = c ↔ c.values.map (·.reread) = c.values :=
    ⟨congrArg Condition.values, fun h => by rw [reread, h]⟩
  rw [hfield, map_eq_self_iff]
  simp only [RuleValue.reread_eq_self_iff, floats, List.forall_mem_flatMap]

end Condition

namespace Property

structure Fits (p : Property) : Prop where
  range : ∀ r ∈ p.range, r.Fits
  default : ∀ d ∈ p.default, d.Fits
  conditions : ∀ c ∈ p.conditions, c.Fits

def floats (p : Property) : List Float :=
  p.range.toList.flatMap (·.floats) ++ p.default.toList.flatMap (·.floats)
    ++ p.conditions.flatMap (·.floats)

/-- What is read back of a property. -/
def reread (p : Property) : Property :=
  { p with
    range := p.range.map (·.reread)
    default := p.default.map (·.reread)
    conditions := p.conditions.map (·.reread) }

theorem restores_toJson {p : Property} (hp : p.Fits) {depth : Nat} (hdepth : 4 < depth) :
    Restores decode depth p.toJson p.reread := by
  have hraw : ∀ {fields entries} {s s' : Property}, s.rawIdentifier = "" →
      Decoder.Fills (depth - 1) fields entries { s with rawIdentifier := p.rawIdentifier } s' →
        Decoder.Fills (depth - 1)
          (Decoder.optional "raw_identifier" .string (fun x p => { p with rawIdentifier := x })
            :: fields)
          ((if p.rawIdentifier.isEmpty then []
            else [("raw_identifier", Json.str p.rawIdentifier)]) ++ entries) s s' := by
    intro fields entries s s' hs rest
    split
    · rename_i hempty
      rw [String.isEmpty_iff.1 hempty, ← hs] at rest
      exact .absent rfl rest
    · exact .given (Decoder.restores_string _) rest
  have hlist : 1 < depth - 1 := by omega
  unfold toJson
  rw [← List.append_nil (_ ++ Json.listField "conditions" Condition.toJson p.conditions)]
  simp only [List.append_assoc, List.cons_append, List.nil_append]
  refine .record ?_ (by omega) (by decide)
  refine .field (Decoder.restores_string _) (hraw rfl (.field (Decoder.restores_string _) ?_))
  refine .text? rfl (.given (PropertyType.restores_toJson _ _) ?_)
  refine .opt nofun (fun r hr => ValueRange.restores_toJson (hp.range r hr) hlist) rfl rfl ?_
  refine .opt PropertyDefault.toJson_not_null
    (fun d hd => PropertyDefault.restores_toJson (hp.default d hd) hlist) rfl rfl ?_
  refine .text? rfl (.texts hlist rfl (.flag rfl (.flag rfl (.texts hlist rfl ?_))))
  refine .list (Decoder.restores_list hlist fun c hc => ?_) rfl .nil
  exact Condition.restores_toJson (hp.conditions c hc) (by omega)

theorem reread_eq_self_iff {p : Property} :
    p.reread = p ↔ (∀ x ∈ p.floats, rereadFloat x = x) ∧
      ∀ xs, p.default = some (.vector xs) → xs.length ≠ 4 := by
  have hfields : p.reread = p ↔ p.range.map (·.reread) = p.range ∧
      p.default.map (·.reread) = p.default ∧ p.conditions.map (·.reread) = p.conditions := by
    constructor
    · intro h
      exact ⟨congrArg Property.range h, congrArg Property.default h,
        congrArg Property.conditions h⟩
    · rintro ⟨hrange, hdefault, hconditions⟩
      rw [reread, hrange, hdefault, hconditions]
  rw [hfields, ValueRange.map_reread_eq_self_iff, PropertyDefault.map_reread_eq_self_iff,
    map_eq_self_iff, floats, List.forall_mem_append, List.forall_mem_append,
    List.forall_mem_flatMap (l := p.conditions)]
  simp only [Condition.reread_eq_self_iff]
  tauto

end Property

namespace Section

structure Fits (s : Section) : Prop where
  depth : s.depth ≤ Json.greatestSignificand
  order : IsInt s.order
  properties : ∀ i ∈ s.properties, i ≤ Json.greatestSignificand

theorem restores_toJson {s : Section} (hs : s.Fits) {depth : Nat} (hdepth : 2 < depth) :
    Restores decode depth s.toJson s := by
  have hnat : ∀ {n depth : Nat}, n ≤ Json.greatestSignificand →
      Restores .nat depth (.int n) n := by
    intro n depth hn
    refine ⟨⟨(by decide : leastInt ≤ 0).trans (Int.natCast_nonneg n), Int.ofNat_le.2 hn⟩, rfl⟩
  unfold toJson
  simp only [List.cons_append, List.nil_append]
  refine .record ?_ (by omega) (by decide)
  refine .field (Decoder.restores_string _) (.field (Decoder.restores_string _) (.text? rfl ?_))
  refine .given (Decoder.restores_bool _) (.field (hnat hs.depth) ?_)
  refine .field (Decoder.restores_int hs.order _) (.given ?_ .nil)
  exact Decoder.restores_same (by omega) fun i hi => hnat (hs.properties i hi)

end Section

namespace Module

structure Fits (m : Module) : Prop where
  sections : ∀ s ∈ m.sections, s.Fits
  properties : ∀ p ∈ m.properties, p.Fits

/-- What is read back of a module. -/
def reread (m : Module) : Module :=
  { m with properties := m.properties.map (·.reread) }

theorem restores_toJson {m : Module} (hm : m.Fits) {depth : Nat} (hdepth : 6 < depth) :
    Restores decode depth m.toJson m.reread := by
  unfold toJson
  simp only [List.append_assoc, List.cons_append, List.nil_append]
  refine .record ?_ (by omega) (by decide)
  refine .field (Decoder.restores_string _) (.text? rfl (.text? rfl (.field ?_ (.field ?_ .nil))))
  · exact Decoder.restores_same (by omega) fun s hs =>
      Section.restores_toJson (hm.sections s hs) (by omega)
  · exact Decoder.restores_list (by omega) fun p hp =>
      Property.restores_toJson (hm.properties p hp) (by omega)

theorem reread_eq_self_iff {m : Module} :
    m.reread = m ↔ ∀ p ∈ m.properties, (∀ x ∈ p.floats, rereadFloat x = x) ∧
      ∀ xs, p.default = some (.vector xs) → xs.length ≠ 4 := by
  have hfield : m.reread = m ↔ m.properties.map (·.reread) = m.properties :=
    ⟨congrArg Module.properties, fun h => by rw [reread, h]⟩
  rw [hfield, map_eq_self_iff]
  exact forall₂_congr fun p _ => Property.reread_eq_self_iff

end Module

/-! ### Declarations -/

namespace Declaration

structure Fits (d : Declaration) : Prop where
  range : ∀ r ∈ d.range, r.Fits
  default : ∀ a ∈ d.default, a.Fits
  enumNumbers : ∀ n ∈ d.enumNumbers, IsInt n

def floats (d : Declaration) : List Float :=
  d.range.toList.flatMap (·.floats) ++ d.default.toList.flatMap (·.floats)

/-- What is read back of a declaration. -/
def reread (d : Declaration) : Declaration :=
  { d with range := d.range.map (·.reread), default := d.default.map (·.reread) }

theorem restores_toJson {d : Declaration} (hd : d.Fits) {depth : Nat} (hdepth : 2 < depth) :
    Restores decode depth d.toJson d.reread := by
  have hlist : 1 < depth - 1 := by omega
  unfold toJson
  rw [← List.append_nil (_ ++ Json.flagField "toggle" d.toggle)]
  simp only [List.append_assoc, List.cons_append, List.nil_append]
  refine .record ?_ (by omega) (by decide)
  refine .field (Decoder.restores_string _) (.text? rfl ?_)
  refine .given (PropertyType.restores_toJson _ _) ?_
  refine .opt nofun (fun r hr => ValueRange.restores_toJson (hd.range r hr) hlist) rfl rfl ?_
  refine .opt PropertyDefault.toJson_not_null
    (fun a ha => PropertyDefault.restores_toJson (hd.default a ha) hlist) rfl rfl ?_
  refine .text? rfl (.texts hlist rfl ?_)
  refine .list (Decoder.restores_same hlist fun n hn => ?_) rfl (.flag rfl .nil)
  exact Decoder.restores_int (hd.enumNumbers n hn) _

theorem reread_eq_self_iff {d : Declaration} :
    d.reread = d ↔ (∀ x ∈ d.floats, rereadFloat x = x) ∧
      ∀ xs, d.default = some (.vector xs) → xs.length ≠ 4 := by
  have hfields : d.reread = d ↔ d.range.map (·.reread) = d.range ∧
      d.default.map (·.reread) = d.default := by
    constructor
    · intro h
      exact ⟨congrArg Declaration.range h, congrArg Declaration.default h⟩
    · rintro ⟨hrange, hdefault⟩
      rw [reread, hrange, hdefault]
  rw [hfields, ValueRange.map_reread_eq_self_iff, PropertyDefault.map_reread_eq_self_iff, floats,
    List.forall_mem_append, and_assoc]

end Declaration

namespace DeclarationTable

/-- A table has one entry for a key, and what it holds fits. -/
structure Fits (t : DeclarationTable) : Prop where
  keys : (t.entries.map (·.1)).Nodup
  declarations : ∀ e ∈ t.entries, e.2.Fits

/-- What is read back of a table, by increasing key. -/
def reread (t : DeclarationTable) : DeclarationTable :=
  ⟨t.sorted.map fun e => (e.1, e.2.reread)⟩

theorem mem_sorted {t : DeclarationTable} {e : String × Declaration} :
    e ∈ t.sorted ↔ e ∈ t.entries :=
  List.mem_mergeSort

theorem restores_toJson {t : DeclarationTable} (ht : t.Fits) {depth : Nat} (hdepth : 3 < depth) :
    Restores (.dict Declaration.decode) depth t.toJson t.reread := by
  have hkeys : (t.sorted.map (·.1)).Nodup :=
    ((List.mergeSort_perm t.entries _).map _).nodup_iff.2 ht.keys
  refine Decoder.restores_dict (by omega) (fun e he => ?_) hkeys
  exact Declaration.restores_toJson (ht.declarations e (mem_sorted.1 he)) (by omega)

theorem sorted_reread (t : DeclarationTable) :
    t.reread.sorted = t.sorted.map fun e => (e.1, e.2.reread) := by
  have hsorted : t.sorted.Pairwise fun a b => decide (a.1 ≤ b.1) = true := by
    apply List.pairwise_mergeSort
    · intro a b c hab hbc
      simp only [decide_eq_true_eq] at hab hbc ⊢
      exact String.le_trans hab hbc
    · intro a b
      simp only [Bool.or_eq_true, decide_eq_true_eq]
      exact String.le_total a.1 b.1
  exact List.mergeSort_of_pairwise (List.pairwise_map.2 hsorted)

theorem sorted_reread_eq_iff (t : DeclarationTable) :
    t.reread.sorted = t.sorted ↔ ∀ e ∈ t.entries, (∀ x ∈ e.2.floats, rereadFloat x = x) ∧
      ∀ xs, e.2.default = some (.vector xs) → xs.length ≠ 4 := by
  rw [sorted_reread, map_eq_self_iff]
  refine forall_congr' fun e => ?_
  rw [mem_sorted, Prod.mk.injEq, Declaration.reread_eq_self_iff]
  simp

end DeclarationTable

/-! ### Texts -/

theorem readModules_pretty {ms : List Module} (hms : ∀ m ∈ ms, m.Fits) :
    readModules (modulesJson ms).pretty = .ok (ms.map (·.reread)) :=
  (Decoder.restores_list (by decide) fun m hm =>
    Module.restores_toJson (hms m hm) (by decide)).ofText_pretty

theorem readDeclarations_pretty {t : DeclarationTable} (ht : t.Fits) :
    readDeclarations t.toJson.pretty = .ok t.reread :=
  (DeclarationTable.restores_toJson ht (by decide)).ofText_pretty

/-- Modules and tables are read back from their texts with each float as its text gives it, and
with a color for each default that is a vector of four numbers. So they are the same if and
only if every float is what its text gives and there is no such default. -/
theorem read_written (ms : List Module) (t : DeclarationTable) (hms : ∀ m ∈ ms, m.Fits)
    (ht : t.Fits) :
    readModules (modulesJson ms).pretty = .ok (ms.map (·.reread)) ∧
      (ms.map (·.reread) = ms ↔ ∀ m ∈ ms, ∀ p ∈ m.properties,
        (∀ x ∈ p.floats, rereadFloat x = x) ∧
          ∀ xs, p.default = some (.vector xs) → xs.length ≠ 4) ∧
      readDeclarations t.toJson.pretty = .ok t.reread ∧
      (t.reread.sorted = t.sorted ↔ ∀ e ∈ t.entries,
        (∀ x ∈ e.2.floats, rereadFloat x = x) ∧
          ∀ xs, e.2.default = some (.vector xs) → xs.length ≠ 4) := by
  refine ⟨readModules_pretty hms, ?_, readDeclarations_pretty ht, t.sorted_reread_eq_iff⟩
  rw [map_eq_self_iff]
  exact forall₂_congr fun m _ => Module.reread_eq_self_iff

/-- A module with one property of a given default. -/
def tintModule (d : PropertyDefault) : Module :=
  { name := "Glow"
    keyword := some "_GLOW"
    sections :=
      [{ name := "Glow", label := "Glow", isRoot := true, depth := 0, order := 0
         properties := [0] }]
    properties :=
      [{ identifier := "_Tint", name := "Tint", type := .color, range := some ⟨0.0, 1.0⟩
         default := some d, hints := ["a \"tint\""], conditions := [.single "_Mode" (.int 2)] }] }

def tintTable (d : PropertyDefault) : DeclarationTable :=
  ⟨[("_Tint", { identifier := "_Tint", default := some d, enumNumbers := [-1] })]⟩

theorem isWritten_zero : IsWritten 0.0 := rfl

theorem isWritten_one : IsWritten 1.0 := rfl

theorem fits_tintModule {d : PropertyDefault} (hd : d.Fits) : (tintModule d).Fits where
  sections := by
    intro s hs
    cases List.mem_singleton.1 hs
    exact ⟨by decide, by decide, by decide⟩
  properties := by
    intro p hp
    cases List.mem_singleton.1 hp
    refine ⟨?_, ?_, ?_⟩
    · rintro r hr
      cases hr
      exact ⟨isWritten_zero, isWritten_one⟩
    · rintro a ha
      cases ha
      exact hd
    · intro c hc
      cases List.mem_singleton.1 hc
      intro v hv
      cases List.mem_singleton.1 hv
      exact (by decide : IsInt 2)

theorem fits_tintTable {d : PropertyDefault} (hd : d.Fits) : (tintTable d).Fits where
  keys := by simp [tintTable]
  declarations := by
    intro e he
    cases List.mem_singleton.1 he
    refine ⟨nofun, ?_, ?_⟩
    · rintro a ha
      cases ha
      exact hd
    · intro n hn
      cases List.mem_singleton.1 hn
      decide

theorem reread_tintTable (d : PropertyDefault) : (tintTable d).reread = tintTable d.reread := by
  unfold DeclarationTable.reread Dict.sorted tintTable
  rw [List.mergeSort_singleton]
  rfl

/-- Three numbers are read back as they were written. -/
theorem read_written_threeNumbers :
    (tintModule (.vector [0.0, 1.0, 0.0])).Fits ∧ (tintTable (.vector [0.0, 1.0, 0.0])).Fits ∧
      readModules (modulesJson [tintModule (.vector [0.0, 1.0, 0.0])]).pretty =
        .ok [tintModule (.vector [0.0, 1.0, 0.0])] ∧
      readDeclarations (tintTable (.vector [0.0, 1.0, 0.0])).toJson.pretty =
        .ok (tintTable (.vector [0.0, 1.0, 0.0])) := by
  have hd : (PropertyDefault.vector [0.0, 1.0, 0.0]).Fits := by
    intro x hx
    simp only [List.mem_cons, List.not_mem_nil, or_false] at hx
    rcases hx with rfl | rfl | rfl
    · exact isWritten_zero
    · exact isWritten_one
    · exact isWritten_zero
  have hm := fits_tintModule hd
  have ht := fits_tintTable hd
  obtain ⟨hmodules, -, htable, -⟩ := read_written [tintModule (.vector [0.0, 1.0, 0.0])]
    (tintTable (.vector [0.0, 1.0, 0.0])) (fun m hmem => List.mem_singleton.1 hmem ▸ hm) ht
  rw [reread_tintTable] at htable
  exact ⟨hm, ht, hmodules, htable⟩

set_option maxRecDepth 100000 in
theorem isWritten_neighbour : IsWritten 0.9777973164486353 := rfl

set_option maxRecDepth 100000 in
/-- Four numbers are read back as a color, also if each of them is what its text gives; and the
first of these four is not. -/
theorem read_written_fourNumbers :
    readModules (modulesJson [tintModule (.vector [0.0, 0.0, 0.0, 1.0])]).pretty =
        .ok [tintModule (.color 0.0 0.0 0.0 1.0)] ∧
      readModules (modulesJson [tintModule (.vector [0.9777973164486353, 0.0, 0.0, 1.0])]).pretty =
        .ok [tintModule (.color 0.9777973164486352 0.0 0.0 1.0)] ∧
      (0.9777973164486353 : Float).toBits ≠ (0.9777973164486352 : Float).toBits ∧
      ∀ r g b a xs, tintModule (.color r g b a) ≠ tintModule (.vector xs) := by
  have hfits : ∀ x, IsWritten x → (PropertyDefault.vector [x, 0.0, 0.0, 1.0]).Fits := by
    intro x hx y hy
    simp only [List.mem_cons, List.not_mem_nil, or_false] at hy
    rcases hy with rfl | rfl | rfl | rfl
    · exact hx
    · exact isWritten_zero
    · exact isWritten_zero
    · exact isWritten_one
  have hread : ∀ x, IsWritten x →
      readModules (modulesJson [tintModule (.vector [x, 0.0, 0.0, 1.0])]).pretty =
        .ok [tintModule (.color (rereadFloat x) 0.0 0.0 1.0)] := by
    intro x hx
    exact readModules_pretty fun m hm =>
      List.mem_singleton.1 hm ▸ fits_tintModule (hfits x hx)
  refine ⟨hread 0.0 isWritten_zero, hread 0.9777973164486353 isWritten_neighbour, ?_, ?_⟩
  · decide +kernel
  · intro r g b a xs h
    have hdefault := congrArg (fun m : Module => m.properties.map (·.default)) h
    simp [tintModule] at hdefault

end PanelSchema
