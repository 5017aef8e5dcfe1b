import PanelSchema.Project
import PanelSchema.Proofs.Catalog
import PanelSchema.Proofs.Extract
import PanelSchema.Proofs.Walk.Parameters
import PanelSchema.Proofs.Walk.Stack

/-!
What is known about properties while a walk goes on. Labels and numbers come in pairs from
wherever they come, what is known to be a toggle is marked as one, and no hint is empty or
given twice. Declarations that were read from texts bring no other labels and numbers in, and
the properties that are given out keep the mark.
-/

namespace PanelSchema

open Syntax (Expr Stmt Decl SourceTree)

/-! ### Declarations -/

/-- The numbers of a declaration are those of its labels. -/
def Declaration.Paired (d : Declaration) : Prop :=
  d.enumNumbers.length = d.enumLabels.length

namespace Declaration

variable {d : Declaration}

theorem Paired.applyAttribute (h : d.Paired) (name : String) (args : List String) :
    (applyAttribute d name args).Paired := by
  unfold Paired at h ⊢
  unfold Declaration.applyAttribute
  split
  case h_5 => split <;> exact h
  case h_6 =>
    dsimp only
    split
    · exact h
    · split
      · simp [h]
      · exact h
  case h_7 => simp
  all_goals exact h

theorem Paired.withPiece {p : Piece Rule} {d' : Declaration} (h : d.Paired)
    (hp : withPiece? d p = some d') : d'.Paired := by
  unfold withPiece? at hp
  split at hp
  case h_3 =>
    unfold withType? at hp
    split at hp
    · cases hp
    · split at hp
      · split at hp
        · obtain ⟨min, -, hp⟩ := Option.bind_eq_some_iff.1 hp
          obtain ⟨max, -, hp⟩ := Option.bind_eq_some_iff.1 hp
          cases hp
          exact h
        · cases hp
      · cases hp
        exact h
  all_goals
    cases hp
    exact h

theorem Paired.withPieces {ps : List (Piece Rule)} {d' : Declaration} (h : d.Paired)
    (hps : ps.foldlM withPiece? d = some d') : d'.Paired := by
  induction ps generalizing d with
  | nil =>
    cases hps
    exact h
  | cons p ps ih =>
    rw [List.foldlM_cons] at hps
    obtain ⟨d₁, hd₁, hps⟩ := Option.bind_eq_some_iff.1 hps
    exact ih (h.withPiece hd₁) hps

theorem Paired.applyAttributes (h : d.Paired) (attributes : List (String × List String)) :
    (attributes.foldl (fun d a => Declaration.applyAttribute d a.1 a.2) d).Paired := by
  induction attributes generalizing d with
  | nil => exact h
  | cons a attributes ih => exact ih (h.applyAttribute a.1 a.2)

theorem paired_of_ofPieces? {ps : List (Piece Rule)} (h : ofPieces? ps = some d) : d.Paired := by
  unfold ofPieces? at h
  obtain ⟨attributes, -, h⟩ := Option.bind_eq_some_iff.1 h
  obtain ⟨plain, hplain, h⟩ := Option.bind_eq_some_iff.1 h
  have hread : (attributes.foldl (fun d a => Declaration.applyAttribute d a.1 a.2) plain).Paired :=
    (Paired.withPieces (d := {}) rfl hplain).applyAttributes attributes
  dsimp only at h
  split at h
  · cases h
    exact hread
  · split at h
    · cases h
      exact hread
    · obtain ⟨default, -, h⟩ := Option.bind_eq_some_iff.1 h
      cases h
      exact hread

theorem paired_of_ofLine? {line : List Char} (h : ofLine? line = some d) : d.Paired := by
  unfold ofLine? at h
  dsimp only at h
  split at h
  · split at h
    · exact paired_of_ofPieces? h
    · cases h
  · cases h

end Declaration

namespace DeclarationTable

/-- A table that holds what was read from texts, one after the other. -/
inductive Scanned : DeclarationTable → Prop where
  | empty : Scanned {}
  | scan {t : DeclarationTable} (h : Scanned t) (text : String) : Scanned (t.scan text).1

theorem all_paired_foldl_add {t : DeclarationTable} (ht : t.All Declaration.Paired)
    {ds : List Declaration} (hds : ∀ d ∈ ds, d.Paired) :
    (ds.foldl DeclarationTable.add t).All Declaration.Paired := by
  induction ds generalizing t with
  | nil => exact ht
  | cons d ds ih =>
    apply ih (ht.insert d.identifier (hds d List.mem_cons_self))
    exact fun d' hd' => hds d' (List.mem_cons_of_mem d hd')

theorem Scanned.all_paired {t : DeclarationTable} (h : t.Scanned) :
    t.All Declaration.Paired := by
  induction h with
  | empty =>
    intro key value hget
    cases hget
  | scan h text ih =>
    apply all_paired_foldl_add ih
    intro d hd
    obtain ⟨line, -, hline⟩ := List.mem_filterMap.1 hd
    exact Declaration.paired_of_ofLine? hline

end DeclarationTable

namespace Scan

theorem scanned_addFile {fs : Files} {s s' : Scan} (h : s.table.Scanned) {path : String}
    (hfile : (addFile fs s path).result = .ok s') : s'.table.Scanned := by
  unfold addFile at hfile
  split at hfile
  · cases hfile
    exact h
  · cases hfile
    exact h.scan _

theorem scanned_foldlM {fs : Files} {paths : List String} {s s' : Scan} (h : s.table.Scanned)
    (hfiles : (paths.foldlM (addFile fs) s).result = .ok s') : s'.table.Scanned := by
  induction paths generalizing s with
  | nil =>
    cases hfiles
    exact h
  | cons path paths ih =>
    rw [List.foldlM_cons, Traced.result_bind_eq_ok] at hfiles
    obtain ⟨s₁, hfile, hfiles⟩ := hfiles
    exact ih (scanned_addFile h hfile) hfiles

theorem scanned_ofFolder {fs : Files} {folder pattern : String} {s : Scan}
    (h : (ofFolder fs folder pattern).result = .ok s) : s.table.Scanned := by
  unfold ofFolder at h
  obtain ⟨paths, -, h⟩ := Traced.result_bind_eq_ok.1 h
  obtain ⟨found, hfound, h⟩ := Traced.result_bind_eq_ok.1 h
  obtain ⟨-, -, h⟩ := Traced.result_bind_eq_ok.1 h
  cases h
  exact scanned_foldlM .empty hfound

end Scan

/-! ### Drafts -/

/-- What is true of a draft at all times. -/
structure Draft.Consistent (d : Draft) : Prop where
  paired : d.enumNumbers.length = d.enumValues.length
  marked : d.type = .toggle → d.toggle = true
  nodup : d.hints.Nodup
  given : "" ∉ d.hints

def Property.Marked (p : Property) : Prop :=
  p.type = .toggle → p.toggle = true

theorem PropertyType.join_cases (old new : PropertyType) :
    old.join new = old ∨ old.join new = new := by
  unfold PropertyType.join
  split
  · exact .inr rfl
  · exact .inl rfl

theorem marked_join {old new : PropertyType} {a b : Bool} (ha : old = .toggle → a = true)
    (hb : new = .toggle → b = true) (h : old.join new = .toggle) : (a || b) = true := by
  rcases PropertyType.join_cases old new with hold | hnew
  · rw [ha (hold.symm.trans h), Bool.true_or]
  · rw [hb (hnew.symm.trans h), Bool.or_true]

theorem nodup_addHint {hints : List String} (h : hints.Nodup) (text : String) :
    (addHint hints text).Nodup := by
  unfold addHint
  split
  · exact h
  · rename_i hnew
    rw [List.nodup_append]
    refine ⟨h, List.nodup_singleton text, ?_⟩
    intro a ha b hb hab
    rw [List.mem_singleton] at hb
    rw [hab, hb] at ha
    exact hnew (List.contains_iff_mem.2 ha)

theorem mem_addHint {hints : List String} {text a : String} (h : a ∈ addHint hints text) :
    a ∈ hints ∨ a = text := by
  unfold addHint at h
  split at h
  · exact .inl h
  · simpa using h

namespace Draft

variable {d : Draft}

theorem consistent_plain (identifier raw : String) (indented : Bool) :
    ({ identifier, rawIdentifier := raw, indented } : Draft).Consistent :=
  ⟨rfl, by simp, List.nodup_nil, List.not_mem_nil⟩

theorem Consistent.applyType (h : d.Consistent) (type : PropertyType) :
    (d.applyType type).Consistent :=
  ⟨h.paired, marked_join h.marked beq_iff_eq.2, h.nodup, h.given⟩

theorem Consistent.enrich (h : d.Consistent) {m : Declaration} (hm : m.Paired) :
    (d.enrich m).Consistent := by
  have htyped := h.applyType m.type
  refine ⟨?_, ?_, h.nodup, h.given⟩
  · unfold Draft.enrich
    dsimp only
    split
    · exact hm
    · exact h.paired
  · intro htoggle
    have hmark := htyped.marked htoggle
    unfold Draft.enrich
    dsimp only
    rw [hmark, Bool.true_or]

theorem Consistent.hint (h : d.Consistent) (text : String) : (d.hint text).Consistent := by
  refine ⟨h.paired, h.marked, ?_, ?_⟩ <;> unfold Draft.hint addGivenHint <;> dsimp only <;> split
  · exact h.nodup
  · exact nodup_addHint h.nodup text
  · exact h.given
  · rename_i hgiven
    intro hempty
    rcases mem_addHint hempty with hold | hnew
    · exact h.given hold
    · exact hgiven (String.isEmpty_iff.2 hnew.symm)

theorem Consistent.hints (h : d.Consistent) (texts : List String) :
    (texts.foldl Draft.hint d).Consistent := by
  induction texts generalizing d with
  | nil => exact h
  | cons text texts ih => exact ih (h.hint text)

theorem Consistent.of_eq {d' : Draft} (h : d.Consistent) (hnumbers : d'.enumNumbers = d.enumNumbers)
    (hvalues : d'.enumValues = d.enumValues) (htype : d'.type = d.type)
    (htoggle : d'.toggle = d.toggle) (hhints : d'.hints = d.hints) : d'.Consistent := by
  refine ⟨?_, ?_, ?_, ?_⟩
  · rw [hnumbers, hvalues]
    exact h.paired
  · rw [htype, htoggle]
    exact h.marked
  · rw [hhints]
    exact h.nodup
  · rw [hhints]
    exact h.given

theorem Consistent.withEnum (h : d.Consistent) {labels : List String} {numbers : List Int}
    (enumType : Option String) (hpaired : numbers.length = labels.length) :
    ({ d with enumType, enumValues := labels, enumNumbers := numbers } : Draft).Consistent :=
  ⟨hpaired, h.marked, h.nodup, h.given⟩

end Draft

namespace Walk

variable {w : Walk} {s : Setting}

/-- Whatever a drawing call says of its property, popups bring labels and numbers in pairs. -/
theorem consistent_describe {d : Draft} (h : d.Consistent) (method : String) (type : PropertyType)
    (typeArgs : List String) (args rest : List Expr) :
    (w.describe s method type typeArgs args rest d).Consistent := by
  unfold describe
  dsimp only
  generalize htyped : Draft.applyType _ type = typed
  have hconsistent : typed.Consistent := by
    rw [← htyped]
    apply Draft.Consistent.applyType
    split
    · apply Draft.Consistent.hint
      exact h.of_eq rfl rfl rfl rfl rfl
    · exact h
  generalize hranged : (if CallShape.hasRange method = true then _ else typed) = ranged
  replace hconsistent : ranged.Consistent := by
    rw [← hranged]
    split
    · split
      · exact hconsistent.of_eq rfl rfl rfl rfl rfl
      · exact hconsistent
    · exact hconsistent
  split
  · split
    · exact hconsistent.withEnum _ (by simp [EnumDef.labels, EnumDef.values])
    · exact hconsistent
  · split
    · split
      · exact hconsistent.withEnum _ (by simp)
      · exact hconsistent
    · exact hconsistent

/-! ### Walks -/

/-- All that is known of properties is consistent, also what a module yet to start will know. -/
structure Consistent (w : Walk) : Prop where
  drafts : w.drafts.All Draft.Consistent
  preamble : ∀ p, w.preamble = some p → p.drafts.All Draft.Consistent

theorem Consistent.of_eq {w' : Walk} (h : w.Consistent) (hdrafts : w'.drafts = w.drafts)
    (hpreamble : w'.preamble = w.preamble) : w'.Consistent :=
  ⟨hdrafts ▸ h.drafts, hpreamble ▸ h.preamble⟩

theorem Consistent.of_insert {w' : Walk} (h : w.Consistent) {l : String} {d : Draft}
    (hd : d.Consistent) (hdrafts : w'.drafts = w.drafts.insert l d)
    (hpreamble : w'.preamble = w.preamble) : w'.Consistent :=
  ⟨hdrafts ▸ h.drafts.insert l hd, hpreamble ▸ h.preamble⟩

/-- All that a local is known as is consistent. -/
def LocalMeaning.Consistent (m : LocalMeaning) : Prop :=
  ∀ d, m.draft = some d → d.Consistent

theorem Consistent.meaningOf (h : w.Consistent) (name : String) :
    (w.meaningOf name).Consistent :=
  fun _ hd => h.drafts name _ hd

theorem Consistent.argumentMeaning (h : w.Consistent) (c : Catalog) (arg : Expr) :
    (w.argumentMeaning c arg).Consistent := by
  intro d hd
  obtain ⟨l, -, hl⟩ := Option.bind_eq_some_iff.1 hd
  exact h.drafts l d hl

theorem Consistent.setMeaning (h : w.Consistent) {m : LocalMeaning} (hm : m.Consistent)
    (name : String) : (w.setMeaning name m).Consistent := by
  refine ⟨?_, h.preamble⟩
  intro l d hl
  rw [Walk.setMeaning, Dict.get?_set] at hl
  split at hl
  · exact hm d hl
  · exact h.drafts l d hl

theorem Consistent.bindParams (h : w.Consistent) (c : Catalog) (params : List (String × Expr)) :
    (bindParams c params w).1.Consistent ∧
      ∀ p ∈ (bindParams c params w).2, p.2.Consistent := by
  induction params generalizing w with
  | nil => exact ⟨h, by simp [Walk.bindParams]⟩
  | cons p params ih =>
    obtain ⟨hbound, hsaved⟩ := ih (h.setMeaning (h.argumentMeaning c p.2) p.1)
    refine ⟨hbound, ?_⟩
    intro q hq
    rcases List.mem_cons.1 hq with rfl | hq
    · exact h.meaningOf p.1
    · exact hsaved q hq

theorem Consistent.restore (h : w.Consistent) {saved : List (String × LocalMeaning)}
    (hsaved : ∀ p ∈ saved, p.2.Consistent) : (restore saved w).Consistent := by
  induction saved generalizing w with
  | nil => exact h
  | cons p saved ih =>
    apply ih (h.setMeaning (hsaved p List.mem_cons_self) p.1)
    exact fun q hq => hsaved q (List.mem_cons_of_mem p hq)

theorem Consistent.aliasLocal (h : w.Consistent) (source l : String) :
    (w.aliasLocal source l).Consistent := by
  cases hsource : w.drafts.get? source with
  | none => exact h.of_eq (by simp [Walk.aliasLocal, hsource]) rfl
  | some d =>
    exact h.of_insert (l := l) (h.drafts source d hsource)
      (by simp [Walk.aliasLocal, hsource]) rfl

/-! ### Calls -/

theorem Consistent.declareProperty (h : w.Consistent)
    (hs : s.declarations.All Declaration.Paired) (l : String) (source : Option Expr)
    (indented : Bool) : (w.declareProperty s l source indented).Consistent := by
  refine ⟨h.drafts.insert l ?_, h.preamble⟩
  split
  · rename_i m hm
    exact (Draft.consistent_plain _ _ _).enrich (hs _ m hm)
  · exact Draft.consistent_plain _ _ _

theorem Consistent.started (h : w.Consistent) (name : String) (keywords : List String)
    (target : Target) : (w.started s name keywords target).Consistent := by
  have hclosed : w.closed.Consistent := by
    unfold closed
    split
    · exact h
    · exact h.of_eq rfl rfl
  have hentered : (enterPreamble w.closed).Consistent := by
    unfold enterPreamble
    split
    · rename_i p hp
      exact ⟨hclosed.preamble p hp, hclosed.preamble⟩
    · refine ⟨hclosed.drafts, ?_⟩
      rintro p ⟨⟩
      exact hclosed.drafts
  unfold Walk.started
  split <;> exact hentered.of_eq rfl rfl

theorem Consistent.drawing (h : w.Consistent) {method : String} {type : PropertyType}
    {typeArgs : List String} {args : List Expr} {f : Frame} {target : Target} {l : String}
    {d : Draft} (hd : w.drawing? s method type typeArgs args f target = some (l, d)) :
    d.Consistent := by
  obtain ⟨found, -, hd⟩ := Option.bind_eq_some_iff.1 hd
  obtain ⟨known, hknown, hd⟩ := Option.map_eq_some_iff.1 hd
  cases hd
  exact (consistent_describe (h.drafts _ known hknown) _ _ _ _ _).of_eq rfl rfl rfl rfl rfl

theorem Consistent.drawn (h : w.Consistent) (method : String) (type : PropertyType)
    (typeArgs : List String) (args : List Expr) (f : Frame) (target : Target) :
    (w.drawn s method type typeArgs args f target).Consistent := by
  unfold Walk.drawn
  split
  · exact h
  · rename_i l d hd
    refine h.of_insert (l := l) (h.drawing hd) ?_ ?_ <;> unfold shown keptAs boundTo <;> dsimp only
    all_goals
      split
      · split <;> rfl
      · rfl

theorem Consistent.hint (h : w.Consistent) (args : List Expr) : (w.hint s args).Consistent := by
  unfold Walk.hint
  split
  · exact h
  · dsimp only
    split
    · exact h
    · rename_i hd
      exact h.of_insert ((h.drafts _ _ hd).hints _) rfl rfl

theorem Consistent.sectioned (h : w.Consistent) (args : List Expr) (f : Frame)
    (target : Target) : (w.sectioned s args f target).Consistent := by
  unfold Walk.sectioned
  split
  · dsimp only
    split <;> exact h.of_eq rfl rfl
  · exact h

theorem Consistent.shaped (h : w.Consistent) (hs : s.declarations.All Declaration.Paired)
    (shape : CallShape) (method : String) (typeArgs : List String) (args : List Expr) (f : Frame)
    (target : Target) : (w.shaped s shape method typeArgs args f target).2.Consistent := by
  unfold Walk.shaped
  cases shape with
  | propertyLookup =>
    dsimp only
    cases target.name? with
    | none => exact h
    | some l => exact h.declareProperty hs l _ _
  | effect =>
    dsimp only [effected]
    split
    · exact h
    · exact h.started _ _ _
  | subEffect => exact h.sectioned args f target
  | bind type => exact h.drawn method type typeArgs args f target
  | hint => exact h.hint args
  | indent | unindent | unrecognized => exact h

end Walk

/-! ### Properties -/

namespace Roster

def Marked (r : Roster) : Prop :=
  ∀ p ∈ r.properties, p.Marked

variable {r : Roster}

theorem Marked.update (h : r.Marked) (i : Nat) {g : Property → Property}
    (hg : ∀ p, p.Marked → (g p).Marked) : (r.update i g).Marked := by
  intro p hp
  obtain ⟨j, hj, rfl⟩ := List.mem_iff_getElem.1 hp
  have hlt : j < r.properties.length := by simpa [Roster.update] using hj
  have hold := h _ (List.getElem_mem hlt)
  simp only [Roster.update, List.getElem_modify]
  split
  · exact hg _ hold
  · exact hold

theorem Marked.enter (h : r.Marked) {d : Draft} (hd : d.Consistent) : (r.enter d).1.Marked := by
  unfold Roster.enter
  split
  · exact h.update _ fun p hp => marked_join hp hd.marked
  · intro p hp
    rcases List.mem_append.1 hp with hp | hp
    · exact h p hp
    · rw [List.mem_singleton.1 hp]
      exact hd.marked

theorem Marked.showAt (h : r.Marked) (i : Nat) (v : Visibility) : (r.showAt i v).Marked := by
  unfold Roster.showAt
  split
  · split
    · exact h.update i fun p hp => hp
    · split <;> exact h
  · exact h.update i fun p hp => hp

theorem Marked.attach (h : r.Marked) {d : Draft} (hd : d.Consistent) (v : Visibility) :
    (r.attach d v).1.Marked := by
  unfold Roster.attach
  split
  · exact h
  · exact (h.enter hd).showAt _ v

theorem Marked.hints (h : r.Marked) (id : String) (texts : List String) :
    (texts.foldl (fun r text => r.hint id text) r).Marked := by
  induction texts generalizing r with
  | nil => exact h
  | cons text texts ih =>
    apply ih
    dsimp only [Roster.hint]
    split
    · exact h.update _ fun p hp => hp
    · exact h

theorem Marked.finish (h : r.Marked) : ∀ p ∈ r.finish, p.Marked := by
  intro p hp
  obtain ⟨i, hi, rfl⟩ := List.mem_iff_getElem.1 hp
  have hlt : i < r.properties.length := by simpa [Roster.finish] using hi
  have hold := h _ (List.getElem_mem hlt)
  simp only [Roster.finish, List.getElem_mapIdx]
  split <;> exact hold

end Roster

/-- In the modules of a walk, finished or not, every toggle is marked as one. -/
structure Walk.Marked (w : Walk) : Prop where
  current : ∀ m, w.current = some m → m.roster.Marked
  modules : ∀ m ∈ w.modules, ∀ p ∈ m.properties, p.Marked

theorem Walk.Marked.closed {w : Walk} (h : w.Marked) :
    ∀ m ∈ w.closed.modules, ∀ p ∈ m.properties, p.Marked := by
  unfold Walk.closed
  split
  · exact h.modules
  · rename_i m hm
    intro n hn
    rcases List.mem_append.1 hn with hn | hn
    · exact h.modules n hn
    · rw [List.mem_singleton.1 hn]
      exact (h.current m hm).finish

/-! ### Steps -/

namespace Point

variable {s : Setting} {c c' : Point}

/-- All that is known of properties is consistent, also what the parameters of the routines
being walked will mean again. -/
structure Consistent (c : Point) : Prop where
  walk : c.walk.Consistent
  saved : ∀ saved, Task.leave saved ∈ c.tasks → ∀ p ∈ saved, p.2.Consistent

theorem Consistent.enter (h : c.Consistent) (routine : Routine) (args : List Expr) :
    (c.enter s routine args).Consistent := by
  unfold Point.enter
  split
  · exact h
  · split
    · exact h
    · obtain ⟨hbound, hnew⟩ := h.walk.bindParams s.catalog ((routine.params.map (·.name)).zip args)
      refine ⟨hbound, ?_⟩
      intro saved hsaved
      rcases List.mem_cons.1 hsaved with hsaved | hsaved
      · cases hsaved
      · rcases List.mem_cons.1 hsaved with hsaved | hsaved
        · cases hsaved
          exact hnew
        · exact h.saved saved hsaved

theorem Consistent.of_tasks (h : c.Consistent) (ts : List Task)
    (hts : ∀ t ∈ ts, t.isLeave = false) (htasks : c'.tasks = ts ++ c.tasks)
    (hwalk : c'.walk.Consistent) : c'.Consistent := by
  refine ⟨hwalk, ?_⟩
  intro saved hsaved
  rw [htasks] at hsaved
  rcases List.mem_append.1 hsaved with hnew | hold
  · cases hts _ hnew
  · exact h.saved saved hold

theorem Step.consistent (h : Step s c c') (hs : s.declarations.All Declaration.Paired)
    (hc : c.Consistent) : c'.Consistent := by
  obtain ⟨task, rest, htasks, hdoes⟩ := h.does
  have hrest : ({ c with tasks := rest } : Point).Consistent := by
    refine ⟨hc.walk, fun saved hsaved => hc.saved saved ?_⟩
    rw [htasks]
    exact List.mem_cons_of_mem task hsaved
  cases hdoes with
  | call => exact ⟨hrest.walk.shaped hs _ _ _ _ _ _, hrest.saved⟩
  | text => exact ⟨hrest.walk.of_eq rfl rfl, hrest.saved⟩
  | copy => exact ⟨hrest.walk.aliasLocal _ _, hrest.saved⟩
  | enter args => exact hrest.enter _ args
  | push ts _ hts | run ts _ hts =>
    exact hrest.of_tasks ts (fun t ht => Task.not_isLeave_of_isLocal (hts t ht)) rfl hrest.walk
  | ifThen | switch | part => exact hrest.of_tasks [_, _] (by simp [Task.isLeave]) rfl hrest.walk
  | ifElse => exact hrest.of_tasks [_, _, _, _] (by simp [Task.isLeave]) rfl hrest.walk
  | ended | resume | indent => exact ⟨hrest.walk, hrest.saved⟩
  | leave =>
    refine ⟨hrest.walk.restore (hc.saved _ ?_), hrest.saved⟩
    rw [htasks]
    exact List.mem_cons_self

theorem Touch.marked {m m' : ModuleDraft} (h : Touch s c m m') (hc : c.Consistent)
    (hm : m.roster.Marked) : m'.roster.Marked := by
  cases h with
  | declared label order h => exact hm
  | @shown d h =>
    apply hm.attach
    obtain ⟨call, -, hact⟩ := Option.bind_eq_some_iff.1 h
    split at hact
    · obtain ⟨name, -, hname⟩ := Option.map_eq_some_iff.1 hact
      cases hname
    · obtain ⟨⟨l, d'⟩, hdrawing, hd⟩ := Option.map_eq_some_iff.1 hact
      cases hd
      exact hc.walk.drawing hdrawing
    · cases hact
  | hinted id hints h => exact hm.hints id hints

theorem Step.marked (h : Step s c c') (hc : c.Consistent) (hw : c.walk.Marked) :
    c'.walk.Marked := by
  cases h.change with
  | keep hsame hact => exact ⟨hsame.current ▸ hw.current, hsame.modules ▸ hw.modules⟩
  | start name keywords hact hmodules hcurrent hgeneration =>
    refine ⟨?_, hmodules ▸ hw.closed⟩
    intro m hm
    rw [hcurrent, Option.some_inj] at hm
    rw [← hm]
    exact fun p hp => nomatch hp
  | touch htouch hm hm' hmodules hgeneration =>
    refine ⟨?_, hmodules ▸ hw.modules⟩
    intro n hn
    rw [hm', Option.some_inj] at hn
    exact hn ▸ htouch.marked hc (hw.current _ hm)

theorem Reaches.consistent {entry : Routine} (hs : s.declarations.All Declaration.Paired)
    (h : Reaches s (start s entry) c) : c.Consistent ∧ c.walk.Marked := by
  induction h with
  | refl =>
    refine ⟨⟨⟨?_, ?_⟩, ?_⟩, ?_, ?_⟩
    · rintro _ _ ⟨⟩
    · rintro _ ⟨⟩
    · simp [start]
    · rintro _ ⟨⟩
    · rintro _ ⟨⟩
  | tail _ hstep ih => exact ⟨hstep.consistent hs ih.1, hstep.marked ih.1 ih.2⟩

end Point

/-! ### Sources -/

variable {t : SourceTree} {declarations : DeclarationTable} {settings : Settings}

theorem Visits.consistent (hscanned : declarations.Scanned) {c : Point}
    (h : Visits t declarations settings c) : c.Consistent ∧ c.walk.Marked := by
  obtain ⟨entry, -, hreaches⟩ := h
  exact Point.Reaches.consistent (s := .ofTree t declarations settings) hscanned.all_paired hreaches

theorem marked_of_extractModules (hscanned : declarations.Scanned) {ms : List Module}
    (h : (extractModules t declarations settings).result = .ok ms) :
    ∀ m ∈ ms, ∀ p ∈ m.properties, p.Marked := by
  obtain ⟨c, hvisits, -, hmodules⟩ := exists_end h
  rw [← hmodules]
  exact (hvisits.consistent hscanned).2.closed

theorem exists_scanned_of_extractPath {fs : Files} {path : String} {folder : Option String}
    {ms : List Module} (h : (extractPath fs path folder settings).result = .ok ms) :
    ∃ t declarations, declarations.Scanned ∧
      (extractModules t declarations settings).result = .ok ms := by
  unfold extractPath at h
  obtain ⟨source, -, h⟩ := Traced.result_bind_eq_ok.1 h
  cases folder with
  | none =>
    obtain ⟨table, htable, h⟩ := Traced.result_bind_eq_ok.1 h
    obtain ⟨t, -, h⟩ := Traced.result_bind_eq_ok.1 h
    cases htable
    exact ⟨t, {}, .empty, h⟩
  | some dir =>
    obtain ⟨scan, hscan, h⟩ := Traced.result_bind_eq_ok.1 h
    obtain ⟨table, htable, h⟩ := Traced.result_bind_eq_ok.1 h
    obtain ⟨t, -, h⟩ := Traced.result_bind_eq_ok.1 h
    cases htable
    exact ⟨t, scan.table, Scan.scanned_ofFolder hscan, h⟩

/-- With declarations that were read from texts, all that is known of properties at any point of
the extraction is consistent: what locals hold, what the next module will start with and what
parameters will mean again. Every toggle that is given out is marked as one, and so it is where
the declarations come from the files of a folder. -/
theorem extraction_drafts_consistent (hscanned : declarations.Scanned) :
    (∀ c, Visits t declarations settings c →
      (∀ l d, c.walk.drafts.get? l = some d → d.Consistent) ∧
      (∀ p l d, c.walk.preamble = some p → p.drafts.get? l = some d → d.Consistent) ∧
      (∀ saved name m d, Task.leave saved ∈ c.tasks → (name, m) ∈ saved → m.draft = some d →
        d.Consistent) ∧
      ∀ m ∈ c.walk.closed.modules, ∀ p ∈ m.properties, p.type = .toggle → p.toggle = true) ∧
    (∀ ms, (extractModules t declarations settings).result = .ok ms →
      ∀ m ∈ ms, ∀ p ∈ m.properties, p.type = .toggle → p.toggle = true) ∧
    ∀ fs path folder ms, (extractPath fs path folder settings).result = .ok ms →
      ∀ m ∈ ms, ∀ p ∈ m.properties, p.type = .toggle → p.toggle = true := by
  refine ⟨fun c hc => ?_, fun ms hms => marked_of_extractModules hscanned hms, ?_⟩
  · obtain ⟨hconsistent, hmarked⟩ := hc.consistent hscanned
    refine ⟨hconsistent.walk.drafts, ?_, ?_, hmarked.closed⟩
    · intro p l d hp hd
      exact hconsistent.walk.preamble p hp l d hd
    · intro saved name m d hsaved hm hd
      exact hconsistent.saved saved hsaved (name, m) hm d hd
  · intro fs path folder ms hms
    obtain ⟨t', declarations', hscanned', hms'⟩ := exists_scanned_of_extractPath hms
    exact marked_of_extractModules hscanned' hms'

/-! ### A property with four attributes -/

/-- Labels are added, replaced and added again, and then the property becomes a toggle. -/
def manyAttributes : DeclarationTable :=
  (DeclarationTable.scan {}
    "[Enum(Off, 0, On, 1)] [KeywordEnum(A, B)] [Enum(C, 7)] [Toggle] _P (\"P\", Float) = 0").1

/-- The property is shown as a field, with one hint given twice:

    void OnGUI() {
      var p = FindProperty("_P");
      MakeEffect("A");
      Tooltip(p, "Glow", "Glow");
      PropertyField(p);
    }
-/
def hintedSource : SourceTree :=
  { mark := default
    body :=
      [.classDecl default [] "Panel"
        [.method default [] "void" "OnGUI" []
          (.block default
            [.localDecl default "var" "p" (some (Expr.calling "FindProperty" [.string default "_P"])),
            .expr (Expr.calling "MakeEffect" [.string default "A"]),
            .expr (Expr.calling "Tooltip"
              [.name default "p", .string default "Glow", .string default "Glow"]),
            .expr (Expr.calling "PropertyField" [.name default "p"])])]] }

theorem extraction_drafts_consistent_manyAttributes :
    manyAttributes.Scanned ∧
      (∃ c d, Visits hintedSource manyAttributes {} c ∧ c.walk.drafts.get? "p" = some d ∧
        d.enumValues = ["A", "B", "C"] ∧ d.enumNumbers = [0, 1, 7] ∧ d.type = .toggle ∧
        d.hints = ["Glow"] ∧ d.Consistent) ∧
      ∃ ms, (extractModules hintedSource manyAttributes {}).result = .ok ms ∧
        ms.map (·.properties.map (·.type)) = [[.toggle]] ∧
        ∀ m ∈ ms, ∀ p ∈ m.properties, p.type = .toggle → p.toggle = true := by
  have hscanned : manyAttributes.Scanned := .scan .empty _
  obtain ⟨hpoints, hgiven, -⟩ :=
    @extraction_drafts_consistent hintedSource manyAttributes {} hscanned
  have hends : ((Catalog.ofTree hintedSource).routine? "OnGUI").bind (fun entry =>
      (Point.walkOf (.ofTree hintedSource manyAttributes {}) entry).result.toOption.bind
        fun after => (after.2.drafts.get? "p").map fun d =>
          ((d.enumValues, d.enumNumbers), (d.type, d.hints),
            after.2.closed.modules.map (·.properties.map (·.type)))) =
      some ((["A", "B", "C"], [0, 1, 7]), (.toggle, ["Glow"]), [[.toggle]]) := by
    decide +kernel
  obtain ⟨entry, hentry, hwalk⟩ := Option.bind_eq_some_iff.1 hends
  obtain ⟨⟨f, w⟩, hafter, hdraft⟩ := Option.bind_eq_some_iff.1 hwalk
  obtain ⟨d, hd, hfound⟩ := Option.map_eq_some_iff.1 hdraft
  have hok : (Point.walkOf (.ofTree hintedSource manyAttributes {}) entry).result = .ok (f, w) := by
    cases hresult : (Point.walkOf (.ofTree hintedSource manyAttributes {}) entry).result with
    | error e => simp [hresult, Except.toOption] at hafter
    | ok after => simpa [hresult, Except.toOption] using hafter
  simp only [Prod.mk.injEq] at hfound
  obtain ⟨⟨hvalues, hnumbers⟩, ⟨htype, hhints⟩, hmodules⟩ := hfound
  have hvisits : Visits hintedSource manyAttributes {} ⟨[], _, [entry.name], f, w⟩ :=
    ⟨entry, hentry, Point.reaches_end hok⟩
  have hms : (extractModules hintedSource manyAttributes {}).result = .ok w.closed.modules :=
    extractModules_result_eq_ok.2 ⟨entry, f, w, hentry, hok, rfl⟩
  exact ⟨hscanned,
    ⟨_, d, hvisits, hd, hvalues, hnumbers, htype, hhints, (hpoints _ hvisits).1 "p" d hd⟩,
    w.closed.modules, hms, hmodules, hgiven _ hms⟩

end PanelSchema
