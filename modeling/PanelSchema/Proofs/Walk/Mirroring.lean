import PanelSchema.Proofs.Walk.Steps

/-!
What locals are known as, against the values assigned to them. A straight-line sequence is a
run of steps: each meets a call or gives a local its value. The known bindings mirror the last
values as long as each step keeps to some conditions; a value that is not recognized breaks
them, for it leaves a local known as what it was before.
-/

namespace PanelSchema

open Syntax (Expr Stmt)

/-- A step of a straight-line sequence. -/
inductive LocalStep where
  /-- A statement begins. -/
  | next
  /-- A call of the vocabulary is met. -/
  | call (c : Call)
  /-- The value of another local goes to a place. -/
  | copy (source : String) (target : Target)
  | text (text : String) (target : Target)
  /-- A value of any other form goes to a place. -/
  | other (target : Target)

/-! ### The steps of a sequence -/

mutual

/-- The steps of an expression whose value goes to `target`. A conditional comes to all its
parts, and is a value of its own besides. -/
def Syntax.Expr.steps (target : Target) : Expr → List LocalStep
  | .call _ callee typeArgs args =>
    match callee.finalName? with
    | none => [.other target]
    | some method =>
      match CallShape.ofMethod method with
      | .unrecognized => Syntax.Expr.stepsAll args ++ [.other target]
      | shape => [.call { shape, method, typeArgs, args, target }]
  | .cast _ _ e => e.steps target
  | .conditional _ test yes no =>
    test.steps (if Walk.isCallOrCast test then target else .discard) ++ yes.steps target ++
      no.steps target ++ [.other target]
  | .string _ text => [.text text target]
  | .name _ source => [.copy source target]
  | _ => [.other target]

def Syntax.Expr.stepsAll : List Expr → List LocalStep
  | [] => []
  | e@(.call ..) :: rest => e.steps .discard ++ Syntax.Expr.stepsAll rest
  | _ :: rest => Syntax.Expr.stepsAll rest

end

mutual

def Syntax.Expr.isStraight (c : Catalog) : Expr → Bool
  | .call _ callee _ args =>
    match callee.finalName? with
    | none => true
    | some method =>
      match CallShape.ofMethod method with
      | .unrecognized =>
        (Walk.routineOf? c callee method).isNone && Syntax.Expr.areStraight c args
      | _ => true
  | .cast _ _ e => e.isStraight c
  | .conditional _ test yes no => test.isStraight c && yes.isStraight c && no.isStraight c
  | _ => true

def Syntax.Expr.areStraight (c : Catalog) : List Expr → Bool
  | [] => true
  | e@(.call ..) :: rest => e.isStraight c && Syntax.Expr.areStraight c rest
  | _ :: rest => Syntax.Expr.areStraight c rest

end

/-- Declarations of locals and assignments to them. `indentLevel` is the editor's own. -/
inductive Syntax.Stmt.Assigns (c : Catalog) : Stmt → Prop where
  | declare {m type x} : Assigns c (.localDecl m type x none)
  | init {m type x e} (he : e.isStraight c = true) : Assigns c (.localDecl m type x (some e))
  | assign {m m' x e} (hx : x ≠ "indentLevel") (he : e.isStraight c = true) :
      Assigns c (.expr (.assign m (.name m' x) e))

def Syntax.Stmt.steps : Stmt → List LocalStep
  | .localDecl _ _ x (some e) => .next :: e.steps (.named x)
  | .expr (.assign _ target e) => .next :: e.steps (.place target)
  | _ => [.next]

/-! ### Last values -/

/-- A walk, and what the last value assigned to each local was recognized as. -/
structure Tracked where
  frame : Frame
  walk : Walk
  last : String → Option Binding

/-- What is known of a local is its last value. -/
def Tracked.Mirrors (t : Tracked) : Prop :=
  ∀ x b, t.walk.bindings.get? x = some b → t.last x = some b

/-- What a lookup finds, if its argument gives an identifier. -/
def Walk.lookup? (s : Setting) (args : List Expr) (w : Walk) : Option Binding :=
  let d : Draft := { identifier := (w.identifierOf s.catalog args.head?).1 }
  if d.identifier.isEmpty then none
  else some (((s.declarations.get? d.identifier).map d.enrich).getD d).binding

namespace LocalStep

def local? : LocalStep → Option String
  | .next => none
  | .call c => c.target.name?
  | .copy _ target | .text _ target | .other target => target.name?

def starts (s : Setting) (t : Tracked) : LocalStep → Bool
  | .call c => c.shape == .effect && !(c.args.filterMap (t.walk.string? s.catalog)).isEmpty
  | _ => false

/-- The local that is drawn and what it holds, where that has an identifier. -/
def draws? (s : Setting) (t : Tracked) : LocalStep → Option (String × Draft)
  | .call c =>
    match c.shape with
    | .bind type =>
      (t.walk.drawing? s c.method type c.typeArgs c.args t.frame c.target).filter
        fun found => !found.2.identifier.isEmpty
    | _ => none
  | _ => none

/-- What the value is recognized as: a property that is looked up or drawn, the switch of a
module, or what the other local is known as. -/
def value? (s : Setting) (t : Tracked) (a : LocalStep) : Option Binding :=
  match a with
  | .call c =>
    match c.shape with
    | .propertyLookup => t.walk.lookup? s c.args
    | .effect => if a.starts s t then a.local?.map fun l => ⟨l, .boolean⟩ else none
    | .bind _ => (a.draws? s t).map fun found => found.2.binding
    | _ => none
  | .copy source _ => t.walk.bindings.get? source
  | _ => none

/-- A step keeps what is known in line with the last values. -/
structure Keeps (s : Setting) (t : Tracked) (a : LocalStep) : Prop where
  /-- A value that is not recognized goes to locals that are not known. -/
  recognized : ∀ x, a.local? = some x → a.value? s t = none → t.walk.bindings.get? x = none
  /-- A module starts where the locals it knows hold their last values. -/
  preamble : a.starts s t = true → ∀ y b, a.local? ≠ some y →
    (Walk.enterPreamble t.walk).bindings.get? y = some b → t.last y = some b
  /-- The property that is drawn is the last value of the local it is drawn through. -/
  drawn : ∀ l d, a.draws? s t = some (l, d) → a.local? ≠ some l →
    (t.last l).map (·.path) = some d.identifier
  /-- A local that holds another property is not known, or known as what is drawn. -/
  held : ∀ l d x, a.draws? s t = some (l, d) → a.local? = some x → x ≠ l →
    t.walk.drafts.contains x = true → ∀ b, t.walk.bindings.get? x = some b → b = d.binding

end LocalStep

namespace Tracked

def walked (s : Setting) (t : Tracked) : LocalStep → Frame × Walk
  | .next => (t.walk.normalize t.frame, t.walk)
  | .call c => t.walk.shaped s c.shape c.method c.typeArgs c.args t.frame c.target
  | .copy source target => (t.frame, (target.name?.map (t.walk.aliasLocal source)).getD t.walk)
  | .text text target =>
    (t.frame,
      (target.name?.map fun l => { t.walk with strings := t.walk.strings.insert l text }).getD
        t.walk)
  | .other _ => (t.frame, t.walk)

/-- The local that a value goes to has a new last value. What is drawn stays the value of the
local it is drawn through, as it is known now. -/
def assigned (s : Setting) (t : Tracked) (a : LocalStep) (y : String) : Option Binding :=
  if a.local? = some y then a.value? s t
  else
    match a.draws? s t with
    | some (l, d) =>
      if y = l ∧ (t.last l).map (·.path) = some d.identifier then some d.binding else t.last y
    | none => t.last y

def after (s : Setting) (t : Tracked) (a : LocalStep) : Tracked :=
  { frame := (t.walked s a).1, walk := (t.walked s a).2, last := t.assigned s a }

def run (s : Setting) (t : Tracked) (steps : List LocalStep) : Tracked :=
  steps.foldl (after s) t

end Tracked

/-! ### One step -/

namespace Walk

theorem get?_boundTo (d : Draft) (name : String) (w : Walk) (y : String) :
    (w.boundTo d name).bindings.get? y =
      if y = name ∧ d.identifier.isEmpty = false then some d.binding else w.bindings.get? y := by
  unfold boundTo
  cases d.identifier.isEmpty with
  | true => simp
  | false => simp [Dict.get?_insert]

theorem get?_keptAs (l : String) (d : Draft) (target : Target) (w : Walk) (y : String) :
    (w.keptAs l d target).bindings.get? y =
      if (y = l ∨ target.name? = some y ∧ w.drafts.contains y = false) ∧
          d.identifier.isEmpty = false then
        some d.binding
      else w.bindings.get? y := by
  have hcontains : ∀ name, (boundTo d l { w with drafts := w.drafts.insert l d }).drafts.contains
      name = (decide (name = l) || w.drafts.contains name) := by
    intro name
    by_cases h : name = l <;> simp [boundTo, Dict.contains, Dict.get?_insert, h]
  unfold keptAs
  cases target.name? with
  | none => simp [get?_boundTo]
  | some name =>
    dsimp only
    rw [hcontains]
    by_cases hl : name = l
    · subst hl
      simp [get?_boundTo]
      grind
    · cases hname : w.drafts.contains name <;> simp [get?_boundTo, hl] <;> grind

theorem get?_declareProperty (s : Setting) (l : String) (args : List Expr) (indented : Bool)
    (w : Walk) (y : String) :
    (w.declareProperty s l args.head? indented).bindings.get? y =
      if y = l ∧ (w.lookup? s args).isSome = true then w.lookup? s args
      else w.bindings.get? y := by
  unfold declareProperty lookup?
  generalize w.identifierOf s.catalog args.head? = found
  obtain ⟨id, raw⟩ := found
  dsimp only
  by_cases hid : id.isEmpty = true
  · simp [hid]
  · rw [if_neg hid, if_neg hid]
    cases s.declarations.get? id <;> simp [Dict.get?_insert] <;> rfl

theorem get?_aliasLocal (source name : String) (w : Walk) (y : String) :
    (w.aliasLocal source name).bindings.get? y =
      if y = name ∧ (w.bindings.get? source).isSome = true then w.bindings.get? source
      else w.bindings.get? y := by
  unfold aliasLocal
  dsimp only
  cases w.bindings.get? source with
  | none => simp
  | some b => simp [Dict.get?_insert]

theorem bindings_enterPreamble_closed (w : Walk) :
    (enterPreamble w.closed).bindings = (enterPreamble w).bindings := by
  unfold closed
  cases w.current with
  | none => rfl
  | some m =>
    unfold enterPreamble
    cases w.preamble <;> rfl

theorem get?_started (s : Setting) (name : String) (keywords : List String) (target : Target)
    (w : Walk) (y : String) :
    (w.started s name keywords target).bindings.get? y =
      if target.name? = some y then some ⟨y, .boolean⟩
      else (enterPreamble w).bindings.get? y := by
  unfold started
  rw [← bindings_enterPreamble_closed]
  cases target.name? with
  | none => simp
  | some l =>
    by_cases hy : y = l
    · simp [hy]
    · simp [Dict.get?_insert, hy, Ne.symm hy]

end Walk

namespace LocalStep

variable {s : Setting} {t : Tracked} {a : LocalStep} {l : String} {d : Draft}

theorem value?_of_draws (h : a.draws? s t = some (l, d)) : a.value? s t = some d.binding := by
  cases a with
  | call c =>
    cases hshape : c.shape with
    | bind type => simp [value?, hshape, h]
    | _ => simp [draws?, hshape] at h
  | _ => cases h

theorem starts_of_draws (h : a.draws? s t = some (l, d)) : a.starts s t = false := by
  cases a with
  | call c =>
    cases hshape : c.shape with
    | bind type => simp [starts, hshape]
    | _ => simp [draws?, hshape] at h
  | _ => cases h

theorem keeps_next : Keeps s t .next where
  recognized _ h := by cases h
  preamble h := by cases h
  drawn _ _ h := by cases h
  held _ _ _ h := by cases h

theorem value?_of_starts (h : a.starts s t = true) :
    a.value? s t = a.local?.map fun l => ⟨l, .boolean⟩ := by
  cases a with
  | call c =>
    have hshape : c.shape = .effect := by
      unfold starts at h
      simp at h
      exact h.1
    simp [value?, hshape, h]
  | _ => cases h

end LocalStep

namespace Tracked

variable {s : Setting} {t : Tracked} {a : LocalStep}

/-- A step that draws lets the local it draws through and, unless that holds a property
itself, the local of the value stand for what is drawn. -/
theorem get?_walked_of_draws {l : String} {d : Draft} (h : a.draws? s t = some (l, d))
    (y : String) :
    (t.walked s a).2.bindings.get? y =
      if y = l ∨ a.local? = some y ∧ t.walk.drafts.contains y = false then some d.binding
      else t.walk.bindings.get? y := by
  cases a with
  | call c =>
    obtain ⟨shape, method, typeArgs, args, target⟩ := c
    cases shape with
    | bind type =>
      obtain ⟨hdraws, hid⟩ := Option.filter_eq_some_iff.1 h
      have hid : d.identifier.isEmpty = false := by simpa using hid
      dsimp only [walked, Walk.shaped]
      rw [Walk.drawn, hdraws]
      dsimp only [Walk.shown]
      rw [Walk.get?_keptAs]
      exact if_congr (by simp [hid, LocalStep.local?]) rfl rfl
    | _ => cases h
  | _ => cases h

/-- Any other step lets the local of a recognized value stand for it; where a module starts,
the others stand for what it starts with. -/
theorem get?_walked_of_not_draws (h : a.draws? s t = none) (y : String) :
    (t.walked s a).2.bindings.get? y =
      if a.local? = some y ∧ (a.value? s t).isSome = true then a.value? s t
      else if a.starts s t = true then (Walk.enterPreamble t.walk).bindings.get? y
      else t.walk.bindings.get? y := by
  cases a with
  | next => rfl
  | text text target =>
    dsimp only [walked]
    cases target.name? <;> simp [LocalStep.value?, LocalStep.starts]
  | other target => simp [walked, LocalStep.value?, LocalStep.starts]
  | copy source target =>
    dsimp only [walked]
    cases htarget : target.name? with
    | none => simp [LocalStep.local?, LocalStep.starts, htarget]
    | some l =>
      rw [Option.map_some, Option.getD_some, Walk.get?_aliasLocal]
      simp [LocalStep.local?, LocalStep.starts, LocalStep.value?, htarget, @eq_comm _ y l]
  | call c =>
    obtain ⟨shape, method, typeArgs, args, target⟩ := c
    cases shape with
    | propertyLookup =>
      dsimp only [walked, Walk.shaped]
      cases htarget : target.name? with
      | none => simp [LocalStep.local?, LocalStep.starts, htarget]
      | some l =>
        rw [Option.map_some, Option.getD_some, Walk.get?_declareProperty]
        simp [LocalStep.local?, LocalStep.starts, LocalStep.value?, htarget, @eq_comm _ y l]
    | effect =>
      dsimp only [walked, Walk.shaped, Walk.effected]
      have hstarts : LocalStep.starts s t (.call ⟨.effect, method, typeArgs, args, target⟩) =
          !(args.filterMap (t.walk.string? s.catalog)).reverse.isEmpty := by
        simp [LocalStep.starts]
      cases hnames : (args.filterMap (t.walk.string? s.catalog)).reverse with
      | nil =>
        rw [hnames] at hstarts
        simp [LocalStep.value?, hstarts]
      | cons name keywords =>
        rw [hnames] at hstarts
        dsimp only
        rw [Walk.get?_started]
        simp [LocalStep.value?, LocalStep.local?, hstarts]
        grind
    | bind type =>
      dsimp only [walked, Walk.shaped]
      have hvalue : LocalStep.value? s t (.call ⟨.bind type, method, typeArgs, args, target⟩) =
          none := by
        simp [LocalStep.value?, h]
      rw [hvalue, Walk.drawn]
      cases hdraws : t.walk.drawing? s method type typeArgs args t.frame target with
      | none => simp [LocalStep.starts]
      | some found =>
        have hid : found.2.identifier.isEmpty = true := by
          simpa [LocalStep.draws?, hdraws] using h
        dsimp only [Walk.shown]
        rw [Walk.get?_keptAs]
        simp [hid, LocalStep.starts]
    | subEffect =>
      dsimp only [walked, Walk.shaped]
      have hsame : (t.walk.sectioned s args t.frame target).bindings = t.walk.bindings := by
        unfold Walk.sectioned
        repeat' split
        all_goals rfl
      rw [hsame]
      simp [LocalStep.value?, LocalStep.starts]
    | hint =>
      dsimp only [walked, Walk.shaped]
      have hsame : (t.walk.hint s args).bindings = t.walk.bindings := by
        unfold Walk.hint
        repeat' split
        all_goals rfl
      rw [hsame]
      simp [LocalStep.value?, LocalStep.starts]
    | indent | unindent | unrecognized =>
      simp [walked, Walk.shaped, LocalStep.value?, LocalStep.starts]

theorem mirrors_after_of_draws {l : String} {d : Draft} (h : t.Mirrors)
    (hdraws : a.draws? s t = some (l, d)) : (t.after s a).Mirrors ↔ a.Keeps s t := by
  have hvalue := LocalStep.value?_of_draws hdraws
  have hlast : ∀ y, (t.after s a).last y =
      if a.local? = some y then some d.binding
      else if y = l ∧ (t.last l).map (·.path) = some d.identifier then some d.binding
      else t.last y := by
    intro y
    change t.assigned s a y = _
    rw [assigned, hdraws, hvalue]
  have hknown := get?_walked_of_draws hdraws
  constructor
  · intro hmirrors
    refine ⟨fun x _ hnone => ?_, fun hstarts => ?_, fun l' d' hdraws' hl => ?_,
      fun l' d' x hdraws' hx hne hcontains b hb => ?_⟩
    · rw [hvalue] at hnone
      cases hnone
    · rw [LocalStep.starts_of_draws hdraws] at hstarts
      cases hstarts
    · rw [hdraws] at hdraws'
      cases hdraws'
      have hb : (t.after s a).last l = some d.binding :=
        hmirrors l d.binding (by rw [after, hknown, if_pos (.inl rfl)])
      rw [hlast, if_neg hl] at hb
      split at hb
      · exact (And.right ‹_›)
      · rw [hb]
        rfl
    · rw [hdraws] at hdraws'
      cases hdraws'
      have hb' : (t.after s a).last x = some b := hmirrors x b (by
        rw [after, hknown, if_neg (by simp [hne, hcontains]), hb])
      rw [hlast, if_pos hx] at hb'
      cases hb'
      rfl
  · intro hkeeps y b hb
    rw [after, hknown] at hb
    rw [hlast]
    by_cases hy : a.local? = some y
    · rw [if_pos hy]
      split at hb
      · exact hb
      · rename_i hnot
        have hne : y ≠ l := fun hl => hnot (.inl hl)
        have hcontains : t.walk.drafts.contains y = true := by
          rw [← Bool.not_eq_false]
          exact fun hfalse => hnot (.inr ⟨hy, hfalse⟩)
        rw [hkeeps.held l d y hdraws hy hne hcontains b hb]
    · rw [if_neg hy]
      by_cases hl : y = l
      · subst hl
        have hpath := hkeeps.drawn y d hdraws hy
        rw [if_pos (.inl rfl)] at hb
        rw [if_pos ⟨rfl, hpath⟩, hb]
      · rw [if_neg (by simp [hl, hy])] at hb
        rw [if_neg (by simp [hl])]
        exact h y b hb

theorem mirrors_after_of_not_draws (h : t.Mirrors) (hdraws : a.draws? s t = none) :
    (t.after s a).Mirrors ↔ a.Keeps s t := by
  have hlast : ∀ y, (t.after s a).last y =
      if a.local? = some y then a.value? s t else t.last y := by
    intro y
    change t.assigned s a y = _
    rw [assigned, hdraws]
  have hknown := get?_walked_of_not_draws hdraws
  constructor
  · intro hmirrors
    refine ⟨fun x hx hnone => ?_, fun hstarts y b hy hb => ?_, fun l d hdraws' => ?_,
      fun l d x hdraws' => ?_⟩
    · have hstarts : a.starts s t = false := by
        rw [← Bool.not_eq_true]
        intro hstarts
        rw [LocalStep.value?_of_starts hstarts, hx] at hnone
        cases hnone
      rw [Option.eq_none_iff_forall_ne_some]
      intro b hb
      have hb' := hmirrors x b (by rw [after, hknown]; simp [hnone, hstarts, hb])
      rw [hlast, if_pos hx, hnone] at hb'
      cases hb'
    · have hb' := hmirrors y b (by rw [after, hknown]; simp [hy, hstarts, hb])
      rwa [hlast, if_neg hy] at hb'
    · rw [hdraws] at hdraws'
      cases hdraws'
    · rw [hdraws] at hdraws'
      cases hdraws'
  · intro hkeeps y b hb
    rw [after, hknown] at hb
    rw [hlast]
    by_cases hy : a.local? = some y
    · rw [if_pos hy]
      cases hvalue : a.value? s t with
      | some v => simpa [hy, hvalue] using hb
      | none =>
        have hstarts : a.starts s t = false := by
          rw [← Bool.not_eq_true]
          intro hstarts
          rw [LocalStep.value?_of_starts hstarts, hy] at hvalue
          cases hvalue
        rw [hvalue, hstarts, hkeeps.recognized y hy hvalue] at hb
        simp at hb
    · rw [if_neg hy]
      rw [if_neg (by simp [hy])] at hb
      split at hb
      · exact hkeeps.preamble ‹_› y b hy hb
      · exact h y b hb

/-- One step keeps what is known in line with the last values exactly under its conditions. -/
theorem mirrors_after_iff (h : t.Mirrors) : (t.after s a).Mirrors ↔ a.Keeps s t := by
  cases hdraws : a.draws? s t with
  | some found => exact mirrors_after_of_draws h hdraws
  | none => exact mirrors_after_of_not_draws h hdraws

/-! ### Runs -/

/-- What is known stays in line with the last values through a whole run exactly if each step
keeps it so. -/
theorem mirrors_run_iff {steps : List LocalStep} (h : t.Mirrors) :
    (∀ n, (t.run s (steps.take n)).Mirrors) ↔
      ∀ (n : Nat) (a : LocalStep), steps[n]? = some a → a.Keeps s (t.run s (steps.take n)) := by
  induction steps generalizing t with
  | nil => simpa [run] using h
  | cons a steps ih =>
    constructor
    · intro hall
      have hafter : (t.after s a).Mirrors := hall 1
      rintro (_ | n) b hb
      · cases hb
        exact (mirrors_after_iff h).1 hafter
      · exact (ih hafter).1 (fun n => hall (n + 1)) n b hb
    · intro hall
      have hafter : (t.after s a).Mirrors := (mirrors_after_iff h).2 (hall 0 a rfl)
      rintro (_ | n)
      · exact h
      · exact (ih hafter).2 (fun n b hb => hall (n + 1) b hb) n

theorem run_append (s : Setting) (t : Tracked) (first second : List LocalStep) :
    t.run s (first ++ second) = (t.run s first).run s second :=
  List.foldl_append

/-- Work in a frame that ends as the run of some steps does. -/
def Performs (s : Setting) (steps : List LocalStep) (x : Frame → WalkM Frame) : Prop :=
  ∀ t : Tracked, (x t.frame t.walk).Gives ((t.run s steps).frame, (t.run s steps).walk)

section

variable {first second : List LocalStep} {x y : Frame → WalkM Frame}

theorem Performs.bind (hx : Performs s first x) (hy : Performs s second y) :
    Performs s (first ++ second) fun f => x f >>= y := by
  intro t
  rw [run_append]
  exact WalkM.gives_bind (hx t) (hy (t.run s first))

theorem performs_other (target : Target) : Performs s [.other target] fun f => pure f :=
  fun t => WalkM.gives_pure t.frame t.walk

theorem Performs.other (hx : Performs s first x) (target : Target) :
    Performs s (first ++ [.other target]) x := by
  intro t
  rw [run_append]
  exact hx t

end

mutual

theorem performs_walkValue {s : Setting} (follow : Follow) :
    ∀ (e : Expr) (target : Target), e.isStraight s.catalog = true →
      Performs s (e.steps target) (Walk.walkValue s follow e · target)
  | .call m callee typeArgs args, target, h => by
    intro t
    dsimp only
    rw [Syntax.Expr.isStraight] at h
    rw [Syntax.Expr.steps]
    cases hname : callee.finalName? with
    | none =>
      rw [Walk.walkValue, hname]
      exact performs_other target t
    | some method =>
      rw [hname] at h
      dsimp only at h ⊢
      rw [Walk.walkValue_call s follow t.frame t.walk m hname]
      have hshape := Walk.gives_walkShape s (CallShape.ofMethod method) method typeArgs args
        t.frame target t.walk
      cases hmethod : CallShape.ofMethod method with
      | unrecognized =>
        rw [hmethod] at h
        dsimp only at h ⊢
        rw [Bool.and_eq_true, Option.isNone_iff_eq_none] at h
        rw [h.1]
        exact (performs_walkArgs follow args h.2).other target t
      | _ =>
        rw [hmethod] at hshape
        exact hshape
  | .cast m type e, target, h => by
    intro t
    dsimp only
    rw [Syntax.Expr.isStraight] at h
    rw [Walk.walkValue_cast, Syntax.Expr.steps]
    exact performs_walkValue follow e target h t
  | .conditional m test yes no, target, h => by
    rw [Syntax.Expr.isStraight, Bool.and_eq_true, Bool.and_eq_true] at h
    obtain ⟨⟨htest, hyes⟩, hno⟩ := h
    have hparts := (performs_walkValue follow test
        (if Walk.isCallOrCast test then target else .discard) htest).bind
      ((performs_walkValue follow yes target hyes).bind
        (performs_walkValue follow no target hno))
    rw [← List.append_assoc] at hparts
    intro t
    dsimp only
    rw [Walk.walkValue, Syntax.Expr.steps]
    exact hparts.other target t
  | .string m text, target, _ => by
    intro t
    dsimp only
    rw [Walk.walkValue, Syntax.Expr.steps, run, List.foldl_cons, List.foldl_nil, after, walked]
    cases target.name? with
    | none => exact WalkM.gives_pure t.frame t.walk
    | some l => exact WalkM.gives_bind (WalkM.gives_modify _ t.walk) (WalkM.gives_pure t.frame _)
  | .name m source, target, _ => by
    intro t
    dsimp only
    rw [Walk.walkValue, Syntax.Expr.steps, run, List.foldl_cons, List.foldl_nil, after, walked]
    cases target.name? with
    | none => exact WalkM.gives_pure t.frame t.walk
    | some l => exact WalkM.gives_bind (WalkM.gives_modify _ t.walk) (WalkM.gives_pure t.frame _)
  | .member .., target, _ | .unary .., target, _ | .binary .., target, _ | .assign .., target, _
  | .index .., target, _ | .new .., target, _ | .typeOf .., target, _ | .integer .., target, _
  | .float .., target, _ | .bool .., target, _ | .list .., target, _ | .null _, target, _ => by
    intro t
    simp only [Walk.walkValue, Syntax.Expr.steps]
    exact performs_other target t

theorem performs_walkArgs {s : Setting} (follow : Follow) :
    ∀ es : List Expr, Syntax.Expr.areStraight s.catalog es = true →
      Performs s (Syntax.Expr.stepsAll es) (Walk.walkArgs s follow es)
  | [], _ => by
    intro t
    rw [Walk.walkArgs, Syntax.Expr.stepsAll]
    exact WalkM.gives_pure t.frame t.walk
  | .call m callee typeArgs args :: rest, h => by
    rw [Syntax.Expr.areStraight, Bool.and_eq_true] at h
    have hparts := (performs_walkValue follow (.call m callee typeArgs args) .discard h.1).bind
      (performs_walkArgs follow rest h.2)
    intro t
    rw [Walk.walkArgs, Syntax.Expr.stepsAll]
    exact hparts t
  | .cast .. :: rest, h | .conditional .. :: rest, h | .string .. :: rest, h
  | .name .. :: rest, h | .unary .. :: rest, h | .binary .. :: rest, h | .assign .. :: rest, h
  | .member .. :: rest, h | .index .. :: rest, h | .new .. :: rest, h | .typeOf .. :: rest, h
  | .integer .. :: rest, h | .float .. :: rest, h | .bool .. :: rest, h | .list .. :: rest, h
  | .null _ :: rest, h => by
    simp only [Syntax.Expr.areStraight] at h
    intro t
    simp only [Walk.walkArgs, Syntax.Expr.stepsAll]
    exact performs_walkArgs follow rest h t

end

variable (follow : Follow)

theorem performs_walkStmt {stmt : Stmt} (h : stmt.Assigns s.catalog) :
    Performs s stmt.steps (Walk.walkStmt s follow stmt) := by
  intro t
  cases h with
  | declare =>
    rw [Walk.walkStmt]
    exact WalkM.gives_pure (t.walk.normalize t.frame) t.walk
  | init he =>
    rw [Walk.walkStmt_localDecl]
    exact performs_walkValue follow _ _ he (t.after s .next)
  | @assign m m' x e hx he =>
    rw [Walk.walkStmt_expr, Walk.walkExpr]
    have hplain : isIndentLevel (.name m' x) = false := by
      simpa [isIndentLevel, Expr.finalName?] using hx
    rw [hplain, if_neg Bool.false_ne_true]
    exact performs_walkValue follow _ _ he (t.after s .next)

theorem performs_walkStmts {body : List Stmt} (h : ∀ stmt ∈ body, stmt.Assigns s.catalog) :
    Performs s (body.flatMap Stmt.steps) (Walk.walkStmts s follow body) := by
  induction body with
  | nil =>
    intro t
    rw [Walk.walkStmts_nil]
    exact WalkM.gives_pure t.frame t.walk
  | cons stmt rest ih =>
    rw [List.forall_mem_cons] at h
    have hparts := (performs_walkStmt follow h.1).bind (ih h.2)
    intro t
    rw [Walk.walkStmts, List.flatMap_cons]
    exact hparts t

end Tracked

/-- A straight-line sequence is walked step by step. What is known of locals is the last value
assigned to them, after each of the steps and so where the sequence ends, exactly if every step
keeps it so. -/
theorem Walk.walkStmts_mirrors_iff (s : Setting) (follow : Follow) (body : List Stmt) (f : Frame)
    (w : Walk) (hbody : ∀ stmt ∈ body, stmt.Assigns s.catalog) :
    let start : Tracked := { frame := f, walk := w, last := w.bindings.get? }
    let steps := body.flatMap Stmt.steps
    (walkStmts s follow body f w).result =
      .ok ((start.run s steps).frame, (start.run s steps).walk) ∧
    ((∀ n, (start.run s (steps.take n)).Mirrors) ↔
      ∀ (n : Nat) (a : LocalStep), steps[n]? = some a →
        a.Keeps s (start.run s (steps.take n))) := by
  intro start steps
  have hstart : start.Mirrors := fun x b hb => hb
  exact ⟨(Tracked.performs_walkStmts follow hbody start).result, Tracked.mirrors_run_iff hstart⟩

/-! ### Instances -/

section Instances

/-- A module has started, and no local is known. -/
private def inModule : Walk where
  current := some (.opened {} "A" [])
  generation := 1
  preamble := some { drafts := {}, bindings := {} }

/-- The walk of the module, before the sequence. -/
private def opening : Tracked where
  frame := {}
  walk := inModule
  last := inModule.bindings.get?

/-- `var p = FindProperty("_P"); var on = Toggle(p);` -/
private def toggled : List Stmt :=
  [.localDecl default "var" "p" (some (Expr.calling "FindProperty" [.string default "_P"])),
    .localDecl default "var" "on" (some (Expr.calling "Toggle" [.name default "p"]))]

/-- `on = Other();` comes after it. -/
private def overwritten : List Stmt :=
  toggled ++ [.expr (.assign default (.name default "on") (Expr.calling "Other" []))]

private theorem assigns_overwritten : ∀ stmt ∈ overwritten, stmt.Assigns {} := by
  intro stmt hstmt
  simp only [overwritten, toggled, List.cons_append, List.nil_append, List.mem_cons,
    List.not_mem_nil, or_false] at hstmt
  rcases hstmt with rfl | rfl | rfl
  · exact .init (by decide +kernel)
  · exact .init (by decide +kernel)
  · exact .assign (by decide) (by decide +kernel)

private theorem assigns_toggled (stmt : Stmt) (h : stmt ∈ toggled) :
    stmt.Assigns {} :=
  assigns_overwritten stmt (List.mem_append_left _ h)

private def lookupStep : LocalStep :=
  .call ⟨.propertyLookup, "FindProperty", [], [.string default "_P"], .named "p"⟩

private def toggleStep : LocalStep :=
  .call ⟨.bind .toggle, "Toggle", [], [.name default "p"], .named "on"⟩

private theorem steps_toggled :
    toggled.flatMap Stmt.steps = [.next, lookupStep, .next, toggleStep] := by
  have hlookup : CallShape.ofMethod "FindProperty" = .propertyLookup := by decide +kernel
  have htoggle : CallShape.ofMethod "Toggle" = .bind .toggle := by decide +kernel
  simp [toggled, Stmt.steps, Expr.steps, Expr.calling, Expr.finalName?, hlookup, htoggle, lookupStep,
    toggleStep]

private theorem steps_overwritten :
    overwritten.flatMap Stmt.steps =
      [.next, lookupStep, .next, toggleStep, .next, .other (.place (.name default "on"))] := by
  have hother : CallShape.ofMethod "Other" = .unrecognized := by decide +kernel
  rw [overwritten, List.flatMap_append, steps_toggled]
  simp [Stmt.steps, Expr.steps, Expr.stepsAll, Expr.calling, Expr.finalName?, hother]

private theorem keeps_lookupStep (t : Tracked) : lookupStep.Keeps {} t := by
  have hvalue : lookupStep.value? {} t = some ⟨"_P", .opaqueValue⟩ := rfl
  refine ⟨fun x _ hnone => ?_, fun h => ?_, fun l d h => ?_, fun l d x h => ?_⟩
  · rw [hvalue] at hnone
    cases hnone
  all_goals cases h

private theorem keeps_toggleStep :
    toggleStep.Keeps {} (opening.run {} [.next, lookupStep, .next]) := by
  have hdraws : ∃ d, toggleStep.draws? {} (opening.run {} [.next, lookupStep, .next]) =
      some ("p", d) ∧ d.identifier = "_P" := ⟨_, rfl, rfl⟩
  have hlast : ((opening.run {} [.next, lookupStep, .next]).last "p").map (·.path) =
      some "_P" := rfl
  have hfree : (opening.run {} [.next, lookupStep, .next]).walk.drafts.contains "on" =
      false := rfl
  generalize opening.run {} [.next, lookupStep, .next] = t at hdraws hlast hfree ⊢
  obtain ⟨d, hdraws, hid⟩ := hdraws
  refine ⟨fun x _ hnone => ?_, fun hstarts => ?_, fun l d' hdraws' _ => ?_,
    fun l d' x hdraws' hx _ hheld => ?_⟩
  · rw [LocalStep.value?_of_draws hdraws] at hnone
    cases hnone
  · cases hstarts
  · rw [hdraws] at hdraws'
    cases hdraws'
    rw [hlast, hid]
  · cases hx
    rw [hfree] at hheld
    cases hheld

/-- The local of a toggle is known as the property that is drawn. -/
theorem Walk.walkStmts_mirrors_iff_toggled :
    (∀ stmt ∈ toggled, stmt.Assigns {}) ∧
    ∃ t : Tracked, (walkStmts {} (fun _ _ f => pure f) toggled {} inModule).result =
        .ok (t.frame, t.walk) ∧
      t.Mirrors ∧ t.walk.bindings.get? "on" = some ⟨"_P", .boolean⟩ := by
  obtain ⟨hwalk, hmirrors⟩ := walkStmts_mirrors_iff {} (fun _ _ f => pure f) toggled {}
    inModule assigns_toggled
  rw [steps_toggled] at hwalk hmirrors
  refine ⟨assigns_toggled, _, hwalk, hmirrors.2 ?_ 4, ?_⟩
  · rintro (_ | _ | _ | _ | n) a ha
    · cases ha
      exact LocalStep.keeps_next
    · cases ha
      exact keeps_lookupStep _
    · cases ha
      exact LocalStep.keeps_next
    · cases ha
      exact keeps_toggleStep
    · cases ha
  · rfl

/-- After `on = Other();` the local is still known as the property drawn before. -/
theorem Walk.walkStmts_knows_overwritten :
    (walkStmts {} (fun _ _ f => pure f) overwritten {} inModule).result =
        .ok ((opening.run {} (overwritten.flatMap Stmt.steps)).frame,
          (opening.run {} (overwritten.flatMap Stmt.steps)).walk) ∧
      (opening.run {} (overwritten.flatMap Stmt.steps)).walk.bindings.get? "on" =
        some ⟨"_P", .boolean⟩ ∧
      (opening.run {} (overwritten.flatMap Stmt.steps)).last "on" = none := by
  refine ⟨(Tracked.performs_walkStmts _ assigns_overwritten opening).result, ?_⟩
  rw [steps_overwritten]
  exact ⟨rfl, rfl⟩

end Instances

end PanelSchema
