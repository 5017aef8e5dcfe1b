import PanelSchema.Proofs.Roster
import PanelSchema.Proofs.Walk.Branches
import PanelSchema.Proofs.Walk.Effects
import PanelSchema.Proofs.Walk.Equations

/-!
Bodies that only draw. A run of such a body takes one branch of each test and reaches some
of the calls; the walk takes all branches at once. What the walk collects for a property
is visible exactly where a run reaches a call that draws it.
-/

namespace PanelSchema

open Syntax (Expr Stmt)

namespace Walk

/-- The identifier of the property that an expression draws. -/
def drawnBy? (w : Walk) : Expr → Option String
  | .call _ callee _ args =>
    match callee.finalName?.map CallShape.ofMethod with
    | some (.bind _) => ((args.findSome? w.draftLocal?).bind w.drafts.get?).map (·.identifier)
    | _ => none
  | _ => none

mutual

/-- The identifiers that a statement draws when it takes the branches `taken`. -/
def drawnIn (w : Walk) (taken : Expr → Bool → Bool) : Stmt → List String
  | .block _ body => drawnInAll w taken body
  | .ifThen _ test body => if taken test true then drawnIn w taken body else []
  | .ifElse _ test yes no =>
    (if taken test true then drawnIn w taken yes else []) ++
      (if taken test false then drawnIn w taken no else [])
  | .expr e => (w.drawnBy? e).toList
  | _ => []

def drawnInAll (w : Walk) (taken : Expr → Bool → Bool) : List Stmt → List String
  | [] => []
  | stmt :: rest => drawnIn w taken stmt ++ drawnInAll w taken rest

end

/-- The branch that a test comes to under an assignment. -/
def runs (w : Walk) (τ : String → Bool) (test : Expr) (branch : Bool) : Bool :=
  w.bindings.truth (.booleans τ) test == branch

/-- A boolean test of locals that are neither drawn nor open a section. -/
structure PlainTest (w : Walk) (drawn : List String) (test : Expr) : Prop where
  boolean : BooleanTest w.bindings test
  undrawn : ∀ n ∈ namesIn test, n ∉ drawn
  untoggled : ∀ n ∈ namesIn test, w.toggles.get? n = none

/-- Blocks and branches of calls that draw the locals `drawn`. -/
inductive DrawingBody (w : Walk) (drawn : List String) : Stmt → Prop where
  | call {m callee typeArgs args method type l d} (hmethod : callee.finalName? = some method)
      (hshape : CallShape.ofMethod method = .bind type)
      (hlocal : args.findSome? w.draftLocal? = some l) (hdrawn : l ∈ drawn)
      (hdraft : w.drafts.get? l = some d) (hid : d.identifier ≠ "") :
      DrawingBody w drawn (.expr (.call m callee typeArgs args))
  | block {m body} (hbody : ∀ stmt ∈ body, DrawingBody w drawn stmt) :
      DrawingBody w drawn (.block m body)
  | ifThen {m test body} (htest : w.PlainTest drawn test) (hbody : DrawingBody w drawn body) :
      DrawingBody w drawn (.ifThen m test body)
  | ifElse {m test yes no} (htest : w.PlainTest drawn test) (hyes : DrawingBody w drawn yes)
      (hno : DrawingBody w drawn no) : DrawingBody w drawn (.ifElse m test yes no)

/-- A walk that is some way into a body it started as `w`. The properties known so far are
those of `known`, and each is visible where `visible` says. -/
structure Within (w : Walk) (drawn : List String) (visible : (String → Bool) → String → Prop)
    (known : String → Prop) (w' : Walk) : Prop where
  generation : w'.generation = w.generation
  toggles : w'.toggles = w.toggles
  bindings : ∀ n, n ∉ drawn → w'.bindings.get? n = w.bindings.get? n
  drafts : ∀ n, (w'.drafts.get? n).map (·.identifier) = (w.drafts.get? n).map (·.identifier)
  roster : ∃ m, w'.current = some m ∧ m.roster.Shown ∧ m.roster.Named ∧
    (∀ τ id, m.roster.Visible (Valuation.booleans τ).reading id ↔ visible τ id) ∧
    ∀ id, id ∈ m.roster.identifiers ↔ known id

theorem identifier_describe (s : Setting) (w : Walk) (method : String) (type : PropertyType)
    (typeArgs : List String) (args rest : List Expr) (d : Draft) :
    (w.describe s method type typeArgs args rest d).identifier = d.identifier := by
  unfold describe
  extract_lets labelled typed ranged
  have hlabelled : labelled.identifier = d.identifier := by
    unfold labelled
    split <;> rfl
  have hranged : ranged.identifier = labelled.identifier := by
    unfold ranged
    split
    · split <;> rfl
    · rfl
  rw [← hlabelled, ← hranged]
  split
  · split <;> rfl
  · split
    · split <;> rfl
    · rfl

private theorem findIdx?_of_findSome? {α β : Type} {g : α → Option β} {xs : List α} {b : β}
    (h : xs.findSome? g = some b) :
    ∃ i, xs.findIdx? (fun a => (g a).isSome) = some i ∧ xs[i]?.bind g = some b := by
  induction xs with
  | nil => cases h
  | cons a rest ih =>
    rw [List.findSome?_cons] at h
    cases ha : g a with
    | some b' =>
      rw [ha] at h
      exact ⟨0, by simp [List.findIdx?_cons, ha], by simpa [ha] using h⟩
    | none =>
      rw [ha] at h
      obtain ⟨i, hi, hb⟩ := ih h
      exact ⟨i + 1, by simp [List.findIdx?_cons, ha, hi], by simpa using hb⟩

theorem drawing?_of_findSome? (s : Setting) {w : Walk} (method : String) (type : PropertyType)
    (typeArgs : List String) {args : List Expr} (f : Frame) (target : Target) {l : String}
    {d : Draft} (hlocal : args.findSome? w.draftLocal? = some l)
    (hdraft : w.drafts.get? l = some d) :
    ∃ d', w.drawing? s method type typeArgs args f target = some (l, d') ∧
      d'.identifier = d.identifier := by
  obtain ⟨i, hi, hl⟩ := findIdx?_of_findSome? hlocal
  unfold drawing? drawnLocal?
  rw [hi]
  simp only [hl, Option.map_some, Option.bind_some, hdraft]
  exact ⟨_, rfl, identifier_describe s w method type typeArgs args _ d⟩

namespace Within

variable {w : Walk} {drawn : List String} {visible visible' : (String → Bool) → String → Prop}
  {known known' : String → Prop} {w' : Walk}

theorem congr (h : Within w drawn visible known w')
    (hvisible : ∀ τ id, visible τ id ↔ visible' τ id) (hknown : ∀ id, known id ↔ known' id) :
    Within w drawn visible' known' w' := by
  obtain ⟨m, hm, hshown, hnamed, hv, hk⟩ := h.roster
  refine { h with roster := ⟨m, hm, hshown, hnamed, ?_, ?_⟩ }
  · intro τ id
    rw [hv, hvisible]
  · intro id
    rw [hk, hknown]

theorem draftLocal? (h : Within w drawn visible known w') :
    w'.draftLocal? = w.draftLocal? := by
  funext e
  apply draftLocal?_congr
  intro n
  have hn := congrArg Option.isSome (h.drafts n)
  simpa [Dict.contains] using hn

theorem agreeOn (h : Within w drawn visible known w') {test : Expr}
    (htest : w.PlainTest drawn test) : w.bindings.AgreeOn w'.bindings test :=
  fun n hn => (h.bindings n (htest.undrawn n hn)).symm

theorem normalize (h : Within w drawn visible known w') {f : Frame}
    (hf : f.generation = w.generation) : w'.normalize f = f := by
  unfold Walk.normalize
  rw [if_pos (hf.trans h.generation.symm)]

theorem draw (h : Within w drawn visible known w') {s : Setting} {method : String}
    {type : PropertyType} {typeArgs : List String} {args : List Expr} {l : String} {d : Draft}
    (hlocal : args.findSome? w.draftLocal? = some l) (hdrawn : l ∈ drawn)
    (hdraft : w.drafts.get? l = some d) (hid : d.identifier ≠ "") {f : Frame}
    {asks : (String → Bool) → Bool} (hf : f.Asks asks) :
    Within w drawn (fun τ id => visible τ id ∨ asks τ = true ∧ id = d.identifier)
      (fun id => known id ∨ id = d.identifier)
      (w'.drawn s method type typeArgs args f .discard) := by
  obtain ⟨m, hm, hshown, hnamed, hv, hk⟩ := h.roster
  obtain ⟨d₁, hd₁, hid₁⟩ : ∃ d₁, w'.drafts.get? l = some d₁ ∧ d₁.identifier = d.identifier := by
    have hl := h.drafts l
    rw [hdraft] at hl
    exact Option.map_eq_some_iff.1 hl
  obtain ⟨d₂, hd₂, hid₂⟩ := drawing?_of_findSome? s method type typeArgs f .discard
    (h.draftLocal? ▸ hlocal) hd₁
  rw [hid₁] at hid₂
  have hid' : d₂.identifier ≠ "" := hid₂ ▸ hid
  unfold Walk.drawn
  rw [hd₂]
  refine ⟨h.generation, h.toggles, ?_, ?_, m.shown d₂ f, ?_, ?_, ?_, ?_, ?_⟩
  · intro n hn
    have hne : n ≠ l := fun heq => hn (heq ▸ hdrawn)
    simp [keptAs, Target.name?, boundTo, shown, hid', Dict.get?_insert, hne, h.bindings n hn]
  · intro n
    by_cases hn : n = l
    · simp [keptAs, Target.name?, boundTo, shown, hn, hid₂, hdraft]
    · simp [keptAs, Target.name?, boundTo, shown, Dict.get?_insert, hn, h.drafts n]
  · simp [keptAs, Target.name?, boundTo, shown, hm]
  · exact hshown.attach hid' f.visibility
  · exact hnamed.attach d₂ f.visibility
  · intro τ id
    change ((m.roster.attach d₂ f.visibility).1).Visible _ id ↔ _
    rw [Roster.visible_attach _ hshown hid', hv, hid₂, hf.holds, and_comm (a := id = _)]
  · intro id
    change id ∈ (m.roster.attach d₂ f.visibility).1.identifiers ↔ _
    rw [Roster.mem_identifiers_attach hid', hk, hid₂]

end Within

/-- From any walk within the body and in any frame of it, unless something is warned of,
`x` ends in the same frame and has drawn what a run draws that gets there. -/
def Draws (w : Walk) (drawn : List String) (x : Frame → WalkM Frame)
    (run : (Expr → Bool → Bool) → List String) : Prop :=
  ∀ f w' asks visible known, Within w drawn visible known w' → f.generation = w.generation →
    f.Asks asks → (x f w').warns = false →
    ∃ w'', (x f w').result = .ok (f, w'') ∧
      Within w drawn (fun τ id => visible τ id ∨ asks τ = true ∧ id ∈ run (w.runs τ))
        (fun id => known id ∨ id ∈ run fun _ _ => true) w''

section Draws

variable {s : Setting} {follow : Follow} {w : Walk} {drawn : List String}

theorem draws_call {m : Syntax.Mark} {callee : Expr} {typeArgs : List String}
    {args : List Expr} {method : String} {type : PropertyType} {l : String} {d : Draft}
    (hmethod : callee.finalName? = some method)
    (hshape : CallShape.ofMethod method = .bind type)
    (hlocal : args.findSome? w.draftLocal? = some l) (hdrawn : l ∈ drawn)
    (hdraft : w.drafts.get? l = some d) (hid : d.identifier ≠ "") :
    Draws w drawn (walkStmt s follow (.expr (.call m callee typeArgs args)))
      (fun taken => w.drawnIn taken (.expr (.call m callee typeArgs args))) := by
  intro f w' asks visible known h hgeneration hf _
  have hcall : walkStmt s follow (.expr (.call m callee typeArgs args)) f w' =
      walkShape s (.bind type) method typeArgs args f .discard w' := by
    rw [walkStmt_expr, h.normalize hgeneration, walkExpr, walkValue]
    · simp [hmethod, hshape]
    · simp
    · simp
  have hidentifier : w.drawnBy? (.call m callee typeArgs args) = some d.identifier := by
    simp [drawnBy?, hmethod, hshape, hlocal, hdraft]
  rw [hcall]
  refine ⟨_, (gives_walkShape s (.bind type) method typeArgs args f .discard w').result, ?_⟩
  apply (h.draw hlocal hdrawn hdraft hid hf).congr
  · intro τ id
    simp [drawnIn, hidentifier]
  · intro id
    simp [drawnIn, hidentifier]

theorem draws_block {m : Syntax.Mark} {body : List Stmt}
    (hbody : ∀ stmt ∈ body, Draws w drawn (walkStmt s follow stmt) (w.drawnIn · stmt)) :
    Draws w drawn (walkStmt s follow (.block m body)) (w.drawnIn · (.block m body)) := by
  have hall : Draws w drawn (walkStmts s follow body) (w.drawnInAll · body) := by
    induction body with
    | nil =>
      intro f w' asks visible known h hgeneration hf _
      rw [walkStmts_nil]
      exact ⟨w', rfl, h.congr (by simp [drawnInAll]) (by simp [drawnInAll])⟩
    | cons stmt rest ih =>
      intro f w' asks visible known h hgeneration hf hquiet
      rw [walkStmts_cons] at hquiet ⊢
      obtain ⟨w₁, hw₁, h₁⟩ := hbody stmt (by simp) f w' asks visible known h hgeneration hf
        (Traced.warns_of_bind hquiet)
      rw [Traced.quiet_bind_of_ok hw₁] at hquiet
      rw [Traced.result_bind_of_ok hw₁]
      obtain ⟨w₂, hw₂, h₂⟩ := ih (fun stmt hstmt => hbody stmt (by simp [hstmt])) f w₁ asks _ _
        h₁ hgeneration hf hquiet.2
      refine ⟨w₂, hw₂, h₂.congr ?_ ?_⟩
      · intro τ id
        simp only [drawnInAll, List.mem_append, and_or_left, or_assoc]
      · intro id
        simp only [drawnInAll, List.mem_append, or_assoc]
  intro f w' asks visible known h hgeneration hf hquiet
  rw [walkStmt_block, h.normalize hgeneration] at hquiet ⊢
  obtain ⟨w₁, hw₁, h₁⟩ := hall f w' asks visible known h hgeneration hf hquiet
  exact ⟨w₁, hw₁, h₁.congr (by simp [drawnIn]) (by simp [drawnIn])⟩

theorem Within.branches {visible : (String → Bool) → String → Prop} {known : String → Prop}
    {w' : Walk} (h : Within w drawn visible known w') {test : Expr}
    (htest : w.PlainTest drawn test) {f : Frame} {asks : (String → Bool) → Bool}
    (hf : f.Asks asks) (hquiet : (branches s test f w').warns = false) :
    ∃ yes no, (branches s test f w').result = .ok (yes, no) ∧
      yes.generation = f.generation ∧ no.generation = f.generation ∧
      yes.Asks (fun τ => asks τ && w.runs τ test true) ∧
      no.Asks (fun τ => asks τ && w.runs τ test false) := by
  have hagree := h.agreeOn htest
  have htoggles : ∀ n ∈ namesIn test, w'.toggles.get? n = none := by
    rw [h.toggles]
    exact htest.untoggled
  obtain ⟨yes, no, hbranches, hyes, hno, hyesAsks, hnoAsks⟩ :=
    branches_boolean (htest.boolean.congr hagree) htoggles hf hquiet
  refine ⟨yes, no, hbranches, hyes, hno, ?_, ?_⟩
  · simpa only [runs, htest.boolean.truth_congr hagree, beq_true] using hyesAsks
  · simpa only [runs, htest.boolean.truth_congr hagree, beq_false] using hnoAsks

theorem draws_ifThen {m : Syntax.Mark} {test : Expr} {body : Stmt}
    (htest : w.PlainTest drawn test)
    (hbody : Draws w drawn (walkStmt s follow body) (w.drawnIn · body)) :
    Draws w drawn (walkStmt s follow (.ifThen m test body))
      (w.drawnIn · (.ifThen m test body)) := by
  intro f w' asks visible known h hgeneration hf hquiet
  rw [walkStmt_ifThen, h.normalize hgeneration] at hquiet ⊢
  obtain ⟨yes, no, hbranches, hyes, -, hyesAsks, -⟩ :=
    h.branches htest hf (Traced.warns_of_bind hquiet)
  rw [Traced.quiet_bind_of_ok hbranches] at hquiet
  rw [Traced.result_bind_of_ok hbranches]
  obtain ⟨w₁, hw₁, h₁⟩ := hbody yes w' _ visible known h (hyes.trans hgeneration) hyesAsks
    (Traced.warns_of_bind hquiet.2)
  rw [Traced.result_bind_of_ok hw₁]
  refine ⟨w₁, rfl, h₁.congr ?_ ?_⟩
  · intro τ id
    by_cases htaken : w.runs τ test true = true <;> simp [drawnIn, htaken]
  · intro id
    simp [drawnIn]

theorem draws_ifElse {m : Syntax.Mark} {test : Expr} {yes no : Stmt}
    (htest : w.PlainTest drawn test)
    (hyes : Draws w drawn (walkStmt s follow yes) (w.drawnIn · yes))
    (hno : Draws w drawn (walkStmt s follow no) (w.drawnIn · no)) :
    Draws w drawn (walkStmt s follow (.ifElse m test yes no))
      (w.drawnIn · (.ifElse m test yes no)) := by
  intro f w' asks visible known h hgeneration hf hquiet
  rw [walkStmt_ifElse, h.normalize hgeneration] at hquiet ⊢
  obtain ⟨fyes, fno, hbranches, hfyes, hfno, hyesAsks, hnoAsks⟩ :=
    h.branches htest hf (Traced.warns_of_bind hquiet)
  rw [Traced.quiet_bind_of_ok hbranches] at hquiet
  rw [Traced.result_bind_of_ok hbranches]
  obtain ⟨w₁, hw₁, h₁⟩ := hyes fyes w' _ visible known h (hfyes.trans hgeneration) hyesAsks
    (Traced.warns_of_bind hquiet.2)
  rw [Traced.quiet_bind_of_ok hw₁] at hquiet
  rw [Traced.result_bind_of_ok hw₁]
  obtain ⟨w₂, hw₂, h₂⟩ := hno fno w₁ _ _ _ h₁ (hfno.trans hgeneration) hnoAsks
    (Traced.warns_of_bind hquiet.2.2)
  rw [Traced.result_bind_of_ok hw₂]
  refine ⟨w₂, rfl, h₂.congr ?_ ?_⟩
  · intro τ id
    by_cases htaken : w.bindings.truth (.booleans τ) test = true <;>
      simp [drawnIn, runs, htaken]
  · intro id
    simp [drawnIn, or_assoc]

theorem DrawingBody.draws {body : Stmt} (hbody : DrawingBody w drawn body) :
    Draws w drawn (walkStmt s follow body) (w.drawnIn · body) := by
  induction hbody with
  | call hmethod hshape hlocal hdrawn hdraft hid =>
    exact draws_call hmethod hshape hlocal hdrawn hdraft hid
  | block hbody ih => exact draws_block ih
  | ifThen htest hbody ih => exact draws_ifThen htest ih
  | ifElse htest hyes hno ihyes ihno => exact draws_ifElse htest ihyes ihno

end Draws

/-- A module nothing was drawn in yet, and a frame at its start. -/
structure Fresh (w : Walk) (f : Frame) (m : ModuleDraft) : Prop where
  current : w.current = some m
  roster : m.roster = { policy := .disjunction }
  generation : f.generation = w.generation
  visibility : f.visibility = .always

/-- Unless a product of conditions is past its limit, the walk over a drawing body in a
fresh module ends, the properties of the module are those the body can draw, and each is
visible exactly where running the body draws it. -/
theorem visible_iff_drawn {s : Setting} {follow : Follow} {w : Walk} {f : Frame}
    {m : ModuleDraft} {drawn : List String} {body : Stmt} (hfresh : w.Fresh f m)
    (hbody : DrawingBody w drawn body)
    (hquiet : (walkStmt s follow body f w).warns = false) :
    ∃ w' m', (walkStmt s follow body f w).result = .ok (f, w') ∧ w'.current = some m' ∧
      (∀ id, id ∈ m'.finish.properties.map (·.identifier) ↔
        id ∈ w.drawnIn (fun _ _ => true) body) ∧
      ∀ p ∈ m'.finish.properties, ∀ τ : String → Bool,
        Visibility.holds (Valuation.booleans τ).reading ⟨p.conditions⟩ = true ↔
          p.identifier ∈ w.drawnIn (w.runs τ) body := by
  have hstart : Within w drawn (fun _ _ => False) (fun _ => False) w := by
    refine ⟨rfl, rfl, fun _ _ => rfl, fun _ => rfl, m, hfresh.current, ?_, ?_, ?_, ?_⟩
    · rw [hfresh.roster]
      exact Roster.shown_empty
    · rw [hfresh.roster]
      exact Roster.named_empty _
    · simp [hfresh.roster, Roster.Visible, Roster.identifiers]
    · simp [hfresh.roster, Roster.identifiers]
  have hasks : f.Asks fun _ => true := by
    constructor
    · rw [hfresh.visibility]
      intro c hc
      cases hc
    · rw [hfresh.visibility]
      intro τ
      rfl
  obtain ⟨w', hw', hwithin⟩ := hbody.draws f w _ _ _ hstart hfresh.generation hasks hquiet
  obtain ⟨m', hm', hshown, hnamed, hvisible, hknown⟩ := hwithin.roster
  refine ⟨w', m', hw', hm', ?_, ?_⟩
  · intro id
    change id ∈ m'.roster.finish.map (·.identifier) ↔ _
    rw [Roster.identifiers_finish, hknown]
    simp
  · intro p hp τ
    rw [Roster.holds_finish _ hshown hnamed hp, hvisible]
    simp

/-! ### An instance -/

section Instance

private def deferring : Setting :=
  { catalog := {}, declarations := {}, settings := { conditionPolicy := .disjunction } }

/-- A module has just started, with two properties and two booleans at hand. -/
private def atStart : Walk :=
  started deferring "Panel" [] .discard
    { drafts := ⟨[("p", { identifier := "_P" }), ("q", { identifier := "_Q" })]⟩
      bindings := ⟨[("a", { path := "_A", kind := .boolean }),
        ("b", { path := "_B", kind := .boolean })]⟩ }

private def drawField (l : String) : Stmt :=
  .expr (.call default (.name default "FloatField") [] [.name default l])

/-- `a && !b` -/
private def onlyFirst : Expr :=
  .binary default (.name default "a") .and (.unary default .not (.name default "b"))

/-- `true != b` -/
private def notSecond : Expr :=
  .binary default (.bool default true) .ne (.name default "b")

/-- `if (onlyFirst) { p; if (notSecond) q; } else q; if (notSecond) p;` -/
private def twoFields : Stmt :=
  .block default
    [.ifElse default onlyFirst
      (.block default [drawField "p", .ifThen default notSecond (drawField "q")])
      (drawField "q"),
    .ifThen default notSecond (drawField "p")]

private theorem twoFields_drawing : DrawingBody atStart ["p", "q"] twoFields := by
  have hp : DrawingBody atStart ["p", "q"] (drawField "p") :=
    .call rfl rfl rfl (by simp) rfl (by decide)
  have hq : DrawingBody atStart ["p", "q"] (drawField "q") :=
    .call rfl rfl rfl (by simp) rfl (by decide)
  have hfirst : atStart.PlainTest ["p", "q"] onlyFirst :=
    ⟨.and (.name rfl rfl) (.not (.name rfl rfl)), by decide, by decide⟩
  have hsecond : atStart.PlainTest ["p", "q"] notSecond :=
    ⟨.compareLeft (.inr rfl) rfl rfl rfl, by decide, by decide⟩
  apply DrawingBody.block
  simp only [List.forall_mem_cons]
  refine ⟨.ifElse hfirst ?_ hq, .ifThen hsecond hp, by simp⟩
  apply DrawingBody.block
  simp only [List.forall_mem_cons]
  exact ⟨hp, .ifThen hsecond hq, by simp⟩

theorem visible_iff_drawn_twoFields :
    (∃ w' m', (walkStmt deferring (fun _ _ f => pure f) twoFields { generation := 1 }
        atStart).result = .ok ({ generation := 1 }, w') ∧ w'.current = some m' ∧
      (∀ id, id ∈ m'.finish.properties.map (·.identifier) ↔
        id ∈ atStart.drawnIn (fun _ _ => true) twoFields) ∧
      ∀ p ∈ m'.finish.properties, ∀ τ : String → Bool,
        Visibility.holds (Valuation.booleans τ).reading ⟨p.conditions⟩ = true ↔
          p.identifier ∈ atStart.drawnIn (atStart.runs τ) twoFields) ∧
    atStart.drawnIn (atStart.runs fun path => path == "_A") twoFields = ["_P", "_Q", "_P"] ∧
    atStart.drawnIn (atStart.runs fun path => path == "_B") twoFields = ["_Q"] := by
  refine ⟨?_, by decide +kernel, by decide +kernel⟩
  exact visible_iff_drawn ⟨rfl, rfl, rfl, rfl⟩ twoFields_drawing (by decide +kernel)

end Instance

end Walk

end PanelSchema
