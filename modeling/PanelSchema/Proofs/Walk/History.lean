import PanelSchema.Proofs.Walk.Steps

/-!
The history of a module. The modules of a walk are numbered as they start, and what is true
of one where the walk ends was made true by a call met while it was the current one.
-/

namespace PanelSchema

namespace Walk

theorem SameModules.closed {w w' : Walk} (h : w.SameModules w') :
    w'.closed.modules = w.closed.modules := by
  unfold Walk.closed
  rw [h.current]
  cases w.current with
  | none => exact h.modules
  | some m => simp [h.modules]

theorem modules_closed {w : Walk} {m : ModuleDraft} (h : w.current = some m) :
    w.closed.modules = w.modules ++ [m.finish] := by
  simp [Walk.closed, h]

/-- The generation counts the modules, the current one included. -/
def Numbered (w : Walk) : Prop :=
  w.closed.modules.length = w.generation

def Shows (w : Walk) (k : Nat) (Q : Module → Prop) : Prop :=
  ∃ m, w.closed.modules[k]? = some m ∧ Q m

theorem shows_current {w : Walk} {m : ModuleDraft} (h : w.current = some m) (k : Nat)
    (Q : Module → Prop) :
    w.Shows k Q ↔
      (∃ m', w.modules[k]? = some m' ∧ Q m') ∨ k = w.modules.length ∧ Q m.finish := by
  unfold Shows
  rw [modules_closed h]
  rcases Nat.lt_trichotomy k w.modules.length with hk | hk | hk
  · have hne : k ≠ w.modules.length := by omega
    simp [List.getElem?_append_left hk, hne]
  · simp [hk]
  · have hout : (w.modules ++ [m.finish])[k]? = none := by
      apply List.getElem?_eq_none
      rw [List.length_append, List.length_singleton]
      omega
    have hne : k ≠ w.modules.length := by omega
    simp [hout, List.getElem?_eq_none (Nat.le_of_lt hk), hne]

end Walk

namespace Point

variable {s : Setting} {c c' : Point}

theorem Step.numbered (h : Step s c c') (hc : c.walk.Numbered) : c'.walk.Numbered := by
  unfold Walk.Numbered at hc ⊢
  cases h.change with
  | keep hsame hact => rw [hsame.closed, hsame.generation, hc]
  | start name keywords hact hmodules hcurrent hgeneration =>
    rw [Walk.modules_closed hcurrent, hmodules, hgeneration, List.length_append, hc]
    rfl
  | touch htouch hm hm' hmodules hgeneration =>
    rw [Walk.modules_closed hm, List.length_append] at hc
    rw [Walk.modules_closed hm', hmodules, hgeneration, List.length_append, ← hc]
    rfl

theorem Reaches.numbered (h : Reaches s c c') (hc : c.walk.Numbered) : c'.walk.Numbered := by
  induction h with
  | refl => exact hc
  | tail _ hstep ih => exact hstep.numbered ih

theorem step_rightUnique (s : Setting) : Relator.RightUnique (Step s) := by
  intro c d d' h h'
  obtain ⟨task, rest, htasks, h⟩ := h
  obtain ⟨task', rest', htasks', h'⟩ := h'
  rw [htasks, List.cons.injEq] at htasks'
  obtain ⟨rfl, rfl⟩ := htasks'
  rw [h, Except.ok.injEq] at h'
  exact h'

theorem Reaches.to_end {d : Point} (hd : Reaches s c d) (h : Reaches s c c')
    (hend : c'.tasks = []) : Reaches s d c' := by
  obtain hreaches | hreaches :=
    Relation.ReflTransGen.total_of_right_unique (step_rightUnique s) hd h
  · exact hreaches
  · obtain heq | ⟨e, hstep, -⟩ := Relation.ReflTransGen.cases_head hreaches
    · exact heq ▸ .refl
    · obtain ⟨task, rest, htasks, -⟩ := hstep
      rw [hend] at htasks
      cases htasks

/-- No module has the property `Q` when it starts, and one comes to have it at the points
that satisfy `E`, for good. -/
structure Records (s : Setting) (E : Point → Prop) (Q : Module → Prop) : Prop where
  opened : ∀ name keywords, ¬Q (ModuleDraft.opened s name keywords).finish
  touch : ∀ {c m m'}, Touch s c m m' → c.walk.current = some m → m.Sound →
    (Q m'.finish ↔ Q m.finish ∨ E c)
  act : ∀ {c}, E c → (c.act? s).isSome = true ∧ c.walk.current.isSome = true

section

variable {E : Point → Prop} {Q : Module → Prop} {k : Nat}

theorem Records.step (h : Records s E Q) (hstep : Step s c c') (hw : c.walk.Sound)
    (hc : c.walk.Numbered) :
    c'.walk.Shows k Q ↔ c.walk.Shows k Q ∨ c.walk.generation = k + 1 ∧ E c := by
  unfold Walk.Numbered at hc
  cases hstep.change with
  | keep hsame hact =>
    have hE : ¬E c := by
      intro hE
      have hact' := h.act hE
      rcases hact with hact | hact <;> simp [hact] at hact'
    simp [Walk.Shows, hsame.closed, hE]
  | start name keywords hact hmodules hcurrent hgeneration =>
    have hE : ¬E c := fun hE => by simpa [hact] using (h.act hE).1
    have hnew := h.opened name keywords
    rw [Walk.shows_current hcurrent, hmodules]
    simp [Walk.Shows, hE, hnew]
  | touch htouch hm hm' hmodules hgeneration =>
    rw [Walk.modules_closed hm, List.length_append, List.length_singleton] at hc
    -- Only the current module is touched, and it is the last one.
    have hk : c.walk.generation = k + 1 ↔ k = c.walk.modules.length := by omega
    rw [Walk.shows_current hm, Walk.shows_current hm', hmodules, hk,
      h.touch htouch hm (hw.current _ hm)]
    grind

theorem Records.cause (h : Records s E Q) (hreaches : Reaches s c c') (hw : c.walk.Sound)
    (hc : c.walk.Numbered) (hstart : ¬c.walk.Shows k Q) (hend : c'.walk.Shows k Q) :
    ∃ d, Reaches s c d ∧ d.walk.generation = k + 1 ∧ E d := by
  induction hreaches with
  | refl => exact absurd hend hstart
  | @tail d d' hreaches hstep ih =>
    rw [h.step hstep (Reaches.sound hreaches hw) (Reaches.numbered hreaches hc)] at hend
    rcases hend with hend | ⟨hgeneration, hE⟩
    · exact ih hend
    · exact ⟨d, hreaches, hgeneration, hE⟩

theorem Records.lasts (h : Records s E Q) (hreaches : Reaches s c c') (hw : c.walk.Sound)
    (hc : c.walk.Numbered) (hshows : c.walk.Shows k Q) : c'.walk.Shows k Q := by
  induction hreaches with
  | refl => exact hshows
  | tail hreaches hstep ih =>
    rw [h.step hstep (Reaches.sound hreaches hw) (Reaches.numbered hreaches hc)]
    exact .inl ih

/-- A module has a recorded property at the end just when the walk went through a point that
gave it the property. -/
theorem Records.iff (h : Records s E Q) (hreaches : Reaches s c c') (hend : c'.tasks = [])
    (hw : c.walk.Sound) (hc : c.walk.Numbered) (hstart : ¬c.walk.Shows k Q) :
    c'.walk.Shows k Q ↔ ∃ d, Reaches s c d ∧ d.walk.generation = k + 1 ∧ E d := by
  constructor
  · exact h.cause hreaches hw hc hstart
  · rintro ⟨d, hd, hgeneration, hE⟩
    have hdw := Reaches.sound hd hw
    have hdn := Reaches.numbered hd hc
    -- There is one way to the end, so the step from `d` is on it.
    obtain heq | ⟨e, hstep, hrest⟩ :=
      Relation.ReflTransGen.cases_head (Reaches.to_end hd hreaches hend)
    · have hact := (h.act hE).1
      rw [heq] at hact
      simp [act?, call?, hend] at hact
    · have hshows := (h.step (k := k) hstep hdw hdn).2 (.inr ⟨hgeneration, hE⟩)
      exact h.lasts hrest (hstep.sound hdw) (hstep.numbered hdn) hshows

end

end Point

end PanelSchema
