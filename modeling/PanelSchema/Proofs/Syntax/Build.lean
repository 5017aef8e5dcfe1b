import Mathlib.Data.List.Forall2
import PanelSchema.Syntax.Reading

/-!
Two builds side by side, as a condition decides them: where it holds they give related results,
and otherwise they find a malformed piece. Below, what one build gives.
-/

namespace PanelSchema

def Problem.IsMalformed (p : Problem) : Prop :=
  ∃ message issuer location span, p = .malformed message issuer location span

namespace Syntax.Build

variable {α β α' β' : Type}

def outcome (b : Build α) (s : BuildState) : Except Problem α :=
  (StateT.run (ExceptT.run b) s).1

/-! ### Two builds side by side -/

/-- Both ended with related results and the same node comes next, where the condition holds.
Where it does not, both found a malformed piece. -/
inductive Ends (P : Prop) (R : α → α' → Prop) :
    Except Problem α × BuildState → Except Problem α' × BuildState → Prop where
  | ok {a : α} {a' : α'} {s s' : BuildState} (hP : P) (h : R a a') (hid : s'.nextId = s.nextId) :
      Ends P R (.ok a, s) (.ok a', s')
  | error {p p' : Problem} {s s' : BuildState} (hP : ¬P) (h : p.IsMalformed)
      (h' : p'.IsMalformed) : Ends P R (.error p, s) (.error p', s')

/-- From the same node on, the condition decides how both builds end. -/
def Meets (P : Prop) (R : α → α' → Prop) (b : Build α) (b' : Build α') : Prop :=
  ∀ s s' : BuildState, s'.nextId = s.nextId →
    Ends P R (StateT.run (ExceptT.run b) s) (StateT.run (ExceptT.run b') s')

section

variable {P Q : Prop} {R : α → α' → Prop} {S : β → β' → Prop} {b : Build α} {b' : Build α'}
  {f : α → Build β} {f' : α' → Build β'}

theorem Meets.of_iff (h : Meets P R b b') (hiff : P ↔ Q) : Meets Q R b b' :=
  propext hiff ▸ h

theorem meets_pure {a : α} {a' : α'} (h : R a a') : Meets True R (pure a) (pure a') :=
  fun _ _ hid => .ok trivial h hid

theorem meets_malformed {span span' : Span} {issuer issuer' message message' : String} :
    Meets False R (malformed span issuer message) (malformed span' issuer' message') :=
  fun _ _ _ => .error not_false ⟨_, _, _, _, rfl⟩ ⟨_, _, _, _, rfl⟩

theorem meets_mark (span span' : Span) :
    Meets True (fun m m' => m'.id = m.id) (mark span) (mark span') :=
  fun _ _ hid => .ok trivial hid (congrArg (· + 1) hid)

theorem meets_note (level level' : NoteLevel) (text text' : String) :
    Meets True (fun _ _ => True) (note level text) (note level' text') :=
  fun _ _ hid => .ok trivial trivial hid

theorem Meets.bind (hb : Meets P R b b') (hf : ∀ a a', R a a' → Meets Q S (f a) (f' a')) :
    Meets (P ∧ Q) S (b >>= f) (b' >>= f') := by
  intro s s' hid
  have h := hb s s' hid
  rw [ExceptT.run_bind, StateT.run_bind, ExceptT.run_bind, StateT.run_bind]
  generalize StateT.run (ExceptT.run b) s = x, StateT.run (ExceptT.run b') s' = x' at h ⊢
  cases h with
  | @ok _ _ t t' hP h hid =>
    change Ends _ S (StateT.run (ExceptT.run (f _)) t) (StateT.run (ExceptT.run (f' _)) t')
    rw [and_iff_right hP]
    exact hf _ _ h t t' hid
  | error hP h h' => exact .error (fun hboth => hP hboth.1) h h'

theorem Meets.andThen (hb : Meets P R b b') (hf : ∀ a a', R a a' → Meets True S (f a) (f' a')) :
    Meets P S (b >>= f) (b' >>= f') :=
  (hb.bind hf).of_iff (and_iff_left trivial)

theorem Meets.after (hb : Meets True R b b') (hf : ∀ a a', R a a' → Meets Q S (f a) (f' a')) :
    Meets Q S (b >>= f) (b' >>= f') :=
  (hb.bind hf).of_iff (and_iff_right trivial)

theorem Meets.map {g : α → β} {g' : α' → β'} (hb : Meets P R b b')
    (hg : ∀ a a', R a a' → S (g a) (g' a')) : Meets P S (g <$> b) (g' <$> b') := by
  rw [map_eq_pure_bind, map_eq_pure_bind]
  exact hb.andThen fun a a' h => meets_pure (hg a a' h)

theorem meets_marked {span span' : Span} {g : Mark → α} {g' : Mark → α'}
    (h : ∀ m m' : Mark, m'.id = m.id → R (g m) (g' m')) :
    Meets True R (mark span >>= fun m => pure (g m)) (mark span' >>= fun m => pure (g' m)) :=
  (meets_mark span span').after fun m m' hm => meets_pure (h m m' hm)

theorem meets_mapM {C : α → Prop} {xs : List α} {xs' : List α'}
    (h : List.Forall₂ (fun x x' => Meets (C x) S (f x) (f' x')) xs xs') :
    Meets (∀ x ∈ xs, C x) (List.Forall₂ S) (xs.mapM f) (xs'.mapM f') := by
  induction h with
  | nil => exact (meets_pure .nil).of_iff (by simp)
  | cons hx _ ih =>
    rw [List.mapM_cons, List.mapM_cons, List.forall_mem_cons]
    exact hx.bind fun y y' hy => ih.andThen fun ys ys' hys => meets_pure (.cons hy hys)

theorem Meets.ok (h : Meets P R b b') (hP : P) : ∃ a, b.outcome {} = .ok a := by
  have hends := h {} {} rfl
  unfold outcome
  generalize StateT.run (ExceptT.run b) {} = x, StateT.run (ExceptT.run b') {} = x' at hends ⊢
  cases hends with
  | ok => exact ⟨_, rfl⟩
  | error hnot => exact absurd hP hnot

theorem Meets.error (h : Meets P R b b') (hP : ¬P) :
    ∃ p, p.IsMalformed ∧ b.outcome {} = .error p := by
  have hends := h {} {} rfl
  unfold outcome
  generalize StateT.run (ExceptT.run b) {} = x, StateT.run (ExceptT.run b') {} = x' at hends ⊢
  cases hends with
  | ok hyes => exact absurd hyes hP
  | error _ hp => exact ⟨_, hp, rfl⟩

end

section

variable {b : Build α} {f : α → Build β} {s : BuildState}

theorem outcome_bind_of_ok {a : α} (h : b.outcome s = .ok a) :
    ∃ s', (b >>= f).outcome s = (f a).outcome s' := by
  unfold outcome at h ⊢
  rw [ExceptT.run_bind, StateT.run_bind]
  rcases hrun : StateT.run (ExceptT.run b) s with ⟨result, s'⟩
  rw [hrun] at h
  cases h
  exact ⟨s', rfl⟩

theorem outcome_bind_of_error {p : Problem} (h : b.outcome s = .error p) :
    (b >>= f).outcome s = .error p := by
  unfold outcome at h ⊢
  rw [ExceptT.run_bind, StateT.run_bind]
  rcases hrun : StateT.run (ExceptT.run b) s with ⟨result, s'⟩
  rw [hrun] at h
  cases h
  rfl

end

/-! ### What a build gives -/

def Yields (b : Build α) (P : α → Prop) : Prop :=
  ∀ s, ∃ a, b.outcome s = .ok a ∧ P a

theorem yields_pure {P : α → Prop} {a : α} (h : P a) : (pure a : Build α).Yields P :=
  fun _ => ⟨a, rfl, h⟩

theorem yields_mark (span : Span) : (mark span).Yields fun _ => True :=
  fun _ => ⟨_, rfl, trivial⟩

theorem Yields.bind {P : α → Prop} {Q : β → Prop} {b : Build α} {f : α → Build β}
    (hb : b.Yields P) (hf : ∀ a, P a → (f a).Yields Q) : (b >>= f).Yields Q := by
  intro s
  obtain ⟨a, ha, hP⟩ := hb s
  obtain ⟨s', hs'⟩ := outcome_bind_of_ok (f := f) ha
  rw [hs']
  exact hf a hP s'

theorem yields_marked {P : α → Prop} (span : Span) {f : Mark → α} (h : ∀ m, P (f m)) :
    (mark span >>= fun m => pure (f m)).Yields P :=
  (yields_mark span).bind fun m _ => yields_pure (h m)

/-! ### What a build can give -/

def Ensures (b : Build α) (P : α → Prop) : Prop :=
  ∀ s a, b.outcome s = .ok a → P a

theorem ensures_any (b : Build α) : b.Ensures fun _ => True :=
  fun _ _ _ => trivial

theorem ensures_pure {P : α → Prop} {a : α} (h : P a) : (pure a : Build α).Ensures P := by
  intro s b hb
  cases hb
  exact h

theorem ensures_malformed {P : α → Prop} (span : Span) (issuer message : String) :
    (malformed span issuer message : Build α).Ensures P := by
  intro s a h
  cases h

theorem Ensures.bind {P : α → Prop} {Q : β → Prop} {b : Build α} {f : α → Build β}
    (hb : b.Ensures P) (hf : ∀ a, P a → (f a).Ensures Q) : (b >>= f).Ensures Q := by
  intro s c hc
  cases ha : b.outcome s with
  | error p =>
    rw [outcome_bind_of_error ha] at hc
    cases hc
  | ok a =>
    obtain ⟨s', hs'⟩ := outcome_bind_of_ok (f := f) ha
    rw [hs'] at hc
    exact hf a (hb s a ha) s' c hc

theorem Ensures.after {Q : β → Prop} {b : Build α} {f : α → Build β}
    (hf : ∀ a, (f a).Ensures Q) : (b >>= f).Ensures Q :=
  (ensures_any b).bind fun a _ => hf a

theorem ensures_mapM {P : β → Prop} {f : α → Build β} {xs : List α}
    (h : ∀ x ∈ xs, (f x).Ensures P) : (xs.mapM f).Ensures fun ys => ∀ y ∈ ys, P y := by
  induction xs with
  | nil => exact ensures_pure (by simp)
  | cons x xs ih =>
    rw [List.forall_mem_cons] at h
    rw [List.mapM_cons]
    exact h.1.bind fun y hy => (ih h.2).bind fun ys hys =>
      ensures_pure (List.forall_mem_cons.2 ⟨hy, hys⟩)

end Syntax.Build

end PanelSchema
