import PanelSchema.Traced

/-!
Results and warnings of traced work, part by part. While tests are read and
branches are walked, a product of conditions past its limit is the only thing
warned about.
-/

namespace PanelSchema

def Note.isWarning (n : Note) : Bool :=
  n.level == .warn

/-- Both stop alike, or both end in values that are related. -/
inductive Outcomes {α β : Type} (R : α → β → Prop) : Except Stop α → Except Stop β → Prop where
  | ok {a b} (h : R a b) : Outcomes R (.ok a) (.ok b)
  | error (e : Stop) : Outcomes R (.error e) (.error e)

namespace Traced

variable {α β : Type}

def warns (x : Traced α) : Bool :=
  x.notes.any Note.isWarning

@[simp] theorem warns_notesOf (notes : List Note) :
    (notesOf notes).warns = notes.any Note.isWarning := rfl

theorem result_bind_of_ok {x : Traced α} {a : α} (h : x.result = .ok a) (f : α → Traced β) :
    (x >>= f).result = (f a).result := by
  rw [result_bind, h]
  rfl

theorem warns_bind_of_ok {x : Traced α} {a : α} (h : x.result = .ok a) (f : α → Traced β) :
    (x >>= f).warns = (x.warns || (f a).warns) := by
  change (Traced.bind x f).warns = _
  unfold Traced.bind
  rw [h]
  simp [warns]

theorem quiet_bind_of_ok {x : Traced α} {a : α} (h : x.result = .ok a) (f : α → Traced β) :
    (x >>= f).warns = false ↔ x.warns = false ∧ (f a).warns = false := by
  rw [warns_bind_of_ok h, Bool.or_eq_false_iff]

theorem warns_of_bind {x : Traced α} {f : α → Traced β} (h : (x >>= f).warns = false) :
    x.warns = false := by
  change (Traced.bind x f).warns = false at h
  unfold Traced.bind at h
  split at h
  · simp only [warns, List.any_append, Bool.or_eq_false_iff] at h
    exact h.1
  · exact h

/-- What is bound to succeeds only after what is bound. -/
theorem result_bind_eq_ok {x : Traced α} {f : α → Traced β} {b : β} :
    (x >>= f).result = .ok b ↔ ∃ a, x.result = .ok a ∧ (f a).result = .ok b := by
  rw [result_bind]
  cases x.result with
  | error e => simp [bind, Except.bind]
  | ok a => simp [bind, Except.bind]

theorem result_bind_eq_error {x : Traced α} {f : α → Traced β} {e : Stop} :
    (x >>= f).result = .error e ↔
      x.result = .error e ∨ ∃ a, x.result = .ok a ∧ (f a).result = .error e := by
  rw [result_bind]
  cases x.result with
  | error e' => simp [bind, Except.bind]
  | ok a => simp [bind, Except.bind]

def stopped? (x : Traced α) : Option Stop :=
  match x.result with
  | .ok _ => none
  | .error e => some e

theorem stopped?_eq_some {x : Traced α} {e : Stop} :
    x.stopped? = some e ↔ x.result = .error e := by
  unfold stopped?
  cases x.result <;> simp

theorem exists_ok_iff {x : Traced α} : (∃ a, x.result = .ok a) ↔ ∀ e, x.result ≠ .error e := by
  cases x.result <;> simp

def Unfailing (x : Traced α) : Prop :=
  ∀ e, x.result = .error e → e = .overflow

theorem unfailing_of_ok {x : Traced α} {a : α} (h : x.result = .ok a) : x.Unfailing := by
  intro e he
  rw [h] at he
  cases he

theorem Unfailing.bind {x : Traced α} {f : α → Traced β} (hx : x.Unfailing)
    (hf : ∀ a, x.result = .ok a → (f a).Unfailing) : (x >>= f).Unfailing := by
  intro e he
  rcases result_bind_eq_error.1 he with he | ⟨a, ha, he⟩
  · exact hx e he
  · exact hf a ha e he

/-- Work of which it is known when it ends in a value overflows in all other cases. -/
theorem Unfailing.error_iff {x : Traced α} (hx : x.Unfailing) {P : Prop}
    (h : (∃ a, x.result = .ok a) ↔ ¬P) {e : Stop} :
    x.result = .error e ↔ P ∧ e = .overflow := by
  cases hresult : x.result with
  | ok a =>
    have hP : ¬P := h.1 ⟨a, hresult⟩
    simp [hP]
  | error stop =>
    have hP : P := by
      apply Classical.byContradiction
      intro hP
      obtain ⟨a, ha⟩ := h.2 hP
      rw [hresult] at ha
      cases ha
    simp [hP, hx stop hresult, eq_comm]

theorem bind_assoc {γ : Type} (x : Traced α) (f : α → Traced β) (g : β → Traced γ) :
    x >>= f >>= g = x >>= fun a => f a >>= g := by
  change Traced.bind (Traced.bind x f) g = Traced.bind x fun a => Traced.bind (f a) g
  unfold Traced.bind
  cases x.result with
  | error e => rfl
  | ok a =>
    dsimp only
    cases (f a).result with
    | error e => rfl
    | ok b => simp

/-- Work that ends in a value and warns of nothing. -/
structure Gives (x : Traced α) (a : α) : Prop where
  result : x.result = .ok a
  quiet : x.warns = false

theorem gives_pure (a : α) : (pure a : Traced α).Gives a :=
  ⟨rfl, rfl⟩

theorem gives_notesOf {notes : List Note} (h : notes.any Note.isWarning = false) :
    (notesOf notes).Gives () :=
  ⟨rfl, h⟩

theorem gives_note {level : NoteLevel} (h : level ≠ .warn) (text : String) :
    (note level text).Gives () := by
  refine ⟨rfl, ?_⟩
  simp [warns, note, Note.isWarning, h]

theorem Gives.bind {x : Traced α} {f : α → Traced β} {a : α} {b : β} (hx : x.Gives a)
    (hf : (f a).Gives b) : (x >>= f).Gives b := by
  constructor
  · rw [result_bind_of_ok hx.result, hf.result]
  · rw [warns_bind_of_ok hx.result, hx.quiet, hf.quiet, Bool.or_false]

section

variable {γ δ : Type} {R : α → β → Prop} {S : γ → δ → Prop}

def Alike (R : α → β → Prop) (x : Traced α) (y : Traced β) : Prop :=
  Outcomes R x.result y.result

theorem Alike.of_ok {x : Traced α} {y : Traced β} (h : Alike R x y) {a : α}
    (hx : x.result = .ok a) : ∃ b, y.result = .ok b ∧ R a b := by
  unfold Alike at h
  rw [hx] at h
  generalize y.result = q at h ⊢
  cases h with
  | ok h => exact ⟨_, rfl, h⟩

theorem Alike.of_error {x : Traced α} {y : Traced β} (h : Alike R x y) {e : Stop}
    (hx : x.result = .error e) : y.result = .error e := by
  unfold Alike at h
  rw [hx] at h
  generalize y.result = q at h ⊢
  cases h
  rfl

theorem Alike.imp {x : Traced α} {y : Traced β} {S : α → β → Prop} (h : Alike R x y)
    (hRS : ∀ a b, R a b → S a b) : Alike S x y := by
  unfold Alike at h ⊢
  generalize x.result = r, y.result = q at h ⊢
  cases h with
  | ok h => exact .ok (hRS _ _ h)
  | error e => exact .error e

theorem alike_pure {a : α} {b : β} (h : R a b) : Alike R (pure a) (pure b) :=
  .ok h

theorem Alike.bind {x : Traced α} {y : Traced β} (h : Alike R x y) {f : α → Traced γ}
    {g : β → Traced δ} (hfg : ∀ a b, R a b → Alike S (f a) (g b)) :
    Alike S (x >>= f) (y >>= g) := by
  obtain ⟨notes, x⟩ := x
  obtain ⟨notes', y⟩ := y
  unfold Alike at h ⊢
  rw [result_bind, result_bind]
  cases h with
  | ok h => exact hfg _ _ h
  | error e => exact .error e

theorem alike_bind_same (x : Traced α) {f : α → Traced γ} {g : α → Traced δ}
    (hfg : ∀ a, Alike S (f a) (g a)) : Alike S (x >>= f) (x >>= g) := by
  unfold Alike
  rw [result_bind, result_bind]
  cases x.result with
  | error e => exact .error e
  | ok a => exact hfg a

end

end Traced

end PanelSchema
