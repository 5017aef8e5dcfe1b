import PanelSchema.Proofs.Grammar.Bound

/-!
What a phrase does with a text, wherever the text stands: it takes the first part of it, or it
refuses it.
-/

namespace PanelSchema

variable {ρ : Type}

theorem Cursor.Took.rest_eq {c d : Cursor} {cs rest : List Char} (h : c.Took d cs)
    (hrest : c.rest = cs ++ rest) : d.rest = rest := by
  rw [h.rest] at hrest
  exact List.append_cancel_left hrest

/-- Every match comes to a text that has `x` in it. -/
def Phrase.wants (x : Char) : Phrase ρ → Bool
  | .text cs => cs.contains x
  | .seq a b => a.wants x || b.wants x
  | .alt a b => a.wants x && b.wants x
  | .ahead a => a.wants x
  | _ => false

namespace Grammar

variable {g : Grammar ρ}

/-- Before `cs` and `rest` the phrase takes `cs` and leaves pieces as `P` says. -/
def Takes (g : Grammar ρ) (sp : Spacing) (phrase : Phrase ρ) (cs rest : List Char)
    (P : List (Piece ρ) → Prop) : Prop :=
  ∀ c : Cursor, c.rest = cs ++ rest →
    ∃ d ps, Answers g sp phrase c (some (d, ps)) ∧ c.Took d cs ∧ P ps

def Refuses (g : Grammar ρ) (sp : Spacing) (phrase : Phrase ρ) (text : List Char) : Prop :=
  ∀ c : Cursor, c.rest = text → Answers g sp phrase c none

/-- Before that text the phrase matches. -/
def Starts (g : Grammar ρ) (sp : Spacing) (phrase : Phrase ρ) (text : List Char) : Prop :=
  ∀ c : Cursor, c.rest = text → ∃ y, Answers g sp phrase c (some y)

def Bare (ps : List (Piece ρ)) : Prop :=
  ps = []

def Then (P Q : List (Piece ρ) → Prop) (ps : List (Piece ρ)) : Prop :=
  ∃ qs rs, P qs ∧ Q rs ∧ ps = qs ++ rs

/-- The piece of a rule that took `cs`. -/
structure Covers (r : ρ) (cs : List Char) (P : List (Piece ρ) → Prop) (p : Piece ρ) : Prop where
  rule : p.rule = r
  chars : p.chars = cs
  inner : P p.inner

def Single (P : Piece ρ → Prop) (ps : List (Piece ρ)) : Prop :=
  ∃ p, ps = [p] ∧ P p

section

variable {sp : Spacing} {a b : Phrase ρ} {cs bs ds rest text : List Char}
  {P Q R : List (Piece ρ) → Prop}

theorem Takes.mono (h : Takes g sp a cs rest P) (hPQ : ∀ ps, P ps → Q ps) :
    Takes g sp a cs rest Q := by
  intro c hc
  obtain ⟨d, ps, ha, htook, hps⟩ := h c hc
  exact ⟨d, ps, ha, htook, hPQ ps hps⟩

theorem Takes.starts (h : Takes g sp a cs rest P) : Starts g sp a (cs ++ rest) := by
  intro c hc
  obtain ⟨d, ps, ha, -⟩ := h c hc
  exact ⟨_, ha⟩

@[simp] theorem then_bare : Then P Bare = P := by
  funext ps
  simp [Then, Bare]

@[simp] theorem bare_then : Then Bare Q = Q := by
  funext ps
  simp [Then, Bare]

/-! ### Characters -/

theorem took_stepOver_append {c : Cursor} (hc : c.rest = cs ++ rest) :
    ∃ d, c.stepOver? (· == ·) cs = some d ∧ c.Took d cs := by
  induction cs generalizing c with
  | nil => exact ⟨c, rfl, .rfl⟩
  | cons x cs ih =>
    obtain ⟨d, hd, htook⟩ := ih (c := { position := c.position.advance x, rest := cs ++ rest }) rfl
    have hfirst : c.Took { position := c.position.advance x, rest := cs ++ rest } [x] :=
      ⟨by simp [hc], by simp⟩
    refine ⟨d, ?_, hfirst.trans htook⟩
    rw [Cursor.stepOver?, hc]
    simpa using hd

theorem takes_text (cs rest : List Char) : Takes g sp (.text cs) cs rest Bare := by
  intro c hc
  obtain ⟨d, hd, htook⟩ := took_stepOver_append hc
  refine ⟨d, [], ?_, htook, rfl⟩
  have h : Answers g sp (.text cs) c _ := .text
  rwa [hd] at h

theorem refuses_text (h : ¬cs <+: text) : Refuses g sp (.text cs) text := by
  intro c hc
  have htext : Answers g sp (.text cs) c _ := .text
  cases hd : c.stepOver? (· == ·) cs with
  | none => rwa [hd] at htext
  | some d =>
    obtain ⟨ds, hsame, htook⟩ := Cursor.took_stepOver hd
    have heq : cs = ds := by simpa using hsame
    refine absurd ⟨d.rest, ?_⟩ h
    rw [heq, ← htook.rest, hc]

theorem takes_one {k : CharClass} {x : Char} (hx : k.holds x = true) (rest : List Char) :
    Takes g sp (.one k) [x] rest Bare := by
  intro c hc
  have h : Answers g sp (.one k) c _ := .one
  refine ⟨{ position := c.position.advance x, rest }, [], ?_, ⟨hc, by simp⟩, rfl⟩
  simpa [Cursor.next?, hc, hx, Answer.at?] using h

theorem refuses_one {k : CharClass} (h : ∀ x ∈ text.head?, k.holds x = false) :
    Refuses g sp (.one k) text := by
  intro c hc
  have hone : Answers g sp (.one k) c _ := .one
  cases text with
  | nil => simpa [Cursor.next?, hc, Answer.at?] using hone
  | cons x text =>
    have hx : k.holds x = false := h x rfl
    simpa [Cursor.next?, hc, hx, Answer.at?] using hone

/-! ### Rules -/

theorem Takes.silent {r : ρ} (hstyle : g.style r = .silent) (h : Takes g sp (g.body r) cs rest P) :
    Takes g sp (.rule r) cs rest P := by
  intro c hc
  obtain ⟨d, ps, ha, hrest⟩ := h c hc
  exact ⟨d, ps, .silent hstyle ha, hrest⟩

theorem Takes.piece {r : ρ} (hstyle : g.style r ≠ .silent)
    (hkept : outerSpacing (g.style r) sp ≠ .atomic)
    (h : Takes g (innerSpacing (g.style r) sp) (g.body r) cs rest P) :
    Takes g sp (.rule r) cs rest (Single (Covers r cs P)) := by
  intro c hc
  obtain ⟨d, ps, ha, htook, hps⟩ := h c hc
  have hrule := Answers.rule hstyle ha
  refine ⟨d, _, hrule, htook, ?_⟩
  rw [if_neg hkept]
  refine ⟨_, rfl, rfl, ?_, hps⟩
  have hrest := htook.rest
  simp only [Piece.chars]
  rw [htook.offset, hrest, Nat.add_sub_cancel_left, List.take_left]

theorem Takes.dropped {r : ρ} (hstyle : g.style r ≠ .silent)
    (hdropped : outerSpacing (g.style r) sp = .atomic)
    (h : Takes g (innerSpacing (g.style r) sp) (g.body r) cs rest P) :
    Takes g sp (.rule r) cs rest P := by
  intro c hc
  obtain ⟨d, ps, ha, htook, hps⟩ := h c hc
  have hrule := Answers.rule hstyle ha
  refine ⟨d, _, hrule, htook, ?_⟩
  rwa [if_pos hdropped]

theorem Refuses.silent {r : ρ} (hstyle : g.style r = .silent) (h : Refuses g sp (g.body r) text) :
    Refuses g sp (.rule r) text :=
  fun c hc => .silent hstyle (h c hc)

theorem Refuses.rule {r : ρ} (hstyle : g.style r ≠ .silent)
    (h : Refuses g (innerSpacing (g.style r) sp) (g.body r) text) :
    Refuses g sp (.rule r) text :=
  fun c hc => .rule hstyle (h c hc)

/-! ### Sequences -/

theorem Takes.tight (hsp : sp ≠ .loose) (ha : Takes g sp a cs (ds ++ rest) P)
    (hb : Takes g sp b ds rest Q) : Takes g sp (.seq a b) (cs ++ ds) rest (Then P Q) := by
  intro c hc
  rw [List.append_assoc] at hc
  obtain ⟨d, ps, ha, htook, hps⟩ := ha c hc
  obtain ⟨e, qs, hb, htook', hqs⟩ := hb d (htook.rest_eq hc)
  exact ⟨e, ps ++ qs, .seq_tight hsp ha hb, htook.trans htook', ps, qs, hps, hqs, rfl⟩

theorem Takes.loose (ha : Takes g .loose a cs (bs ++ (ds ++ rest)) P)
    (hblank : Takes g .atomic g.blank bs (ds ++ rest) Bare) (hb : Takes g .loose b ds rest Q) :
    Takes g .loose (.seq a b) (cs ++ (bs ++ ds)) rest (Then P Q) := by
  intro c hc
  rw [List.append_assoc, List.append_assoc] at hc
  obtain ⟨d, ps, ha, htook, hps⟩ := ha c hc
  obtain ⟨e, _, hblank, htook', rfl⟩ := hblank d (htook.rest_eq hc)
  obtain ⟨f, qs, hb, htook'', hqs⟩ := hb e (htook'.rest_eq (htook.rest_eq hc))
  have hseq := Answers.seq_loose ha hblank hb
  rw [List.append_nil] at hseq
  exact ⟨f, ps ++ qs, hseq, htook.trans (htook'.trans htook''), ps, qs, hps, hqs, rfl⟩

theorem Refuses.seq (ha : Refuses g sp a text) : Refuses g sp (.seq a b) text :=
  fun c hc => .seq_refused (ha c hc)

theorem Refuses.tight (hsp : sp ≠ .loose) (ha : Takes g sp a cs rest P)
    (hb : Refuses g sp b rest) : Refuses g sp (.seq a b) (cs ++ rest) := by
  intro c hc
  obtain ⟨d, ps, ha, htook, -⟩ := ha c hc
  exact .seq_tight hsp ha (hb d (htook.rest_eq hc))

theorem Refuses.loose (ha : Takes g .loose a cs (bs ++ rest) P)
    (hblank : Takes g .atomic g.blank bs rest Bare) (hb : Refuses g .loose b rest) :
    Refuses g .loose (.seq a b) (cs ++ (bs ++ rest)) := by
  intro c hc
  obtain ⟨d, ps, ha, htook, -⟩ := ha c hc
  obtain ⟨e, _, hblank, htook', -⟩ := hblank d (htook.rest_eq hc)
  exact .seq_loose ha hblank (hb e (htook'.rest_eq (htook.rest_eq hc)))

/-! ### Choices -/

theorem Takes.left (ha : Takes g sp a cs rest P) : Takes g sp (.alt a b) cs rest P := by
  intro c hc
  obtain ⟨d, ps, ha, hrest⟩ := ha c hc
  exact ⟨d, ps, .left ha, hrest⟩

theorem Takes.right (ha : Refuses g sp a (cs ++ rest)) (hb : Takes g sp b cs rest P) :
    Takes g sp (.alt a b) cs rest P := by
  intro c hc
  obtain ⟨d, ps, hb, hrest⟩ := hb c hc
  exact ⟨d, ps, .right (ha c hc) hb, hrest⟩

theorem Refuses.alt (ha : Refuses g sp a text) (hb : Refuses g sp b text) :
    Refuses g sp (.alt a b) text :=
  fun c hc => .right (ha c hc) (hb c hc)

theorem Takes.present (h : Takes g sp a cs rest P) : Takes g sp (.opt a) cs rest P := by
  intro c hc
  obtain ⟨d, ps, ha, hrest⟩ := h c hc
  exact ⟨d, ps, .present ha, hrest⟩

theorem Refuses.opt (h : Refuses g sp a text) : Takes g sp (.opt a) [] text Bare :=
  fun c hc => ⟨c, [], .absent (h c hc), .rfl, rfl⟩

/-! ### Repetitions -/

theorem Refuses.many (h : Refuses g sp a text) : Takes g sp (.many a) [] text Bare :=
  fun c hc => ⟨c, [], .done (h c hc), .rfl, rfl⟩

theorem Takes.more_tight (hsp : sp ≠ .loose) (ha : Takes g sp a cs (ds ++ rest) P)
    (h : Takes g sp (.many a) ds rest Q) : Takes g sp (.many a) (cs ++ ds) rest (Then P Q) := by
  intro c hc
  rw [List.append_assoc] at hc
  obtain ⟨d, ps, ha, htook, hps⟩ := ha c hc
  obtain ⟨e, qs, h, htook', hqs⟩ := h d (htook.rest_eq hc)
  exact ⟨e, ps ++ qs, .more_tight hsp ha h, htook.trans htook', ps, qs, hps, hqs, rfl⟩

theorem Takes.starts_of_many (h : Takes g sp (.many a) ds rest P) (hds : ds ≠ []) :
    Starts g sp a (ds ++ rest) := by
  intro c hc
  obtain ⟨d, ps, h, htook, -⟩ := h c hc
  cases h with
  | done =>
    have hlength := congrArg List.length htook.rest
    rw [List.length_append] at hlength
    have := List.length_pos_of_ne_nil hds
    omega
  | more_tight _ ha _ | more_loose ha _ _ _ | last ha _ _ | last_blank ha _ => exact ⟨_, ha⟩

theorem Takes.more (ha : Takes g .loose a cs (bs ++ (ds ++ rest)) P)
    (hblank : Takes g .atomic g.blank bs (ds ++ rest) Bare)
    (hnext : Starts g .loose a (ds ++ rest)) (h : Takes g .loose (.many a) ds rest Q) :
    Takes g .loose (.many a) (cs ++ (bs ++ ds)) rest (Then P Q) := by
  intro c hc
  rw [List.append_assoc, List.append_assoc] at hc
  obtain ⟨d, ps, ha, htook, hps⟩ := ha c hc
  obtain ⟨e, _, hblank, htook', rfl⟩ := hblank d (htook.rest_eq hc)
  have he := htook'.rest_eq (htook.rest_eq hc)
  obtain ⟨y, hy⟩ := hnext e he
  obtain ⟨f, qs, h, htook'', hqs⟩ := h e he
  have hmany := Answers.more_loose ha hblank hy h
  rw [List.append_nil] at hmany
  exact ⟨f, ps ++ qs, hmany, htook.trans (htook'.trans htook''), ps, qs, hps, hqs, rfl⟩

/-- The last round. The blanks behind it are given back. -/
theorem Takes.last (ha : Takes g .loose a cs (bs ++ rest) P)
    (hblank : Takes g .atomic g.blank bs rest Bare) (hnext : Refuses g .loose a rest) :
    Takes g .loose (.many a) cs (bs ++ rest) P := by
  intro c hc
  obtain ⟨d, ps, ha, htook, hps⟩ := ha c hc
  obtain ⟨e, _, hblank, htook', -⟩ := hblank d (htook.rest_eq hc)
  exact ⟨d, ps, .last ha hblank (hnext e (htook'.rest_eq (htook.rest_eq hc))), htook, hps⟩

/-! ### Lookahead -/

theorem Refuses.never (h : Refuses g sp a text) : Takes g sp (.never a) [] text Bare :=
  fun c hc => ⟨c, [], .never (h c hc), .rfl, rfl⟩

theorem Starts.never (h : Starts g sp a text) : Refuses g sp (.never a) text := by
  intro c hc
  obtain ⟨y, hy⟩ := h c hc
  exact .never hy

theorem Starts.ahead (h : Starts g sp a text) : Takes g sp (.ahead a) [] text Bare := by
  intro c hc
  obtain ⟨y, hy⟩ := h c hc
  exact ⟨c, [], .ahead hy, .rfl, rfl⟩

theorem Refuses.ahead (h : Refuses g sp a text) : Refuses g sp (.ahead a) text :=
  fun c hc => .ahead (h c hc)

end

/-! ### Missing characters -/

section

variable {sp : Spacing} {c d : Cursor} {x : Char}

theorem Answers.not_mem_rest {phrase : Phrase ρ} {ps : List (Piece ρ)}
    (h : Answers g sp phrase c (some (d, ps))) (hx : x ∉ c.rest) : x ∉ d.rest := by
  obtain ⟨cs, htook⟩ := h.took
  rw [htook.rest, List.mem_append, not_or] at hx
  exact hx.2

/-- A phrase that spells `x` out has no match in a text without it. -/
theorem Answers.eq_none_of_wants {phrase : Phrase ρ} {y : Answer ρ}
    (h : Answers g sp phrase c y) (hwants : phrase.wants x = true) (hx : x ∉ c.rest) :
    y = none := by
  induction h with
  | @text sp cs c =>
    cases hd : c.stepOver? (· == ·) cs with
    | none => rfl
    | some d =>
      obtain ⟨ds, hsame, htook⟩ := Cursor.took_stepOver hd
      have heq : cs = ds := by simpa using hsame
      have hmem : x ∈ cs := by simpa [Phrase.wants] using hwants
      refine absurd ?_ hx
      rw [htook.rest, ← heq]
      exact List.mem_append_left _ hmem
  | seq_refused | seq_blank => rfl
  | seq_tight _ ha _ iha ihb =>
    rw [Phrase.wants, Bool.or_eq_true] at hwants
    rcases hwants with hwants | hwants
    · cases iha hwants hx
    · rw [ihb hwants (ha.not_mem_rest hx)]
      rfl
  | seq_loose ha hblank _ iha _ ihb =>
    rw [Phrase.wants, Bool.or_eq_true] at hwants
    rcases hwants with hwants | hwants
    · cases iha hwants hx
    · rw [ihb hwants (hblank.not_mem_rest (ha.not_mem_rest hx))]
      rfl
  | left _ ih =>
    rw [Phrase.wants, Bool.and_eq_true] at hwants
    exact ih hwants.1 hx
  | right _ _ _ ihb =>
    rw [Phrase.wants, Bool.and_eq_true] at hwants
    exact ihb hwants.2 hx
  | ahead _ ih =>
    rw [ih hwants hx]
    rfl
  | _ => cases hwants

theorem refuses_of_wants {m : Measure ρ} (hm : g.Bounded m) {phrase : Phrase ρ}
    (hfits : g.fits m (sp == .loose) phrase = true) (hwants : phrase.wants x = true)
    {text : List Char} (hx : x ∉ text) : Refuses g sp phrase text := by
  rintro c rfl
  obtain ⟨y, hy⟩ := exists_answers hm sp c hfits
  rwa [hy.eq_none_of_wants hwants hx] at hy

end

end Grammar

end PanelSchema
