import PanelSchema.Proofs.Grammar.Places

/-!
The bound on nested phrases. Where every rule starts with rules of lower height and every
repetition takes a character in each round, phrases nest only so deep before the next character
is taken. A run gives the answer of its phrase, and with enough for each character it is never
exhausted.
-/

namespace PanelSchema

variable {ρ : Type}

/-- Which rules take a character, and how deep phrases nest inside a rule before one is taken,
where blanks are skipped and where they are not. -/
structure Measure (ρ : Type) where
  solid : ρ → Bool
  height : Bool → ρ → Nat
  /-- How deep phrases nest inside blanks. -/
  blank : Nat

/-- Whether blanks are skipped inside a rule of that style. -/
def RuleStyle.isLoose (style : RuleStyle) (loose : Bool) : Bool :=
  match style with
  | .plain | .silent => loose
  | .atomic | .compound => false

namespace Grammar

variable {g : Grammar ρ} {m : Measure ρ}

/-- How deep phrases nest inside blanks, where these are skipped. -/
def blankNeed (m : Measure ρ) (loose : Bool) : Nat :=
  if loose then m.blank else 0

def need (g : Grammar ρ) (m : Measure ρ) (loose : Bool) : Phrase ρ → Nat
  | .text _ | .caseless _ | .one _ | .startOfInput | .endOfInput => 1
  | .rule r => m.height ((g.style r).isLoose loose) r + 1
  | .seq a b =>
    max (g.need m loose a)
      (max (blankNeed m loose) (if a.takes m.solid then 0 else g.need m loose b)) + 1
  | .alt a b => max (g.need m loose a) (g.need m loose b) + 1
  | .opt a | .ahead a | .never a => g.need m loose a + 1
  | .many a => max (g.need m loose a) (blankNeed m loose) + 2

/-- Every round of a repetition takes a character, and what comes behind a character nests no
deeper than the grammar allows for each. -/
def fits (g : Grammar ρ) (m : Measure ρ) (loose : Bool) : Phrase ρ → Bool
  | .text _ | .caseless _ | .one _ | .startOfInput | .endOfInput | .rule _ => true
  | .seq a b => g.fits m loose a && g.fits m loose b && decide (g.need m loose b ≤ g.depth)
  | .alt a b => g.fits m loose a && g.fits m loose b
  | .opt a | .ahead a | .never a => g.fits m loose a
  | .many a =>
    a.takes m.solid && g.fits m loose a && decide (g.need m loose (.many a) ≤ g.depth)

/-- The measure is one of the grammar. -/
structure Bounded (g : Grammar ρ) (m : Measure ρ) : Prop where
  solid : g.IsSolid m.solid
  fits : ∀ loose r, g.fits m loose (g.body r) = true
  height : ∀ loose r, g.need m loose (g.body r) ≤ m.height loose r
  fits_blank : g.fits m false g.blank = true
  blank : g.need m false g.blank ≤ m.blank

/-- There is too little for the phrase before a text of length `n`. -/
def Short (g : Grammar ρ) (m : Measure ρ) (fuel : Nat) (loose : Bool) (phrase : Phrase ρ)
    (n : Nat) : Prop :=
  g.fits m loose phrase = true → fuel < n * g.depth + g.need m loose phrase

section

variable {fuel n n' : Nat} {loose loose' : Bool} {a b : Phrase ρ}

theorem Short.nested (h : Short g m fuel loose a n)
    (hb : g.fits m loose' b = true → g.fits m loose a = true ∧
      n * g.depth + g.need m loose a < n' * g.depth + g.need m loose' b) :
    Short g m (fuel + 1) loose' b n' := by
  intro hfits
  obtain ⟨ha, hneed⟩ := hb hfits
  have := h ha
  omega

theorem Short.deeper (h : Short g m fuel loose a n)
    (hfits : g.fits m loose b = true → g.fits m loose a = true)
    (hneed : g.need m loose a < g.need m loose b) : Short g m (fuel + 1) loose b n :=
  h.nested fun hb => ⟨hfits hb, Nat.add_lt_add_left hneed _⟩

/-- A character pays for what comes behind it. -/
theorem depth_behind (hn : n < n') (hneed : g.need m loose a ≤ g.depth) :
    n * g.depth + g.need m loose a ≤ n' * g.depth := by
  have := Nat.mul_le_mul_right g.depth hn
  rw [Nat.succ_mul] at this
  omega

theorem Short.rule (hm : g.Bounded m) {r : ρ}
    (h : Short g m fuel ((g.style r).isLoose loose) (g.body r) n) :
    Short g m (fuel + 1) loose (.rule r) n := by
  refine h.nested fun _ => ⟨hm.fits _ r, ?_⟩
  have := hm.height ((g.style r).isLoose loose) r
  rw [need]
  omega

theorem Short.blank (hm : g.Bounded m) (h : Short g m fuel false g.blank n) (hn : n ≤ n')
    (hneed : m.blank < g.need m loose' b) : Short g m (fuel + 1) loose' b n' := by
  refine h.nested fun _ => ⟨hm.fits_blank, ?_⟩
  have := Nat.mul_le_mul_right g.depth hn
  have := hm.blank
  omega

theorem Short.seq (h : Short g m fuel loose b n)
    (hn : n + (a.takes m.solid).toNat ≤ n') : Short g m (fuel + 1) loose (.seq a b) n' := by
  refine h.nested fun hfits => ?_
  rw [fits, Bool.and_eq_true, Bool.and_eq_true, decide_eq_true_eq] at hfits
  refine ⟨hfits.1.2, ?_⟩
  rw [need]
  cases htakes : a.takes m.solid with
  | true =>
    rw [htakes] at hn
    have := depth_behind hn hfits.2
    omega
  | false =>
    rw [htakes] at hn
    have := Nat.mul_le_mul_right g.depth hn
    simp only [Bool.toNat_false, Nat.add_zero] at this
    simp only [Bool.false_eq_true, if_false]
    omega

/-- A round takes a character, which pays for the rounds that follow. -/
theorem Short.round (h : Short g m (fuel + 1) loose (.many a) n)
    (hn : n + (a.takes m.solid).toNat ≤ n') : Short g m (fuel + 2) loose (.many a) n' := by
  refine h.nested fun hfits => ⟨hfits, ?_⟩
  rw [fits, Bool.and_eq_true, Bool.and_eq_true, decide_eq_true_eq] at hfits
  rw [hfits.1.1] at hn
  have := depth_behind hn hfits.2
  rw [need] at this ⊢
  omega

end

/-! ### Runs -/

/-- A reply gives the answer of the phrase. Pieces are kept outside lookahead only. It is exhausted
only if there was too little for the phrase. -/
def Gives (g : Grammar ρ) (fuel : Nat) (mode : Mode) (phrase : Phrase ρ) (s : MatchState ρ) :
    Reply ρ → Prop
  | .matched t =>
    ∃ ps, Answers g mode.spacing phrase s.cursor (some (t.cursor, ps)) ∧
      (mode.lookahead = .none → t.pieces = ps.reverse ++ s.pieces)
  | .failed _ => Answers g mode.spacing phrase s.cursor none
  | .exhausted => ∀ m, g.Bounded m →
    Short g m fuel (mode.spacing == .loose) phrase s.cursor.rest.length

/-- A repetition that goes on behind a match of `a` from `c` to the cursor. -/
def GoesOn (g : Grammar ρ) (fuel : Nat) (mode : Mode) (a : Phrase ρ) (s : MatchState ρ) :
    Reply ρ → Prop
  | .matched t =>
    ∀ c ps, Answers g mode.spacing a c (some (s.cursor, ps)) →
      ∃ qs, Answers g mode.spacing (.many a) c (some (t.cursor, ps ++ qs)) ∧
        (mode.lookahead = .none → t.pieces = qs.reverse ++ s.pieces)
  | .failed _ => False
  | .exhausted => ∀ m, g.Bounded m →
    Short g m (fuel + 1) (mode.spacing == .loose) (.many a) s.cursor.rest.length

section

variable {fuel fuel' : Nat} {mode : Mode} {phrase a b : Phrase ρ} {s t : MatchState ρ}

theorem gives_ofCursor {cursor : Option Cursor}
    (h : Answers g mode.spacing phrase s.cursor (Answer.at? cursor)) :
    Gives g fuel mode phrase s (ofCursor? s cursor) := by
  cases cursor with
  | none => exact h
  | some c => exact ⟨[], h, fun _ => rfl⟩

theorem spacing_innerMode (style : RuleStyle) (mode : Mode) :
    (innerMode style mode).spacing = innerSpacing style mode.spacing := by
  cases style <;> rfl

theorem lookahead_innerMode (style : RuleStyle) (mode : Mode) :
    (innerMode style mode).lookahead = mode.lookahead := by
  cases style <;> rfl

theorem spacing_outerMode (style : RuleStyle) (mode : Mode) :
    (outerMode style mode).spacing = outerSpacing style mode.spacing := by
  cases style <;> rfl

theorem lookahead_outerMode (style : RuleStyle) (mode : Mode) :
    (outerMode style mode).lookahead = mode.lookahead := by
  cases style <;> rfl

theorem isLoose_innerMode (style : RuleStyle) (mode : Mode) :
    style.isLoose (mode.spacing == .loose) = ((innerMode style mode).spacing == .loose) := by
  cases style <;> rfl

theorem gives_close {r : ρ} (hstyle : g.style r ≠ .silent) {reply : Reply ρ}
    (h : Gives g fuel (innerMode (g.style r) mode) (g.body r) { s with pieces := [] } reply) :
    Gives g (fuel + 1) mode (.rule r) s (close (outerMode (g.style r) mode) r s reply) := by
  cases reply with
  | matched t =>
    obtain ⟨ps, hps, hpieces⟩ := h
    rw [spacing_innerMode] at hps
    rw [lookahead_innerMode] at hpieces
    unfold close Mode.keepsPieces
    dsimp only
    rw [spacing_outerMode, lookahead_outerMode]
    refine ⟨_, .rule hstyle hps, fun hmode => ?_⟩
    have hinner : t.pieces = ps.reverse := by simpa using hpieces hmode
    by_cases hsp : outerSpacing (g.style r) mode.spacing = .atomic
    · simp [hsp, hinner]
    · simp [hsp, hinner, hmode]
  | failed attempts =>
    rw [Gives, spacing_innerMode] at h
    have hrule : Answers g mode.spacing (.rule r) s.cursor none := .rule hstyle h
    unfold close
    dsimp only
    split <;> exact hrule
  | exhausted => exact fun m hm => .rule hm (isLoose_innerMode (g.style r) mode ▸ h m hm)

theorem Gives.behind {reply : Reply ρ} (h : Gives g fuel mode b t reply) (ps : List (Piece ρ))
    (hpieces : mode.lookahead = .none → t.pieces = ps.reverse ++ s.pieces)
    (hmap : ∀ x, Answers g mode.spacing b t.cursor x →
      Answers g mode.spacing phrase s.cursor (x.behind ps))
    (hshort : ∀ m, g.Bounded m →
      Short g m fuel (mode.spacing == .loose) b t.cursor.rest.length →
      Short g m fuel' (mode.spacing == .loose) phrase s.cursor.rest.length) :
    Gives g fuel' mode phrase s reply := by
  cases reply with
  | matched u =>
    obtain ⟨qs, hqs, hpieces'⟩ := h
    refine ⟨ps ++ qs, hmap _ hqs, fun hmode => ?_⟩
    rw [hpieces' hmode, hpieces hmode, List.reverse_append, List.append_assoc]
  | failed attempts => exact hmap _ h
  | exhausted => exact fun m hm => hshort m hm (h m hm)

end

theorem Answer.behind_nil (x : Answer ρ) : x.behind [] = x := by
  cases x <;> rfl

mutual

theorem gives_run : ∀ (fuel : Nat) (mode : Mode) (phrase : Phrase ρ) (s : MatchState ρ),
    Gives g fuel mode phrase s (run g fuel mode phrase s)
  | 0, mode, phrase, s => by
    rw [run]
    intro m hm hfits
    cases phrase <;> exact Nat.succ_pos _
  | fuel + 1, mode, .text cs, s => by
    rw [run]
    exact gives_ofCursor .text
  | fuel + 1, mode, .caseless cs, s => by
    rw [run]
    exact gives_ofCursor .caseless
  | fuel + 1, mode, .one k, s => by
    rw [run]
    exact gives_ofCursor .one
  | fuel + 1, mode, .startOfInput, s => by
    have h : Answers g mode.spacing .startOfInput s.cursor _ := .startOfInput
    rw [run]
    split
    · rename_i hoffset
      rw [if_pos hoffset] at h
      exact ⟨[], h, fun _ => rfl⟩
    · rename_i hoffset
      rwa [if_neg hoffset] at h
  | fuel + 1, mode, .endOfInput, s => by
    have h : Answers g mode.spacing .endOfInput s.cursor _ := .endOfInput
    rw [run]
    split
    · rename_i hrest
      rw [if_pos hrest] at h
      exact ⟨[], h, fun _ => rfl⟩
    · rename_i hrest
      rwa [if_neg hrest] at h
  | fuel + 1, mode, .rule r, s => by
    rw [run]
    split
    · rename_i hstyle
      refine (gives_run fuel mode (g.body r) s).behind [] (fun _ => rfl) (fun x hx => ?_)
        fun m hm h => .rule hm (by rwa [hstyle])
      rw [Answer.behind_nil]
      exact .silent hstyle hx
    · rename_i hstyle
      exact gives_close hstyle (gives_run fuel _ (g.body r) _)
  | fuel + 1, mode, .seq a b, s => by
    have ha := gives_run fuel mode a s
    rw [run]
    generalize run g fuel mode a s = reply at ha ⊢
    cases reply with
    | exhausted =>
      refine fun m hm => (ha m hm).deeper (fun hfits => ?_) (by rw [need]; omega)
      rw [fits, Bool.and_eq_true, Bool.and_eq_true] at hfits
      exact hfits.1.1
    | failed attempts => exact .seq_refused ha
    | matched t =>
      obtain ⟨ps, hps, hpieces⟩ := ha
      have hlength := fun m (hm : g.Bounded m) => hps.length_le hm.solid
      dsimp only
      split
      · rename_i hsp
        rw [hsp] at hps
        have hblank := gives_run fuel { mode with spacing := .atomic } g.blank t
        generalize run g fuel { mode with spacing := .atomic } g.blank t = reply at hblank ⊢
        cases reply with
        | exhausted =>
          refine fun m hm => (hblank m hm).blank hm (Nat.le_of_add_right_le (hlength m hm)) ?_
          rw [hsp, need, blankNeed, if_pos (beq_self_eq_true _)]
          omega
        | failed attempts =>
          rw [Gives, hsp]
          exact .seq_blank hps hblank
        | matched u =>
          obtain ⟨bs, hbs, hpieces'⟩ := hblank
          apply (gives_run fuel mode b u).behind (ps ++ bs)
          · intro hmode
            rw [hpieces' hmode, hpieces hmode, List.reverse_append, List.append_assoc]
          · rw [hsp]
            exact fun x hx => .seq_loose hps hbs hx
          · intro m hm h
            have := hbs.suffix.length_le
            have := hlength m hm
            exact h.seq (by omega)
      · rename_i hsp
        exact (gives_run fuel mode b t).behind ps hpieces (fun x hx => .seq_tight hsp hps hx)
          fun m hm h => h.seq (hlength m hm)
  | fuel + 1, mode, .alt a b, s => by
    have ha := gives_run fuel mode a s
    rw [run]
    generalize run g fuel mode a s = reply at ha ⊢
    cases reply with
    | exhausted =>
      refine fun m hm => (ha m hm).deeper (fun hfits => ?_) (by rw [need]; omega)
      rw [fits, Bool.and_eq_true] at hfits
      exact hfits.1
    | matched t =>
      obtain ⟨ps, hps, hpieces⟩ := ha
      exact ⟨ps, .left hps, hpieces⟩
    | failed attempts =>
      refine (gives_run fuel mode b { s with attempts }).behind [] (fun _ => rfl) (fun x hx => ?_)
        fun m hm h => h.deeper (fun hfits => ?_) (by rw [need]; omega)
      · rw [Answer.behind_nil]
        exact .right ha hx
      · rw [fits, Bool.and_eq_true] at hfits
        exact hfits.2
  | fuel + 1, mode, .opt a, s => by
    have ha := gives_run fuel mode a s
    rw [run]
    generalize run g fuel mode a s = reply at ha ⊢
    cases reply with
    | exhausted => exact fun m hm => (ha m hm).deeper id (Nat.lt_succ_self _)
    | matched t =>
      obtain ⟨ps, hps, hpieces⟩ := ha
      exact ⟨ps, .present hps, hpieces⟩
    | failed attempts => exact ⟨[], .absent ha, fun _ => rfl⟩
  | fuel + 1, mode, .many a, s => by
    have ha := gives_run fuel mode a s
    rw [run]
    generalize run g fuel mode a s = reply at ha ⊢
    cases reply with
    | exhausted =>
      refine fun m hm => (ha m hm).deeper (fun hfits => ?_) (by rw [need]; omega)
      rw [fits, Bool.and_eq_true, Bool.and_eq_true] at hfits
      exact hfits.1.2
    | failed attempts => exact ⟨[], .done ha, fun _ => rfl⟩
    | matched t =>
      obtain ⟨ps, hps, hpieces⟩ := ha
      have hmore := goesOn_more fuel mode a t
      dsimp only
      generalize more g fuel mode a t = reply at hmore ⊢
      cases reply with
      | exhausted =>
        intro m hm hfits
        have := (hmore m hm).round (hps.length_le hm.solid) hfits
        omega
      | failed attempts => exact hmore.elim
      | matched u =>
        obtain ⟨qs, hqs, hpieces'⟩ := hmore s.cursor ps hps
        refine ⟨ps ++ qs, hqs, fun hmode => ?_⟩
        rw [hpieces' hmode, hpieces hmode, List.reverse_append, List.append_assoc]
  | fuel + 1, mode, .ahead a, s => by
    have ha := gives_run fuel { mode with lookahead := mode.lookahead.ahead } a s
    rw [run]
    generalize run g fuel { mode with lookahead := mode.lookahead.ahead } a s = reply at ha ⊢
    cases reply with
    | exhausted => exact fun m hm => (ha m hm).deeper id (Nat.lt_succ_self _)
    | matched t =>
      obtain ⟨ps, hps, -⟩ := ha
      exact ⟨[], .ahead hps, fun _ => rfl⟩
    | failed attempts => exact .ahead ha
  | fuel + 1, mode, .never a, s => by
    have ha := gives_run fuel { mode with lookahead := mode.lookahead.flip } a s
    rw [run]
    generalize run g fuel { mode with lookahead := mode.lookahead.flip } a s = reply at ha ⊢
    cases reply with
    | exhausted => exact fun m hm => (ha m hm).deeper id (Nat.lt_succ_self _)
    | matched t =>
      obtain ⟨ps, hps, -⟩ := ha
      exact .never hps
    | failed attempts => exact ⟨[], .never ha, fun _ => rfl⟩

theorem goesOn_more : ∀ (fuel : Nat) (mode : Mode) (a : Phrase ρ) (s : MatchState ρ),
    GoesOn g fuel mode a s (more g fuel mode a s)
  | 0, mode, a, s => by
    rw [more]
    intro m hm hfits
    rw [need]
    omega
  | fuel + 1, mode, a, s => by
    -- There is enough for a round where there is for the whole repetition.
    have hround : ∀ m (t : MatchState ρ), t.cursor.rest.length ≤ s.cursor.rest.length →
        Short g m fuel (mode.spacing == .loose) a t.cursor.rest.length →
        Short g m (fuel + 2) (mode.spacing == .loose) (.many a) s.cursor.rest.length := by
      intro m t ht h hfits
      have := Nat.mul_le_mul_right g.depth ht
      rw [fits, Bool.and_eq_true, Bool.and_eq_true] at hfits
      have := h hfits.1.2
      rw [need]
      omega
    rw [more]
    split
    · rename_i hsp
      have hblank := gives_run fuel { mode with spacing := .atomic } g.blank s
      generalize run g fuel { mode with spacing := .atomic } g.blank s = reply at hblank ⊢
      cases reply with
      | exhausted =>
        intro m hm hfits
        have hshort : fuel < _ + g.need m false g.blank := hblank m hm hm.fits_blank
        have := hm.blank
        rw [hsp, need, blankNeed, if_pos (beq_self_eq_true _)]
        omega
      | failed attempts =>
        intro c ps hps
        rw [hsp] at hps ⊢
        exact ⟨[], by simpa using Answers.last_blank hps hblank, fun _ => rfl⟩
      | matched t =>
        obtain ⟨bs, hbs, hpieces⟩ := hblank
        have hlength := hbs.suffix.length_le
        have ha := gives_run fuel mode a t
        dsimp only
        generalize run g fuel mode a t = reply at ha ⊢
        cases reply with
        | exhausted => exact fun m hm => hround m t hlength (ha m hm)
        | failed attempts =>
          rw [Gives, hsp] at ha
          intro c ps hps
          rw [hsp] at hps ⊢
          exact ⟨[], by simpa using Answers.last hps hbs ha, fun _ => rfl⟩
        | matched u =>
          obtain ⟨qs, hqs, hpieces'⟩ := ha
          have hmore := goesOn_more fuel mode a u
          dsimp only
          generalize more g fuel mode a u = reply at hmore ⊢
          cases reply with
          | exhausted =>
            exact fun m hm => (hmore m hm).round (Nat.le_trans (hqs.length_le hm.solid) hlength)
          | failed attempts => exact hmore.elim
          | matched v =>
            intro c ps hps
            obtain ⟨rs, hrs, hpieces''⟩ := hmore t.cursor qs hqs
            rw [hsp] at hps hqs hrs ⊢
            refine ⟨bs ++ (qs ++ rs), ?_, fun hmode => ?_⟩
            · rw [← List.append_assoc]
              exact .more_loose hps hbs hqs hrs
            · rw [hpieces'' hmode, hpieces' hmode, hpieces hmode]
              simp
    · rename_i hsp
      have ha := gives_run fuel mode a s
      generalize run g fuel mode a s = reply at ha ⊢
      cases reply with
      | exhausted => exact fun m hm => hround m s (Nat.le_refl _) (ha m hm)
      | failed attempts =>
        intro c ps hps
        exact ⟨[], .more_tight hsp hps (.done ha), fun _ => rfl⟩
      | matched t =>
        obtain ⟨qs, hqs, hpieces⟩ := ha
        have hmore := goesOn_more fuel mode a t
        dsimp only
        generalize more g fuel mode a t = reply at hmore ⊢
        cases reply with
        | exhausted => exact fun m hm => (hmore m hm).round (hqs.length_le hm.solid)
        | failed attempts => exact hmore.elim
        | matched u =>
          intro c ps hps
          obtain ⟨rs, hrs, hpieces'⟩ := hmore s.cursor qs hqs
          refine ⟨qs ++ rs, .more_tight hsp hps hrs, fun hmode => ?_⟩
          rw [hpieces' hmode, hpieces hmode, List.reverse_append, List.append_assoc]

end

/-- A phrase always has an answer. -/
theorem exists_answers (hm : g.Bounded m) (sp : Spacing) (c : Cursor) {phrase : Phrase ρ}
    (hfits : g.fits m (sp == .loose) phrase = true) : ∃ x, Answers g sp phrase c x := by
  have hgives := gives_run (g := g) (c.rest.length * g.depth + g.need m (sp == .loose) phrase)
    { spacing := sp } phrase { cursor := c }
  generalize run g _ _ phrase _ = reply at hgives
  cases reply with
  | exhausted => exact absurd (hgives m hm hfits) (Nat.lt_irrefl _)
  | failed attempts => exact ⟨none, hgives⟩
  | matched t =>
    obtain ⟨ps, hps, -⟩ := hgives
    exact ⟨_, hps⟩

section

variable {r : ρ} {text : List Char} {ps : List (Piece ρ)}

theorem answers_of_match (h : g.match? r text = .ok ps) :
    ∃ c, Answers g .loose (.rule r) { rest := text } (some (c, ps)) := by
  have hgives := gives_run (g := g) ((text.length + 1) * g.depth) {} (.rule r)
    { cursor := { rest := text } }
  unfold match? at h
  generalize run g _ _ (.rule r) _ = reply at hgives h
  cases reply with
  | exhausted | failed => cases h
  | matched t =>
    cases h
    obtain ⟨ps, hps, hpieces⟩ := hgives
    have heq : t.pieces.reverse = ps := by simp [hpieces rfl]
    exact ⟨t.cursor, heq ▸ hps⟩

theorem shaped_match (hblank : g.BlankLeavesNothing) (h : g.match? r text = .ok ps) :
    Leaves g .loose (.rule r) ps := by
  obtain ⟨c, hc⟩ := answers_of_match h
  obtain ⟨cs, hpassed⟩ := hc.passed c ps rfl
  exact hpassed.leaves hblank

theorem stands_match (h : g.match? r text = .ok ps) : ∀ p ∈ ps, Stands g text p := by
  obtain ⟨c, hc⟩ := answers_of_match h
  obtain ⟨cs, hpassed⟩ := hc.passed c ps rfl
  exact hpassed.stands

theorem match_eq_ok_iff (hm : g.Bounded m) (hdepth : g.need m true (.rule r) ≤ g.depth) :
    g.match? r text = .ok ps ↔ ∃ c, Answers g .loose (.rule r) { rest := text } (some (c, ps)) := by
  refine ⟨answers_of_match, ?_⟩
  rintro ⟨c, h⟩
  have hgives := gives_run (g := g) ((text.length + 1) * g.depth) {} (.rule r)
    { cursor := { rest := text } }
  unfold match?
  generalize run g _ _ (.rule r) _ = reply at hgives ⊢
  cases reply with
  | exhausted =>
    have hshort : (text.length + 1) * g.depth < text.length * g.depth + g.need m true (.rule r) :=
      hgives m hm rfl
    rw [Nat.succ_mul] at hshort
    omega
  | failed attempts => cases h.unique hgives
  | matched t =>
    obtain ⟨qs, hqs, hpieces⟩ := hgives
    cases h.unique hqs
    simp [hpieces rfl]

theorem match_of_answers (hm : g.Bounded m) {c : Cursor}
    (hdepth : g.need m true (.rule r) ≤ g.depth)
    (h : Answers g .loose (.rule r) { rest := text } (some (c, ps))) : g.match? r text = .ok ps :=
  (match_eq_ok_iff hm hdepth).2 ⟨c, h⟩

end

end Grammar

end PanelSchema
