import PanelSchema.Proofs.Grammar.Answers

/-!
What a match took and left. A token takes the characters that its phrase spells, the pieces are
those that the phrase may leave, and each is the answer of its rule somewhere in the text, so what
a rule refuses everywhere in the text is left nowhere.
-/

namespace PanelSchema

variable {ρ : Type}

def Phrase.takes (solid : ρ → Bool) : Phrase ρ → Bool
  | .text cs | .caseless cs => !cs.isEmpty
  | .one _ => true
  | .startOfInput | .endOfInput | .opt _ | .many _ | .ahead _ | .never _ => false
  | .rule r => solid r
  | .seq a b => a.takes solid || b.takes solid
  | .alt a b => a.takes solid && b.takes solid

theorem Cursor.Took.unique {c d : Cursor} {cs ds : List Char} (h : c.Took d cs)
    (h' : c.Took d ds) : cs = ds :=
  List.append_cancel_right (h.rest.symm.trans h'.rest)

theorem Cursor.Took.chars {c d : Cursor} {cs : List Char} (h : c.Took d cs) (r : ρ)
    (ps : List (Piece ρ)) :
    Piece.chars { rule := r, start := c.position, stop := d.position, source := c.rest,
                  inner := ps } = cs := by
  unfold Piece.chars
  dsimp only
  rw [h.offset, Nat.add_sub_cancel_left, h.rest]
  exact List.take_left

theorem Cursor.Took.suffix {c d : Cursor} {cs : List Char} (h : c.Took d cs) : d.rest <:+ c.rest :=
  ⟨cs, h.rest.symm⟩

namespace Grammar

variable {g : Grammar ρ}

/-- A piece that a rule leaves somewhere in a text, and so on inside it. -/
inductive Stands (g : Grammar ρ) (text : List Char) : Piece ρ → Prop where
  | mk {sp : Spacing} {c d : Cursor} {p : Piece ρ} (hrest : c.rest <:+ text)
      (h : Answers g sp (.rule p.rule) c (some (d, [p]))) (htook : c.Took d p.chars)
      (hinner : ∀ q ∈ p.inner, Stands g text q) : Stands g text p

theorem Stands.inner {text : List Char} {p : Piece ρ} (h : Stands g text p) :
    ∀ q ∈ p.inner, Stands g text q := by
  cases h with
  | mk _ _ _ hinner => exact hinner

theorem Stands.mono {text text' : List Char} {p : Piece ρ} (h : Stands g text p)
    (htext : text <:+ text') : Stands g text' p := by
  induction h with
  | mk hrest h htook _ ih => exact .mk (hrest.trans htext) h htook ih

def IsSolid (g : Grammar ρ) (solid : ρ → Bool) : Prop :=
  ∀ r, solid r = true → (g.body r).takes solid = true

/-- A match of the phrase took these characters and left these pieces. -/
structure Passed (g : Grammar ρ) (sp : Spacing) (phrase : Phrase ρ) (c d : Cursor)
    (ps : List (Piece ρ)) (cs : List Char) : Prop where
  took : c.Took d cs
  spells : sp ≠ .loose → Spells g phrase cs
  leaves : g.BlankLeavesNothing → Leaves g sp phrase ps
  takes : ∀ solid, g.IsSolid solid → phrase.takes solid = true → cs ≠ []
  stands : ∀ p ∈ ps, Stands g c.rest p

section

variable {sp : Spacing} {phrase a b : Phrase ρ} {c d e f : Cursor} {ps qs bs : List (Piece ρ)}
  {cs ds ws : List Char}

theorem passed_token (htook : c.Took d cs) (hspells : Spells g a cs) (hleaves : Leaves g sp a [])
    (htakes : ∀ solid, a.takes solid = true → cs ≠ []) : Passed g sp a c d [] cs :=
  ⟨htook, fun _ => hspells, fun _ => hleaves, fun solid _ => htakes solid, by simp⟩

theorem passed_nothing (hspells : Spells g a []) (hleaves : Leaves g sp a [])
    (htakes : ∀ solid, a.takes solid = false) : Passed g sp a c c [] [] :=
  passed_token .rfl hspells hleaves fun solid h => by simp [htakes solid] at h

theorem Passed.map (h : Passed g sp a c d ps cs) (hspells : Spells g a cs → Spells g b cs)
    (hleaves : Leaves g sp a ps → Leaves g sp b ps)
    (htakes : ∀ solid, g.IsSolid solid → b.takes solid = true → a.takes solid = true) :
    Passed g sp b c d ps cs where
  took := h.took
  spells hsp := hspells (h.spells hsp)
  leaves hblank := hleaves (h.leaves hblank)
  takes solid hsolid hb := h.takes solid hsolid (htakes solid hsolid hb)
  stands := h.stands

/-- Blanks take characters, but only where they are skipped. -/
structure Skipped (g : Grammar ρ) (sp : Spacing) (c d : Cursor) (ps : List (Piece ρ))
    (cs : List Char) : Prop where
  took : c.Took d cs
  tight : sp ≠ .loose → cs = []
  leaves : g.BlankLeavesNothing → ps = []
  stands : ∀ p ∈ ps, Stands g c.rest p

theorem Skipped.nothing : Skipped g sp c c [] [] :=
  ⟨.rfl, fun _ => rfl, fun _ => rfl, by simp⟩

theorem Passed.skipped (h : Passed g .atomic g.blank c d ps cs) : Skipped g .loose c d ps cs :=
  ⟨h.took, fun hsp => absurd rfl hsp, fun hblank => hblank ps (h.leaves hblank), h.stands⟩

theorem Passed.join (ha : Passed g sp a c d ps cs) (hskipped : Skipped g sp d e bs ws)
    (hb : Passed g sp b e f qs ds)
    (hspells : Spells g a cs → Spells g b ds → Spells g phrase (cs ++ ds))
    (hleaves : Leaves g sp a ps → Leaves g sp b qs → Leaves g sp phrase (ps ++ qs))
    (htakes : ∀ solid, phrase.takes solid = true → a.takes solid = true ∨ b.takes solid = true) :
    Passed g sp phrase c f (ps ++ bs ++ qs) (cs ++ (ws ++ ds)) where
  took := ha.took.trans (hskipped.took.trans hb.took)
  spells hsp := by
    rw [hskipped.tight hsp]
    exact hspells (ha.spells hsp) (hb.spells hsp)
  leaves hblank := by
    rw [hskipped.leaves hblank, List.append_nil]
    exact hleaves (ha.leaves hblank) (hb.leaves hblank)
  takes solid hsolid h := by
    rcases htakes solid h with h | h
    · simp [ha.takes solid hsolid h]
    · simp [hb.takes solid hsolid h]
  stands p hp := by
    have hd := ha.took.suffix
    rw [List.mem_append, List.mem_append] at hp
    rcases hp with (hp | hp) | hp
    · exact ha.stands p hp
    · exact (hskipped.stands p hp).mono hd
    · exact (hb.stands p hp).mono (hskipped.took.suffix.trans hd)

/-- Closing a rule leaves its piece, unless it is inside a token. -/
theorem Passed.closed {r : ρ} (hstyle : g.style r ≠ .silent)
    (hanswers : Answers g (innerSpacing (g.style r) sp) (g.body r) c (some (d, ps)))
    (h : Passed g (innerSpacing (g.style r) sp) (g.body r) c d ps cs) {qs : List (Piece ρ)}
    (hqs : Answer.closed (outerSpacing (g.style r) sp) r c (some (d, ps)) = some (d, qs)) :
    Passed g sp (.rule r) c d qs cs := by
  have hrule := Answers.rule hstyle hanswers
  rw [hqs] at hrule
  -- A rule is entered in a token only from a token, where it has no blanks inside.
  have htight : sp ≠ .loose → innerSpacing (g.style r) sp ≠ .loose := by
    unfold innerSpacing innerMode
    cases g.style r <;> simp
  have hspells : sp ≠ .loose → Spells g (.rule r) cs := fun hsp => .rule (h.spells (htight hsp))
  have htakes : ∀ solid, g.IsSolid solid → solid r = true → cs ≠ [] :=
    fun solid hsolid hr => h.takes solid hsolid (hsolid r hr)
  by_cases hkept : outerSpacing (g.style r) sp = .atomic
  · obtain rfl : ps = qs := by simpa [Answer.closed, hkept] using hqs
    exact ⟨h.took, hspells, fun hblank => .dropped hstyle hkept (h.leaves hblank), htakes, h.stands⟩
  · have hchars := h.took.chars r ps
    obtain rfl : [⟨r, c.position, d.position, c.rest, ps⟩] = qs := by
      simpa [Answer.closed, hkept] using hqs
    refine ⟨h.took, hspells, fun hblank => ?_, htakes, List.forall_mem_singleton.2 ?_⟩
    · exact .kept (p := ⟨r, c.position, d.position, c.rest, ps⟩) hstyle hkept (h.leaves hblank)
        (hchars ▸ h.spells)
    · exact .mk (List.suffix_refl _) hrule (hchars.symm ▸ h.took) h.stands

/-- What holds of every match. -/
theorem Answers.passed {x : Answer ρ} (h : Answers g sp phrase c x) :
    ∀ d ps, x = some (d, ps) → ∃ cs, Passed g sp phrase c d ps cs := by
  induction h with
  | @text sp cs c =>
    intro d ps hd
    obtain ⟨e, he, hd⟩ := Option.map_eq_some_iff.1 hd
    cases hd
    obtain ⟨ds, hsame, htook⟩ := Cursor.took_stepOver he
    obtain rfl : cs = ds := by simpa using hsame
    exact ⟨cs, passed_token htook (.text cs) .text (by simp [Phrase.takes])⟩
  | @caseless sp cs c =>
    intro d ps hd
    obtain ⟨e, he, hd⟩ := Option.map_eq_some_iff.1 hd
    cases hd
    obtain ⟨ds, hsame, htook⟩ := Cursor.took_stepOver he
    refine ⟨ds, passed_token htook (.caseless hsame) .caseless fun _ htakes => ?_⟩
    cases hsame with
    | nil => cases htakes
    | cons => simp
  | one =>
    intro d ps hd
    obtain ⟨e, he, hd⟩ := Option.map_eq_some_iff.1 hd
    cases hd
    obtain ⟨x, hx, htook⟩ := Cursor.took_next he
    exact ⟨[x], passed_token htook (.one hx) .one (by simp)⟩
  | startOfInput =>
    intro d ps hd
    split at hd <;> cases hd
    exact ⟨[], passed_nothing .startOfInput .startOfInput fun _ => rfl⟩
  | endOfInput =>
    intro d ps hd
    split at hd <;> cases hd
    exact ⟨[], passed_nothing .endOfInput .endOfInput fun _ => rfl⟩
  | silent hstyle _ ih =>
    intro d ps hd
    obtain ⟨cs, h⟩ := ih d ps hd
    exact ⟨cs, h.map .rule (.silent hstyle) fun solid hsolid hr => hsolid _ hr⟩
  | rule hstyle hanswers ih =>
    intro d ps hd
    obtain ⟨⟨e, qs⟩, rfl, heq⟩ := Option.map_eq_some_iff.1 hd
    obtain ⟨cs, h⟩ := ih e qs rfl
    obtain rfl : e = d := (Prod.mk.inj heq).1
    exact ⟨cs, h.closed hstyle hanswers hd⟩
  | seq_refused | seq_blank =>
    intro d ps hd
    cases hd
  | seq_tight _ _ _ iha ihb =>
    intro d ps hd
    obtain ⟨⟨e, qs⟩, hx, hd⟩ := Option.map_eq_some_iff.1 hd
    cases hd
    obtain ⟨cs, ha⟩ := iha _ _ rfl
    obtain ⟨ds, hb⟩ := ihb e qs hx
    exact ⟨_, by simpa using ha.join .nothing hb .seq .seq (by simp [Phrase.takes])⟩
  | seq_loose _ _ _ iha ihblank ihb =>
    intro d ps hd
    obtain ⟨⟨e, qs⟩, hx, hd⟩ := Option.map_eq_some_iff.1 hd
    cases hd
    obtain ⟨cs, ha⟩ := iha _ _ rfl
    obtain ⟨ws, hblank⟩ := ihblank _ _ rfl
    obtain ⟨ds, hb⟩ := ihb e qs hx
    exact ⟨_, ha.join hblank.skipped hb .seq .seq (by simp [Phrase.takes])⟩
  | left _ ih =>
    intro d ps hd
    obtain ⟨cs, h⟩ := ih d ps hd
    exact ⟨cs, h.map .left .left (by simp +contextual [Phrase.takes])⟩
  | right _ _ _ ih =>
    intro d ps hd
    obtain ⟨cs, h⟩ := ih d ps hd
    exact ⟨cs, h.map .right .right (by simp +contextual [Phrase.takes])⟩
  | present _ ih =>
    intro d ps hd
    obtain ⟨cs, h⟩ := ih d ps hd
    exact ⟨cs, h.map .present .present (by simp [Phrase.takes])⟩
  | absent =>
    intro d ps hd
    cases hd
    exact ⟨[], passed_nothing .absent .absent fun _ => rfl⟩
  | done =>
    intro d ps hd
    cases hd
    exact ⟨[], passed_nothing .done .done fun _ => rfl⟩
  | more_tight _ _ _ iha ih =>
    intro d ps hd
    cases hd
    obtain ⟨cs, ha⟩ := iha _ _ rfl
    obtain ⟨ds, h⟩ := ih _ _ rfl
    exact ⟨_, by simpa using ha.join .nothing h .more .more (by simp [Phrase.takes])⟩
  | more_loose _ _ _ _ iha ihblank _ ih =>
    intro d ps hd
    cases hd
    obtain ⟨cs, ha⟩ := iha _ _ rfl
    obtain ⟨ws, hblank⟩ := ihblank _ _ rfl
    obtain ⟨ds, h⟩ := ih _ _ rfl
    exact ⟨_, ha.join hblank.skipped h .more .more (by simp [Phrase.takes])⟩
  | last _ _ _ iha _ _ | last_blank _ _ iha _ =>
    intro d ps hd
    cases hd
    obtain ⟨cs, ha⟩ := iha _ _ rfl
    have h := ha.join .nothing (passed_nothing .done .done fun _ => rfl) .more .more
      (by simp [Phrase.takes])
    exact ⟨cs, by simpa using h⟩
  | ahead =>
    intro d ps hd
    obtain ⟨y, -, hd⟩ := Option.map_eq_some_iff.1 hd
    cases hd
    exact ⟨[], passed_nothing .ahead .ahead fun _ => rfl⟩
  | never =>
    intro d ps hd
    split at hd <;> cases hd
    exact ⟨[], passed_nothing .never .never fun _ => rfl⟩

theorem Answers.took (h : Answers g sp phrase c (some (d, ps))) : ∃ cs, c.Took d cs := by
  obtain ⟨cs, h⟩ := h.passed d ps rfl
  exact ⟨cs, h.took⟩

theorem Answers.suffix (h : Answers g sp phrase c (some (d, ps))) : d.rest <:+ c.rest := by
  obtain ⟨cs, h⟩ := h.took
  exact h.suffix

theorem Answers.length_le {solid : ρ → Bool} (hsolid : g.IsSolid solid)
    (h : Answers g sp phrase c (some (d, ps))) :
    d.rest.length + (phrase.takes solid).toNat ≤ c.rest.length := by
  obtain ⟨cs, h⟩ := h.passed d ps rfl
  rw [h.took.rest, List.length_append, Nat.add_comm]
  cases htakes : phrase.takes solid with
  | false => simp
  | true => simpa [Nat.succ_le_iff, List.length_pos_iff] using h.takes solid hsolid htakes

/-! ### Parts of a match -/

theorem Answers.parts (h : Answers g sp (.seq a b) c (some (d, ps))) (hsp : sp ≠ .loose) :
    ∃ e qs rs, Answers g sp a c (some (e, qs)) ∧ Answers g sp b e (some (d, rs)) := by
  generalize hy : (some (d, ps) : Answer ρ) = y at h
  cases h with
  | seq_refused | seq_blank => cases hy
  | seq_tight _ ha hb =>
    obtain ⟨⟨e, rs⟩, rfl, hd⟩ := Option.map_eq_some_iff.1 hy.symm
    cases hd
    exact ⟨_, _, _, ha, hb⟩
  | seq_loose => exact absurd rfl hsp

theorem Answers.took_text (h : Answers g sp (.text cs) c (some (d, ps))) : c.Took d cs := by
  generalize hy : (some (d, ps) : Answer ρ) = y at h
  cases h with
  | text =>
    obtain ⟨e, he, hd⟩ := Option.map_eq_some_iff.1 hy.symm
    cases hd
    obtain ⟨ds, hsame, htook⟩ := Cursor.took_stepOver he
    have heq : cs = ds := by simpa using hsame
    exact heq ▸ htook

theorem Answers.of_rule {r : ρ} (h : Answers g sp (.rule r) c (some (d, ps)))
    (hstyle : g.style r ≠ .silent) :
    ∃ qs, Answers g (innerSpacing (g.style r) sp) (g.body r) c (some (d, qs)) := by
  generalize hy : (some (d, ps) : Answer ρ) = y at h
  cases h with
  | silent hsilent => exact absurd hsilent hstyle
  | rule _ h =>
    obtain ⟨⟨e, qs⟩, rfl, hd⟩ := Option.map_eq_some_iff.1 hy.symm
    cases hd
    exact ⟨qs, h⟩

end

end Grammar

end PanelSchema
