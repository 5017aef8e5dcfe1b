import PanelSchema.Proofs.Grammar.Takes

/-!
What the parts of a match took. The text of a sequence is the texts of its phrases with blanks
between them, and the piece of a rule has the text that the rule took.
-/

namespace PanelSchema

variable {ρ : Type}

/-- Texts one after the other, with blanks between them. -/
inductive Spaced (blank : List Char → Prop) : List (List Char) → List Char → Prop where
  | last (cs : List Char) : Spaced blank [cs] cs
  | cons {bs rest : List Char} {parts : List (List Char)} (cs : List Char) (hbs : blank bs)
      (h : Spaced blank parts rest) : Spaced blank (cs :: parts) (cs ++ (bs ++ rest))

theorem Spaced.mem {blank : List Char → Prop} {parts : List (List Char)} {text : List Char}
    (h : Spaced blank parts text) (part : List Char) (hpart : part ∈ parts) :
    ∀ c ∈ part, c ∈ text := by
  induction h with
  | last cs =>
    intro c hc
    rwa [List.mem_singleton.1 hpart] at hc
  | cons cs _ _ ih =>
    intro c hc
    rcases List.mem_cons.1 hpart with rfl | hpart
    · exact List.mem_append_left _ hc
    · exact List.mem_append_right _ (List.mem_append_right _ (ih hpart c hc))

namespace Grammar

variable {g : Grammar ρ}

/-- Somewhere the phrase takes these characters and leaves these pieces. -/
def Reads (g : Grammar ρ) (sp : Spacing) (phrase : Phrase ρ) (cs : List Char)
    (ps : List (Piece ρ)) : Prop :=
  ∃ c d, Answers g sp phrase c (some (d, ps)) ∧ c.Took d cs

section

variable {sp : Spacing} {a b : Phrase ρ} {cs ds : List Char} {ps : List (Piece ρ)}

theorem Reads.text (h : Reads g sp (.text ds) cs ps) : cs = ds ∧ ps = [] := by
  obtain ⟨c, d, h, htook⟩ := h
  refine ⟨htook.unique h.took_text, ?_⟩
  generalize hy : (some (d, ps) : Answer ρ) = y at h
  cases h with
  | text =>
    obtain ⟨e, -, hd⟩ := Option.map_eq_some_iff.1 hy.symm
    cases hd
    rfl

theorem Reads.startOfInput (h : Reads g sp .startOfInput cs ps) : cs = [] ∧ ps = [] := by
  obtain ⟨c, d, h, htook⟩ := h
  generalize hy : (some (d, ps) : Answer ρ) = y at h
  cases h with
  | startOfInput =>
    split at hy <;> cases hy
    exact ⟨htook.unique .rfl, rfl⟩

theorem Reads.endOfInput (h : Reads g sp .endOfInput cs ps) : cs = [] ∧ ps = [] := by
  obtain ⟨c, d, h, htook⟩ := h
  generalize hy : (some (d, ps) : Answer ρ) = y at h
  cases h with
  | endOfInput =>
    split at hy <;> cases hy
    exact ⟨htook.unique .rfl, rfl⟩

theorem Reads.caseless (h : Reads g sp (.caseless ds) cs ps) :
    cs.map Char.toLower = ds.map Char.toLower ∧ ps = [] := by
  obtain ⟨c, d, h, htook⟩ := h
  generalize hy : (some (d, ps) : Answer ρ) = y at h
  cases h with
  | caseless =>
    obtain ⟨e, he, hd⟩ := Option.map_eq_some_iff.1 hy.symm
    cases hd
    obtain ⟨es, hsame, htook'⟩ := Cursor.took_stepOver he
    rw [htook.unique htook']
    have hlower : List.Forall₂ Eq (ds.map Char.toLower) (es.map Char.toLower) :=
      List.forall₂_map_left_iff.2 (List.forall₂_map_right_iff.2 (by simpa using hsame))
    rw [List.forall₂_eq_eq_eq] at hlower
    exact ⟨hlower.symm, rfl⟩

theorem Reads.alt (h : Reads g sp (.alt a b) cs ps) : Reads g sp a cs ps ∨ Reads g sp b cs ps := by
  obtain ⟨c, d, h, htook⟩ := h
  generalize hy : (some (d, ps) : Answer ρ) = y at h
  cases h with
  | left h => exact .inl ⟨c, d, hy ▸ h, htook⟩
  | right _ h => exact .inr ⟨c, d, hy ▸ h, htook⟩

theorem Reads.piece {r : ρ} (h : Reads g sp (.rule r) cs ps) (hstyle : g.style r ≠ .silent)
    (hkept : outerSpacing (g.style r) sp ≠ .atomic) :
    ∃ p, ps = [p] ∧ p.rule = r ∧ p.chars = cs ∧
      Reads g (innerSpacing (g.style r) sp) (g.body r) cs p.inner := by
  obtain ⟨c, d, h, htook⟩ := h
  generalize hy : (some (d, ps) : Answer ρ) = y at h
  cases h with
  | silent hsilent => exact absurd hsilent hstyle
  | rule _ h =>
    obtain ⟨⟨e, qs⟩, rfl, hd⟩ := Option.map_eq_some_iff.1 hy.symm
    rw [if_neg hkept] at hd
    cases hd
    exact ⟨_, rfl, rfl, htook.chars r qs, c, e, h, htook⟩

theorem Reads.tight (h : Reads g sp (.seq a b) cs ps) (hsp : sp ≠ .loose) :
    ∃ cs₁ cs₂ ps₁ ps₂, Reads g sp a cs₁ ps₁ ∧ Reads g sp b cs₂ ps₂ ∧ cs = cs₁ ++ cs₂ ∧
      ps = ps₁ ++ ps₂ := by
  obtain ⟨c, d, h, htook⟩ := h
  generalize hy : (some (d, ps) : Answer ρ) = y at h
  cases h with
  | seq_refused | seq_blank => cases hy
  | seq_loose => exact absurd rfl hsp
  | @seq_tight _ _ _ _ e ps₁ _ _ ha hb =>
    obtain ⟨⟨d, ps₂⟩, rfl, hd⟩ := Option.map_eq_some_iff.1 hy.symm
    cases hd
    obtain ⟨cs₁, htook₁⟩ := ha.took
    obtain ⟨cs₂, htook₂⟩ := hb.took
    exact ⟨cs₁, cs₂, ps₁, ps₂, ⟨c, e, ha, htook₁⟩, ⟨e, d, hb, htook₂⟩,
      htook.unique (htook₁.trans htook₂), rfl⟩

/-- What blanks are made of, and that they leave nothing. -/
def Blanks (g : Grammar ρ) (blank : List Char → Prop) : Prop :=
  ∀ bs ps, Reads g .atomic g.blank bs ps → blank bs ∧ ps = []

variable {blank : List Char → Prop}

theorem Reads.loose (hblank : g.Blanks blank) (h : Reads g .loose (.seq a b) cs ps) :
    ∃ cs₁ bs cs₂ ps₁ ps₂, Reads g .loose a cs₁ ps₁ ∧ blank bs ∧ Reads g .loose b cs₂ ps₂ ∧
      cs = cs₁ ++ (bs ++ cs₂) ∧ ps = ps₁ ++ ps₂ := by
  obtain ⟨c, d, h, htook⟩ := h
  generalize hy : (some (d, ps) : Answer ρ) = y at h
  cases h with
  | seq_refused | seq_blank => cases hy
  | seq_tight hsp => exact absurd rfl hsp
  | @seq_loose _ _ _ e e' ps₁ qs _ ha hblanks hb =>
    obtain ⟨⟨d, ps₂⟩, rfl, hd⟩ := Option.map_eq_some_iff.1 hy.symm
    cases hd
    obtain ⟨cs₁, htook₁⟩ := ha.took
    obtain ⟨bs, htookb⟩ := hblanks.took
    obtain ⟨cs₂, htook₂⟩ := hb.took
    obtain ⟨hbs, rfl⟩ := hblank bs qs ⟨e, e', hblanks, htookb⟩
    refine ⟨cs₁, bs, cs₂, ps₁, ps₂, ⟨c, e, ha, htook₁⟩, hbs, ⟨e', d, hb, htook₂⟩, ?_, by simp⟩
    exact htook.unique (htook₁.trans (htookb.trans htook₂))

theorem Reads.all (hblank : g.Blanks blank) : ∀ {phrases : List (Phrase ρ)} {cs : List Char}
    {ps : List (Piece ρ)}, phrases ≠ [] → Reads g .loose (Phrase.all phrases) cs ps →
    ∃ parts : List (List Char × List (Piece ρ)),
      List.Forall₂ (fun phrase part => Reads g .loose phrase part.1 part.2) phrases parts ∧
        Spaced blank (parts.map (·.1)) cs ∧ ps = parts.flatMap (·.2)
  | [], _, _, hne, _ => absurd rfl hne
  | [a], cs, ps, _, h => ⟨[(cs, ps)], .cons h .nil, .last cs, by simp⟩
  | a :: b :: rest, cs, ps, _, h => by
    obtain ⟨cs₁, bs, cs₂, ps₁, ps₂, ha, hbs, hb, rfl, rfl⟩ := Reads.loose hblank h
    obtain ⟨parts, hparts, hspaced, rfl⟩ := Reads.all hblank (List.cons_ne_nil b rest) hb
    exact ⟨(cs₁, ps₁) :: parts, .cons ha hparts, .cons cs₁ hbs hspaced, by simp⟩

theorem Answers.rest_of_endOfInput {c d : Cursor}
    (h : Answers g sp .endOfInput c (some (d, ps))) : d.rest = [] := by
  generalize hy : (some (d, ps) : Answer ρ) = y at h
  cases h with
  | endOfInput =>
    split at hy <;> cases hy
    exact List.isEmpty_iff.1 ‹_›

theorem Answers.halves {c d : Cursor} (h : Answers g .loose (.seq a b) c (some (d, ps))) :
    ∃ e f qs bs rs, Answers g .loose a c (some (e, qs)) ∧
      Answers g .atomic g.blank e (some (f, bs)) ∧ Answers g .loose b f (some (d, rs)) ∧
      ps = qs ++ bs ++ rs := by
  generalize hy : (some (d, ps) : Answer ρ) = y at h
  cases h with
  | seq_refused | seq_blank => cases hy
  | seq_tight hsp => exact absurd rfl hsp
  | seq_loose ha hblank hb =>
    obtain ⟨⟨d, rs⟩, rfl, hd⟩ := Option.map_eq_some_iff.1 hy.symm
    cases hd
    exact ⟨_, _, _, _, _, ha, hblank, hb, rfl⟩

theorem Answers.last_of_all {last : Phrase ρ} : ∀ {phrases : List (Phrase ρ)} {c d : Cursor}
    {ps : List (Piece ρ)}, Answers g .loose (Phrase.all phrases) c (some (d, ps)) →
    phrases.getLast? = some last → ∃ e qs, Answers g .loose last e (some (d, qs))
  | [], _, _, _, _, hlast => nomatch hlast
  | [a], c, d, ps, h, hlast => ⟨c, ps, Option.some.inj hlast ▸ h⟩
  | a :: b :: rest, c, d, ps, h, hlast => by
    change Answers g .loose (.seq a (Phrase.all (b :: rest))) c (some (d, ps)) at h
    obtain ⟨_, _, _, _, _, -, -, hb, -⟩ := h.halves
    exact Answers.last_of_all hb (by simpa using hlast)

end

theorem Reads.explained (hblank : g.BlankLeavesNothing) {sp : Spacing} {phrase : Phrase ρ}
    {cs : List Char} {ps : List (Piece ρ)} (h : Reads g sp phrase cs ps) :
    Leaves g sp phrase ps ∧ (sp ≠ .loose → Spells g phrase cs) := by
  obtain ⟨c, d, h, htook⟩ := h
  obtain ⟨ds, hpassed⟩ := h.passed d ps rfl
  rw [htook.unique hpassed.took]
  exact ⟨hpassed.leaves hblank, hpassed.spells⟩

end Grammar

end PanelSchema
