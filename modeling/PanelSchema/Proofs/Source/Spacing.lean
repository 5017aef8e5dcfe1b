import PanelSchema.Proofs.Source.Dotted

/-!
Blanks that are added between tokens. The text is read up to the place as it was and goes on behind
the blanks as before, so the same pieces are left. A piece in which the place is has the blanks in
its text.
-/

namespace PanelSchema

namespace Source

open Grammar Insertion

/-! ### Phrases before the place -/

/-- Rules that are asked outside tokens, but for one operator. -/
def isOuter (r : Rule) : Bool :=
  !(r matches .sourceFile | .whitespace | .comment | .stringInner | .opRelational)

def isComparison : Phrase Rule → Phrase Rule → Bool
  | .rule .opRelational, .rule .additive => true
  | _, _ => false

def isBuilt : Phrase Rule → Bool
  | .text cs => (cs.zip cs.tail).all fun p => isJoint p.1 p.2
  | .one _ | .endOfInput => true
  | .rule r => isOuter r
  | .seq a b => (isBuilt a || isComparison a b) && isBuilt b && keepsPace (.seq a b)
  | .alt a b => isBuilt a && isBuilt b && keepsPace (.alt a b)
  | .opt a => isBuilt a && keepsPace (.opt a)
  | .many a => isBuilt a && keepsPace (.many a)
  | .ahead a | .never a => isBuilt a && !mayLose a
  | .caseless _ | .startOfInput => false

def operand : Phrase Rule :=
  .alt (.seq (.rule .cast) (.rule .unary)) (.rule .postfixExpr)

theorem isBuilt_body (r : Rule) (hr : isOuter r = true) (hunary : r ≠ .unary)
    (hstyle : style r = .plain ∨ style r = .silent) : isBuilt (body r) = true := by
  revert hr hunary hstyle
  cases r <;> decide

theorem isInner_of_isBuilt {a : Phrase Rule} (h : isBuilt a = true) : a.isInner isBelow = true := by
  induction a with
  | rule r =>
    revert h
    cases r <;> decide
  | seq a b iha ihb =>
    simp only [isBuilt, Bool.and_eq_true, Bool.or_eq_true] at h
    rw [Phrase.isInner, ihb h.1.2, Bool.and_true]
    rcases h.1.1 with ha | ha
    · exact iha ha
    · unfold isComparison at ha
      split at ha
      · rfl
      · cases ha
  | alt a b iha ihb =>
    simp only [isBuilt, Bool.and_eq_true] at h
    rw [Phrase.isInner, iha h.1.1, ihb h.1.2]
    rfl
  | opt a ih | many a ih | ahead a ih | never a ih =>
    rw [isBuilt, Bool.and_eq_true] at h
    exact ih h.1
  | text | one | endOfInput => rfl
  | caseless | startOfInput => cases h

/-! ### Where something blank may be added -/

/-- What is asked where the text is read as a source before anything is added. -/
def AsksBare (i : Insertion) : Spacing → Phrase Rule → Cursor → Prop :=
  Asks grammar .sourceFile i.bare

/-- Before the place `w` is left to be skipped over. -/
inductive Comes (i : Insertion) : List Char → Prop where
  | start {w : List Char} {c : Cursor} (hsuffix : w <:+ i.front)
      (h : AsksBare i .atomic blank c) (hrest : c.rest = w ++ i.back) : Comes i w
  | step {w w' : List Char} (h : Comes i w) (hsuffix : w' <:+ w)
      (hstep : skipOne? (w ++ i.back) = some (w' ++ i.back)) : Comes i w'

/-- A literal of that rule begins at the front and does not end. -/
def opensLiteral : Rule → List Char → Bool
  | .stringLiteral => opensString
  | .charLiteral => opensChar
  | _ => fun _ => false

def IsToken : Phrase Rule → Prop
  | .text _ => True
  | .rule r => style r = .atomic ∨ style r = .compound
  | _ => False

/-- Something blank is added between two tokens. The characters around the place belong to no
token together, or no token that is asked before it is read in another way. What is asked comes to
no number, literal or comment that runs across the place in another way, and finds nothing but
types in which a name with dots has the place. -/
structure Spaced (i : Insertion) : Prop where
  filler : IsFiller i.added
  sunders : i.Sunders isJoint ∨ ∀ a w c, IsToken a → w ≠ [] → AsksBare i .loose a c →
    c.rest = w ++ i.back → i.Keeps grammar .loose a w
  number : ∀ w c, w <:+ i.front → AsksBare i .loose (.rule .number) c → c.rest = w ++ i.back →
    EndsNumber i w
  literal : ∀ r w c, w <:+ i.front → AsksBare i .loose (.rule r) c → c.rest = w ++ i.back →
    opensLiteral r w = true → Unquoted i
  comments : ∀ w, Comes i w → KeepsComments i w
  whole : ∀ r c d ps, r ∉ typeRules → AsksBare i .loose (.rule r) c →
    Answers grammar .loose (.rule r) c (some (d, ps)) → ∀ p ∈ ps, ¬Torn i p

/-- What may be asked in both texts. Where the file begins, and before the place, the phrases are
of a form that the grammar has there. -/
inductive Asked (i : Insertion) : Spacing → Phrase Rule → Cursor → Cursor → Prop where
  | file {c c' : Cursor} (h : i.Ahead i.front c c') (hstart : c'.position.offset = 0) :
      Asked i .loose (.rule .sourceFile) c c'
  | content {c c' : Cursor} (h : i.Ahead i.front c c') (hstart : c'.position.offset = 0) :
      Asked i .loose
        (.seq .startOfInput (.seq (.many (.rule .topItem)) (.rule .endOfInput))) c c'
  | ahead {a : Phrase Rule} {w : List Char} {c c' : Cursor} (ha : isBuilt a = true) (hw : w ≠ [])
      (h : i.Ahead w c c') : Asked i .loose a c c'
  | comparison {w : List Char} {c c' : Cursor} (hw : w ≠ []) (h : i.Ahead w c c')
      (hgreater : w = ['>'] → i.back.head? ≠ some '>') :
      Asked i .loose (.rule .opRelational) c c'
  | unary {w : List Char} {c c' : Cursor} (hw : w ≠ []) (h : i.Ahead w c c')
      (hwhole : ∀ d ps, Answers grammar .loose (body .unary) c (some (d, ps)) →
        ∀ p ∈ ps, ¬Torn i p) : Asked i .loose (body .unary) c c'
  | operand {w : List Char} {c c' : Cursor} (hw : w ≠ []) (h : i.Ahead w c c')
      (hwhole : ∀ d ps, Answers grammar .loose operand c (some (d, ps)) → ∀ p ∈ ps, ¬Torn i p) :
      Asked i .loose operand c c'

/-- What is asked before the place, in a form that the grammar has there. -/
def askedBeside (i : Insertion) (sp : Spacing) (a : Phrase Rule) (c c' : Cursor) : Prop :=
  AsksBare i sp a c ∧ Asked i sp a c c'

section

variable {i : Insertion} {w : List Char} {a b : Phrase Rule} {c c' d d' : Cursor} {sp : Spacing}
  {allows : Piece Rule → List Char → List Char → Prop}

theorem Asked.meets (h : Asked i sp a c c') : i.Meets c c' := by
  cases h with
  | file h | content h | ahead _ _ h | comparison _ h | unary _ h | operand _ h => exact .inl ⟨_, h⟩

theorem Comes.suffix (h : Comes i w) : w <:+ i.front := by
  induction h with
  | start hsuffix => exact hsuffix
  | step _ hsuffix _ ih => exact hsuffix.trans ih

theorem Spaced.added (h : Spaced i) : i.added ≠ [] := by
  obtain ⟨x, rest, hx, -⟩ := head_filler h.filler
  rw [hx]
  exact List.cons_ne_nil x rest

theorem Spaced.head (h : Spaced i) {text : List Char} (htext : i.Onward text) :
    text.head? = i.back.head? ∨ ∃ x ∈ fillerHeads, text.head? = some x := by
  rcases htext with rfl | rfl
  · exact .inl rfl
  · obtain ⟨x, rest, hx, hmem⟩ := head_filler h.filler
    exact .inr ⟨x, hmem, by simp [hx]⟩

theorem carries_behind (ha : a.isInner isBelow = true) (h : i.Behind c c') :
    Carries grammar i.Meets (i.Kin allows) sp a c c' :=
  (h.carries (carries_same ha h.same)).mono (fun _ _ => meets_of_behind) kin_of_same

theorem settled_kept (h : i.Keeps grammar sp a w) (hahead : i.Ahead w c c') :
    (pairing i allows).Settled grammar sp a c c' :=
  Pairing.settled_of_carries (h.carries (fun _ _ => meets_of_inStep) hahead)

/-- Between two signs for greater, one of them is an operator once they stand apart. Its second
operand is missing. -/
theorem carries_greater (h : Spaced i) (hback : i.back.head? = some '>')
    (hahead : i.Ahead ['>'] c c') :
    Carries grammar i.Meets (i.Kin allows) .loose
      (.seq (.rule .opRelational) (.rule .additive)) c c' := by
  obtain ⟨back, hback⟩ := List.head?_eq_some_iff.1 hback
  obtain ⟨x, rest, hx, hmem⟩ := head_filler h.filler
  have hskips : Skips (i.added ++ i.back) i.back := by
    refine skips_filler h.filler (.stop ?_)
    rw [hback]
    rfl
  obtain ⟨cs, hcs, hblank⟩ := takes_blank hskips
  apply carries_of_refuses
  · rw [hahead.rest, hback]
    exact Refuses.seq (refuses_of_known 20 ['>', '>'] back (by decide))
  · rw [hahead.rest', hcs]
    have hoperator : Takes grammar .loose (.rule .opRelational) ['>'] (cs ++ i.back)
        (Single (Covers .opRelational ['>'] Bare)) := by
      refine .piece (by decide) (by decide) ?_
      change Takes grammar .atomic (body .opRelational) ['>'] (cs ++ i.back) Bare
      have hrest : cs ++ i.back = [x] ++ (rest ++ i.back) := by rw [← hcs, hx]; rfl
      rw [hrest]
      simp only [fillerHeads, List.mem_cons, List.not_mem_nil, or_false] at hmem
      rcases hmem with rfl | rfl | rfl | rfl | rfl | rfl
      all_goals exact takes_of_glance 20 (.known [_] _) (by decide)
    have hoperand : Refuses grammar .loose (.rule .additive) i.back := by
      rw [hback]
      exact refuses_of_known 200 ['>'] back (by decide)
    exact Refuses.loose hoperator hblank hoperand

theorem due_of_faces (ha : isBuilt a = true) (h : i.Faces c c') (hasks : AsksBare i .loose a c) :
    (pairing i allows).Due grammar (askedBeside i) .loose a c c' := by
  rcases h with ⟨w, hw, h⟩ | h
  · exact .inl ⟨hasks, .ahead ha hw h⟩
  · exact .inr (carries_behind (isInner_of_isBuilt ha) h)

/-- No name is torn apart in what a rule finds, but for types. -/
theorem Spaced.whole_body (h : Spaced i) {r : Rule} (hr : r ∉ typeRules)
    (hloose : style r = .plain ∨ style r = .silent) (hasks : AsksBare i .loose (.rule r) c)
    {ps : List (Piece Rule)} (hbody : Answers grammar .loose (body r) c (some (d, ps))) :
    ∀ p ∈ ps, ¬Torn i p := by
  rcases hloose with hplain | hsilent
  · intro p hp htorn
    exact h.whole r c d _ hr hasks (answers_plain hplain hbody) _ (List.mem_singleton_self _)
      (torn_of_inner hp htorn)
  · exact h.whole r c d ps hr hasks (.silent hsilent hbody)

theorem saved_rule (h : Spaced i) {r : Rule} (hloose : style r = .plain ∨ style r = .silent)
    (hasks : AsksBare i .loose (.rule r) c) :
    (pairing i allows).Saved grammar .loose (body r) .loose (.rule r) c c' := by
  by_cases hr : r ∈ typeRules
  · refine saved_type ?_
    revert hr hloose
    cases r <;> decide
  · rintro d ps x' hbody - ⟨-, ⟨p, hp, htorn⟩, -⟩
    exact absurd htorn (h.whole_body hr hloose hasks hbody p hp)

/-! ### The end of a skipped statement -/

theorem last_filler {added cs : List Char} (h : IsFiller added) {x : Char} (hx : x ∈ [']', ';']) :
    added ≠ cs ++ [x] := by
  rintro rfl
  rcases h with ⟨-, hspacing⟩ | ⟨text, -, heq⟩
  · have hlast := hspacing x (by simp)
    rcases List.mem_pair.1 hx with rfl | rfl <;> cases hlast
  · have hlast := congrArg List.getLast? heq
    have hconcat :
        '/' :: '*' :: (text ++ ['*', '/']) = ('/' :: '*' :: (text ++ ['*'])) ++ ['/'] := by
      simp
    rw [hconcat, List.getLast?_concat, List.getLast?_concat] at hlast
    cases hlast
    simp at hx

/-- What ends behind something that was added ends with no such character. -/
theorem not_ends_with (h : Spaced i) (hahead : i.Ahead w c c') (hd : d'.rest = i.back) {x : Char}
    (hx : x ∈ [']', ';']) (cs : List Char) : c'.rest ≠ cs ++ x :: d'.rest := by
  intro hrest
  have hends : w ++ i.added = cs ++ [x] := by
    rw [hahead.rest', hd, ← List.append_assoc] at hrest
    exact List.append_cancel_right (hrest.trans (by simp))
  have hlast := congrArg List.getLast? hends
  rw [List.getLast?_append_of_ne_nil _ h.added, List.getLast?_concat] at hlast
  obtain ⟨ds, hds⟩ := List.getLast?_eq_some_iff.1 hlast
  exact last_filler h.filler hx hds

variable (i) in
/-- With what is added the text ends with a brace, but for what is skipped over. -/
def Trails (x : List Char) : Prop :=
  ∃ u v, x ++ i.added = u ++ '\x7d' :: v ∧ Skips (v ++ i.back) i.back

theorem last_text {x : Char} {ps : List (Piece Rule)}
    (h : Answers grammar .loose (.seq a (.seq b (.text [x]))) c (some (d, ps))) :
    ∃ cs, c.rest = cs ++ x :: d.rest := by
  obtain ⟨_, _, _, _, _, ha, hblank, h, -⟩ := h.halves
  obtain ⟨_, e, _, _, _, hb, hblank', hlast, -⟩ := h.halves
  obtain ⟨cs, hcs⟩ : e.rest <:+ c.rest :=
    (hblank'.suffix.trans hb.suffix).trans (hblank.suffix.trans ha.suffix)
  exact ⟨cs, by rw [← hcs, hlast.took_text.rest]; rfl⟩

theorem brace_of_braces {ps : List (Piece Rule)}
    (h : Answers grammar .loose (.rule .balancedBraces) c (some (d, ps))) :
    ∃ cs, c.rest = cs ++ '\x7d' :: d.rest := by
  generalize hy : (some (d, ps) : Answer Rule) = y at h
  cases h with
  | rule hstyle => exact absurd rfl hstyle
  | silent _ h =>
    subst hy
    exact last_text h

/-- A skipped statement that has what is added at its end ends with a brace. -/
theorem trails_of_skipped (h : Spaced i) (hahead : i.Ahead w c c') {ps : List (Piece Rule)}
    (hx : Answers grammar .loose (body .skippedStmt) c' (some (d', ps))) (hd : d'.rest = i.back) :
    Trails i w := by
  obtain ⟨_, f, _, _, _, ha, hblank, hrest, -⟩ := hx.halves
  obtain ⟨_, g, _, _, _, ha₁, hblank₁, hend, -⟩ := hrest.halves
  obtain ⟨t, ht⟩ : g.rest <:+ c'.rest :=
    hblank₁.suffix.trans (ha₁.suffix.trans (hblank.suffix.trans ha.suffix))
  cases hend with
  | left hsemicolon =>
    refine absurd ?_ (not_ends_with h hahead hd (x := ';') (by simp) t)
    rw [← ht, hsemicolon.took_text.rest]
    rfl
  | right _ hbraced =>
    obtain ⟨e, k, _, _, _, hbraces, hblank₂, hopt, -⟩ := hbraced.halves
    obtain ⟨cs, hcs⟩ := brace_of_braces hbraces
    obtain ⟨v, hv⟩ := hblank₂.suffix
    cases hopt with
    | present hsemicolon =>
      refine absurd ?_ (not_ends_with h hahead hd (x := ';') (by simp) (t ++ cs ++ '\x7d' :: v))
      rw [← ht, hcs, ← hv, hsemicolon.took_text.rest]
      simp
    | absent =>
      have hskips := (skips_of_blank hblank₂).1
      rw [← hv, hd] at hskips
      have hsplit : w ++ i.added ++ i.back = t ++ cs ++ '\x7d' :: v ++ i.back := by
        rw [List.append_assoc w, ← hahead.rest', ← ht, hcs, ← hv, hd]
        simp
      exact ⟨t ++ cs, v, List.append_cancel_right hsplit, hskips⟩

/-! ### The end of a type -/

theorem bracket_of_rank {ps : List (Piece Rule)}
    (h : Answers grammar .loose (.rule .arrayRank) c (some (d, ps))) :
    ∃ cs, c.rest = cs ++ ']' :: d.rest := by
  obtain ⟨_, h⟩ := h.of_rule (by decide)
  exact last_text h

theorem bracket_of_ranks {x : Answer Rule} (h : Answers grammar sp a c x) (hsp : sp = .loose)
    (ha : a = .many (.rule .arrayRank)) :
    ∃ d ps, x = some (d, ps) ∧ (Answers grammar .loose (.rule .arrayRank) c none ∧ ps = [] ∨
      ∃ cs, c.rest = cs ++ ']' :: d.rest) := by
  induction h with
  | done h =>
    cases ha
    subst hsp
    exact ⟨_, _, rfl, .inl ⟨h, rfl⟩⟩
  | more_tight hne => exact absurd hsp hne
  | more_loose hround hblank hnext _ _ _ _ ih =>
    cases ha
    obtain ⟨d, ps, heq, hend⟩ := ih rfl rfl
    cases heq
    refine ⟨_, _, rfl, .inr ?_⟩
    rcases hend with ⟨hnone, -⟩ | ⟨cs, hcs⟩
    · cases hnone.unique hnext
    · obtain ⟨cs', hcs'⟩ := hblank.suffix.trans hround.suffix
      exact ⟨cs' ++ cs, by rw [← hcs', hcs, List.append_assoc]⟩
  | last hround | last_blank hround =>
    cases ha
    exact ⟨_, _, rfl, .inr (bracket_of_rank hround)⟩
  | _ => cases ha

theorem rule_of_pieces {r : Rule} {ps : List (Piece Rule)} (hstyle : grammar.style r ≠ .silent)
    (hkept : outerSpacing (grammar.style r) .loose ≠ .atomic)
    (h : Answers grammar .loose (.rule r) c (some (d, ps))) : ∀ q ∈ ps, q.rule = r := by
  obtain ⟨cs, htook⟩ := h.took
  obtain ⟨p, rfl, hp, -⟩ := Reads.piece ⟨c, d, h, htook⟩ hstyle hkept
  simpa using hp

theorem bracket_of_type {ps : List (Piece Rule)}
    (h : Answers grammar .loose (body .typeName) c (some (d, ps)))
    (hrank : ∃ q ∈ ps, q.rule = .arrayRank) : ∃ cs, c.rest = cs ++ ']' :: d.rest := by
  -- Ranks that the first part does not leave are left by the second.
  have hlater : ∀ {a b c ps}, Answers grammar .loose (.seq a b) c (some (d, ps)) →
      (∀ e qs, Answers grammar .loose a c (some (e, qs)) → ∀ q ∈ qs, q.rule ≠ .arrayRank) →
      (∃ q ∈ ps, q.rule = .arrayRank) →
      ∃ f rs, f.rest <:+ c.rest ∧ Answers grammar .loose b f (some (d, rs)) ∧
        ∃ q ∈ rs, q.rule = .arrayRank := by
    rintro a b c ps h hfirst ⟨q, hq, hrule⟩
    obtain ⟨e, f, qs, bs, rs, ha, hblank, hb, rfl⟩ := h.halves
    obtain ⟨-, rfl⟩ := skips_of_blank hblank
    rw [List.append_nil, List.mem_append] at hq
    rcases hq with hq | hq
    · exact absurd hrule (hfirst e qs ha q hq)
    · exact ⟨f, rs, hblank.suffix.trans ha.suffix, hb, q, hq, hrule⟩
  obtain ⟨c₁, ps₁, hc₁, h₁, hrank₁⟩ := hlater h (fun e qs hname q hq => by
    rw [rule_of_pieces (by decide) (by decide) hname q hq]
    decide) hrank
  obtain ⟨c₂, ps₂, hc₂, h₂, hrank₂⟩ := hlater h₁ (fun e qs hargs q hq => by
    cases hargs with
    | present hargs =>
      rw [rule_of_pieces (by decide) (by decide) hargs q hq]
      decide
    | absent => cases hq) hrank₁
  obtain ⟨c₃, ps₃, hc₃, h₃, q, hq, -⟩ := hlater h₂ (fun e qs hmark q hq => by
    cases hmark with
    | present hmark =>
      obtain ⟨ds, htook⟩ := hmark.took
      obtain ⟨-, rfl⟩ := Reads.text ⟨_, _, hmark, htook⟩
      cases hq
    | absent => cases hq) hrank₂
  obtain ⟨e, qs, heq, hend⟩ := bracket_of_ranks h₃ rfl rfl
  cases heq
  rcases hend with ⟨-, rfl⟩ | ⟨cs, hcs⟩
  · cases hq
  · obtain ⟨cs', hcs'⟩ := hc₃.trans (hc₂.trans hc₁)
    exact ⟨cs' ++ cs, by rw [← hcs', hcs, List.append_assoc]⟩

/-! ### Pieces -/

/-- A piece that ends at the place has what is added in its text: a type if no brackets end it, and
a skipped statement if a brace does. -/
def Overruns (i : Insertion) (p : Piece Rule) (x : List Char) : Prop :=
  (p.rule = .typeName → ∀ q ∈ p.inner, q.rule ≠ .arrayRank) ∧ (p.rule = .skippedStmt → Trails i x)

/-- Which pieces may have the place in them, with `x` of their text before it and `y` behind. -/
def spreads (i : Insertion) (p : Piece Rule) (x y : List Char) : Prop :=
  p.rule = .sourceFile ∨ p.rule = .stringInner ∨
    x ≠ [] ∧ (style p.rule = .plain ∧ (y = [] → Overruns i p x) ∨
      (p.rule = .stringLiteral ∨ p.rule = .charLiteral) ∧ y ≠ [])

theorem seals_plain (h : Spaced i) {r : Rule} (hplain : style r = .plain) (hw : w ≠ [])
    (hahead : i.Ahead w c c') : Seals grammar i.Meets (i.Kin (spreads i)) .loose r c c' := by
  intro d d' ps ps' hmeets hx hx' halike
  obtain ⟨cs, hcs⟩ := hx.took
  obtain ⟨cs', hcs'⟩ := hx'.took
  refine hahead.isKin hcs hcs' (hmeets.imp id fun hbehind => ⟨hbehind, fun y hy => ?_⟩)
  refine .inr (.inr ⟨hw, .inl ⟨hplain, ?_⟩⟩)
  rintro rfl
  have hd' : d'.rest = i.back := hbehind.same.trans hy.symm
  refine ⟨?_, ?_⟩
  · rintro rfl q hq hrank
    have hrules : ps.map (·.rule) = ps'.map (·.rule) := by
      rw [← List.forall₂_eq_eq_eq, List.forall₂_map_left_iff, List.forall₂_map_right_iff]
      exact halike.imp fun _ _ h => h.rule.symm
    have hmem : Rule.arrayRank ∈ ps'.map (·.rule) := hrules ▸ List.mem_map.2 ⟨q, hq, hrank⟩
    obtain ⟨q', hq', hrank'⟩ := List.mem_map.1 hmem
    obtain ⟨ds, hds⟩ := bracket_of_type hx' ⟨q', hq', hrank'⟩
    exact not_ends_with h hahead hd' (by simp) ds hds
  · rintro rfl
    exact trails_of_skipped h hahead hx' hd'

/-! ### What is asked in both texts -/

theorem settled_token (h : Spaced i) {r : Rule} (hr : isOuter r = true)
    (hstyle : style r = .atomic ∨ style r = .compound) (hw : w ≠ []) (hahead : i.Ahead w c c')
    (hasks : AsksBare i .loose (.rule r) c) :
    (pairing i (spreads i)).Settled grammar .loose (.rule r) c c' := by
  have hrules : isOuter r = true → style r = .atomic ∨ style r = .compound →
      r ∈ .identifier :: wordRules ++ operatorRules ∨ r = .number ∨ r = .qualifiedName ∨
        r = .stringLiteral ∨ r = .charLiteral := by
    cases r <;> decide
  rcases h.sunders with hsunders | htokens
  swap
  · exact settled_kept (htokens _ w c hstyle hw hasks hahead.rest) hahead
  rcases hrules hr hstyle with hr | rfl | rfl | rfl | rfl
  · exact settled_kept (keeps_token hsunders hr hahead.suffix hw) hahead
  · have hnumber := h.number w c hahead.suffix hasks hahead.rest
    exact settled_kept (keeps_number hsunders hnumber hahead.suffix hw) hahead
  · exact settled_qualifiedName hsunders h.filler hw hahead
  · refine Pairing.settled_of_carries ((carries_stringLiteral hsunders h.added
      (h.literal _ w c hahead.suffix hasks hahead.rest) (fun _ _ _ hp => .inr (.inl hp))
      (fun _ _ _ hp hx hy => .inr (.inr ⟨hx, .inr ⟨.inl hp, hy⟩⟩)) hahead hw).mono
      (fun _ _ => Clears.meets) fun _ _ => id)
  · refine Pairing.settled_of_carries ((carries_charLiteral hsunders h.added
      (h.literal _ w c hahead.suffix hasks hahead.rest)
      (fun _ _ _ hp hx hy => .inr (.inr ⟨hx, .inr ⟨.inr hp, hy⟩⟩)) hahead hw).mono
      (fun _ _ => Clears.meets) fun _ _ => id)

theorem parts_built (h : Spaced i) (ha : isBuilt a = true) (hw : w ≠ []) (hahead : i.Ahead w c c')
    (hasks : AsksBare i .loose a c) :
    (pairing i (spreads i)).Settled grammar .loose a c c' ∨
      (pairing i (spreads i)).Divides grammar (askedBeside i) .loose a c c' := by
  cases a with
  | text cs =>
    have hkeeps := h.sunders.elim (keeps_joined · hahead.suffix hw ha)
      fun htokens => htokens _ w c trivial hw hasks hahead.rest
    exact .inl (settled_kept hkeeps hahead)
  | one k => exact .inl (settled_kept (keeps_one hw) hahead)
  | endOfInput => exact .inl (settled_kept (keeps_endOfInput hw) hahead)
  | caseless | startOfInput => cases ha
  | rule r =>
    by_cases hstyle : style r = .atomic ∨ style r = .compound
    · exact .inl (settled_token h ha hstyle hw hahead hasks)
    · have hloose := loose_of_not hstyle
      have hspacing := innerSpacing_of_loose hloose
      have hbody := hasks.body
      rw [hspacing] at hbody
      refine .inr ⟨.inl ?_, fun hsilent => ?_, ?_⟩
      · rw [hspacing]
        refine ⟨hbody, ?_⟩
        by_cases hunary : r = .unary
        · subst hunary
          exact .unary hw hahead fun d ps => h.whole_body (by decide) hloose hasks
        · exact .ahead (isBuilt_body r ha hunary hloose) hw hahead
      · rw [hspacing]
        exact seals_plain h (hloose.resolve_right hsilent) hw hahead
      · rw [hspacing]
        exact saved_rule h hloose hasks
  | seq a b =>
    simp only [isBuilt, Bool.and_eq_true, Bool.or_eq_true] at ha
    obtain ⟨⟨ha | hcomparison, hb⟩, hpace⟩ := ha
    · exact .inr ⟨.inl ⟨hasks.first, .ahead ha hw hahead⟩,
        fun d d' hnext hreaches => due_of_faces hb hnext (hasks.second hreaches),
        saved_seq hpace⟩
    · unfold isComparison at hcomparison
      split at hcomparison
      · by_cases hgreater : w = ['>'] ∧ i.back.head? = some '>'
        · obtain ⟨rfl, hback⟩ := hgreater
          exact .inl (Pairing.settled_of_carries (carries_greater h hback hahead))
        · exact .inr ⟨.inl ⟨hasks.first,
            .comparison hw hahead fun hw hback => hgreater ⟨hw, hback⟩⟩,
            fun d d' hnext hreaches => due_of_faces hb hnext (hasks.second hreaches),
            saved_of_not rfl⟩
      · cases hcomparison
  | alt a b =>
    simp only [isBuilt, keepsPace, Bool.and_eq_true, Bool.not_eq_true'] at ha
    exact .inr ⟨.inl ⟨hasks.left, .ahead ha.1.1 hw hahead⟩,
      fun hnone => .inl ⟨hasks.right hnone, .ahead ha.1.2 hw hahead⟩, saved_of_not ha.2.1⟩
  | many a =>
    have hmany := ha
    rw [isBuilt, Bool.and_eq_true] at ha
    exact .inr ⟨.inl ⟨hasks.round, .ahead ha.1 hw hahead⟩, fun d d' hnext hreaches =>
      ⟨.inl (due_of_faces ha.1 hnext (hasks.again hreaches).round),
        due_of_faces hmany hnext (hasks.again hreaches)⟩, saved_many ha.2⟩
  | opt a =>
    rw [isBuilt, Bool.and_eq_true] at ha
    exact .inr ⟨.inl ⟨hasks.opt, .ahead ha.1 hw hahead⟩, saved_opt ha.2 hw hahead⟩
  | ahead a =>
    simp only [isBuilt, Bool.and_eq_true, Bool.not_eq_true'] at ha
    exact .inr ⟨.inl ⟨hasks.ahead, .ahead ha.1 hw hahead⟩, saved_of_not ha.2⟩
  | never a =>
    simp only [isBuilt, Bool.and_eq_true, Bool.not_eq_true'] at ha
    exact .inr ⟨.inl ⟨hasks.never, .ahead ha.1 hw hahead⟩, saved_of_not ha.2⟩

theorem closed_spaced (h : Spaced i) :
    (pairing i (spreads i)).Closed grammar (askedBeside i) where
  met hasked := hasked.2.meets
  blank := by
    intro a c c' d d' ps hasked ha hmeets
    have hasks : AsksBare i .atomic blank d := by
      rcases hasked with ⟨b, hasks, -⟩ | ⟨hasks, -⟩
      · exact .between hasks ha
      · exact .behind hasks ha
    refine carries_blank (Comes i) h.comments (fun _ _ => .step) (fun _ => skips_filler h.filler) ?_
    rcases hmeets with ⟨w, hahead⟩ | hbehind
    · exact .inl ⟨w, .start hahead.suffix hasks hahead.rest, hahead⟩
    · exact .inr hbehind
  lost_second := by
    rintro sp a b c c' ps qs qs' x' ⟨-, hasked⟩ hlost
    cases hasked with
    | content => exact absurd hlost.1 (by decide)
    | ahead ha =>
      rw [isBuilt, Bool.and_eq_true] at ha
      exact lost_of_second ha.2 hlost
  lost_right := by
    rintro sp a b c c' ps x' ⟨-, hasked⟩ hlost
    cases hasked with
    | ahead ha =>
      simp only [isBuilt, keepsPace, Bool.and_eq_true, Bool.not_eq_true'] at ha
      exact absurd hlost.1 (by simp [ha.2.2])
    | unary => exact hlost
    | operand => exact absurd hlost.1 (by decide)
  lost_round := by
    rintro sp a c c' ps x' ⟨-, hasked⟩ hlost
    cases hasked with
    | ahead ha =>
      rw [isBuilt, Bool.and_eq_true] at ha
      exact found_of_round ha.2 hlost
  lost_later _ hlost := lost_of_later hlost
  parts := by
    rintro sp a c c' ⟨hasks, hasked⟩
    cases hasked with
    | file hahead hstart =>
      refine .inr ⟨.inl ⟨hasks.body, .content hahead hstart⟩,
        fun _ => hahead.seals fun d d' hd => ?_, saved_of_not rfl⟩
      exact hd.imp id fun hd => ⟨hd, fun _ _ _ hp => .inl hp⟩
    | content hahead hstart =>
      exact .inr ⟨.inr (carries_startOfInput hahead hstart (.inl ⟨_, hahead⟩)),
        fun d d' hnext hreaches => due_of_faces (by decide) hnext (hasks.second hreaches),
        saved_of_not rfl⟩
    | comparison hw hahead hgreater =>
      refine .inl (settled_kept (h.sunders.elim (fun hsunders => ?_) fun htokens =>
        htokens _ _ c (.inl rfl) hw hasks hahead.rest) hahead)
      refine keeps_opRelational hsunders hahead.suffix hw ?_
      rintro rfl text htext y hy rfl
      rcases h.head htext with heq | ⟨x, hx, heq⟩
      · exact hgreater rfl (heq ▸ hy)
      · rw [heq] at hy
        cases hy
        simp [fillerHeads] at hx
    | unary hw hahead hwhole =>
      refine .inr ⟨.inl ⟨hasks.left, .ahead (by decide) hw hahead⟩, fun hnone => .inl ?_,
        saved_of_not (by decide)⟩
      exact ⟨hasks.right hnone,
        .operand hw hahead fun d ps hfound => hwhole d ps (.right hnone hfound)⟩
    | operand hw hahead hwhole =>
      refine .inr ⟨.inl ⟨hasks.left, .ahead (by decide) hw hahead⟩,
        fun hnone => .inl ⟨hasks.right hnone, .ahead (by decide) hw hahead⟩, ?_⟩
      rintro d ps x' hcast - ⟨-, ⟨p, hp, htorn⟩, -⟩
      exact absurd htorn (hwhole d ps (.left hcast) p hp)
    | ahead ha hw hahead => exact parts_built h ha hw hahead hasks

/-- A source is read alike before and after something blank is added between two tokens. -/
theorem carries_spaced (h : Spaced i)
    (hahead : i.Ahead i.front { rest := i.bare } { rest := i.filled }) :
    Carries grammar i.Meets (i.Kin (spreads i)) .loose (.rule .sourceFile) { rest := i.bare }
      { rest := i.filled } := by
  intro x hx
  obtain ⟨x', hx', hfollows | ⟨_, _, -, hlost⟩⟩ :=
    (closed_spaced h).settles ⟨.root, .file hahead rfl⟩ x hx
  · exact ⟨x', hx', hfollows⟩
  · exact absurd hlost.1 (by decide)

end

end Source

end PanelSchema
