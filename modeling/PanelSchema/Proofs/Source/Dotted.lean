import PanelSchema.Proofs.Source.Apart

/-!
Names with dots, where something blank is added. Such a name is one token, so beside a dot it ends
early. A type with that name ends there too, or is not found, and what follows it is refused. So
it is known what becomes of a phrase in which a name is torn apart.
-/

namespace PanelSchema

namespace Source

open Grammar Insertion

/-! ### What is added -/

/-- White space, or a comment in which no other one ends. -/
def IsFiller (added : List Char) : Prop :=
  added ≠ [] ∧ (∀ x ∈ added, isSpacing x = true) ∨
    ∃ text, ¬['*', '/'] <:+: text ∧ added = '/' :: '*' :: (text ++ ['*', '/'])

theorem skips_filler {added text rest : List Char} (hadded : IsFiller added)
    (h : Skips text rest) : Skips (added ++ text) rest := by
  rcases hadded with ⟨-, hspacing⟩ | ⟨cs, hcs, rfl⟩
  · induction added with
    | nil => exact h
    | cons x added ih =>
      rw [List.forall_mem_cons] at hspacing
      exact .step (by simp [skipOne?, hspacing.1]) (ih hspacing.2)
  · refine .step ?_ h
    have hend : blockRest? (['*', '/'] ++ text) = some text := by simp [blockRest?]
    change blockRest? (cs ++ ['*', '/'] ++ text) = some text
    rw [List.append_assoc, blockRest_append_of_none (blockRest_eq_none hcs) (by simp), hend]

/-- The characters with which something blank begins. -/
def fillerHeads : List Char :=
  [' ', '\t', '\r', '\n', '\uFEFF', '/']

theorem head_filler {added : List Char} (h : IsFiller added) :
    ∃ x rest, added = x :: rest ∧ x ∈ fillerHeads := by
  rcases h with ⟨hne, hspacing⟩ | ⟨text, -, rfl⟩
  · obtain ⟨x, rest, rfl⟩ := List.exists_cons_of_ne_nil hne
    refine ⟨x, rest, rfl, ?_⟩
    have hx := hspacing x (by simp)
    simp only [isSpacing, Bool.or_eq_true, beq_iff_eq] at hx
    rcases hx with (((rfl | rfl) | rfl) | rfl) | rfl <;> simp [fillerHeads]
  · exact ⟨'/', _, rfl, by simp [fillerHeads]⟩

theorem refuses_filler {added : List Char} (hadded : IsFiller added) {sp : Spacing}
    {a : Phrase Rule} (fuel : Nat)
    (h : fillerHeads.all (grammar.glance false fuel sp a [.exactly ·] == .refused) = true)
    (rest : List Char) :
    Refuses grammar sp a (added ++ rest) := by
  obtain ⟨x, added, rfl, hx⟩ := head_filler hadded
  exact refuses_of_known fuel [x] (added ++ rest) (beq_iff_eq.1 (List.all_eq_true.1 h x hx))

/-! ### Phrases in which a name is torn apart -/

/-- Rules of types, and of what begins like something else that has no type in it. -/
def typeRules : List Rule :=
  [.qualifiedName, .typeName, .genericArgs, .cast]

/-- The place is beside a dot of a name in the piece. -/
def Torn (i : Insertion) (p : Piece Rule) : Prop :=
  (i.front.getLast? = some '.' ∨ i.back.head? = some '.') ∧
    ∃ q, p.Below q ∧ q.rule = .qualifiedName ∧ i.Within q

def mayLose : Phrase Rule → Bool
  | .rule r => typeRules.contains r
  | .seq a b | .alt a b => mayLose a || mayLose b
  | .opt a | .many a => mayLose a
  | _ => false

/-- The characters before which the phrase ends if it is taken nonetheless. -/
def stops : Phrase Rule → List Char
  | .rule .qualifiedName => ['.']
  | _ => ['.', '<']

def refusesAt (a : Phrase Rule) (x : Char) : Bool :=
  grammar.glance false 80 .loose a [.exactly x] == .refused

def idlesAt (a : Phrase Rule) (x : Char) : Bool :=
  grammar.glance false 80 .loose a [.exactly x] == .took 0 true

/-- The phrase is refused if a name is torn apart in it. -/
def shuts : Phrase Rule → Bool
  | .rule r => r == .genericArgs || r == .cast
  | .seq a b => if mayLose a then shuts a || (stops a).all (refusesAt b) else shuts b
  | _ => false

def isOptional : Phrase Rule → Bool
  | .opt _ | .many _ => true
  | .seq a b => isOptional a && isOptional b
  | _ => false

def opensAngle : Phrase Rule → Bool
  | .rule .genericArgs | .seq (.rule .genericArgs) _ => true
  | _ => false

/-- What follows a name that is torn apart is refused or takes nothing. -/
def keepsPace : Phrase Rule → Bool
  | .seq a b =>
    (!mayLose a || shuts a || (stops a).all (refusesAt b) ||
      (stops a).all (idlesAt b) && isOptional b) &&
      (!mayLose b || shuts b == shuts (.seq a b))
  | .opt a => !mayLose a || !shuts a || opensAngle a
  | .many a => !mayLose a || !shuts a && (stops a).all (refusesAt a)
  | .alt a b => !mayLose a && !mayLose b
  | .ahead a | .never a => !mayLose a
  | _ => true

def StopsAt (xs : List Char) (d : Cursor) : Prop :=
  ∃ x ∈ xs, ∃ rest, Skips d.rest (x :: rest)

/-- A name is torn apart in the pieces, and the phrase is refused or ends before such a
character. -/
def Lost (i : Insertion) (a : Phrase Rule) (ps : List (Piece Rule)) (x' : Answer Rule) : Prop :=
  mayLose a = true ∧ (∃ p ∈ ps, Torn i p) ∧
    if shuts a then x' = none else ∃ d qs, x' = some (d, qs) ∧ StopsAt (stops a) d

/-- Both matches stand at related places, or a name is torn apart. -/
def pairing (i : Insertion) (allows : Piece Rule → List Char → List Char → Prop) : Pairing Rule :=
  ⟨i.Meets, i.Faces, i.Kin allows, Lost i⟩

section

variable {i : Insertion} {a b : Phrase Rule} {c c' d d' : Cursor} {ps qs : List (Piece Rule)}
  {x x' : Answer Rule} {cs : List Char} {allows : Piece Rule → List Char → List Char → Prop}

theorem refuses_of_refusesAt {y : Char} (h : refusesAt a y = true) (rest : List Char) :
    Refuses grammar .loose a (y :: rest) :=
  refuses_of_known 80 [y] rest (beq_iff_eq.1 h)

theorem takes_of_idlesAt {y : Char} (h : idlesAt a y = true) (rest : List Char) :
    Takes grammar .loose a [] (y :: rest) Bare :=
  takes_of_glance 80 (.known [y] rest) (beq_iff_eq.1 h)

theorem mem_stops {y : Char} (h : y ∈ stops a) : y ∈ ['.', '<'] := by
  unfold stops at h
  split at h
  · simp_all
  · exact h

theorem StopsAt.wider (h : StopsAt (stops a) d) : StopsAt ['.', '<'] d := by
  obtain ⟨y, hy, hskips⟩ := h
  exact ⟨y, mem_stops hy, hskips⟩

theorem refused_part (h : Answers grammar .loose (.seq a b) c none) :
    Answers grammar .loose a c none ∨ ∃ e, Answers grammar .loose b e none := by
  generalize hx : (none : Answer Rule) = x at h
  cases h with
  | seq_refused h => exact .inl h
  | seq_tight hsp => exact absurd rfl hsp
  | @seq_loose _ _ _ _ _ _ _ x _ _ hb =>
    cases x with
    | none => exact .inr ⟨_, hb⟩
    | some => cases hx
  | @seq_blank _ _ _ d _ _ hblank =>
    obtain ⟨rest, hskips⟩ := exists_skips d.rest
    obtain ⟨e, _, he, -⟩ := answers_blank hskips
    cases hblank.unique he

theorem found_of_isOptional (h : isOptional a = true) : ¬Answers grammar .loose a c none := by
  induction a generalizing c with
  | opt | many => exact nofun
  | seq a b iha ihb =>
    rw [isOptional, Bool.and_eq_true] at h
    intro hnone
    rcases refused_part hnone with ha | ⟨e, hb⟩
    · exact iha h.1 ha
    · exact ihb h.2 hb
  | _ => cases h

theorem pieces_of_first (ha : Answers grammar .loose a c (some (d, ps)))
    (h : Answers grammar .loose (.seq a b) c (some (d', qs))) : ∃ rs, qs = ps ++ rs := by
  obtain ⟨_, _, _, bs, rs, ha', -, -, rfl⟩ := h.halves
  cases ha.unique ha'
  exact ⟨bs ++ rs, List.append_assoc _ _ _⟩

theorem pieces_of_round (ha : Answers grammar .loose a c (some (d, ps)))
    (h : Answers grammar .loose (.many a) c (some (d', qs))) : ∃ rs, qs = ps ++ rs := by
  generalize hy : (some (d', qs) : Answer Rule) = y at h
  cases h with
  | done hnone => cases hnone.unique ha
  | more_tight hsp => exact absurd rfl hsp
  | more_loose ha' =>
    cases ha.unique ha'
    cases hy
    exact ⟨_, List.append_assoc _ _ _⟩
  | last ha' | last_blank ha' =>
    cases ha.unique ha'
    cases hy
    exact ⟨[], (List.append_nil _).symm⟩

theorem torn_of_inner {p q : Piece Rule} (hp : p ∈ q.inner) (h : Torn i p) : Torn i q := by
  obtain ⟨hdot, r, hbelow, hr⟩ := h
  exact ⟨hdot, r, hbelow.of_inner hp, hr⟩

theorem torn_append (rs : List (Piece Rule)) (h : ∃ p ∈ ps, Torn i p) :
    ∃ p ∈ ps ++ rs, Torn i p := by
  obtain ⟨p, hp, htorn⟩ := h
  exact ⟨p, List.mem_append_left _ hp, htorn⟩

/-! ### What is lost with a part -/

theorem saved_of_not (h : mayLose a = false) {sp sp' : Spacing} {phrase : Phrase Rule} :
    (pairing i allows).Saved grammar sp a sp' phrase c c' := by
  rintro d ps x' - - ⟨hmay, -⟩
  rw [h] at hmay
  cases hmay

theorem saved_seq (h : keepsPace (.seq a b) = true) :
    (pairing i allows).Saved grammar .loose a .loose (.seq a b) c c' := by
  rintro d ps x' ha hx' ⟨hmay, htorn, hlost⟩ x hx
  rw [keepsPace, Bool.and_eq_true] at h
  have hmay' : mayLose (.seq a b) = true := by rw [mayLose, hmay]; rfl
  have hshuts : shuts (.seq a b) = (shuts a || (stops a).all (refusesAt b)) := by
    rw [shuts, if_pos hmay]
  -- If the whole is refused nothing else is to be told.
  have hrefused : shuts (.seq a b) = true →
      (pairing i allows).Answered (.seq a b) x none := by
    intro hshut
    cases x with
    | none => exact .inl .refused
    | some y =>
      obtain ⟨e, qs⟩ := y
      obtain ⟨rs, rfl⟩ := pieces_of_first ha hx
      exact .inr ⟨e, _, rfl, hmay', torn_append rs htorn, by rw [if_pos hshut]⟩
  by_cases hshut : shuts a = true
  · rw [if_pos hshut] at hlost
    subst hlost
    exact ⟨none, .seq_refused hx', hrefused (by rw [hshuts, hshut]; rfl)⟩
  · rw [if_neg hshut] at hlost
    obtain ⟨d', qs', rfl, y, hy, rest, hskips⟩ := hlost
    obtain ⟨e', cs, hblank, -, hrest⟩ := answers_blank hskips
    by_cases hall : (stops a).all (refusesAt b) = true
    · have hb := refuses_of_refusesAt (List.all_eq_true.1 hall y hy) rest e' hrest
      exact ⟨_, .seq_loose hx' hblank hb, hrefused (by rw [hshuts, hall, Bool.or_true])⟩
    · have hidle : (stops a).all (idlesAt b) = true ∧ isOptional b = true := by
        simpa [hmay, hshut, hall] using h.1
      obtain ⟨f', _, hb, htook, rfl⟩ :=
        takes_of_idlesAt (List.all_eq_true.1 hidle.1 y hy) rest e' hrest
      refine ⟨_, .seq_loose hx' hblank hb, ?_⟩
      cases x with
      | none =>
        rcases refused_part hx with hnone | ⟨e, hnone⟩
        · cases hnone.unique ha
        · exact absurd hnone (found_of_isOptional hidle.2)
      | some z =>
        obtain ⟨e, qs⟩ := z
        obtain ⟨rs, rfl⟩ := pieces_of_first ha hx
        refine .inr ⟨e, _, rfl, hmay', torn_append rs htorn, ?_⟩
        rw [if_neg (by rw [hshuts]; simp [hshut, hall])]
        refine ⟨f', _, rfl, y, mem_stops hy, rest, ?_⟩
        rw [htook.rest_eq hrest]
        exact .stop hskips.solid

theorem head_of_opensAngle (h : opensAngle a = true)
    (ha : Answers grammar .loose a c (some (d, ps))) : ∃ rest, c.rest = '<' :: rest := by
  by_cases hangle : ['<'] <+: c.rest
  · obtain ⟨rest, hrest⟩ := hangle
    exact ⟨rest, hrest.symm⟩
  · have hargs : Refuses grammar .loose (.rule .genericArgs) c.rest :=
      Refuses.rule (by decide) (refuses_text hangle).seq
    have hnone : Refuses grammar .loose a c.rest := by
      unfold opensAngle at h
      split at h
      · exact hargs
      · exact hargs.seq
      · cases h
    cases ha.unique (hnone c rfl)

theorem saved_opt {w : List Char} (h : keepsPace (.opt a) = true) (hw : w ≠ [])
    (hahead : i.Ahead w c c') : (pairing i allows).Saved grammar .loose a .loose (.opt a) c c' := by
  rintro d ps x' ha hx' ⟨hmay, htorn, hlost⟩ x hx
  rw [hx.unique (.present ha)]
  by_cases hshut : shuts a = true
  · rw [if_pos hshut] at hlost
    subst hlost
    refine ⟨_, .absent hx', .inr ⟨d, ps, rfl, hmay, htorn, c', _, rfl, '<', by simp [stops], ?_⟩⟩
    obtain ⟨rest, hrest⟩ := head_of_opensAngle (by simpa [keepsPace, hmay, hshut] using h) ha
    obtain ⟨y, w, rfl⟩ := List.exists_cons_of_ne_nil hw
    rw [hahead.rest, List.cons_append] at hrest
    cases hrest
    rw [hahead.rest']
    exact ⟨_, .stop rfl⟩
  · rw [if_neg hshut] at hlost
    obtain ⟨d', qs', rfl, hstops⟩ := hlost
    exact ⟨_, .present hx', .inr ⟨d, ps, rfl, hmay, htorn, d', _, rfl, hstops.wider⟩⟩

theorem saved_many (h : keepsPace (.many a) = true) :
    (pairing i allows).Saved grammar .loose a .loose (.many a) c c' := by
  rintro d ps x' ha hx' ⟨hmay, htorn, hlost⟩ x hx
  have hround : shuts a = false ∧ (stops a).all (refusesAt a) = true := by
    simpa [keepsPace, hmay] using h
  rw [if_neg (by simp [hround.1])] at hlost
  obtain ⟨d', qs', rfl, y, hy, rest, hskips⟩ := hlost
  obtain ⟨e', cs, hblank, -, hrest⟩ := answers_blank hskips
  have hnext := refuses_of_refusesAt (List.all_eq_true.1 hround.2 y hy) rest e' hrest
  obtain ⟨e, qs, rfl⟩ := hx.exists_many
  obtain ⟨rs, rfl⟩ := pieces_of_round ha hx
  exact ⟨_, .last hx' hblank hnext, .inr ⟨e, _, rfl, hmay, torn_append rs htorn, d', _, rfl, y,
    mem_stops hy, rest, hskips⟩⟩

theorem lost_of_second (h : keepsPace (.seq a b) = true) {qs' : List (Piece Rule)}
    (hlost : Lost i b ps x') : Lost i (.seq a b) (qs ++ ps) (x'.behind qs') := by
  obtain ⟨hmay, ⟨p, hp, htorn⟩, hlost⟩ := hlost
  rw [keepsPace, Bool.and_eq_true] at h
  have hshuts : shuts b = shuts (.seq a b) := by simpa [hmay] using h.2
  refine ⟨by rw [mayLose, hmay, Bool.or_true], ⟨p, List.mem_append_right _ hp, htorn⟩, ?_⟩
  rw [← hshuts]
  by_cases hshut : shuts b = true
  · rw [if_pos hshut] at hlost ⊢
    rw [hlost]
    rfl
  · rw [if_neg hshut] at hlost ⊢
    obtain ⟨d', rs, rfl, hstops⟩ := hlost
    exact ⟨d', _, rfl, hstops.wider⟩

theorem lost_of_later {qs' : List (Piece Rule)} (hlost : Lost i (.many a) ps x') :
    Lost i (.many a) (qs ++ ps) (x'.behind qs') := by
  obtain ⟨hmay, ⟨p, hp, htorn⟩, d', rs, rfl, hstops⟩ := hlost
  exact ⟨hmay, ⟨p, List.mem_append_right _ hp, htorn⟩, d', _, rfl, hstops⟩

theorem found_of_round (h : keepsPace (.many a) = true) (hlost : Lost i a ps x') : x' ≠ none := by
  obtain ⟨hmay, -, hlost⟩ := hlost
  have hround : shuts a = false ∧ (stops a).all (refusesAt a) = true := by
    simpa [keepsPace, hmay] using h
  rw [if_neg (by simp [hround.1])] at hlost
  obtain ⟨d', rs, rfl, -⟩ := hlost
  exact nofun

theorem answers_plain {r : Rule} (hplain : style r = .plain)
    (h : Answers grammar .loose (body r) c x) :
    Answers grammar .loose (.rule r) c (x.closed .loose r c) := by
  have hspacing : innerSpacing (grammar.style r) .loose = .loose :=
    innerSpacing_of_loose (.inl hplain)
  have houter : outerSpacing (grammar.style r) .loose = .loose := by
    change outerSpacing (style r) .loose = .loose
    rw [hplain]
    rfl
  have hstyle : grammar.style r ≠ .silent := by
    change style r ≠ .silent
    rw [hplain]
    decide
  have hrule : Answers grammar .loose (.rule r) c
      (x.closed (outerSpacing (grammar.style r) .loose) r c) := .rule hstyle (hspacing.symm ▸ h)
  rwa [houter] at hrule

theorem saved_type {r : Rule} (hr : r ∈ [.typeName, .genericArgs, .cast]) :
    (pairing i allows).Saved grammar .loose (body r) .loose (.rule r) c c' := by
  rintro d ps x' hbody hx' ⟨-, ⟨p, hp, htorn⟩, hlost⟩ x hx
  have hrules : ∀ r ∈ [Rule.typeName, .genericArgs, .cast], style r = .plain ∧
      mayLose (.rule r) = true ∧ shuts (.rule r) = shuts (body r) ∧
        stops (.rule r) = ['.', '<'] := by
    decide
  obtain ⟨hplain, hmay, hshuts, hstops⟩ := hrules r hr
  rw [hx.unique (answers_plain hplain hbody)]
  refine ⟨_, answers_plain hplain hx', .inr ⟨d, _, rfl, hmay, ?_, ?_⟩⟩
  · exact ⟨_, List.mem_singleton_self _, torn_of_inner hp htorn⟩
  · rw [hshuts, hstops]
    by_cases hshut : shuts (body r) = true
    · rw [if_pos hshut] at hlost ⊢
      rw [hlost]
      rfl
    · rw [if_neg hshut] at hlost ⊢
      obtain ⟨d', qs, rfl, hstop⟩ := hlost
      exact ⟨d', _, rfl, hstop.wider⟩

/-! ### Names -/

/-- What may follow the first part of a name. -/
def dotted : Phrase Rule :=
  .many (.seq (.text ['.']) (.rule .identifier))

/-- Both names end at the same place, or the second one beside a dot where the first goes on. -/
def Ends (i : Insertion) (e e' : Cursor) (qs qs' : List (Piece Rule)) : Prop :=
  i.InStep e e' ∧ List.Forall₂ (Alike SameChars) qs qs' ∨
    (i.front.getLast? = some '.' ∨ i.back.head? = some '.') ∧
      (∃ y, y ≠ [] ∧ i.back = y ++ e.rest) ∧ StopsAt ['.'] e'

variable (hsunders : i.Sunders isJoint) (hadded : IsFiller i.added)

include hadded

theorem answers_dotted_here {e : Cursor} (hahead : i.Ahead [] d d')
    (h : Answers grammar .compound dotted d (some (e, qs))) :
    ∃ e' qs', Answers grammar .compound dotted d' (some (e', qs')) ∧ Ends i e e' qs qs' := by
  have hnone : Refuses grammar .compound (.seq (.text ['.']) (.rule .identifier))
      (i.added ++ i.back) := refuses_filler hadded 20 (by decide) i.back
  refine ⟨d', [], .done (hnone d' hahead.rest'), ?_⟩
  cases h with
  | done => exact .inl ⟨⟨[], hahead⟩, .nil⟩
  | more_tight _ ha hmore =>
    obtain ⟨f, _, _, hdot, hname⟩ := ha.parts (by decide)
    have hrest : i.back = '.' :: f.rest := hahead.rest.symm.trans hdot.took_text.rest
    refine .inr ⟨.inr (by rw [hrest]; rfl), ?_, '.', by simp, f.rest, ?_⟩
    · obtain ⟨y, hy⟩ := hmore.suffix.trans hname.suffix
      exact ⟨'.' :: y, by simp, by rw [hrest, ← hy]; rfl⟩
    · rw [hahead.rest', hrest, List.nil_append]
      exact skips_filler hadded (.stop rfl)

theorem answers_dotted_dot {e : Cursor} (hahead : i.Ahead ['.'] d d')
    (h : Answers grammar .compound dotted d (some (e, qs))) :
    ∃ e' qs', Answers grammar .compound dotted d' (some (e', qs')) ∧ Ends i e e' qs qs' := by
  have hname : Refuses grammar .compound (.rule .identifier) (i.added ++ i.back) :=
    refuses_filler hadded 80 (by decide) i.back
  have hnone := Refuses.tight (by decide) (takes_text ['.'] _) hname d' hahead.rest'
  refine ⟨d', [], .done hnone, ?_⟩
  cases h with
  | done => exact .inl ⟨⟨['.'], hahead⟩, .nil⟩
  | more_tight _ ha hmore =>
    obtain ⟨f, _, _, hpoint, hname⟩ := ha.parts (by decide)
    have hrest : f.rest = i.back := hpoint.took_text.rest_eq hahead.rest
    obtain ⟨cs, htook⟩ := hname.took
    obtain ⟨sign, x, rest, rfl, -⟩ := reads_identifier (by decide) ⟨_, _, hname, htook⟩
    refine .inr ⟨.inl (getLast_of_suffix hahead.suffix (by simp)), ?_, '.', by simp,
      i.added ++ i.back, ?_⟩
    · obtain ⟨y, hy⟩ := hmore.suffix
      refine ⟨sign ++ x :: rest ++ y, by simp, ?_⟩
      rw [← hrest, htook.rest, ← hy]
      simp
    · rw [hahead.rest']
      exact .stop rfl

include hsunders

theorem answers_dotted {v : List Char} {e : Cursor} (hahead : i.Ahead v d d')
    (h : Answers grammar .compound dotted d (some (e, qs))) :
    ∃ e' qs', Answers grammar .compound dotted d' (some (e', qs')) ∧ Ends i e e' qs qs' := by
  induction hn : v.length using Nat.strongRecOn generalizing v d d' qs with
  | ind n ih =>
    by_cases hv : v = []
    · subst hv
      exact answers_dotted_here hadded hahead h
    by_cases hdot : v = ['.']
    · subst hdot
      exact answers_dotted_dot hadded hahead h
    have hround : i.Keeps grammar .compound (.seq (.text ['.']) (.rule .identifier)) v := by
      refine Keeps.seq (by decide) (keeps_joined hsunders hahead.suffix hv rfl) ?_
      rintro cs w ps rfl hpoint
      obtain ⟨rfl, -⟩ := hpoint.text
      refine keeps_token hsunders (by decide)
        ((List.suffix_append ['.'] w).trans hahead.suffix) ?_
      rintro rfl
      exact hdot rfl
    cases h with
    | done hnone =>
      exact ⟨d', [], .done ((hround _ _ hahead).refused hnone), .inl ⟨⟨v, hahead⟩, .nil⟩⟩
    | more_tight hsp ha hmore =>
      obtain ⟨f', ps', ha', ⟨w, hahead'⟩, halike⟩ := (hround _ _ hahead).took ha
      have hshorter : w.length < n := by
        obtain ⟨f, _, _, hpoint, hname⟩ := ha.parts (by decide)
        have hle := hname.suffix.length_le
        have hlength := congrArg List.length hpoint.took_text.rest
        rw [hahead.rest] at hlength
        rw [hahead'.rest] at hle
        simp only [List.length_append, List.length_singleton] at hle hlength
        omega
      obtain ⟨e', qs', hmore', hend⟩ := ih _ hshorter hahead' hmore rfl
      refine ⟨e', _, .more_tight hsp ha' hmore', ?_⟩
      exact hend.imp (fun hend => ⟨hend.1, List.rel_append halike hend.2⟩) id

theorem settled_qualifiedName {w : List Char} (hw : w ≠ []) (hahead : i.Ahead w c c') :
    (pairing i allows).Settled grammar .loose (.rule .qualifiedName) c c' := by
  have hname : i.Keeps grammar .compound (.rule .identifier) w :=
    keeps_token hsunders (by decide) hahead.suffix hw
  intro x hx
  cases hx with
  | silent hstyle => cases hstyle
  | rule hstyle hbody =>
    change Answers grammar .compound (.seq (.rule .identifier) dotted) c _ at hbody
    cases hbody with
    | seq_refused hnone =>
      exact ⟨none, .rule hstyle (.seq_refused ((hname c c' hahead).refused hnone)), .inl .refused⟩
    | seq_tight hsp ha hmany =>
      obtain ⟨d', ps', ha', ⟨v, hahead'⟩, halike⟩ := (hname c c' hahead).took ha
      obtain ⟨e, qs, rfl⟩ := hmany.exists_many
      obtain ⟨e', qs', hmany', hend⟩ := answers_dotted hsunders hadded hahead' hmany
      obtain ⟨cs, hcs⟩ := (Answers.seq_tight hsp ha hmany).took
      obtain ⟨cs', hcs'⟩ := (Answers.seq_tight hsp ha' hmany').took
      refine ⟨_, .rule hstyle (.seq_tight hsp ha' hmany'), ?_⟩
      rcases hend with ⟨hstep, halike'⟩ | ⟨hdot, ⟨y, hy, hback⟩, hstops⟩
      · refine .inl (.took (.inl hstep)
          (.cons (.mk rfl (.inl (hahead.sameChars hstep hcs hcs' _)) ?_) .nil))
        exact (List.rel_append halike halike').imp fun _ _ => Alike.mono kin_of_same
      · refine .inr ⟨e, _, rfl, rfl,
          ⟨_, List.mem_singleton_self _, hdot, _, .here _, rfl, w, y, hw, hy, hahead.rest, ?_⟩,
          e', _, rfl, hstops⟩
        have hsplit : cs ++ e.rest = w ++ y ++ e.rest := by
          rw [← hcs.rest, hahead.rest, hback, List.append_assoc]
        rw [hcs.chars]
        exact List.append_cancel_right hsplit

end

end Source

end PanelSchema
