import PanelSchema.Proofs.Syntax.Role

/-!
Statements. One that governs another has no piece to read it from where that is empty.
-/

namespace PanelSchema.Syntax

open Source (Rule Outline grammar style body outline statementRules textRules)
open Grammar Build Reading

variable {l : Latitude} {r r' : Reading} {span span' : Span}

theorem meets_block (h : Known l .block r r') :
    Meets (Clean r.piece) (Stmt.Agree l) (statement span r.piece r.inner)
      (statement span' r'.piece r'.inner) := by
  have hbody : Meets (∀ x ∈ r.inner, Clean x.piece) (List.Forall₂ (Stmt.Agree l))
      (r.inner.mapM (·.stmt)) (r'.inner.mapM (·.stmt)) :=
    meets_mapM ((h.each statementRules.contains (by decide)).imp fun _ _ hx =>
      hx.2.stmt (by simpa using hx.1))
  rw [h.clean_whole (by decide)]
  unfold statement
  simp only [h.rule, h.rule']
  exact hbody.andThen fun _ _ hss => meets_marked fun _ _ hm => .block hm hss

theorem significant_else (h : Known l .elseClause r r') :
    r.significant = [] ∧ r'.significant = [] ∧ ¬Clean r.piece ∨
      ∃ s s', r.significant = [s] ∧ r'.significant = [s'] ∧
        Meets (Clean r.piece) (Stmt.Agree l) s.stmt s'.stmt := by
  have hlaid : Twins l [⟨.one, [.kwElse]⟩, ⟨.atMostOne, statementRules⟩] r.inner r'.inner :=
    h.laid rfl
  have hstatement : ∀ k ∈ statementRules, isKeyword k = false := by decide
  rw [h.clean_governing (by decide)]
  unfold significant
  simp only [twins_one, twins_atMostOne, twins_nil, List.mem_singleton] at hlaid
  obtain ⟨word, word', _, _, hword, htwin, hbody, hinner, hinner'⟩ := hlaid
  have hkeyword : isKeyword word.rule = true := by
    rw [hword]
    rfl
  rcases hbody with ⟨rfl, rfl⟩ | ⟨s, s', _, _, hs, hstmt, ⟨rfl, rfl⟩, rfl, rfl⟩
  · refine .inl ⟨?_, ?_, ?_⟩
    · simp [hinner, hkeyword]
    · simp [hinner', htwin.rule, hkeyword]
    · simp [hinner, hword, statementRules]
  · have hclean : Clean word.piece := htwin.clean (by rw [hword]; decide)
    refine .inr ⟨s, s', ?_, ?_, (hstmt.stmt hs).of_iff ?_⟩
    · simp [hinner, hkeyword, hstatement s.rule hs]
    · simp [hinner', htwin.rule, hkeyword, hstmt.rule, hstatement s.rule hs]
    · simp [hinner, hclean, hs]

theorem meets_ifStmt (h : Known l .ifStmt r r') :
    Meets (Clean r.piece) (Stmt.Agree l) (statement span r.piece r.inner)
      (statement span' r'.piece r'.inner) := by
  have hlaid : Twins l [⟨.one, [.expression]⟩, ⟨.atMostOne, statementRules⟩,
    ⟨.atMostOne, [.elseClause]⟩] r.inner r'.inner := h.laid rfl
  have hexpression : Rule.expression ∉ statementRules := by decide
  have helse : Rule.elseClause ∉ statementRules := by decide
  rw [h.clean_governing (by decide)]
  unfold statement
  simp only [twins_one, twins_atMostOne, twins_nil, List.mem_singleton] at hlaid
  obtain ⟨e, e', _, _, he, htest, hbody, hinner, hinner'⟩ := hlaid
  have htest := htest.expr he
  simp only [h.rule, h.rule', hinner, hinner']
  rcases hbody with (⟨rfl, rfl⟩ | ⟨o, o', _, _, ho, hother, ⟨rfl, rfl⟩, rfl, rfl⟩) |
    ⟨s, s', _, _, hs, hbody, ⟨rfl, rfl⟩ | ⟨o, o', _, _, ho, hother, ⟨rfl, rfl⟩, rfl, rfl⟩, rfl, rfl⟩
  · exact meets_malformed.of_iff (by simp [he, hexpression])
  · refine (htest.bind fun _ _ ht => (hother.roles.otherwise ho).andThen fun _ _ hs =>
      meets_marked fun _ _ hm => .ifThen hm ht hs).of_iff ?_
    simp [he, ho, hexpression, helse]
  · exact (htest.bind fun _ _ ht => (hbody.stmt hs).andThen fun _ _ hs =>
      meets_marked fun _ _ hm => .ifThen hm ht hs).of_iff (by simp [hs])
  · rcases significant_else (hother.known ho rfl) with
      ⟨hnone, hnone', hclean⟩ | ⟨n, n', hsome, hsome', hno⟩
    · simp only [hnone, hnone']
      refine (htest.bind fun _ _ _ => (hbody.stmt hs).bind fun _ _ _ => meets_malformed).of_iff ?_
      simp [hclean]
    · simp only [hsome, hsome']
      refine (htest.bind fun _ _ ht => (hbody.stmt hs).bind fun _ _ hy => hno.andThen fun _ _ hn =>
        meets_marked fun _ _ hm => .ifElse hm ht hy hn).of_iff ?_
      simp [hs]

theorem meets_loop {k : Rule} (hk : k = .foreachStmt ∨ k = .forStmt) (h : Known l k r r') :
    Meets (Clean r.piece) (Stmt.Agree l) (statement span r.piece r.inner)
      (statement span' r'.piece r'.inner) := by
  have hlaid : Twins l [⟨.atMostOne, statementRules⟩] r.inner r'.inner := by
    rcases hk with rfl | rfl <;> exact h.laid rfl
  rw [h.clean_governing (by rcases hk with rfl | rfl <;> decide)]
  unfold statement
  simp only [twins_one, twins_atMostOne, twins_nil] at hlaid
  rcases hlaid with ⟨hinner, hinner'⟩ | ⟨s, s', _, _, hs, hbody, ⟨rfl, rfl⟩, hinner, hinner'⟩
  · rcases hk with rfl | rfl
    all_goals
      simp only [h.rule, h.rule', hinner, hinner']
      exact meets_malformed.of_iff (by simp)
  · rcases hk with rfl | rfl
    all_goals
      simp only [h.rule, h.rule', hinner, hinner']
      exact ((hbody.stmt hs).andThen fun _ _ hs => meets_marked fun _ _ hm => .loop hm hs).of_iff
        (by simp [hs])

theorem meets_whileStmt (h : Known l .whileStmt r r') :
    Meets (Clean r.piece) (Stmt.Agree l) (statement span r.piece r.inner)
      (statement span' r'.piece r'.inner) := by
  have hlaid : Twins l [⟨.one, [.expression]⟩, ⟨.atMostOne, statementRules⟩] r.inner r'.inner :=
    h.laid rfl
  have hexpression : Rule.expression ∉ statementRules := by decide
  rw [h.clean_governing (by decide)]
  unfold statement
  simp only [twins_one, twins_atMostOne, twins_nil, List.mem_singleton] at hlaid
  obtain ⟨e, e', _, _, he, htest, ⟨rfl, rfl⟩ |
    ⟨s, s', _, _, hs, hbody, ⟨rfl, rfl⟩, rfl, rfl⟩, hinner, hinner'⟩ := hlaid
  · simp only [h.rule, h.rule', hinner, hinner']
    exact meets_malformed.of_iff (by simp [he, hexpression])
  · simp only [h.rule, h.rule', hinner, hinner']
    exact ((htest.expr he).bind fun _ _ ht => (hbody.stmt hs).andThen fun _ _ hs =>
      meets_marked fun _ _ hm => .whileLoop hm ht hs).of_iff (by simp [hs])

theorem meets_doStmt (h : Known l .doStmt r r') :
    Meets (Clean r.piece) (Stmt.Agree l) (statement span r.piece r.inner)
      (statement span' r'.piece r'.inner) := by
  have hlaid : Twins l [⟨.atMostOne, statementRules⟩, ⟨.one, [.expression]⟩] r.inner r'.inner :=
    h.laid rfl
  have hexpression : Rule.expression ∉ statementRules := by decide
  rw [h.clean_governing (by decide)]
  unfold statement
  simp only [twins_one, twins_atMostOne, twins_nil, List.mem_singleton] at hlaid
  rcases hlaid with ⟨e, e', _, _, he, htest, ⟨rfl, rfl⟩, hinner, hinner'⟩ |
    ⟨s, s', _, _, hs, hbody, ⟨e, e', _, _, he, htest, ⟨rfl, rfl⟩, rfl, rfl⟩, hinner, hinner'⟩
  · simp only [h.rule, h.rule', hinner, hinner']
    exact meets_malformed.of_iff (by simp [he, hexpression])
  · simp only [h.rule, h.rule', hinner, hinner']
    exact ((hbody.stmt hs).bind fun _ _ hs => (htest.expr he).andThen fun _ _ ht =>
      meets_marked fun _ _ hm => .doWhile hm hs ht).of_iff (by simp [hs])

theorem meets_local {k : Rule} (h : Known l k r r')
    (hwhole : k ∉ .number :: .parameterList :: .indexAccess :: governingRules)
    (htyped : k ∉ untypedRules)
    (hlaid : Twins l [⟨.one, [.typeName]⟩, ⟨.one, [.identifier]⟩,
      ⟨.atMostOne, [.arrayInitializer, .expression]⟩] r.inner r'.inner) :
    Meets (Clean r.piece) (Stmt.Agree l) (localDecl span r.inner) (localDecl span' r'.inner) := by
  rw [h.clean_whole hwhole]
  simp only [twins_one, twins_atMostOne, twins_nil, List.mem_singleton] at hlaid
  obtain ⟨type, type', _, _, htype, hx, ⟨name, name', rest, rest', hname, hy, hrest, rfl, rfl⟩,
    hinner, hinner'⟩ := hlaid
  have hclean : Clean type.piece := hx.clean (by rw [htype]; decide)
  have hclean' : Clean name.piece := hy.clean (by rw [hname]; decide)
  have htypes := h.types htyped
  rw [hinner, hinner', List.forall₂_cons] at htypes
  have htype := htypes.1 htype
  rw [hinner, hinner']
  unfold localDecl
  simp only [hy.bond.exact (by simp [hname, exactRules])]
  rcases hrest with ⟨rfl, rfl⟩ | ⟨value, value', _, _, hvalue, hread, ⟨rfl, rfl⟩, rfl, rfl⟩
  · exact ((meets_pure .none).after fun _ _ hv => meets_marked fun _ _ hm =>
      .localDecl hm htype hv).of_iff (by simp [hclean, hclean'])
  · exact (((hread.value hvalue).map fun _ _ => .some).andThen fun _ _ hv => meets_marked
      fun _ _ hm => .localDecl hm htype hv).of_iff (by simp [hclean, hclean'])

theorem meets_usingDeclaration (h : Known l .usingDeclaration r r') :
    Meets (Clean r.piece) (Stmt.Agree l) (localDecl span r.inner) (localDecl span' r'.inner) := by
  have hlaid : Twins l [⟨.one, [.typeName]⟩, ⟨.one, [.identifier]⟩, ⟨.one, [.expression]⟩]
    r.inner r'.inner := h.laid rfl
  refine meets_local h (by decide) (by decide)
    (hlaid.imp fun _ _ hlaid => hlaid.imp fun _ _ hvalue => ?_)
  obtain ⟨x, x', xs, xs', hrule, hx⟩ := twins_one.1 hvalue
  exact twins_atMostOne.2 (.inr (twins_one.2 ⟨x, x', xs, xs', .tail _ hrule, hx⟩))

theorem meets_usingStmt (h : Known l .usingStmt r r') :
    Meets (Clean r.piece) (Stmt.Agree l) (statement span r.piece r.inner)
      (statement span' r'.piece r'.inner) := by
  have hlaid : Twins l [⟨.one, [.usingDeclaration, .expression]⟩, ⟨.atMostOne, statementRules⟩]
    r.inner r'.inner := h.laid rfl
  have hresource : ∀ k ∈ [Rule.usingDeclaration, .expression], k ∉ statementRules := by decide
  rw [h.clean_governing (by decide)]
  unfold statement
  simp only [twins_one, twins_atMostOne, twins_nil] at hlaid
  obtain ⟨e, e', _, _, he, hread, ⟨rfl, rfl⟩ |
    ⟨s, s', _, _, hs, hbody, ⟨rfl, rfl⟩, rfl, rfl⟩, hinner, hinner'⟩ := hlaid
  · simp only [h.rule, h.rule', hinner, hinner']
    exact meets_malformed.of_iff (by simp [hresource e.rule he])
  · simp only [h.rule, h.rule', hinner, hinner', hread.rule]
    by_cases hdeclared : e.rule = .usingDeclaration
    · simp only [if_pos hdeclared]
      exact ((meets_usingDeclaration (hread.known hdeclared rfl)).bind fun _ _ hr =>
        (hbody.stmt hs).andThen fun _ _ hs => meets_marked fun _ _ hm =>
          .usingBlock hm hr hs).of_iff (by simp [hs])
    · simp only [if_neg hdeclared]
      have hexpr := hread.expr (by simpa [hdeclared] using he)
      exact ((hexpr.map fun _ _ => .expr).bind fun _ _ hr => (hbody.stmt hs).andThen fun _ _ hs =>
        meets_marked fun _ _ hm => .usingBlock hm hr hs).of_iff (by simp [hs])

theorem meets_expressionStmt (h : Known l .expressionStmt r r') :
    Meets (Clean r.piece) (Stmt.Agree l) (statement span r.piece r.inner)
      (statement span' r'.piece r'.inner) := by
  have hlaid : Twins l [⟨.one, [.expression]⟩] r.inner r'.inner := h.laid rfl
  simp only [twins_one, twins_nil, List.mem_singleton] at hlaid
  obtain ⟨e, e', _, _, he, hread, ⟨rfl, rfl⟩, hinner, hinner'⟩ := hlaid
  rw [h.clean_whole (by decide)]
  unfold statement
  simp only [h.rule, h.rule', hinner, hinner']
  exact ((hread.expr he).map fun _ _ => .expr).of_iff (by simp)

theorem meets_returnStmt (h : Known l .returnStmt r r') :
    Meets (Clean r.piece) (Stmt.Agree l) (statement span r.piece r.inner)
      (statement span' r'.piece r'.inner) := by
  have hvalue := h.found (fun k => !isKeyword k) rfl fun x x' hx hrule hkind => by
    have hrule : x.rule ∈ [.kwReturn, .expression] := hrule
    exact hx.expr (by grind [isKeyword])
  have hclean := h.clean_iff_kinds (fun k => !isKeyword k) (fun k => !isKeyword k) (by decide)
    (by decide)
  rw [and_self_iff] at hclean
  unfold statement
  simp only [h.rule, h.rule']
  exact (hvalue.andThen fun _ _ hv => meets_marked fun _ _ hm => .returns hm hv).of_iff hclean

/-! ### Switches -/

theorem meets_sectionItem (h : Twin l r r')
    (hrule : r.rule ∈ .caseLabel :: .defaultLabel :: statementRules) (span span' : Span) :
    Meets (Clean r.piece) (fun x x' => Option.Rel (Option.Rel (Expr.Agree l)) x.1 x'.1 ∧
      Option.Rel (Stmt.Agree l) x.2 x'.2) (sectionItem span r) (sectionItem span' r') := by
  unfold sectionItem
  rw [h.rule]
  split
  · rename_i hr
    have hknown := h.known hr rfl
    have hlaid : Twins l [⟨.one, [.expression]⟩] r.inner r'.inner := hknown.laid rfl
    simp only [twins_one, twins_nil, List.mem_singleton] at hlaid
    obtain ⟨e, e', _, _, he, hread, ⟨rfl, rfl⟩, hinner, hinner'⟩ := hlaid
    rw [hknown.clean_whole (by decide), hinner, hinner']
    exact ((hread.expr he).andThen fun _ _ he =>
      meets_pure ⟨.some (.some he), .none⟩).of_iff (by simp)
  · rename_i hr
    have hclean : Clean r.piece := h.clean (by rw [hr]; decide)
    exact (meets_pure ⟨.some .none, .none⟩).of_iff (by simp [hclean])
  · rename_i hcase hdefault
    exact (h.stmt (by grind)).andThen fun _ _ hs => meets_pure ⟨.none, .some hs⟩

theorem meets_switchSection (h : Known l .switchSection r r') :
    Meets (Clean r.piece) (SwitchSection.Agree l) (switchSection r) (switchSection r') := by
  rw [h.clean_whole (by decide)]
  have hparts := (h.each (.caseLabel :: .defaultLabel :: statementRules).contains
    (by decide)).imp fun x x' hx =>
      meets_sectionItem hx.2 (List.contains_iff_mem.1 hx.1) r.span r'.span
  refine (meets_mapM hparts).andThen fun _ _ hparts => meets_marked fun _ _ hm => .mk hm ?_ ?_
  · exact List.rel_filterMap (fun _ _ hx => hx.1) hparts
  · exact List.rel_filterMap (fun _ _ hx => hx.2) hparts

theorem meets_switchStmt (h : Known l .switchStmt r r') :
    Meets (Clean r.piece) (Stmt.Agree l) (statement span r.piece r.inner)
      (statement span' r'.piece r'.inner) := by
  have hlaid : Twins l [⟨.one, [.expression]⟩, ⟨.several, [.switchSection]⟩] r.inner r'.inner :=
    h.laid rfl
  simp only [twins_one, twins_several, List.mem_singleton] at hlaid
  obtain ⟨e, e', sections, sections', he, hread, hsections, hinner, hinner'⟩ := hlaid
  have hread' := hsections.imp fun x x' hx => meets_switchSection (hx.2.known hx.1 rfl)
  rw [h.clean_whole (by decide)]
  unfold statement
  simp only [h.rule, h.rule', hinner, hinner', List.forall_mem_cons]
  exact (hread.expr he).bind fun _ _ he => (meets_mapM hread').andThen fun _ _ hss =>
    meets_marked fun _ _ hm => .switch hm he hss

/-! ### All statements -/

theorem meets_stmt_text (h : Kith l r r')
    (hrule : r.rule ∈ [.breakStmt, .continueStmt, .skippedStmt]) :
    Meets (Clean r.piece) (Stmt.Agree l) (statement span r.piece r.inner)
      (statement span' r'.piece r'.inner) := by
  have htext : ∀ k ∈ [Rule.breakStmt, .continueStmt, .skippedStmt], k ∈ textRules := by decide
  have hclean : True ↔ Clean r.piece :=
    (iff_true_intro (clean_text h.shaped (htext r.rule hrule))).symm
  have hsame : r'.piece.rule = r.piece.rule := h.rule
  unfold statement
  rw [hsame]
  simp only [List.mem_cons, List.not_mem_nil, or_false] at hrule
  rcases hrule with hr | hr | hr
  · simp only [show r.piece.rule = _ from hr]
    exact (meets_marked fun _ _ => .breaks).of_iff hclean
  · simp only [show r.piece.rule = _ from hr]
    exact (meets_marked fun _ _ => .continues).of_iff hclean
  · simp only [show r.piece.rule = _ from hr]
    refine ((meets_note _ _ _ _).after fun _ _ _ => ?_).of_iff hclean
    rw [Piece.text, Piece.text, h.bond.exact (by simp [hr, exactRules])]
    exact meets_marked fun _ _ => .skipped

theorem meets_stmt (h : Kith l r r') (hrule : r.rule ∈ statementRules) :
    Meets (Clean r.piece) (Stmt.Agree l) (statement span r.piece r.inner)
      (statement span' r'.piece r'.inner) := by
  simp only [statementRules, List.mem_cons, List.not_mem_nil, or_false] at hrule
  rcases hrule with hr | hr | hr | hr | hr | hr | hr | hr | hr | hr | hr | hr | hr | hr
  · exact meets_block (h.known hr rfl)
  · exact meets_ifStmt (h.known hr rfl)
  · exact meets_switchStmt (h.known hr rfl)
  · exact meets_usingStmt (h.known hr rfl)
  · exact meets_loop (.inl rfl) (h.known hr rfl)
  · exact meets_loop (.inr rfl) (h.known hr rfl)
  · exact meets_whileStmt (h.known hr rfl)
  · exact meets_doStmt (h.known hr rfl)
  · exact meets_returnStmt (h.known hr rfl)
  · exact meets_stmt_text h (by simp [hr])
  · exact meets_stmt_text h (by simp [hr])
  · have hknown := h.known hr rfl
    unfold statement
    simp only [hknown.rule, hknown.rule']
    exact meets_local hknown (by decide) (by decide) (hknown.laid rfl)
  · exact meets_expressionStmt (h.known hr rfl)
  · exact meets_stmt_text h (by simp [hr])

theorem meets_stmt_else (h : Kith l r r') (hrule : r.rule = .elseClause) :
    Meets False (Stmt.Agree l) (statement span r.piece r.inner)
      (statement span' r'.piece r'.inner) := by
  have hknown := h.known hrule rfl
  unfold statement
  simp only [hknown.rule, hknown.rule']
  exact meets_malformed

end PanelSchema.Syntax
