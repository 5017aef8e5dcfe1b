import PanelSchema.Proofs.Syntax.Expression

/-! Declarations, whose parts are looked for by their kind. -/

namespace PanelSchema.Syntax

open Source (Rule Outline grammar style body outline statementRules textRules)
open Grammar Build Reading

variable {l : Latitude} {r r' : Reading} {rs rs' : List Reading} {span span' : Span} {k : Rule}

theorem Known.attributesOf (h : Known l k r r')
    (hone : (outline (body k)).holdsAtMostOne (· == .attributes) = true) :
    Meets (∀ x ∈ r.inner, (x.rule == .attributes) = true → Clean x.piece)
      (List.Forall₂ (Attribute.Agree l)) (attributesOf r.inner) (attributesOf r'.inner) :=
  (h.found (· == .attributes) hone fun _ _ hx _ hkind =>
    meets_attributes (hx.known (by simpa using hkind) rfl)).andThen fun _ _ hfound =>
      meets_pure (getD_agree hfound)

theorem Known.nameOf (h : Known l k r r')
    (hsome : (outline (body k)).holdsOne (· == .identifier) = true) :
    ∃ name, nameOf? r.inner = some name ∧ nameOf? r'.inner = some name := by
  obtain ⟨x, x', -, hkind, hx, -, hfound, hfound'⟩ :=
    h.exists_found (· == .identifier) hsome h.twins
  have htext := hx.bond.text_eq (by simp_all [exactRules])
  exact ⟨x.text, by rw [nameOf?, hfound, Option.map_some],
    by rw [nameOf?, hfound', Option.map_some, htext]⟩

theorem Known.typeOf (h : Known l k r r') (hk : k ∉ untypedRules)
    (hsome : (outline (body k)).holdsOne (· == .typeName) = true) :
    ∃ type type', typeOf? r.inner = some type ∧ typeOf? r'.inner = some type' ∧
      l type type' := by
  obtain ⟨x, x', -, hkind, -, htype, hfound, hfound'⟩ :=
    h.exists_found (· == .typeName) hsome (h.types hk)
  refine ⟨x.typeText, x'.typeText, ?_, ?_, htype (by simpa using hkind)⟩
  · rw [typeOf?, hfound, Option.map_some]
  · rw [typeOf?, hfound', Option.map_some]

theorem meets_decls (h : List.Forall₂ (fun x x' =>
      (declarationRules ++ textRules).contains x.rule = true ∧ Twin l x x') rs rs') :
    Meets (∀ x ∈ rs, Clean x.piece) (List.Forall₂ (Decl.Agree l)) (decls rs) (decls rs') := by
  refine meets_filterMap (h.imp fun x x' hx => ?_)
  rcases List.mem_append.1 (List.contains_iff_mem.1 hx.1) with hrule | hrule
  · exact .inr (hx.2.roles.decl hrule)
  · obtain ⟨hnone, hnone'⟩ := hx.2.roles.text hrule
    exact .inl ⟨hnone, hnone', hx.2.clean hrule⟩

theorem meets_enumMember (h : Known l .enumMember r r') :
    Meets (Clean r.piece) (EnumMember.Agree l) (enumMember r) (enumMember r') := by
  have hvalue := h.found (fun k => k != .attributes && k != .identifier) rfl
    fun x x' hx hrule hkind => by
      have hrule : x.rule ∈ [.attributes, .identifier, .expression] := hrule
      exact hx.expr (by grind)
  obtain ⟨name, hname, hname'⟩ := h.nameOf rfl
  unfold enumMember
  rw [hname, hname']
  refine ((h.attributesOf rfl).bind fun _ _ has => hvalue.andThen fun _ _ hv =>
    meets_marked fun _ _ hm => ⟨hm, has, rfl, hv⟩).of_iff ?_
  exact h.clean_iff_kinds (· == .attributes) (fun k => k != .attributes && k != .identifier)
    (by decide) (by decide)

theorem meets_classDecl (h : Known l .classDecl r r') {as as' : List Attribute}
    (has : List.Forall₂ (Attribute.Agree l) as as') :
    Meets (Clean r.piece) (Decl.Agree l) (classDecl as r) (classDecl as' r') := by
  obtain ⟨name, hname, hname'⟩ := h.nameOf rfl
  rw [h.clean_whole (by decide)]
  unfold classDecl
  rw [hname, hname']
  exact (meets_decls (h.each _ (by decide))).andThen fun _ _ hds =>
    meets_marked fun _ _ hm => .classDecl hm has hds

theorem meets_enumDecl (h : Known l .enumDecl r r') {as as' : List Attribute}
    (has : List.Forall₂ (Attribute.Agree l) as as') :
    Meets (Clean r.piece) (Decl.Agree l) (enumDecl as r) (enumDecl as' r') := by
  obtain ⟨name, hname, hname'⟩ := h.nameOf rfl
  have hmembers : Meets (∀ x ∈ r.inner, Clean x.piece) (List.Forall₂ (EnumMember.Agree l))
      ((r.inner.filter (·.rule == .enumMember)).mapM enumMember)
      ((r'.inner.filter (·.rule == .enumMember)).mapM enumMember) := by
    rw [← List.filterMap_eq_filter]
    refine meets_filterMap ((h.each (Rule.enumMember :: textRules).contains (by decide)).imp ?_)
    rintro x x' ⟨hrule, hx⟩
    by_cases hmember : x.rule = .enumMember
    · refine .inr ⟨x, x', ?_, ?_, meets_enumMember (hx.known hmember rfl)⟩
      · simp [Option.guard, hmember]
      · simp [Option.guard, hx.rule, hmember]
    · have htext := (List.mem_cons.1 (List.contains_iff_mem.1 hrule)).resolve_left hmember
      refine .inl ⟨?_, ?_, hx.clean htext⟩
      · simp [Option.guard, hmember]
      · simp [Option.guard, hx.rule, hmember]
  rw [h.clean_whole (by decide)]
  unfold enumDecl
  rw [hname, hname']
  exact hmembers.andThen fun _ _ hes => meets_marked fun _ _ hm => .enumDecl hm has hes

theorem meets_typeDecl (h : Known l .typeDecl r r') :
    Meets (Clean r.piece) (Decl.Agree l) (typeDecl span r.inner) (typeDecl span' r'.inner) := by
  obtain ⟨x, x', hx, hkind, htwin, -, hfound, hfound'⟩ :=
    h.exists_found (fun k => k == .classDecl || k == .enumDecl) rfl h.twins
  have hclean := h.clean_found (fun k => k == .classDecl || k == .enumDecl) rfl hx hkind
  unfold typeDecl
  rw [hfound, hfound']
  refine ((h.attributesOf rfl).bind fun as as' has => Meets.of_iff ?_ hclean).of_iff ?_
  · dsimp only
    rw [htwin.rule]
    split
    · rename_i hrule
      exact meets_classDecl (htwin.known hrule rfl) has
    · rename_i hrule
      exact meets_enumDecl (htwin.known (by simpa [hrule] using hkind) rfl) has
  · exact h.clean_iff_kinds (· == .attributes) (fun k => k == .classDecl || k == .enumDecl)
      (by decide) (by decide)

theorem meets_parameter (h : Known l .parameter r r') :
    Meets True (Parameter.Agree l) (parameter r) (parameter r') := by
  obtain ⟨name, hname, hname'⟩ := h.nameOf rfl
  obtain ⟨type, type', htype, htype', hagree⟩ := h.typeOf (by decide) rfl
  unfold parameter
  rw [hname, hname', htype, htype']
  exact meets_pure ⟨hagree, rfl⟩

theorem meets_parameters (h : Known l .parameterList r r') :
    Meets (Clean r.piece) (List.Forall₂ (Parameter.Agree l)) (parameters r) (parameters r') := by
  have hread := (h.every (by decide) rfl).imp fun x x' hx => meets_parameter hx
  exact (meets_mapM hread).of_iff (by simp [clean_parameterList h.rule])

theorem meets_method (h : Known l .methodDecl r r') :
    Meets (Clean r.piece) (Decl.Agree l) (method span r.inner) (method span' r'.inner) := by
  have hparams := h.found (· == .parameterList) rfl
    fun _ _ hx _ hkind => meets_parameters (hx.known (by simpa using hkind) rfl)
  have hlists : ∀ x ∈ r.inner, (x.rule == .parameterList) = true → Clean x.piece :=
    fun x _ hkind => clean_parameterList (beq_iff_eq.1 hkind)
  obtain ⟨x, x', hx, hkind, htwin, -, hfound, hfound'⟩ := h.exists_found (· == .block) rfl h.twins
  have hbody := (htwin.stmt (by simp_all [statementRules])).of_iff
    (h.clean_found (· == .block) rfl hx hkind)
  obtain ⟨name, hname, hname'⟩ := h.nameOf rfl
  obtain ⟨type, type', htype, htype', hagree⟩ := h.typeOf (by decide) rfl
  unfold method
  simp only [hname, hname', htype, htype', hfound, hfound', Option.mapM_some, bind_map_left]
  refine ((h.attributesOf rfl).bind fun _ _ has => hparams.bind fun _ _ hps => hbody.andThen
    fun _ _ hs => meets_marked fun _ _ hm =>
      .method hm has hagree (getD_agree hps) hs).of_iff ?_
  rw [and_iff_right hlists]
  exact h.clean_iff_kinds (· == .attributes) (· == .block) (by decide) (by decide)

theorem modifiers_eq (h : List.Forall₂ (Twin l) rs rs') :
    (rs'.filter (·.rule == .modifier)).map (·.text) =
      (rs.filter (·.rule == .modifier)).map (·.text) := by
  induction h with
  | nil => rfl
  | @cons x x' _ _ hx _ ih =>
    rw [List.filter_cons, List.filter_cons, hx.rule]
    split
    · rename_i hrule
      rw [List.map_cons, List.map_cons, ih, hx.bond.text_eq (by simp_all [exactRules])]
    · exact ih

theorem meets_field (h : Known l .fieldDecl r r') :
    Meets (Clean r.piece) (Decl.Agree l) (field span r.inner) (field span' r'.inner) := by
  have hvalue := h.found (fun k => k == .expression || k == .arrayInitializer) rfl
    fun x x' hx _ hkind => hx.value (by grind)
  obtain ⟨name, hname, hname'⟩ := h.nameOf rfl
  obtain ⟨type, type', htype, htype', hagree⟩ := h.typeOf (by decide) rfl
  unfold field
  rw [hname, hname', htype, htype', modifiers_eq h.twins]
  refine ((h.attributesOf rfl).bind fun _ _ has => hvalue.andThen fun _ _ hv =>
    meets_marked fun _ _ hm => .field hm has hagree hv).of_iff ?_
  exact h.clean_iff_kinds (· == .attributes) (fun k => k == .expression || k == .arrayInitializer)
    (by decide) (by decide)

theorem meets_namespaceDecl (h : Known l .namespaceDecl r r') :
    ∃ b b', declaration? span r.piece r.inner = some b ∧
      declaration? span' r'.piece r'.inner = some b' ∧
      Meets (Clean r.piece) (Decl.Agree l) b b' := by
  have hlaid : Twins l [⟨.one, [.qualifiedName]⟩,
    ⟨.several, [.namespaceDecl, .typeDecl, .skippedMember]⟩] r.inner r'.inner := h.laid rfl
  have hrules : ∀ k ∈ [Rule.namespaceDecl, .typeDecl, .skippedMember],
      (declarationRules ++ textRules).contains k = true := by decide
  simp only [twins_one, twins_several, List.mem_singleton] at hlaid
  obtain ⟨name, name', items, items', hname, htwin, hitems, hinner, hinner'⟩ := hlaid
  have hclean : Clean name.piece := htwin.clean (by rw [hname]; decide)
  have hdecls := meets_decls (hitems.imp fun _ _ hx => ⟨hrules _ hx.1, hx.2⟩)
  rw [h.clean_whole (by decide)]
  unfold declaration?
  simp only [h.rule, h.rule', hinner, hinner', htwin.bond.text_eq (by simp [hname, exactRules])]
  exact ⟨_, _, rfl, rfl, (hdecls.andThen fun _ _ hds => meets_marked fun _ _ hm =>
    .namespaceDecl hm hds).of_iff (by simp [hclean])⟩

theorem meets_decl (h : Kith l r r') (hrule : r.rule ∈ declarationRules) :
    ∃ b b', declaration? span r.piece r.inner = some b ∧
      declaration? span' r'.piece r'.inner = some b' ∧
      Meets (Clean r.piece) (Decl.Agree l) b b' := by
  simp only [declarationRules, List.mem_cons, List.not_mem_nil, or_false] at hrule
  rcases hrule with hr | hr | hr | hr
  · exact meets_namespaceDecl (h.known hr rfl)
  all_goals
    have hknown := h.known hr rfl
    unfold declaration?
    simp only [hknown.rule, hknown.rule']
  · exact ⟨_, _, rfl, rfl, meets_typeDecl hknown⟩
  · exact ⟨_, _, rfl, rfl, meets_method hknown⟩
  · exact ⟨_, _, rfl, rfl, meets_field hknown⟩

theorem declaration_text {p : Piece Rule} (h : p.rule ∈ textRules) :
    declaration? span p rs = none := by
  have htext : ∀ k ∈ textRules,
      k ≠ .namespaceDecl ∧ k ≠ .typeDecl ∧ k ≠ .methodDecl ∧ k ≠ .fieldDecl := by decide
  obtain ⟨h₁, h₂, h₃, h₄⟩ := htext p.rule h
  unfold declaration?
  split
  all_goals first | contradiction | rfl

theorem meets_sourceTree (h : Known l .sourceFile r r') :
    Meets (Clean r.piece) (SourceTree.Agree l) (sourceTree r) (sourceTree r') := by
  rw [h.clean_whole (by decide)]
  exact (meets_decls (h.each _ (by decide))).andThen fun _ _ hds =>
    meets_marked fun _ _ hm => ⟨hm, hds⟩

end PanelSchema.Syntax
