import PanelSchema.Proofs.Syntax.Role

/-!
Expressions, arguments and attributes. Each is read from what its rule leaves, and a number is
the only thing in it that can be at fault.
-/

namespace PanelSchema.Syntax

open Source (Rule Outline grammar style body outline textRules)
open Grammar Build Reading

variable {l : Latitude} {r r' : Reading} {rs rs' : List Reading} {span span' : Span}

/-! ### Arguments and attributes -/

theorem exists_argument (h : Known l .argument r r') :
    ∃ e e', r.significant.getLast? = some e ∧ r'.significant.getLast? = some e' ∧
      Meets (Clean r.piece) (Expr.Agree l) e.expr e'.expr := by
  have hlaid : Twins l ([⟨.atMostOne, [.identifier]⟩, ⟨.atMostOne, [.kwRef]⟩] ++
    [⟨.one, [.expression]⟩]) r.inner r'.inner := h.laid rfl
  obtain ⟨before, before', e, e', hbefore, he, htwin, hinner, hinner'⟩ := hlaid.of_concat
  rw [List.mem_singleton] at he
  have he' : e'.rule = .expression := htwin.rule.trans he
  have hclean : ∀ x ∈ before, Clean x.piece := by
    intro x hx
    have htext : ∀ k ∈ [Rule.identifier, .kwRef], k ∈ textRules := by decide
    refine clean_text (h.shaped x (by simp [hinner, hx])) (htext x.rule ?_)
    exact hbefore.mem_rules x.piece (List.mem_map_of_mem hx)
  refine ⟨e, e', ?_, ?_, (htwin.expr he).of_iff ?_⟩
  · simp [significant, hinner, he, isKeyword]
  · simp [significant, hinner', he', isKeyword]
  · rw [h.clean_whole (by decide), hinner]
    grind

theorem meets_args (h : Known l .callArgs r r') :
    Meets (Clean r.piece) (List.Forall₂ (Expr.Agree l)) (args r) (args r') := by
  rw [h.clean_whole (by decide)]
  exact meets_filterMap ((h.every (by decide) rfl).imp fun _ _ hx => .inr (exists_argument hx))

theorem meets_attributeItem (h : Known l .attributeItem r r') :
    Meets (Clean r.piece) (Attribute.Agree l) (attributeItem r) (attributeItem r') := by
  have hlaid : Twins l [⟨.one, [.qualifiedName]⟩, ⟨.atMostOne, [.callArgs]⟩] r.inner r'.inner :=
    h.laid rfl
  simp only [twins_one, twins_atMostOne, twins_nil, List.mem_singleton] at hlaid
  obtain ⟨name, name', _, _, hname, htwin, ⟨rfl, rfl⟩ |
    ⟨list, list', _, _, hlist, hargs, ⟨rfl, rfl⟩, rfl, rfl⟩, hinner, hinner'⟩ := hlaid
  all_goals
    have hclean : Clean name.piece := htwin.clean (by rw [hname]; decide)
    have hpath := htwin.bond.text_eq (by simp [hname, exactRules])
    unfold attributeItem
    rw [h.clean_whole (by decide), hinner, hinner']
  · exact (meets_pure ⟨hpath, .nil⟩).of_iff (by simp [hclean])
  · exact ((meets_args (hargs.known hlist rfl)).andThen fun _ _ has =>
      meets_pure ⟨hpath, has⟩).of_iff (by simp [hclean])

theorem meets_attributes (h : Known l .attributes r r') :
    Meets (Clean r.piece) (List.Forall₂ (Attribute.Agree l)) (attributes r) (attributes r') := by
  rw [h.clean_whole (by decide)]
  exact meets_mapM ((h.every (by decide) rfl).imp fun _ _ hx => meets_attributeItem hx)

theorem typeArgs_agree (h : Known l .genericArgs r r') :
    List.Forall₂ l (typeArgs r) (typeArgs r') := by
  unfold typeArgs
  rw [List.forall₂_map_left_iff, List.forall₂_map_right_iff]
  exact .mp (fun _ _ hx htype => htype (by simpa using hx.1))
    (h.each (· == .typeName) (by decide)) (h.types (by decide))

/-! ### What suffixes are applied to -/

theorem clean_number {p : Piece Rule} (h : Shaped grammar .loose p) (hrule : p.rule = .number) :
    Clean p ↔ (numberValue? p.chars).isSome = true := by
  have hinner : p.inner = [] := by
    cases h with
    | mk h _ =>
      have hclosed : Source.IsClosed [] := by decide
      have hnone := Source.leaves_closed hclosed h.inner (by rw [hrule]; decide)
      exact List.eq_nil_iff_forall_not_mem.2 fun q hq => by simpa using (hnone q hq).1
  rw [clean_iff]
  simp [Unvalued, Bodiless, governingRules, readFrom, hrule, hinner, Option.isSome_iff_ne_none]

theorem meets_number (h : Twin l r r') (hrule : r.rule = .number) :
    Meets (Clean r.piece) (Expr.Agree l) (number span r.piece.chars)
      (number span' r'.piece.chars) := by
  rw [h.bond.exact (by simp [hrule, exactRules]), clean_number h.kith.shaped hrule]
  unfold number
  cases numberValue? r.piece.chars with
  | none => exact meets_malformed.of_iff (by simp)
  | some value =>
    cases value with
    | integer => exact (meets_marked fun _ _ => .integer).of_iff (by simp)
    | float => exact (meets_marked fun _ _ => .float).of_iff (by simp)

theorem meets_members (h : Known l .arrayInitializer r r') :
    Meets (Clean r.piece) (List.Forall₂ (Expr.Agree l)) (r.inner.mapM (·.expr))
      (r'.inner.mapM (·.expr)) := by
  rw [h.clean_whole (by decide)]
  refine meets_mapM ((h.each (fun k => [.arrayInitializer, .expression].contains k)
    (by decide)).imp fun x x' hx => ?_)
  exact hx.2.value (by simpa using hx.1)

theorem meets_elements (h : Known l .arrayInitializer r r') :
    Meets (Clean r.piece) (List.Forall₂ (Expr.Agree l)) (elements r) (elements r') :=
  (meets_members h).andThen fun _ _ hes =>
    (meets_mark r.span r'.span).after fun _ _ _ => meets_pure hes

theorem typeOf_agree (h : Known l .newExpr r r') :
    Option.Rel l (typeOf? r.inner) (typeOf? r'.inner) := by
  unfold typeOf?
  have hboth := List.Forall₂.mp (fun _ _ hx htype => And.intro (Twin.rule hx) htype) h.twins
    (h.types (by decide))
  rcases find_cases hboth (fun _ _ => And.left) (· == .typeName) with
    ⟨hnone, hnone'⟩ | ⟨x, x', -, hkind, hx, hfound, hfound'⟩
  · rw [hnone, hnone']
    exact .none
  · rw [hfound, hfound']
    exact .some (hx.2 (by simpa using hkind))

theorem getD_agree {α α' : Type} {R : α → α' → Prop} {x : Option (List α)} {x' : Option (List α')}
    (h : Option.Rel (List.Forall₂ R) x x') : List.Forall₂ R (x.getD []) (x'.getD []) := by
  cases h with
  | none => exact .nil
  | some h => exact h

theorem meets_creation (h : Known l .newExpr r r') :
    Meets (Clean r.piece) (Expr.Agree l) (creation span r.inner) (creation span' r'.inner) := by
  have hargs := h.found (· == .callArgs) rfl
    fun _ _ hx _ hkind => meets_args (hx.known (by simpa using hkind) rfl)
  have helements := h.found (· == .arrayInitializer) rfl
    fun _ _ hx _ hkind => meets_elements (hx.known (by simpa using hkind) rfl)
  refine (hargs.bind fun _ _ hargs => helements.andThen fun _ _ hinit => meets_marked fun _ _ hm =>
    .new hm (typeOf_agree h) (getD_agree hargs) hinit).of_iff ?_
  exact h.clean_iff_kinds (· == .callArgs) (· == .arrayInitializer) (by decide) (by decide)

/-- The type that a cast or a `typeof` starts with. -/
theorem typeText_head {k : Rule} (h : Known l k r r') (hk : k ∉ untypedRules) {o : Outline}
    (ho : outline (body k) = ⟨.one, [.typeName]⟩ :: o) :
    l ((r.inner.head?.map typeText).getD "") ((r'.inner.head?.map typeText).getD "") := by
  obtain ⟨x, x', _, _, hrule, -, -, hinner, hinner'⟩ := twins_one.1 (h.laid ho)
  have htypes := h.types hk
  rw [hinner, hinner', List.forall₂_cons] at htypes
  rw [hinner, hinner']
  exact htypes.1 (by simpa using hrule)

theorem plainName_eq (h : Bond l r r') (hrule : r.rule = .identifier) :
    r'.plainName = r.plainName := by
  rw [plainName, plainName, h.exact (by simp [hrule, exactRules])]

theorem meets_primary (h : Twin l r r') (hrule : r.rule ∈ primaryRules)
    (hgeneric : r.rule ≠ .genericName) :
    Meets (Clean r.piece) (Expr.Agree l) (primary r) (primary r') := by
  have hbond := h.bond
  have htext : r.rule ∈ textRules → (True ↔ Clean r.piece) :=
    fun htext => (iff_true_intro (h.clean htext)).symm
  unfold primary
  rw [h.rule]
  simp only [primaryRules, List.mem_cons, List.not_mem_nil, or_false] at hrule
  rcases hrule with hr | hr | hr | hr | hr | hr | hr | hr | hr | hr
  all_goals
    rw [hr] at htext hgeneric
    simp only [hr]
  · rw [hbond.literal hr]
    exact (meets_marked fun _ _ => .string).of_iff (htext (by decide))
  · rw [hbond.exact (by simp [hr, exactRules])]
    exact (meets_marked fun _ _ => .string).of_iff (htext (by decide))
  · exact meets_number h hr
  · rw [hbond.text_eq (by simp [hr, exactRules])]
    exact (meets_marked fun _ _ => .bool).of_iff (htext (by decide))
  · exact (meets_marked fun _ _ => .null).of_iff (htext (by decide))
  · have htype := typeText_head (h.known hr rfl) (by decide) rfl
    exact (meets_marked fun _ _ hm => .typeOf hm htype).of_iff (htext (by decide))
  · exact meets_creation (h.known hr rfl)
  · exact h.expr hr
  · exact absurd rfl hgeneric
  · rw [plainName_eq hbond hr]
    exact (meets_marked fun _ _ => .name).of_iff (htext (by decide))

/-! ### Suffixes -/

theorem exists_named
    (h : Twins l [⟨.one, [.identifier]⟩, ⟨.atMostOne, [.genericArgs]⟩] rs rs') :
    ∃ name name' more more', rs = name :: more ∧ rs' = name' :: more' ∧
      name'.plainName = name.plainName ∧ ∀ ts ts', List.Forall₂ l ts ts' →
        List.Forall₂ l ((more.head?.map typeArgs).getD ts)
          ((more'.head?.map typeArgs).getD ts') := by
  simp only [twins_one, twins_atMostOne, twins_nil, List.mem_singleton] at h
  obtain ⟨name, name', more, more', hname, htwin, hmore, rfl, rfl⟩ := h
  refine ⟨name, name', more, more', rfl, rfl, plainName_eq htwin.bond hname, fun ts ts' hts => ?_⟩
  rcases hmore with ⟨rfl, rfl⟩ | ⟨x, x', _, _, hx, hargs, ⟨rfl, rfl⟩, rfl, rfl⟩
  · exact hts
  · exact typeArgs_agree (hargs.known hx rfl)

theorem meets_suffixes
    (h : List.Forall₂ (fun x x' => x.rule ∈ suffixRules ∧ Twin l x x') rs rs') {e e' : Expr}
    {ts ts' : List String} (he : e.Agree l e') (hts : List.Forall₂ l ts ts') :
    Meets (∀ s ∈ rs, Clean s.piece) (Expr.Agree l) (suffixes e ts rs) (suffixes e' ts' rs') := by
  induction h generalizing e e' ts ts' with
  | nil => exact (meets_pure he).of_iff (by simp)
  | @cons s s' _ _ hs _ ih =>
    obtain ⟨hrule, hs⟩ := hs
    rw [suffixes, suffixes, hs.rule, List.forall_mem_cons]
    simp only [suffixRules, List.mem_cons, List.not_mem_nil, or_false] at hrule
    rcases hrule with hr | hr | hr | hr | hr
    · have hclean : Clean s.piece := hs.clean (by rw [hr]; decide)
      obtain ⟨name, name', more, more', hinner, hinner', hname, htypes⟩ :=
        exists_named ((hs.known hr rfl).laid rfl)
      simp only [hr, hinner, hinner', hname]
      exact ((meets_mark _ _).after fun _ _ hm =>
        ih (.member hm he) (htypes _ _ hts)).of_iff (by simp [hclean])
    · simp only [hr]
      exact (meets_args (hs.known hr rfl)).bind fun _ _ hargs =>
        (meets_mark _ _).after fun _ _ hm => ih (.call hm he hts hargs) .nil
    · have hindex := hs.known hr rfl
      obtain ⟨i, i', _, _, hrule, hi, -, hinner, hinner'⟩ := twins_one.1 (hindex.laid rfl)
      have hclean : Clean i.piece ↔ Clean s.piece := by
        rw [clean_iff (p := s.piece)]
        simp [Unvalued, Bodiless, governingRules, readFrom, hindex.rule, hindex.pieces, hinner]
      simp only [hr, hinner, hinner']
      exact ((hi.expr (by simpa using hrule)).of_iff hclean).bind fun _ _ hi =>
        (meets_mark _ _).after fun _ _ hm => ih (.index hm he hi) hts
    all_goals
      have hclean : Clean s.piece := hs.clean (by rw [hr]; decide)
      simp only [hr]
      exact ((meets_mark _ _).after fun _ _ hm => ih (.unary hm he) hts).of_iff (by simp [hclean])

theorem meets_suffixed (h : Known l .postfixExpr r r') :
    Meets (Clean r.piece) (Expr.Agree l) (suffixed span r.inner) (suffixed span' r'.inner) := by
  have hlaid : Twins l [⟨.one, primaryRules⟩, ⟨.several, suffixRules⟩] r.inner r'.inner :=
    h.laid rfl
  obtain ⟨x, x', rest, rest', hrule, hx, hrest, hinner, hinner'⟩ := twins_one.1 hlaid
  have hsuffixes := twins_several.1 hrest
  rw [h.clean_whole (by decide), hinner, hinner', List.forall_mem_cons, suffixed, suffixed, hx.rule]
  split
  · rename_i hgeneric
    have hlaid : Twins l [⟨.one, [.identifier]⟩, ⟨.one, [.genericArgs]⟩] x.inner x'.inner :=
      (hx.known hgeneric rfl).laid rfl
    obtain ⟨name, name', more, more', hinner, hinner', hname, htypes⟩ :=
      exists_named (hlaid.imp fun _ _ hmore => twins_atMostOne.2 (.inr hmore))
    have hclean : Clean x.piece := hx.clean (by rw [hgeneric]; decide)
    simp only [hinner, hinner', hname]
    exact ((meets_mark _ _).after fun _ _ hm =>
      meets_suffixes hsuffixes (.name hm) (htypes _ _ .nil)).of_iff (by simp [hclean])
  · rename_i hother
    exact (meets_primary hx hrule hother).bind fun _ _ he => meets_suffixes hsuffixes he .nil

/-! ### Operators -/

theorem meets_unary (h : Known l .unary r r') :
    Meets (Clean r.piece) (Expr.Agree l) (Build.unary span r.inner)
      (Build.unary span' r'.inner) := by
  rw [h.clean_whole (by decide)]
  unfold Build.unary
  rcases Source.shape_unary h.leaves with ⟨o, q, ho, hq, hps⟩ | ⟨q, hq, hps⟩
  · obtain ⟨x, x', _, _, rfl, hx, hrest, hinner, hinner'⟩ := over_cons.1 ⟨hps, h.twins⟩
    obtain ⟨y, y', _, _, rfl, hy, hnil, rfl, rfl⟩ := over_cons.1 hrest
    obtain ⟨rfl, rfl⟩ := over_nil.1 hnil
    have hoperand := hy.roles.unary hq
    have hclean : Clean x.piece :=
      hx.clean (by rcases ho with ho | ho <;> rw [Reading.rule, ho] <;> decide)
    rw [hinner, hinner']
    dsimp only
    rw [hx.rule]
    rcases ho with ho | ho
    · have hrule : x.rule = .prefixOp := ho
      simp only [hrule]
      rw [hx.bond.exact (by simp [hrule, exactRules])]
      exact (hoperand.andThen fun _ _ he => meets_marked fun _ _ hm => .unary hm he).of_iff
        (by simp [hclean])
    · have hrule : x.rule = .cast := ho
      have htype := typeText_head (hx.known hrule rfl) (by decide) rfl
      simp only [hrule]
      exact (hoperand.andThen fun _ _ he => meets_marked fun _ _ hm => .cast hm htype he).of_iff
        (by simp [hclean])
  · obtain ⟨x, x', _, _, rfl, hx, hnil, hinner, hinner'⟩ := over_cons.1 ⟨hps, h.twins⟩
    obtain ⟨rfl, rfl⟩ := over_nil.1 hnil
    have hrule : x.rule = .postfixExpr := hq
    rw [hinner, hinner']
    dsimp only
    rw [hx.rule]
    simp only [hrule]
    exact (meets_suffixed (hx.known hrule rfl)).of_iff (by simp)

theorem level_token {k operand operator : Rule} {o : Piece Rule}
    (hlevel : Source.level? k = some (operand, operator)) (h : Left grammar .loose operator o) :
    ∃ op, BinaryOp.ofToken? o.chars = some op := by
  apply Option.isSome_iff_exists.1
  apply Source.chars_of_words (fun w => (BinaryOp.ofToken? w).isSome) h
  · cases k <;> cases hlevel <;> rfl
  · cases k <;> cases hlevel <;> decide

theorem meets_chain {k operand operator : Rule} {ps : List (Piece Rule)}
    (hlevel : Source.level? k = some (operand, operator))
    (hrounds : Source.Rounds operand operator ps) (h : Over l ps rs rs') {e e' : Expr}
    (he : e.Agree l e') :
    Meets (∀ x ∈ rs, Clean x.piece) (Expr.Agree l) (chain span e rs) (chain span' e' rs') := by
  have hoperator : operator ∈ textRules ∧ operator ∈ exactRules := by
    cases k <;> cases hlevel <;> decide
  have hoperand : operand ∈ operandRules := by
    cases k <;> cases hlevel <;> decide
  induction hrounds generalizing rs rs' e e' with
  | nil =>
    obtain ⟨rfl, rfl⟩ := over_nil.1 h
    exact (meets_pure he).of_iff (by simp)
  | cons ho hq _ ih =>
    obtain ⟨x, x', _, _, rfl, hx, htail, rfl, rfl⟩ := over_cons.1 h
    obtain ⟨y, y', _, _, rfl, hy, hrest, rfl, rfl⟩ := over_cons.1 htail
    obtain ⟨op, hop⟩ := level_token hlevel ho
    have hrule : x.rule = operator := ho.rule
    have hclean : Clean x.piece := hx.clean (hrule ▸ hoperator.1)
    rw [chain, chain, hx.bond.exact (hrule ▸ hoperator.2), hop]
    have hright := hy.roles.expr (show y.piece.rule ∈ _ from hq ▸ hoperand)
    exact (hright.bind fun _ _ hr => (meets_mark _ _).after fun _ _ hm =>
      ih hrest (.binary hm he hr)).of_iff (by simp [hclean])

theorem meets_level {k operand operator : Rule}
    (hlevel : Source.level? k = some (operand, operator)) (h : Known l k r r') :
    Meets (Clean r.piece) (Expr.Agree l) (binary span r.inner) (binary span' r'.inner) := by
  have hwhole : k ∉ .number :: .parameterList :: .indexAccess :: governingRules := by
    cases k <;> cases hlevel <;> decide
  have hoperand : operand ∈ operandRules := by
    cases k <;> cases hlevel <;> decide
  obtain ⟨q, ps, hq, hrounds, hps⟩ := Source.shape_level hlevel h.leaves
  obtain ⟨x, x', _, _, rfl, hx, hrest, hinner, hinner'⟩ := over_cons.1 ⟨hps, h.twins⟩
  rw [h.clean_whole hwhole, hinner, hinner', List.forall_mem_cons]
  exact (hx.roles.expr (show x.piece.rule ∈ _ from hq ▸ hoperand)).bind fun _ _ he =>
    meets_chain hlevel hrounds hrest he

theorem meets_conditional (h : Known l .conditional r r') :
    Meets (Clean r.piece) (Expr.Agree l) (conditional span r.inner)
      (conditional span' r'.inner) := by
  rw [h.clean_whole (by decide)]
  rcases Source.shape_conditional h.leaves with
    ⟨c, hc, hps⟩ | ⟨c, o, y, n, hc, ho, hy, hn, hps⟩
  · obtain ⟨x, x', _, _, rfl, hx, hnil, hinner, hinner'⟩ := over_cons.1 ⟨hps, h.twins⟩
    obtain ⟨rfl, rfl⟩ := over_nil.1 hnil
    have htest := hx.roles.expr (by simp [Reading.rule, hc, operandRules])
    rw [hinner, hinner']
    exact (htest.andThen fun _ _ ht => meets_pure ht).of_iff (by simp)
  · have hover : Over l _ r.inner r'.inner := ⟨hps, h.twins⟩
    simp only [over_cons, over_nil] at hover
    obtain ⟨x, x', _, _, rfl, hx, ⟨w, w', _, _, rfl, hw, ⟨y, y', _, _, rfl, hyes,
      ⟨n, n', _, _, rfl, hno, ⟨rfl, rfl⟩, rfl, rfl⟩, rfl, rfl⟩, rfl, rfl⟩, hinner, hinner'⟩ := hover
    have htest := hx.roles.expr (by simp [Reading.rule, hc, operandRules])
    have hclean : Clean w.piece := hw.clean (by rw [Reading.rule, ho]; decide)
    rw [hinner, hinner']
    exact (htest.bind fun _ _ ht => (hyes.expr hy).bind fun _ _ hy => (hno.expr hn).andThen
      fun _ _ hn => meets_marked fun _ _ hm => .conditional hm ht hy hn).of_iff (by simp [hclean])

theorem assign_token {o : Piece Rule} (h : Left grammar .loose .assignOp o) :
    o.chars = ['='] ∨ ∃ op, BinaryOp.ofToken? o.chars = some op := by
  have hgood := Source.chars_of_words (fun w => w == ['='] || (BinaryOp.ofToken? w).isSome)
    h rfl (by decide)
  simpa [Option.isSome_iff_exists] using hgood

theorem meets_assignment {operator operator' value value' : Reading} {e e' : Expr} {P : Prop}
    (he : e.Agree l e') (hchars : operator'.piece.chars = operator.piece.chars)
    (htoken : operator.piece.chars = ['='] ∨
      ∃ op, BinaryOp.ofToken? operator.piece.chars = some op)
    (hvalue : Meets P (Expr.Agree l) value.expr value'.expr) :
    Meets P (Expr.Agree l) (assignment span e operator value)
      (assignment span' e' operator' value') := by
  refine hvalue.andThen fun _ _ hv => ?_
  rw [hchars]
  split
  · exact meets_marked fun _ _ hm => .assign hm he hv
  · rename_i hplain
    obtain ⟨op, hop⟩ := htoken.resolve_left hplain
    rw [hop]
    exact (meets_mark _ _).after fun _ _ hc =>
      meets_marked fun _ _ hm => .assign hm he (.binary hc he hv)

theorem meets_expression (h : Known l .expression r r') :
    Meets (Clean r.piece) (Expr.Agree l) (expression span .expression r.inner)
      (expression span' .expression r'.inner) := by
  rw [h.clean_whole (by decide)]
  rcases Source.shape_expression h.leaves with ⟨c, hc, hps⟩ | ⟨c, o, v, hc, ho, hv, hps⟩
  · obtain ⟨x, x', _, _, rfl, hx, hnil, hinner, hinner'⟩ := over_cons.1 ⟨hps, h.twins⟩
    obtain ⟨rfl, rfl⟩ := over_nil.1 hnil
    rw [hinner, hinner']
    exact ((meets_conditional (hx.known hc rfl)).andThen fun _ _ he => meets_pure he).of_iff
      (by simp)
  · have hover : Over l _ r.inner r'.inner := ⟨hps, h.twins⟩
    simp only [over_cons, over_nil] at hover
    obtain ⟨x, x', _, _, rfl, hx, ⟨w, w', _, _, rfl, hw, ⟨v, v', _, _, rfl, hvalue,
      ⟨rfl, rfl⟩, rfl, rfl⟩, rfl, rfl⟩, hinner, hinner'⟩ := hover
    have hrule : w.rule = .assignOp := ho.rule
    have hclean : Clean w.piece := hw.clean (by rw [hrule]; decide)
    have hchars := hw.bond.exact (by simp [hrule, exactRules])
    have hread := hvalue.value (by simpa [Reading.rule] using hv)
    rw [hinner, hinner']
    exact ((meets_conditional (hx.known hc rfl)).bind fun _ _ he =>
      meets_assignment he hchars (assign_token ho) hread).of_iff (by simp [hclean])

theorem expression_level {k operand operator : Rule}
    (h : Source.level? k = some (operand, operator)) :
    style k = .plain ∧ ∀ span rs, expression span k rs = binary span rs := by
  cases k <;> cases h <;> exact ⟨rfl, fun _ _ => rfl⟩

theorem meets_operand (h : Kith l r r') (hrule : r.rule ∈ operandRules) :
    Meets (Clean r.piece) (Expr.Agree l) (expression span r.rule r.inner)
      (expression span' r'.rule r'.inner) := by
  have hlevels : ∀ k ∈ operandRules, k = .expression ∨ k = .arrayInitializer ∨ k = .conditional ∨
      k = .unary ∨ (Source.level? k).isSome = true := by decide
  rw [h.rule]
  rcases hlevels r.rule hrule with hr | hr | hr | hr | hlevel
  · rw [hr]
    exact meets_expression (h.known hr rfl)
  · rw [hr]
    exact (meets_members (h.known hr rfl)).andThen fun _ _ hes =>
      meets_marked fun _ _ hm => .list hm hes
  · rw [hr]
    exact meets_conditional (h.known hr rfl)
  · rw [hr]
    exact meets_unary (h.known hr rfl)
  · obtain ⟨⟨operand, operator⟩, hlevel⟩ := Option.isSome_iff_exists.1 hlevel
    obtain ⟨hplain, hbinary⟩ := expression_level hlevel
    rw [hbinary, hbinary]
    exact meets_level hlevel (h.known rfl hplain)

end PanelSchema.Syntax
