import Mathlib.Algebra.Group.Nat.Even
import Mathlib.Data.List.DropRight
import PanelSchema.Proofs.Syntax.Provenance
import PanelSchema.Proofs.Syntax.Quotation

/-!
Literals whose text is taken as it stands. Where such a literal ends is still decided by the rule
of ordinary ones, in which a backslash takes the next character with it. So a text that ends in an
odd number of backslashes takes the closing mark with it, and no literal of it is found.
-/

namespace PanelSchema.Syntax

open Source (Rule Identifier Solid Content grammar)
open Grammar Build Reading

/-! ### Backslashes at the end -/

def trailing (s : List Char) : Nat :=
  (s.rtakeWhile (· == '\\')).length

theorem trailing_cons (x : Char) (s : List Char) :
    trailing (x :: s) = trailing s + if trailing s = s.length ∧ x = '\\' then 1 else 0 := by
  have hrun : trailing s = (s.reverse.takeWhile (· == '\\')).length := by
    simp [trailing, List.rtakeWhile]
  have hcons : trailing (x :: s) = ((s.reverse ++ [x]).takeWhile (· == '\\')).length := by
    simp [trailing, List.rtakeWhile]
  rw [hcons, List.takeWhile_append, List.length_reverse, ← hrun]
  by_cases hall : trailing s = s.length
  · by_cases hx : x = '\\' <;> simp [hall, hx]
  · rw [if_neg hall, if_neg fun h => hall h.1, ← hrun, Nat.add_zero]

theorem trailing_le_length (s : List Char) : trailing s ≤ s.length := by
  induction s with
  | nil => exact Nat.le_refl 0
  | cons x s ih =>
    rw [trailing_cons, List.length_cons]
    split <;> omega

theorem trailing_concat (s : List Char) : trailing (s ++ ['\\']) = trailing s + 1 := by
  simp [trailing]

theorem even_trailing_of_content {s : List Char} (h : Content s) : Even (trailing s) := by
  induction h with
  | nil => exact Even.zero
  | @escape x w _ ih =>
    rw [trailing_cons, trailing_cons, List.length_cons]
    by_cases hall : trailing w = w.length ∧ x = '\\'
    · simpa [hall, Nat.even_add_one] using ih
    · have hlt := Nat.lt_succ_of_le (trailing_le_length w)
      simpa [hall, hlt.ne] using ih
  | plain hx _ _ ih => simpa [trailing_cons, hx] using ih

theorem content_append {s t : List Char} (hs : Content s) (ht : Content t) : Content (s ++ t) := by
  induction hs with
  | nil => exact ht
  | escape x _ ih => exact .escape x ih
  | plain hx hx' _ ih => exact .plain hx hx' ih

/-- A text without marks can stand between them, or only its last backslash cannot. -/
theorem content_or_concat (s : List Char) (hs : '"' ∉ s) :
    Content s ∨ ∃ w, Content w ∧ s = w ++ ['\\'] := by
  fun_induction unescape s with
  | case1 => exact .inl .nil
  | case2 => exact .inr ⟨[], .nil, rfl⟩
  | case3 x s _ ih =>
    simp only [List.mem_cons, not_or] at hs
    rcases ih hs.2.2 with h | ⟨w, h, rfl⟩
    · exact .inl (.escape x h)
    · exact .inr ⟨'\\' :: x :: w, .escape x h, rfl⟩
  | case4 x s hlone hpair ih =>
    simp only [List.mem_cons, not_or] at hs
    have hx : x ≠ '\\' := by
      rintro rfl
      cases s with
      | nil => exact hlone rfl rfl
      | cons y s => exact hpair y s rfl rfl
    rcases ih hs.2 with h | ⟨w, h, rfl⟩
    · exact .inl (.plain hx (Ne.symm hs.1) h)
    · exact .inr ⟨x :: w, .plain hx (Ne.symm hs.1) h, rfl⟩

theorem content_iff {s : List Char} (hs : '"' ∉ s) : Content s ↔ Even (trailing s) := by
  refine ⟨even_trailing_of_content, fun heven => ?_⟩
  rcases content_or_concat s hs with h | ⟨w, h, rfl⟩
  · exact h
  · rw [trailing_concat, Nat.even_add_one] at heven
    exact absurd (even_trailing_of_content h) heven

/-! ### Literals in the source -/

theorem eq_of_append_cons {x : Char} {l l' r r' : List Char} (hl : x ∉ l) (hl' : x ∉ l')
    (h : l ++ x :: r = l' ++ x :: r') : r = r' := by
  have hdrop : ∀ l r : List Char, x ∉ l → (l ++ x :: r).dropWhile (· != x) = x :: r := by
    intro l r hl
    rw [List.dropWhile_append_of_pos fun y hy => ?_, List.dropWhile_cons_of_neg (by simp)]
    exact bne_iff_ne.2 fun hyx => hl (hyx ▸ hy)
  have hcons : x :: r = x :: r' := by rw [← hdrop l r hl, h, hdrop l' r' hl']
  exact List.tail_eq_of_cons_eq hcons

theorem length_le_of_append_cons {x : Char} {l l' r r' : List Char} (hl' : x ∉ l')
    (h : l ++ x :: r = l' ++ r') : l'.length ≤ l.length := by
  rcases List.append_eq_append_iff.1 h with ⟨a, rfl, ha⟩ | ⟨a, rfl, -⟩
  · cases a with
    | nil => simp
    | cons y a =>
      cases ha
      simp at hl'
  · simp

theorem length_unescape_le (s : List Char) : (unescape s).length ≤ s.length := by
  fun_induction unescape s with
  | case1 | case2 => exact Nat.le_refl _
  | case3 x s _ ih | case4 x s _ _ ih =>
    simp only [List.length_cons]
    omega

section

variable {text : List Char} {q : Piece Rule}

theorem refuses_end : Refuses grammar .atomic (Source.literalChar '"') [] := by
  have hnone : ∀ x : Char, Refuses grammar .atomic (.text [x]) [] :=
    fun x => refuses_text (by simp)
  have hany : Refuses grammar .atomic (.one .any) [] := refuses_one (by simp)
  exact .alt (hnone _).seq (.tight (by decide) (hnone _).never hany)

/-- Behind the mark that opens a literal there is another, and what stands there does not run on
to the end of the text. -/
theorem mark_of_literal (hq : Stands grammar text q) (hrule : q.rule = .stringLiteral) :
    ∃ l r, text = l ++ '"' :: r ∧ '"' ∈ r ∧ ¬Content r := by
  cases hq with
  | @mk sp c d _ hrest h _ _ =>
    rw [hrule] at h
    have hsp : innerSpacing (grammar.style .stringLiteral) sp = .compound := by cases sp <;> rfl
    obtain ⟨_, hbody⟩ := h.of_rule (by decide)
    rw [hsp] at hbody
    obtain ⟨c₁, _, _, hsign, hbody⟩ := hbody.parts (by decide)
    obtain ⟨c₂, _, _, hopen, hbody⟩ := hbody.parts (by decide)
    obtain ⟨c₃, _, _, hinner, hclose⟩ := hbody.parts (by decide)
    obtain ⟨l, hl⟩ := hsign.suffix.trans hrest
    have hc₂ := hopen.took_text.rest
    have hc₃ := hclose.took_text.rest
    obtain ⟨w, hw⟩ := hinner.took
    refine ⟨l, c₂.rest, ?_, ?_, fun hcontent => ?_⟩
    · rw [← hl, hc₂]
      rfl
    · rw [hw.rest, hc₃]
      simp
    · -- The content would take the closing mark too.
      obtain ⟨e, _, hall, htook, -⟩ :=
        Source.takes_content hcontent refuses_end c₂ (List.append_nil _).symm
      obtain ⟨_, hmany⟩ := hinner.of_rule (by decide)
      cases hall.unique hmany
      have hnil := htook.rest_eq (List.append_nil _).symm
      rw [hnil] at hc₃
      cases hc₃

theorem not_literal {before s after : List Char} (hbefore : '"' ∉ before) (hs : '"' ∉ s)
    (hafter : '"' ∉ after) (hrun : Content (s ++ '"' :: after))
    (hq : Stands grammar (before ++ '"' :: (s ++ '"' :: after)) q) :
    q.rule ≠ .stringLiteral := by
  intro hrule
  obtain ⟨l, r, htext, hmark, hcontent⟩ := mark_of_literal hq hrule
  by_cases hl : '"' ∈ l
  · have hcount := congrArg (List.count '"') htext
    have hcountl := List.count_pos_iff.2 hl
    have hcountr := List.count_pos_iff.2 hmark
    simp [List.count_eq_zero.2 hbefore, List.count_eq_zero.2 hs, List.count_eq_zero.2 hafter]
      at hcount
    omega
  · exact hcontent (eq_of_append_cons hbefore hl htext ▸ hrun)

theorem chars_of_charLiteral (hq : Stands grammar text q) (hrule : q.rule = .charLiteral) :
    ∃ l w r, text = l ++ '\'' :: (w ++ '\'' :: r) ∧ q.chars = '\'' :: (w ++ ['\'']) := by
  cases hq with
  | @mk sp c d _ hrest h htook _ =>
    rw [hrule] at h
    have hsp : innerSpacing (grammar.style .charLiteral) sp = .atomic := by cases sp <;> rfl
    obtain ⟨_, hbody⟩ := h.of_rule (by decide)
    rw [hsp] at hbody
    obtain ⟨c₁, _, _, hopen, hbody⟩ := hbody.parts (by decide)
    obtain ⟨c₂, _, _, hfirst, hbody⟩ := hbody.parts (by decide)
    obtain ⟨c₃, _, _, hmore, hclose⟩ := hbody.parts (by decide)
    obtain ⟨u, hu⟩ := hfirst.took
    obtain ⟨v, hv⟩ := hmore.took
    have hwhole := hopen.took_text.trans (hu.trans (hv.trans hclose.took_text))
    have hchars : q.chars = '\'' :: (u ++ v ++ ['\'']) := by
      have h := htook.rest.symm.trans hwhole.rest
      simpa using List.append_cancel_right h
    obtain ⟨l, hl⟩ := hrest
    refine ⟨l, u ++ v, d.rest, ?_, hchars⟩
    rw [← hl, htook.rest, hchars]
    simp

theorem not_charLiteral {before s after : List Char} (hbefore : '\'' ∉ before)
    (hafter : '\'' ∉ after) (hq : Stands grammar (before ++ (s ++ after)) q)
    (hrule : q.rule = .charLiteral) : unescape (q.chars.drop 1).dropLast ≠ s := by
  obtain ⟨l, w, r, htext, hchars⟩ := chars_of_charLiteral hq hrule
  rintro rfl
  have hw : (q.chars.drop 1).dropLast = w := by simp [hchars]
  rw [hw] at htext
  have hl := length_le_of_append_cons hbefore htext.symm
  have hreverse : r.reverse ++ '\'' :: (w.reverse ++ '\'' :: l.reverse) =
      after.reverse ++ (before ++ unescape w).reverse := by
    simpa using (congrArg List.reverse htext).symm
  have hr := length_le_of_append_cons (by simpa using hafter) hreverse
  have hlength := congrArg List.length htext
  have hunescape := length_unescape_le w
  simp only [List.length_append, List.length_cons, List.length_reverse] at hlength hr
  omega

end

/-! ### The field -/

theorem content_closing : Content closing :=
  .plain (by decide) (by decide) (.plain (by decide) (by decide)
    (.plain (by decide) (by decide) .nil))

/-- What stands before the first mark of the literal. -/
def FieldFrame.opening (f : FieldFrame) : List Char :=
  ['c', 'l', 'a', 's', 's', ' '] ++ f.owner.text ++ [' ', '\x7b', ' '] ++ f.type.text ++ [' '] ++
    f.name.text ++ [' ', '=', ' ', '@']

theorem FieldFrame.toList_verbatim (f : FieldFrame) (s : List Char) :
    (f.around (quotation true s)).toList = f.opening ++ '"' :: (s ++ '"' :: closing) := by
  rw [f.toList_around]
  unfold declaration member assigned opening
  simp [quotation, closing]

theorem FieldFrame.foreign_not_mem_opening (f : FieldFrame) {x : Char}
    (hx : x ∈ ['"', '\'']) : x ∉ f.opening := by
  have hforeign : x ∈ foreign := by
    simp only [List.mem_cons, List.not_mem_nil, or_false] at hx
    rcases hx with rfl | rfl <;> decide
  have hplain : ∀ l : List Char, l.all (fun y => y != '"' && y != '\'') = true → x ∉ l := by
    intro l hl hmem
    have := List.all_eq_true.1 hl x hmem
    simp at hx this
    tauto
  unfold opening
  simp only [List.mem_append, not_or]
  exact ⟨⟨⟨⟨⟨⟨hplain _ rfl, foreign_not_mem_text hforeign _⟩, hplain _ rfl⟩,
    foreign_not_mem_text hforeign _⟩, hplain _ rfl⟩, foreign_not_mem_text hforeign _⟩,
    hplain _ rfl⟩

/-- If the text comes back, it can stand between the marks: a last backslash would run on to the
end of the source, and no literal of the text would stand in it. -/
theorem content_of_parse {file : String} {f : FieldFrame} {s owner type name : String}
    {tree : SourceTree} {m m' m'' : Mark} (hs : '"' ∉ s.toList)
    (hparse : (parse file (f.around (quotation true s.toList))).result = .ok tree)
    (hbody : tree.body =
      [.classDecl m [] owner [.field m' [] [] type name (some (.string m'' s))]]) :
    Content s.toList := by
  rcases content_or_concat s.toList hs with h | ⟨w, hw, hconcat⟩
  · exact h
  exfalso
  have hrun : Content (s.toList ++ '"' :: closing) := by
    rw [hconcat, List.append_assoc]
    exact content_append hw (.escape '"' content_closing)
  have hmark := f.foreign_not_mem_opening (x := '"') (by decide)
  have hquote := f.foreign_not_mem_opening (x := '\'') (by decide)
  obtain ⟨q, hq, hliteral⟩ := literal_of_parse hparse hbody
  rw [f.toList_verbatim] at hq
  rcases hliteral with ⟨hrule, -⟩ | ⟨hrule, htext⟩
  · exact not_literal hmark hs (by decide) hrun hq hrule
  · rw [List.append_cons] at hq
    refine not_charLiteral ?_ (by decide) hq hrule (by rw [← htext, String.toList_ofList])
    simp [hquote]

/-- A field whose value is a text without marks behind an at sign is read with that text as its
value if and only if the text ends in an even number of backslashes. -/
theorem parse_verbatim_iff (file : String) (f : FieldFrame) (s : String) (hs : '"' ∉ s.toList) :
    (∃ tree m m' m'',
      (parse file (f.around ('@' :: '"' :: (s.toList ++ ['"'])))).result = .ok tree ∧
      tree.body = [.classDecl m [] (String.ofList f.owner.text)
        [.field m' [] [] (String.ofList f.type.text) (String.ofList f.name.text)
          (some (.string m'' s))]]) ↔
      Even (s.toList.rtakeWhile (· == '\\')).length := by
  have heven := content_iff hs
  constructor
  · rintro ⟨tree, m, m', m'', hparse, hbody⟩
    exact heven.1 (content_of_parse hs hparse hbody)
  · intro h
    have hparse := parse_quotation file f true (heven.2 h)
    simpa [quotedText, quotation] using hparse

/-- Backslashes before letters, before what ends the field, and two at the end. -/
theorem parse_verbatim_iff_path :
    '"' ∉ "C:\\new; \x7d // \\\\".toList ∧
      ∃ tree m m' m'',
        (parse "K.cs" "class K \x7b T f = @\"C:\\new; \x7d // \\\\\"; \x7d").result = .ok tree ∧
        tree.body = [.classDecl m [] "K"
          [.field m' [] [] "T" "f" (some (.string m'' "C:\\new; \x7d // \\\\"))]] :=
  ⟨by decide, (parse_verbatim_iff "K.cs" smallFrame "C:\\new; \x7d // \\\\" (by decide)).2
    (by decide)⟩

/-- One backslash between the marks is not read. -/
theorem parse_verbatim_loses_backslash :
    ¬∃ tree m m' m'',
      (parse "K.cs" "class K \x7b T f = @\"\\\"; \x7d").result = .ok tree ∧
      tree.body = [.classDecl m [] "K" [.field m' [] [] "T" "f" (some (.string m'' "\\"))]] := by
  rintro ⟨tree, m, m', m'', hparse, hbody⟩
  have hsource : smallFrame.around (quotation true "\\".toList) =
      "class K \x7b T f = @\"\\\"; \x7d" := by decide
  rw [← hsource] at hparse
  have heven := even_trailing_of_content (content_of_parse (by decide) hparse hbody)
  exact absurd heven (by decide)

end PanelSchema.Syntax
