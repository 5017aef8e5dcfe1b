import PanelSchema.Proofs.Grammar.Insertion
import PanelSchema.Proofs.Source.Tokens

/-!
What stands between tokens, said of texts alone: white space and comments are dropped from the
front one by one until neither is there. A text to which something is added is skipped over in
step up to the place, unless a comment runs across it.
-/

namespace PanelSchema.Source

open Grammar
open Phrase (anyBut)

def isSpacing (x : Char) : Bool :=
  x == ' ' || x == '\t' || x == '\r' || x == '\n' || x == '\uFEFF'

def endsLine (x : Char) : Bool :=
  x == '\n' || x == '\r'

/-- What is left behind a comment that ends with its line. -/
def lineRest (text : List Char) : List Char :=
  text.dropWhile (!endsLine ·)

def blockRest? : List Char → Option (List Char)
  | [] => none
  | x :: text => if ['*', '/'] <+: x :: text then some (text.drop 1) else blockRest? text

def commentRest? : List Char → Option (List Char)
  | '/' :: '/' :: text => some (lineRest text)
  | '/' :: '*' :: text => blockRest? text
  | '#' :: text => some (lineRest text)
  | _ => none

/-- What is left behind white space or a comment at the front. -/
def skipOne? : List Char → Option (List Char)
  | [] => none
  | x :: text => if isSpacing x then some text else commentRest? (x :: text)

/-- All white space and all comments at the front are dropped. -/
inductive Skips : List Char → List Char → Prop where
  | stop {text : List Char} (h : skipOne? text = none) : Skips text text
  | step {text next rest : List Char} (h : skipOne? text = some next) (hskips : Skips next rest) :
      Skips text rest

section

variable {text rest next : List Char} {x : Char}

theorem takes_any (x : Char) (rest : List Char) {sp : Spacing} :
    Takes grammar sp (.one .any) [x] rest Bare :=
  takes_one rfl rest

/-! ### White space -/

theorem takes_whitespace (hx : isSpacing x = true) (rest : List Char) :
    Takes grammar .atomic (.rule .whitespace) [x] rest Bare := by
  have hfits : Fits false [] rest := nofun
  simp only [isSpacing, Bool.or_eq_true, beq_iff_eq] at hx
  rcases hx with (((rfl | rfl) | rfl) | rfl) | rfl
  all_goals exact takes_of_glance 20 hfits (by decide)

theorem refuses_whitespace (hx : isSpacing x = false) (rest : List Char) :
    Refuses grammar .atomic (.rule .whitespace) (x :: rest) := by
  simp only [isSpacing, Bool.or_eq_false_iff, beq_eq_false_iff_ne, ne_eq] at hx
  have hother : ∀ y, x ≠ y → Refuses grammar .atomic (.text [y]) (x :: rest) := by
    intro y hy
    exact refuses_text fun h => hy (List.cons_prefix_cons.1 h).1.symm
  obtain ⟨⟨⟨⟨h₁, h₂⟩, h₃⟩, h₄⟩, h₅⟩ := hx
  exact .silent rfl (.alt (hother _ h₁) (.alt (hother _ h₂) (.alt (hother _ h₃)
    (.alt (hother _ h₄) (hother _ h₅)))))

/-! ### Comments -/

theorem takes_inLine (hx : endsLine x = false) (rest : List Char) :
    Takes grammar .atomic (anyBut newline) [x] rest Bare := by
  simp only [endsLine, Bool.or_eq_false_iff, beq_eq_false_iff_ne, ne_eq] at hx
  have hother : ∀ y ys, x ≠ y → Refuses grammar .atomic (.text (y :: ys)) ([x] ++ rest) :=
    fun y ys hy => refuses_text fun h => hy (List.cons_prefix_cons.1 h).1.symm
  have hnewline : Refuses grammar .atomic newline ([x] ++ rest) :=
    .alt (hother _ _ hx.1) (.alt (hother _ _ hx.2) (hother _ _ hx.2))
  have h := hnewline.never.tight (by decide) (takes_any x rest)
  rwa [then_bare] at h

theorem refuses_lineEnd (h : ∀ x ∈ text.head?, endsLine x = true) :
    Refuses grammar .atomic (anyBut newline) text := by
  cases text with
  | nil =>
    have hfits : Fits true [] [] := fun _ => rfl
    exact refuses_of_glance 20 hfits (by decide)
  | cons x text =>
    have hx := h x rfl
    simp only [endsLine, Bool.or_eq_true, beq_iff_eq] at hx
    rcases hx with rfl | rfl
    · exact refuses_of_known 20 ['\n'] text (by decide)
    · -- Whether a line feed follows does not matter.
      have hstarts : Starts grammar .atomic newline ('\r' :: text) := by
        by_cases hcrlf : ['\r', '\n'] <+: '\r' :: text
        · obtain ⟨rest, hrest⟩ := hcrlf
          have htakes : Takes grammar .atomic newline ['\r', '\n'] rest Bare :=
            .right (refuses_text (by simp)) (takes_text _ rest).left
          exact hrest ▸ htakes.starts
        · have htakes : Takes grammar .atomic newline ['\r'] text Bare :=
            .right (refuses_text (by simp)) (.right (refuses_text hcrlf) (takes_text _ text))
          exact htakes.starts
      exact hstarts.never.seq

theorem takes_line (text : List Char) :
    ∃ cs, text = cs ++ lineRest text ∧
      Takes grammar .atomic (.many (anyBut newline)) cs (lineRest text) Bare := by
  induction text with
  | nil =>
    have hend : ∀ x ∈ (lineRest []).head?, endsLine x = true := by simp [lineRest]
    exact ⟨[], rfl, (refuses_lineEnd hend).many⟩
  | cons x text ih =>
    cases hx : endsLine x with
    | true =>
      have hrest : lineRest (x :: text) = x :: text := by simp [lineRest, hx]
      rw [hrest]
      exact ⟨[], rfl, (refuses_lineEnd (by simpa using hx)).many⟩
    | false =>
      have hrest : lineRest (x :: text) = lineRest text := by simp [lineRest, hx]
      obtain ⟨cs, hcs, h⟩ := ih
      have hmore := (takes_inLine hx (cs ++ lineRest text)).more_tight (by decide) h
      rw [then_bare] at hmore
      exact ⟨x :: cs, by rw [hrest, List.cons_append, ← hcs], hrest ▸ hmore⟩

theorem takes_inBlock (h : ¬['*', '/'] <+: x :: rest) :
    Takes grammar .atomic (anyBut "*/") [x] rest Bare := by
  have hend : Refuses grammar .atomic "*/" ([x] ++ rest) := refuses_text h
  have htakes := hend.never.tight (by decide) (takes_any x rest)
  rwa [then_bare] at htakes

theorem refuses_blockEnd (rest : List Char) :
    Refuses grammar .atomic (anyBut "*/") ('*' :: '/' :: rest) :=
  (takes_text ['*', '/'] rest).starts.never.seq

theorem takes_block (h : blockRest? text = some rest) :
    ∃ cs, text = cs ++ '*' :: '/' :: rest ∧
      Takes grammar .atomic (.many (anyBut "*/")) cs ('*' :: '/' :: rest) Bare := by
  induction text with
  | nil => cases h
  | cons x text ih =>
    rw [blockRest?] at h
    split at h
    · rename_i hend
      obtain ⟨tail, htail⟩ := hend
      cases htail
      cases h
      exact ⟨[], rfl, (refuses_blockEnd _).many⟩
    · rename_i hend
      obtain ⟨cs, rfl, htakes⟩ := ih h
      have hmore := (takes_inBlock hend).more_tight (by decide) htakes
      rw [then_bare] at hmore
      exact ⟨x :: cs, rfl, hmore⟩

theorem takes_openBlock (h : blockRest? text = none) :
    Takes grammar .atomic (.many (anyBut "*/")) text [] Bare := by
  induction text with
  | nil =>
    have hfits : Fits true [] [] := fun _ => rfl
    exact (refuses_of_glance 20 hfits (by decide)).many
  | cons x text ih =>
    rw [blockRest?] at h
    split at h
    · cases h
    · rename_i hend
      rw [← List.append_nil text] at hend
      have hmore := (takes_inBlock hend).more_tight (by decide) (ih h)
      rwa [then_bare] at hmore

theorem takes_comment (h : commentRest? text = some rest) :
    ∃ cs, text = cs ++ rest ∧ Takes grammar .atomic (.rule .comment) cs rest Bare := by
  unfold commentRest? at h
  split at h
  · rename_i text
    cases h
    obtain ⟨cs, hcs, htakes⟩ := takes_line text
    have h := Takes.tight (by decide) (takes_text ['/', '/'] (cs ++ lineRest text)) htakes
    rw [then_bare] at h
    exact ⟨'/' :: '/' :: cs, by rw [List.cons_append, List.cons_append, ← hcs],
      .silent rfl h.left⟩
  · obtain ⟨cs, rfl, htakes⟩ := takes_block h
    have hend := htakes.tight (by decide) (takes_text ['*', '/'] rest)
    have hblock := Takes.tight (by decide) (takes_text ['/', '*'] _) hend
    rw [then_bare, then_bare] at hblock
    refine ⟨'/' :: '*' :: (cs ++ ['*', '/']), by simp, .silent rfl (.right ?_ hblock.left)⟩
    exact (refuses_text (by simp)).seq
  · rename_i text
    cases h
    obtain ⟨cs, hcs, htakes⟩ := takes_line text
    have h := Takes.tight (by decide) (takes_text ['#'] (cs ++ lineRest text)) htakes
    rw [then_bare] at h
    refine ⟨'#' :: cs, by rw [List.cons_append, ← hcs], .silent rfl (.right ?_ (.right ?_ h))⟩
    · exact (refuses_text (by simp)).seq
    · exact (refuses_text (by simp)).seq
  · cases h

theorem refuses_comment (h : commentRest? text = none) :
    Refuses grammar .atomic (.rule .comment) text := by
  apply Refuses.silent rfl
  unfold commentRest? at h
  split at h
  · cases h
  · rename_i text
    refine .alt (refuses_text (by simp)).seq (.alt ?_ (refuses_text (by simp)).seq)
    have hopen := takes_openBlock h
    have hend : Refuses grammar .atomic (.seq (.many (anyBut "*/")) "*/") (text ++ []) :=
      .tight (by decide) hopen (refuses_text (by simp))
    have hblock := Refuses.tight (by decide) (takes_text ['/', '*'] (text ++ [])) hend
    rw [List.append_nil] at hblock
    exact hblock
  · cases h
  · rename_i hline hblock hhash
    refine .alt (refuses_text ?_).seq (.alt (refuses_text ?_).seq (refuses_text ?_).seq)
    · rintro ⟨tail, rfl⟩
      exact hline tail rfl
    · rintro ⟨tail, rfl⟩
      exact hblock tail rfl
    · rintro ⟨tail, rfl⟩
      exact hhash tail rfl

/-! ### All that is skipped -/

theorem solid_of_skipOne (h : skipOne? text = none) : Solid text := by
  cases text with
  | nil => exact solid_nil
  | cons x text =>
    rw [skipOne?] at h
    split at h
    · cases h
    · rename_i hx
      exact ⟨refuses_whitespace (by simpa using hx) text, refuses_comment h⟩

theorem takes_skipped (h : Skips text rest) :
    ∃ bs cs, text = bs ++ (cs ++ rest) ∧
      Takes grammar .atomic (.many (.rule .whitespace)) bs (cs ++ rest) Bare ∧
      Takes grammar .atomic (.many (.seq (.rule .comment) (.many (.rule .whitespace)))) cs rest
        Bare := by
  induction h with
  | stop h =>
    have hsolid := solid_of_skipOne h
    exact ⟨[], [], rfl, hsolid.whitespace.many, hsolid.skips_comments⟩
  | @step text next rest h _ ih =>
    obtain ⟨bs, cs, rfl, hbs, hcs⟩ := ih
    cases text with
    | nil => cases h
    | cons x text =>
      rw [skipOne?] at h
      split at h
      · rename_i hx
        cases h
        have hmore := (takes_whitespace hx (bs ++ (cs ++ rest))).more_tight (by decide) hbs
        rw [then_bare] at hmore
        exact ⟨x :: bs, cs, rfl, hmore, hcs⟩
      · rename_i hx
        obtain ⟨ks, hks, hcomment⟩ := takes_comment h
        have hround := hcomment.tight (by decide) hbs
        have hmore := hround.more_tight (by decide) hcs
        rw [then_bare, then_bare] at hmore
        refine ⟨[], ks ++ bs ++ cs, by simp [hks], ?_, hmore⟩
        have hsame : ks ++ bs ++ cs ++ rest = x :: text := by simp [hks]
        rw [hsame]
        exact (refuses_whitespace (by simpa using hx) text).many

theorem takes_blank (h : Skips text rest) :
    ∃ cs, text = cs ++ rest ∧ Takes grammar .atomic blank cs rest Bare := by
  obtain ⟨bs, cs, rfl, hbs, hcs⟩ := takes_skipped h
  have hblank := hbs.tight (by decide) hcs
  rw [then_bare] at hblank
  exact ⟨bs ++ cs, by simp, hblank⟩

theorem lineRest_suffix (text : List Char) : lineRest text <:+ text :=
  List.dropWhile_suffix _

theorem length_blockRest (h : blockRest? text = some rest) : rest.length < text.length := by
  obtain ⟨cs, rfl, -⟩ := takes_block h
  simp only [List.length_append, List.length_cons]
  omega

theorem length_skipOne (h : skipOne? text = some rest) : rest.length < text.length := by
  cases text with
  | nil => cases h
  | cons x text =>
    rw [skipOne?] at h
    split at h
    · cases h
      simp
    · have hline := fun text => (lineRest_suffix text).length_le
      unfold commentRest? at h
      split at h <;> grind [→ length_blockRest]

theorem exists_skips (text : List Char) : ∃ rest, Skips text rest := by
  induction hn : text.length using Nat.strongRecOn generalizing text with
  | ind n ih =>
    cases hnext : skipOne? text with
    | none => exact ⟨text, .stop hnext⟩
    | some next =>
      obtain ⟨rest, hrest⟩ := ih _ (hn ▸ length_skipOne hnext) next rfl
      exact ⟨rest, .step hnext hrest⟩

theorem Skips.suffix (h : Skips text rest) : rest <:+ text := by
  obtain ⟨cs, rfl, -⟩ := takes_blank h
  exact List.suffix_append cs rest

theorem Skips.solid (h : Skips text rest) : skipOne? rest = none := by
  induction h with
  | stop h => exact h
  | step _ _ ih => exact ih

theorem Skips.of_step {next : List Char} (h : Skips text rest)
    (hnext : skipOne? text = some next) : Skips next rest := by
  cases h with
  | stop hnone =>
    rw [hnext] at hnone
    cases hnone
  | step hstep h =>
    rw [hnext] at hstep
    cases hstep
    exact h

theorem answers_blank {c : Cursor} (h : Skips c.rest rest) :
    ∃ d cs, Answers grammar .atomic blank c (some (d, [])) ∧ c.Took d cs ∧ d.rest = rest := by
  obtain ⟨cs, hcs, htakes⟩ := takes_blank h
  obtain ⟨d, _, hd, htook, rfl⟩ := htakes c hcs
  exact ⟨d, cs, hd, htook, htook.rest_eq hcs⟩

theorem skips_of_blank {c d : Cursor} {ps : List (Piece Rule)}
    (h : Answers grammar .atomic blank c (some (d, ps))) : Skips c.rest d.rest ∧ ps = [] := by
  obtain ⟨rest, hskips⟩ := exists_skips c.rest
  obtain ⟨e, cs, he, -, hrest⟩ := answers_blank hskips
  cases h.unique he
  exact ⟨hrest ▸ hskips, rfl⟩

/-! ### Texts with something added -/

theorem lineRest_append (text rest : List Char) :
    lineRest (text ++ rest) =
      if text.all (!endsLine ·) then lineRest rest else lineRest text ++ rest := by
  induction text with
  | nil => rfl
  | cons x text ih =>
    cases hx : endsLine x with
    | true => simp [lineRest, hx]
    | false => simpa [lineRest, hx] using ih

theorem blockRest_append (h : blockRest? text = some next) (rest : List Char) :
    blockRest? (text ++ rest) = some (next ++ rest) := by
  induction text with
  | nil => cases h
  | cons x text ih =>
    rw [blockRest?] at h
    rw [List.cons_append, blockRest?]
    split at h
    · rename_i hend
      obtain ⟨tail, htail⟩ := hend
      cases htail
      cases h
      simp
    · rename_i hend
      rw [if_neg, ih h]
      intro hpre
      cases text with
      | nil => cases h
      | cons y text => exact hend (by simpa using hpre)

theorem blockRest_eq_none (h : ¬['*', '/'] <:+: text) : blockRest? text = none := by
  induction text with
  | nil => rfl
  | cons x text ih =>
    rw [blockRest?, if_neg, ih fun hends => h (List.infix_cons hends)]
    exact fun hpre => h hpre.isInfix

theorem blockRest_append_of_none (h : blockRest? text = none)
    (hjoint : text.getLast? = some '*' → rest.head? ≠ some '/') :
    blockRest? (text ++ rest) = blockRest? rest := by
  induction text with
  | nil => rfl
  | cons x text ih =>
    rw [blockRest?] at h
    split at h
    · cases h
    · rename_i hend
      rw [List.cons_append, blockRest?, if_neg]
      · cases text with
        | nil => rfl
        | cons y text => exact ih h hjoint
      · intro hpre
        cases text with
        | nil =>
          obtain ⟨rfl, hslash⟩ := List.cons_prefix_cons.1 hpre
          obtain ⟨tail, htail⟩ := hslash
          have hrest : rest = '/' :: tail := htail.symm
          exact hjoint rfl (by rw [hrest]; rfl)
        | cons y text => exact hend (by simpa using hpre)

/-- A comment begins with the text and its line is not over. -/
def opensLine : List Char → Bool
  | '/' :: '/' :: text => text.all (!endsLine ·)
  | '#' :: text => text.all (!endsLine ·)
  | _ => false

/-- A comment begins with the text and does not end in it. -/
def opensBlock : List Char → Bool
  | '/' :: '*' :: text => (blockRest? text).isNone
  | _ => false

/-- What is added neither begins nor ends a comment together with what stands around it, where a
text `w` that is skipped over stands before the place. -/
structure KeepsComments (i : Insertion) (w : List Char) : Prop where
  slash : w = ['/'] → ∀ y, y ∈ i.back.head? ∨ y ∈ (i.added ++ i.back).head? → y ≠ '/' ∧ y ≠ '*'
  line : opensLine w = true → ∀ x ∈ i.added, endsLine x = false
  block : opensBlock w = true →
    (∀ x ∈ i.added, x ≠ '*' ∧ x ≠ '/') ∧ (w.getLast? = some '*' → i.back.head? ≠ some '/')

variable {i : Insertion} {w : List Char}

theorem lineRest_added (h : ∀ x ∈ i.added, endsLine x = false) :
    lineRest (i.added ++ i.back) = lineRest i.back := by
  rw [lineRest_append, if_pos]
  simpa using h

theorem blockRest_added (h : ∀ x ∈ i.added, x ≠ '*' ∧ x ≠ '/') :
    blockRest? (i.added ++ i.back) = blockRest? i.back := by
  have hnone : blockRest? i.added = none :=
    blockRest_eq_none fun hends => (h '*' (hends.subset (by simp))).1 rfl
  refine blockRest_append_of_none hnone fun hlast => ?_
  exact absurd rfl (h '*' (List.mem_of_getLast? hlast)).1

/-- How one thing that is skipped stands to the place: before it in both texts, across it with
the same end, or nowhere. -/
inductive StepsAside (i : Insertion) (w : List Char) : Prop where
  | none (h : skipOne? (w ++ i.back) = none) (h' : skipOne? (w ++ (i.added ++ i.back)) = none)
  | before {w' : List Char} (hsuffix : w' <:+ w) (hlength : w'.length < w.length)
      (h : skipOne? (w ++ i.back) = some (w' ++ i.back))
      (h' : skipOne? (w ++ (i.added ++ i.back)) = some (w' ++ (i.added ++ i.back)))
  | across {next : List Char} (hsuffix : next <:+ i.back)
      (h : skipOne? (w ++ i.back) = some next)
      (h' : skipOne? (w ++ (i.added ++ i.back)) = some next)

theorem stepsAside_line (hkeeps : KeepsComments i w) (opening : List Char) {text : List Char}
    (hw : w = opening ++ text) (hopening : opening ≠ [])
    (hopens : text.all (!endsLine ·) = true → opensLine w = true)
    (hskip : ∀ rest, skipOne? (opening ++ rest) = some (lineRest rest)) : StepsAside i w := by
  subst hw
  have hback : skipOne? (opening ++ text ++ i.back) = some (lineRest (text ++ i.back)) := by
    rw [List.append_assoc, hskip]
  have hadded : skipOne? (opening ++ text ++ (i.added ++ i.back)) =
      some (lineRest (text ++ (i.added ++ i.back))) := by
    rw [List.append_assoc, hskip]
  by_cases hall : text.all (!endsLine ·) = true
  · have hline := hkeeps.line (hopens hall)
    rw [lineRest_append, if_pos hall] at hback hadded
    rw [lineRest_added hline] at hadded
    exact .across (lineRest_suffix _) hback hadded
  · rw [lineRest_append, if_neg hall] at hback hadded
    refine .before ((lineRest_suffix text).trans (List.suffix_append _ _)) ?_ hback hadded
    have hlength := (lineRest_suffix text).length_le
    have hpos := List.length_pos_of_ne_nil hopening
    rw [List.length_append]
    omega

theorem stepsAside_block {text : List Char} (hkeeps : KeepsComments i ('/' :: '*' :: text)) :
    StepsAside i ('/' :: '*' :: text) := by
  have hskip : ∀ rest, skipOne? ('/' :: '*' :: rest) = blockRest? rest := fun _ => rfl
  cases hrest : blockRest? text with
  | some next =>
    refine .before ?_ ?_ ((hskip _).trans (blockRest_append hrest _))
      ((hskip _).trans (blockRest_append hrest _))
    · obtain ⟨cs, rfl, -⟩ := takes_block hrest
      exact ⟨'/' :: '*' :: (cs ++ ['*', '/']), by simp⟩
    · have := length_blockRest hrest
      simp only [List.length_cons]
      omega
  | none =>
    obtain ⟨hadded, hjoint⟩ := hkeeps.block (by simp [opensBlock, hrest])
    -- A star at the end of the text is the last character before the place.
    have hstar : text.getLast? = some '*' → ('/' :: '*' :: text).getLast? = some '*' := by
      intro h
      cases text with
      | nil => cases h
      | cons x text => exact h
    have hback : skipOne? ('/' :: '*' :: text ++ i.back) = blockRest? i.back :=
      (hskip _).trans (blockRest_append_of_none hrest fun h => hjoint (hstar h))
    have hfilled : skipOne? ('/' :: '*' :: text ++ (i.added ++ i.back)) = blockRest? i.back := by
      refine (hskip _).trans ((blockRest_append_of_none hrest ?_).trans (blockRest_added hadded))
      intro hlast hslash
      cases hz : i.added with
      | nil =>
        rw [hz] at hslash
        exact hjoint (hstar hlast) hslash
      | cons z added =>
        rw [hz] at hslash
        cases hslash
        exact absurd rfl (hadded '/' (by simp [hz])).2
    cases hnext : blockRest? i.back with
    | none => exact .none (hback.trans hnext) (hfilled.trans hnext)
    | some next =>
      refine .across ?_ (hback.trans hnext) (hfilled.trans hnext)
      obtain ⟨cs, hcs, -⟩ := takes_block hnext
      exact ⟨cs ++ ['*', '/'], by simp [hcs]⟩

theorem commentRest_eq_none {x : Char} (hhash : x ≠ '#')
    (h : x = '/' → ∀ y ∈ rest.head?, y ≠ '/' ∧ y ≠ '*') : commentRest? (x :: rest) = none := by
  unfold commentRest?
  split <;> simp_all

theorem stepsAside (hkeeps : KeepsComments i w) (hw : w ≠ []) : StepsAside i w := by
  obtain ⟨x, text, rfl⟩ := List.exists_cons_of_ne_nil hw
  cases hx : isSpacing x with
  | true =>
    exact .before (List.suffix_cons x text) (by simp) (by simp [skipOne?, hx])
      (by simp [skipOne?, hx])
  | false =>
    by_cases hhash : x = '#'
    · subst hhash
      exact stepsAside_line hkeeps ['#'] rfl (by simp) id fun _ => rfl
    have hnone : ∀ rest : List Char, (x = '/' → ∀ y ∈ rest.head?, y ≠ '/' ∧ y ≠ '*') →
        skipOne? (x :: rest) = none := by
      intro rest h
      simpa [skipOne?, hx] using commentRest_eq_none hhash h
    by_cases hslash : x = '/'
    · subst hslash
      cases text with
      | nil =>
        exact .none (hnone _ fun _ y hy => hkeeps.slash rfl y (.inl hy))
          (hnone _ fun _ y hy => hkeeps.slash rfl y (.inr hy))
      | cons y text =>
        by_cases hline : y = '/'
        · subst hline
          exact stepsAside_line hkeeps ['/', '/'] rfl (by simp) id fun _ => rfl
        by_cases hblock : y = '*'
        · subst hblock
          exact stepsAside_block hkeeps
        · exact .none (hnone _ (by simp [hline, hblock])) (hnone _ (by simp [hline, hblock]))
    · exact .none (hnone _ fun h => absurd h hslash) (hnone _ fun h => absurd h hslash)

/-- What is skipped before the place ends before it in both texts, or the same text is left. -/
theorem skips_aside {met : List Char → Prop} (hkeeps : ∀ w, met w → KeepsComments i w)
    (honward : ∀ w w', met w → w' <:+ w → skipOne? (w ++ i.back) = some (w' ++ i.back) → met w')
    (hplace : ∀ rest, Skips i.back rest → Skips (i.added ++ i.back) rest) (hmet : met w)
    (hskips : Skips (w ++ i.back) rest) :
    (∃ w', w' ≠ [] ∧ w' <:+ w ∧ rest = w' ++ i.back ∧
        Skips (w ++ (i.added ++ i.back)) (w' ++ (i.added ++ i.back))) ∨
      rest <:+ i.back ∧ Skips (w ++ (i.added ++ i.back)) rest := by
  induction hn : w.length using Nat.strongRecOn generalizing w with
  | ind n ih =>
    by_cases hw : w = []
    · subst hw
      exact .inr ⟨hskips.suffix, hplace rest hskips⟩
    · cases stepsAside (hkeeps w hmet) hw with
      | none h h' =>
        cases hskips with
        | stop => exact .inl ⟨w, hw, List.suffix_refl w, rfl, .stop h'⟩
        | step hstep =>
          rw [h] at hstep
          cases hstep
      | before hsuffix' hlength h h' =>
        rcases ih _ (hn ▸ hlength) (honward _ _ hmet hsuffix' h) (hskips.of_step h) rfl with
          ⟨w', hw', hsuf, hrest, hskips'⟩ | ⟨hsuf, hskips'⟩
        · exact .inl ⟨w', hw', hsuf.trans hsuffix', hrest, .step h' hskips'⟩
        · exact .inr ⟨hsuf, .step h' hskips'⟩
      | across hsuffix' h h' =>
        have hskips' := hskips.of_step h
        exact .inr ⟨hskips'.suffix.trans hsuffix', .step h' hskips'⟩

/-- Blanks behind which both texts are read in step again, or are the same. -/
theorem carries_blank {kin : Piece Rule → Piece Rule → Prop} (met : List Char → Prop)
    (hkeeps : ∀ w, met w → KeepsComments i w)
    (honward : ∀ w w', met w → w' <:+ w → skipOne? (w ++ i.back) = some (w' ++ i.back) → met w')
    (hplace : ∀ rest, Skips i.back rest → Skips (i.added ++ i.back) rest) {c c' : Cursor}
    (hmeets : (∃ w, met w ∧ i.Ahead w c c') ∨ i.Behind c c') :
    Carries grammar i.Faces kin .atomic blank c c' := by
  intro x hx
  obtain ⟨rest, hskips⟩ := exists_skips c.rest
  obtain ⟨d, cs, hd, htook, hrest⟩ := answers_blank hskips
  rw [hx.unique hd]
  rcases hmeets with ⟨w, hmet, hahead⟩ | hbehind
  · rw [hahead.rest] at hskips
    rcases skips_aside hkeeps honward hplace hmet hskips with
      ⟨w', hw', ⟨bs, rfl⟩, rfl, hskips'⟩ | ⟨hsuffix, hskips'⟩
    · rw [← hahead.rest'] at hskips'
      obtain ⟨d', cs', hd', htook', hrest'⟩ := answers_blank hskips'
      have hcs : cs = bs := by
        have heq := htook.rest
        rw [hahead.rest, hrest, List.append_assoc] at heq
        exact (List.append_cancel_right heq).symm
      have hcs' : cs' = bs := by
        have heq := htook'.rest
        rw [hahead.rest', hrest', List.append_assoc] at heq
        exact (List.append_cancel_right heq).symm
      subst hcs hcs'
      exact ⟨_, hd', .took (.inl ⟨w', hw', hahead.advance htook htook'⟩) .nil⟩
    · rw [← hahead.rest'] at hskips'
      obtain ⟨d', cs', hd', -, hrest'⟩ := answers_blank hskips'
      exact ⟨_, hd', .took (.inr ⟨by rwa [hrest], hrest'.trans hrest.symm⟩) .nil⟩
  · have hskips' := hskips
    rw [← hbehind.same] at hskips'
    obtain ⟨d', cs', hd', -, hrest'⟩ := answers_blank hskips'
    refine ⟨_, hd', .took (.inr ⟨?_, hrest'.trans hrest.symm⟩) .nil⟩
    rw [hrest]
    exact hskips.suffix.trans hbehind.suffix

end

end PanelSchema.Source
