import PanelSchema.Proofs.Source.Tokens

/-!
Literals in quotes. A backslash takes the next character with it, so the text behind the first
quote decides alone where a literal ends.
-/

namespace PanelSchema.Source

open Grammar
open Phrase (anyBut)

/-- A character of a literal, where a backslash stands for more than itself. -/
def literalChar (quote : Char) : Phrase Rule :=
  .alt (.seq (.text ['\\']) (.one .any)) (anyBut (.text [quote]))

theorem body_stringInner : body .stringInner = .many (literalChar '"') := rfl

theorem body_charLiteral :
    body .charLiteral =
      .seq (.text ['\'']) (.seq (literalChar '\'')
        (.seq (.many (anyBut (.text ['\'']))) (.text ['\'']))) := rfl

section

variable {sp : Spacing} {x quote : Char} {w rest text : List Char}

theorem refuses_char (hx : x ≠ quote) (rest : List Char) :
    Refuses grammar sp (.text [quote]) (x :: rest) :=
  refuses_text fun h => hx (List.cons_prefix_cons.1 h).1.symm

theorem takes_anyBut (hsp : sp ≠ .loose) (hx : x ≠ quote) (rest : List Char) :
    Takes grammar sp (anyBut (.text [quote])) [x] rest Bare := by
  have hother : Refuses grammar sp (.text [quote]) ([x] ++ rest) := refuses_char hx rest
  have h := hother.never.tight hsp (takes_one (k := .any) rfl rest)
  rwa [then_bare] at h

theorem takes_literalChar (hsp : sp ≠ .loose) (hx : x ≠ quote) (hescape : x ≠ '\\')
    (rest : List Char) : Takes grammar sp (literalChar quote) [x] rest Bare :=
  .right (refuses_char hescape rest).seq (takes_anyBut hsp hx rest)

theorem takes_escape (hsp : sp ≠ .loose) (x : Char) (rest : List Char) :
    Takes grammar sp (literalChar quote) ['\\', x] rest Bare := by
  have hbackslash : Takes grammar sp (.text ['\\']) ['\\'] ([x] ++ rest) Bare := takes_text _ _
  have h := hbackslash.tight hsp (takes_one (k := .any) rfl rest)
  rw [then_bare] at h
  exact h.left

theorem refuses_anyBut (rest : List Char) :
    Refuses grammar sp (anyBut (.text [quote])) (quote :: rest) :=
  (takes_text [quote] rest).starts.never.seq

theorem refuses_quote (hquote : quote ≠ '\\') (rest : List Char) :
    Refuses grammar sp (literalChar quote) (quote :: rest) :=
  .alt (refuses_char hquote rest).seq (refuses_anyBut rest)

/-- What may stand between the marks: a backslash takes the next character with it, and no mark
stands alone. -/
inductive Content : List Char → Prop where
  | nil : Content []
  | escape (x : Char) {w : List Char} (h : Content w) : Content ('\\' :: x :: w)
  | plain {x : Char} {w : List Char} (hx : x ≠ '\\') (hx' : x ≠ '"') (h : Content w) :
      Content (x :: w)

theorem takes_content (hw : Content w) (hend : Refuses grammar .atomic (literalChar '"') rest) :
    Takes grammar .atomic (.many (literalChar '"')) w rest Bare := by
  induction hw with
  | nil => exact hend.many
  | escape x _ ih =>
    have h := (takes_escape (by decide) x _).more_tight (by decide) ih
    rwa [then_bare] at h
  | plain hx hx' _ ih =>
    have h := (takes_literalChar (by decide) hx' hx _).more_tight (by decide) ih
    rwa [then_bare] at h

theorem takes_others (hw : quote ∉ w) (rest : List Char) :
    Takes grammar .atomic (.many (anyBut (.text [quote]))) w (quote :: rest) Bare := by
  induction w with
  | nil => exact (refuses_anyBut rest).many
  | cons x w ih =>
    rw [List.mem_cons, not_or] at hw
    have h := (takes_anyBut (by decide) (Ne.symm hw.1) _).more_tight (by decide) (ih hw.2)
    rwa [then_bare] at h

/-! ### Where a literal ends -/

def quoteRest? : List Char → Option (List Char)
  | [] => none
  | '\\' :: _ :: text => quoteRest? text
  | x :: text => if x = '"' then some text else quoteRest? text

def opensString (text : List Char) : Bool :=
  match text.dropWhile fun x => x == '@' || x == '$' with
  | '"' :: text => (quoteRest? text).isNone
  | _ => false

/-- A character in quotes begins at the front and does not end. -/
def opensChar : List Char → Bool
  | '\'' :: '\\' :: _ :: text => !text.contains '\''
  | '\'' :: x :: text => x != '\'' && !text.contains '\''
  | '\'' :: [] => true
  | _ => false

theorem content_of_quoteRest (h : quoteRest? text = some rest) :
    ∃ w, text = w ++ '"' :: rest ∧ Content w := by
  fun_induction quoteRest? text with
  | case1 => cases h
  | case2 x text ih =>
    obtain ⟨w, rfl, hw⟩ := ih h
    exact ⟨'\\' :: x :: w, rfl, .escape x hw⟩
  | case3 text =>
    cases h
    exact ⟨[], rfl, .nil⟩
  | case4 x text hescape hx ih =>
    obtain ⟨w, rfl, hw⟩ := ih h
    refine ⟨x :: w, rfl, .plain ?_ hx hw⟩
    rintro rfl
    cases w <;> exact hescape _ _ rfl rfl

/-- A character in quotes that ends is taken, unless there is none between them. -/
theorem takes_charLiteral (h : opensChar ('\'' :: text) = false) :
    (∃ rest, text = '\'' :: rest) ∨ ∃ cs rest, text = cs ++ rest ∧ ∀ more,
      Takes grammar .atomic (.seq (literalChar '\'')
        (.seq (.many (anyBut (.text ['\'']))) (.text ['\'']))) cs (rest ++ more) Bare := by
  have hends : ∀ {cs text}, (∀ more, Takes grammar .atomic (literalChar '\'') cs more Bare) →
      '\'' ∈ text → ∃ ds rest, cs ++ text = ds ++ rest ∧ ∀ more,
        Takes grammar .atomic (.seq (literalChar '\'')
          (.seq (.many (anyBut (.text ['\'']))) (.text ['\'']))) ds (rest ++ more) Bare := by
    intro cs text hfirst hmem
    obtain ⟨u, rest, rfl, hu⟩ := List.eq_append_cons_of_mem hmem
    refine ⟨cs ++ (u ++ ['\'']), rest, by simp, fun more => ?_⟩
    have htail := (takes_others hu (rest ++ more)).tight (by decide) (takes_text ['\''] _)
    have h := (hfirst (u ++ ['\''] ++ (rest ++ more))).tight (by decide) htail
    rwa [then_bare, then_bare] at h
  cases text with
  | nil => cases h
  | cons x text =>
    by_cases hescape : x = '\\'
    · subst hescape
      cases text with
      | nil => cases h
      | cons y text =>
        rw [opensChar] at h
        exact .inr (hends (takes_escape (by decide) y) (by simpa using h))
    · by_cases hx : x = '\''
      · exact .inl ⟨text, by rw [hx]⟩
      · rw [opensChar.eq_2 _ _ (fun _ _ h => absurd h hescape)] at h
        exact .inr (hends (takes_literalChar (by decide) hx hescape) (by simpa [hx] using h))

end

end PanelSchema.Source
