import PanelSchema.Proofs.Source.Joints
import PanelSchema.Proofs.Syntax.Parse
import PanelSchema.Proofs.Syntax.Verbatim

/-!
From pieces that are alike to the trees of the two texts. The roles of a piece are built from those
of the pieces inside it, so it is enough to compare the texts that are kept, pair by pair.
-/

namespace PanelSchema

mutual

def Piece.every {ρ : Type} (good : Piece ρ → Bool) : Piece ρ → Bool
  | ⟨rule, start, stop, source, inner⟩ =>
    good ⟨rule, start, stop, source, inner⟩ && Piece.everyOf good inner

def Piece.everyOf {ρ : Type} (good : Piece ρ → Bool) : List (Piece ρ) → Bool
  | [] => true
  | p :: ps => Piece.every good p && Piece.everyOf good ps

end

namespace Piece

variable {ρ : Type} {good : Piece ρ → Bool} {p q : Piece ρ}

theorem everyOf_eq_all (ps : List (Piece ρ)) : everyOf good ps = ps.all (every good) := by
  induction ps with
  | nil => rw [everyOf, List.all_nil]
  | cons p ps ih => rw [everyOf, List.all_cons, ih]

theorem every_eq (p : Piece ρ) : p.every good = (good p && p.inner.all (every good)) := by
  rw [← everyOf_eq_all]
  cases p
  rw [every]

theorem Below.every (h : p.Below q) (hp : p.every good = true) : q.every good = true := by
  induction h with
  | here => exact hp
  | inside _ hr ih =>
    rw [every_eq, Bool.and_eq_true, List.all_eq_true] at ih
    exact ih.2 _ hr

theorem Below.holds (h : p.Below q) (hp : p.every good = true) : good q = true := by
  have hq := h.every hp
  rw [every_eq, Bool.and_eq_true] at hq
  exact hq.1

end Piece

namespace Syntax

open Source (Rule grammar style body)
open Grammar Build Reading

/-- The piece is one of those that are left where the text is read as a source. -/
def HasPiece (text : List Char) (p : Piece Rule) : Prop :=
  ∃ root, grammar.match? .sourceFile text = .ok [root] ∧ root.Below p

theorem good_of_hasPiece {text : List Char} {p : Piece Rule} (good : Piece Rule → Bool)
    (h : ((grammar.match? .sourceFile text).toOption.getD []).all (Piece.every good) = true)
    (hp : HasPiece text p) : good p = true := by
  obtain ⟨root, hmatch, hbelow⟩ := hp
  rw [hmatch] at h
  exact hbelow.holds (by simpa [Except.toOption] using h)

section

variable {file : String} {l : Latitude} {kin : Piece Rule → Piece Rule → Prop}
  {text text' : List Char} {root root' : Piece Rule}

theorem alike_bond
    (hbond : ∀ p q, Alike kin p q → HasPiece text p → Stands grammar text p →
      Stands grammar text' q → Bond l (ofPiece file p) (ofPiece file q))
    (h : Alike kin root root') (hroot : HasPiece text root)
    (hstands : Stands grammar text root) (hstands' : Stands grammar text' root') :
    Alike (fun p q => Bond l (ofPiece file p) (ofPiece file q)) root root' := by
  refine (h.of_inner (motive := fun p q => Alike kin p q ∧ (HasPiece text p →
    Stands grammar text p → Stands grammar text' q →
      Alike (fun p q => Bond l (ofPiece file p) (ofPiece file q)) p q))
    fun p q hrule hkin hinner => ?_).2 hroot hstands hstands'
  have halike : Alike kin p q := .mk hrule hkin (hinner.imp fun _ _ hx => hx.1)
  refine ⟨halike, fun hpiece hstands hstands' =>
    .mk hrule (hbond p q halike hpiece hstands hstands') ?_⟩
  obtain ⟨root, hmatch, hbelow⟩ := hpiece
  rw [List.forall₂_iff_get] at hinner ⊢
  refine ⟨hinner.1, fun n hn hn' => ?_⟩
  have hp := List.get_mem p.inner ⟨n, hn⟩
  have hq := List.get_mem q.inner ⟨n, hn'⟩
  exact (hinner.2 n hn hn').2 ⟨root, hmatch, .inside hbelow hp⟩ (hstands.inner _ hp)
    (hstands'.inner _ hq)

end

/-! ### Results -/

/-- Both texts are sources with trees that agree, or neither is one. -/
inductive ParsesAlike (l : Latitude) :
    Except Stop SourceTree → Except Stop SourceTree → Prop where
  | ok {t t' : SourceTree} (h : t.Agree l t') : ParsesAlike l (.ok t) (.ok t')
  | error {e e' : Stop} : ParsesAlike l (.error e) (.error e')

theorem ParsesAlike.exists_ok {l : Latitude} {t : SourceTree} {r : Except Stop SourceTree}
    (h : ParsesAlike l (.ok t) r) : ∃ t', r = .ok t' ∧ t.Agree l t' := by
  cases h with
  | ok h => exact ⟨_, rfl, h⟩

section

variable {file content content' : String} {l : Latitude}

theorem parse_of_no_match (file : String) (hblank : content.toList.all isBlank = false)
    (h : ∀ ps, grammar.match? .sourceFile content.toList ≠ .ok ps) :
    ∃ e, (parse file content).result = .error e := by
  cases hmatch : grammar.match? .sourceFile content.toList with
  | error mismatch => exact ⟨_, parse_of_mismatch hblank hmatch⟩
  | ok ps => exact absurd hmatch (h ps)

theorem parse_of_twins {root root' : Piece Rule} (hblank : content.toList.all isBlank = false)
    (hblank' : content'.toList.all isBlank = false)
    (hmatch : grammar.match? .sourceFile content.toList = .ok [root])
    (hmatch' : grammar.match? .sourceFile content'.toList = .ok [root'])
    (hrule : root.rule = .sourceFile) (h : Twin l (ofPiece file root) (ofPiece file root')) :
    ParsesAlike l (parse file content).result (parse file content').result := by
  have hends := meets_sourceTree (h.known (by simpa using hrule) rfl) {} {} rfl
  obtain ⟨hok, herror⟩ := @parse_of_match file content hblank root hmatch
  obtain ⟨hok', herror'⟩ := @parse_of_match file content' hblank' root' hmatch'
  unfold Build.outcome at hok herror hok' herror'
  generalize StateT.run (ExceptT.run (sourceTree (ofPiece file root))) {} = x at *
  generalize StateT.run (ExceptT.run (sourceTree (ofPiece file root'))) {} = x' at *
  cases hends with
  | ok _ hagree =>
    rw [hok _ rfl, hok' _ rfl]
    exact .ok hagree
  | error =>
    rw [herror _ rfl, herror' _ rfl]
    exact .error

/-- Texts that leave pieces alike are read alike. -/
theorem parsesAlike (kin : Piece Rule → Piece Rule → Prop)
    (hblank : content.toList.all isBlank = false)
    (hblank' : content'.toList.all isBlank = false)
    (h : (∃ ps ps', grammar.match? .sourceFile content.toList = .ok ps ∧
        grammar.match? .sourceFile content'.toList = .ok ps' ∧ List.Forall₂ (Alike kin) ps ps') ∨
      (∀ ps, grammar.match? .sourceFile content.toList ≠ .ok ps) ∧
        ∀ ps, grammar.match? .sourceFile content'.toList ≠ .ok ps)
    (hbond : ∀ p q, Alike kin p q → HasPiece content.toList p →
      Stands grammar content.toList p → Stands grammar content'.toList q →
      Bond l (ofPiece file p) (ofPiece file q)) :
    ParsesAlike l (parse file content).result (parse file content').result := by
  rcases h with ⟨ps, ps', hps, hps', halike⟩ | ⟨hnone, hnone'⟩
  · obtain ⟨root, rfl, hrule, hshaped⟩ := match_sourceFile hps
    obtain ⟨root', rfl, -, -⟩ := match_sourceFile hps'
    have hroot : Alike kin root root' := by
      cases halike with
      | cons h _ => exact h
    refine parse_of_twins hblank hblank' hps hps' hrule (twin_of_alike hshaped rfl ?_)
    exact alike_bond hbond hroot ⟨root, hps, .here root⟩
      (stands_match hps root (List.mem_singleton_self root))
      (stands_match hps' root' (List.mem_singleton_self root'))
  · obtain ⟨e, he⟩ := parse_of_no_match file hblank hnone
    obtain ⟨e', he'⟩ := parse_of_no_match file hblank' hnone'
    rw [he, he']
    exact .error

theorem parsesAlike_inserted {i : Insertion} {kin : Piece Rule → Piece Rule → Prop}
    {ends : Cursor → Cursor → Prop}
    (hcarries : i.Ahead i.front { rest := i.bare } { rest := i.filled } →
      Carries grammar ends kin .loose (.rule .sourceFile) { rest := i.bare } { rest := i.filled })
    (hblank : i.bare.all isBlank = false) (hblank' : i.filled.all isBlank = false)
    (hbond : ∀ p q, Alike kin p q → HasPiece i.bare p → Stands grammar i.bare p →
      Stands grammar i.filled q → Bond l (ofPiece file p) (ofPiece file q)) :
    ParsesAlike l (parse file (String.ofList i.bare)).result
      (parse file (String.ofList i.filled)).result := by
  have hstart := hcarries ⟨List.suffix_refl _, rfl, rfl, Nat.zero_add _⟩
  have hmatch := match_of_carries Source.bounded (by decide) (by decide) hstart
  refine parsesAlike kin ?_ ?_ ?_ ?_
  · simpa using hblank
  · simpa using hblank'
  · simpa using hmatch
  · simpa using hbond

end

/-! ### Texts in trees -/

/-- The second text has in it what is added, or is the first. -/
def TextWith (added : List Char) (s t : String) : Prop :=
  t = s ∨ ∃ x y, s = String.ofList (x ++ y) ∧ t = String.ofList (x ++ (added ++ y))

section

variable {i : Insertion} {p q : Piece Rule} {allows : Piece Rule → List Char → List Char → Prop}

theorem textWith_type (file : String) (h : i.Kin allows p q) :
    TextWith (i.added.filter (! isBlank ·)) (ofPiece file p).typeText (ofPiece file q).typeText := by
  rcases h with h | ⟨x, y, -, hwidened⟩
  · have hchars : q.chars = p.chars := h
    exact .inl (by simp [typeText, hchars])
  · refine .inr ⟨x.filter (! isBlank ·), y.filter (! isBlank ·), ?_, ?_⟩
    · simp [typeText, hwidened.splits.chars]
    · simp [typeText, hwidened.chars']

end

/-- The names of classes outside others, each with the types of its fields. -/
def classTexts (tree : SourceTree) : List String :=
  tree.body.flatMap fun
    | .classDecl _ _ name ds => name :: ds.filterMap fun
      | .field _ _ _ type _ _ => some type
      | _ => none
    | _ => []

theorem classTexts_agree {t t' : SourceTree} (h : t.Agree Eq t') :
    classTexts t' = classTexts t := by
  have hbody := h.body
  unfold classTexts
  generalize t.body = ds at hbody ⊢
  generalize t'.body = ds' at hbody ⊢
  induction hbody with
  | nil => rfl
  | cons hd _ ih =>
    rw [List.flatMap_cons, List.flatMap_cons, ih]
    congr 1
    cases hd with
    | classDecl _ _ hds =>
      dsimp only
      congr 1
      induction hds with
      | nil => rfl
      | cons hd _ ih =>
        cases hd with
        | field _ _ htype =>
          obtain rfl := htype
          simp [ih]
        | _ => simp [ih]
    | _ => rfl

theorem not_agree_of_classTexts {content content' : String} (v v' : List String)
    (h : (parse "K.cs" content).result.toOption.map classTexts = some v)
    (h' : (parse "K.cs" content').result.toOption.map classTexts = some v') (hne : v' ≠ v) :
    ∃ tree tree', (parse "K.cs" content).result = .ok tree ∧
      (parse "K.cs" content').result = .ok tree' ∧ ¬tree.Agree Eq tree' := by
  cases htree : (parse "K.cs" content).result with
  | error e =>
    rw [htree] at h
    cases h
  | ok tree =>
    cases htree' : (parse "K.cs" content').result with
    | error e =>
      rw [htree'] at h'
      cases h'
    | ok tree' =>
      rw [htree] at h
      rw [htree'] at h'
      refine ⟨tree, tree', rfl, rfl, fun hagree => hne ?_⟩
      rw [← Option.some.inj h, ← Option.some.inj h']
      exact classTexts_agree hagree

/-! ### Literals -/

section

variable {file : String} {text text' : List Char} {p q : Piece Rule}

theorem reads_of_stands (h : Stands grammar text p) :
    ∃ sp, Grammar.Reads grammar sp (.rule p.rule) p.chars [p] := by
  cases h with
  | mk _ h htook _ => exact ⟨_, _, _, h, htook⟩

theorem content_of_literal (h : Stands grammar text p) (hrule : p.rule = .stringLiteral) :
    ∃ sign content, p.inner = [content] ∧ '"' ∉ sign ∧
      p.chars = sign ++ '"' :: (content.chars ++ ['"']) := by
  obtain ⟨sp, hreads⟩ := reads_of_stands h
  rw [hrule] at hreads
  have houter : outerSpacing (grammar.style .stringLiteral) sp = .compound := rfl
  have hinner : innerSpacing (grammar.style .stringLiteral) sp = .compound := rfl
  obtain ⟨_, heq, -, -, hbody⟩ := hreads.piece (by decide) (by rw [houter]; decide)
  cases heq
  rw [hinner] at hbody
  obtain ⟨sign, _, ps₁, _, hsign, htail, hchars, hps⟩ := hbody.tight (by decide)
  obtain ⟨_, _, _, _, hopen, hrest, rfl, rfl⟩ := htail.tight (by decide)
  obtain ⟨_, _, _, _, hcontent, hclose, rfl, rfl⟩ := hrest.tight (by decide)
  obtain ⟨rfl, rfl⟩ := hopen.text
  obtain ⟨rfl, rfl⟩ := hclose.text
  obtain ⟨content, rfl, -, rfl, -⟩ := hcontent.piece (by decide) (by decide)
  obtain ⟨rfl, hquote⟩ : ps₁ = [] ∧ '"' ∉ sign := by
    rcases Source.reads_opt hsign with ⟨rfl, hnone⟩ | hsign
    · exact ⟨hnone, List.not_mem_nil⟩
    · rcases hsign.alt with h | h
      · obtain ⟨rfl, hnone⟩ := h.text
        exact ⟨hnone, by decide⟩
      rcases h.alt with h | h
      · obtain ⟨rfl, hnone⟩ := h.text
        exact ⟨hnone, by decide⟩
      rcases h.alt with h | h
      all_goals
        obtain ⟨rfl, hnone⟩ := h.text
        exact ⟨hnone, by decide⟩
  exact ⟨sign, content, hps, hquote, hchars⟩

theorem textOf_eq (h : Stands grammar text p) (h' : Stands grammar text' q)
    (hrule : p.rule = .stringLiteral) (hrule' : q.rule = .stringLiteral)
    (hchars : q.chars = p.chars) : textOf (ofPiece file q) = textOf (ofPiece file p) := by
  obtain ⟨sign, content, hinner, hsign, hp⟩ := content_of_literal h hrule
  obtain ⟨sign', content', hinner', hsign', hq⟩ := content_of_literal h' hrule'
  have hcontent : content'.chars = content.chars := by
    rw [hp, hq] at hchars
    exact List.append_cancel_right (eq_of_append_cons hsign' hsign hchars)
  simp [textOf, hinner, hinner', hcontent, hchars]

theorem bond_of_alike {kin : Piece Rule → Piece Rule → Prop} {l : Latitude}
    (h : Alike kin p q) (hstands : Stands grammar text p) (hstands' : Stands grammar text' q)
    (hexact : p.rule ∈ .stringLiteral :: exactRules → q.chars = p.chars)
    (htype : p.rule ∉ untypedRules → ∀ x x', x ∈ p.inner → Alike kin x x' → x.rule = .typeName →
      l (ofPiece file x).typeText (ofPiece file x').typeText) :
    Bond l (ofPiece file p) (ofPiece file q) where
  types hk := by
    rw [inner_ofPiece, inner_ofPiece, List.forall₂_map_left_iff, List.forall₂_map_right_iff]
    refine h.inner_mem.imp fun x x' hx hrule => ?_
    exact htype (by simpa using hk) x x' hx.1 hx.2 (by simpa using hrule)
  exact hk := by simpa using hexact (List.mem_cons_of_mem _ (by simpa using hk))
  literal hk := by
    have hrule : p.rule = .stringLiteral := by simpa using hk
    exact textOf_eq hstands hstands' hrule (h.rule.trans hrule) (hexact (by simp [hrule]))

end

end Syntax

end PanelSchema
