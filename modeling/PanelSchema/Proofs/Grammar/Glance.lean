import PanelSchema.Proofs.Grammar.Takes

/-!
Phrases at a text of which only the front is known. A glance at what is known of the first
characters often tells that a phrase is refused, or how much it takes; where it tells nothing,
more has to be known.
-/

namespace PanelSchema

/-- What is known of a character: whether it is a given one and whether it is of a class, as far
as that can be told. -/
structure Clue where
  holds : Char → Prop
  is? : Char → Option Bool
  isOf? : CharClass → Option Bool
  is_sound : ∀ {x y b}, holds x → is? y = some b → (y == x) = b
  isOf_sound : ∀ {x k b}, holds x → isOf? k = some b → k.holds x = b

def Clue.exactly (x : Char) : Clue where
  holds y := y = x
  is? y := some (y == x)
  isOf? k := some (k.holds x)
  is_sound := by
    rintro _ y b rfl h
    exact Option.some.inj h
  isOf_sound := by
    rintro _ k b rfl h
    exact Option.some.inj h

/-- The clues hold of the front of a text, and the text ends there if `ends` says so. -/
def Fits (ends : Bool) : List Clue → List Char → Prop
  | [], cs => ends = true → cs = []
  | k :: ks, cs => ∃ x xs, cs = x :: xs ∧ k.holds x ∧ Fits ends ks xs

namespace Fits

variable {ends : Bool} {ks ks' : List Clue} {cs ds : List Char}

theorem drop (h : Fits ends ks cs) {n : Nat} (hn : n ≤ ks.length) :
    Fits ends (ks.drop n) (cs.drop n) := by
  induction n generalizing ks cs with
  | zero => exact h
  | succ n ih =>
    cases ks with
    | nil => simp at hn
    | cons k ks =>
      obtain ⟨x, xs, rfl, -, h⟩ := h
      exact ih h (by simpa using hn)

theorem append (xs : List Char) (h : Fits ends ks cs) :
    Fits ends (xs.map .exactly ++ ks) (xs ++ cs) := by
  induction xs with
  | nil => exact h
  | cons x xs ih => exact ⟨x, xs ++ cs, rfl, rfl, ih⟩

theorem known (xs cs : List Char) : Fits false (xs.map .exactly) (xs ++ cs) := by
  have h : Fits false [] cs := nofun
  simpa using h.append xs

end Fits

/-- What a glance tells of a phrase. -/
inductive Glimpse where
  | unclear
  | refused
  /-- So many characters are taken. If `bare`, no pieces are left. -/
  | took (n : Nat) (bare : Bool)
deriving DecidableEq

namespace Glimpse

def ofFound (n : Nat) : Option Bool → Glimpse
  | some true => .took n true
  | some false => .refused
  | none => .unclear

/-- What is told of a rule by its body. Pieces are left unless they are dropped. -/
def closed (dropped : Bool) : Glimpse → Glimpse
  | .took n bare => .took n (bare && dropped)
  | x => x

/-- What is told by whether another round follows. -/
def next (x last more : Glimpse) : Glimpse :=
  match x with
  | .unclear => .unclear
  | .refused => last
  | .took _ _ => more

def behind (x : Glimpse) (f : Nat → Glimpse) : Glimpse :=
  match x with
  | .took n bare =>
    match f n with
    | .took n' bare' => .took (n + n') (bare && bare')
    | y => y
  | y => y

def gap? : Glimpse → Option Nat
  | .took n true => some n
  | _ => none

/-- What is told of a repetition, which is never refused. -/
def taken : Glimpse → Glimpse
  | .took n bare => .took n bare
  | _ => .unclear

end Glimpse

/-- Whether a text is at the front, as far as it can be told. -/
def glanceText (ends : Bool) : List Char → List Clue → Option Bool
  | [], _ => some true
  | _ :: _, [] => if ends then some false else none
  | y :: ys, k :: ks =>
    match k.is? y with
    | some true => glanceText ends ys ks
    | b => b

namespace Grammar

variable {ρ : Type} {g : Grammar ρ}

def glance (g : Grammar ρ) (ends : Bool) : Nat → Spacing → Phrase ρ → List Clue → Glimpse
  | 0, _, _, _ => .unclear
  | _ + 1, _, .text cs, ks => .ofFound cs.length (glanceText ends cs ks)
  | _ + 1, _, .caseless _, _ => .unclear
  | _ + 1, _, .one _, [] => if ends then .refused else .unclear
  | _ + 1, _, .one k, clue :: _ => .ofFound 1 (clue.isOf? k)
  | _ + 1, _, .startOfInput, _ => .unclear
  | _ + 1, _, .endOfInput, [] => if ends then .took 0 true else .unclear
  | _ + 1, _, .endOfInput, _ :: _ => .refused
  | fuel + 1, sp, .rule r, ks =>
    if g.style r = .silent then g.glance ends fuel sp (g.body r) ks
    else
      (g.glance ends fuel (innerSpacing (g.style r) sp) (g.body r) ks).closed
        (outerSpacing (g.style r) sp == .atomic)
  | fuel + 1, sp, .seq a b, ks =>
    (g.glance ends fuel sp a ks).behind fun n =>
      if sp = .loose then
        match (g.glance ends fuel .atomic g.blank (ks.drop n)).gap? with
        | some n' =>
          (Glimpse.took n' true).behind fun n' => g.glance ends fuel sp b ((ks.drop n).drop n')
        | none => .unclear
      else
        g.glance ends fuel sp b (ks.drop n)
  | fuel + 1, sp, .alt a b, ks =>
    match g.glance ends fuel sp a ks with
    | .refused => g.glance ends fuel sp b ks
    | x => x
  | fuel + 1, sp, .opt a, ks =>
    match g.glance ends fuel sp a ks with
    | .refused => .took 0 true
    | x => x
  | fuel + 1, sp, .many a, ks =>
    match g.glance ends fuel sp a ks with
    | .refused => .took 0 true
    | .unclear => .unclear
    | .took n bare =>
      if sp = .loose then
        match (g.glance ends fuel .atomic g.blank (ks.drop n)).gap? with
        | none => .unclear
        | some n' =>
          (g.glance ends fuel sp a ((ks.drop n).drop n')).next (.took n bare)
            ((Glimpse.took n bare).behind fun _ => (Glimpse.took n' true).behind fun _ =>
              (g.glance ends fuel sp (.many a) ((ks.drop n).drop n')).taken)
      else
        (Glimpse.took n bare).behind fun n =>
          (g.glance ends fuel sp (.many a) (ks.drop n)).taken
  | fuel + 1, sp, .ahead a, ks =>
    match g.glance ends fuel sp a ks with
    | .took _ _ => .took 0 true
    | x => x
  | fuel + 1, sp, .never a, ks =>
    match g.glance ends fuel sp a ks with
    | .took _ _ => .refused
    | .refused => .took 0 true
    | .unclear => .unclear

/-- What a glance tells is so of every text that the clues fit. -/
def Tells (g : Grammar ρ) (sp : Spacing) (phrase : Phrase ρ) (ks : List Clue) (text : List Char) :
    Glimpse → Prop
  | .unclear => True
  | .refused => Refuses g sp phrase text
  | .took n bare =>
    n ≤ ks.length ∧
      Takes g sp phrase (text.take n) (text.drop n) fun ps => bare = true → Bare ps

section

variable {ends : Bool} {sp : Spacing} {a b : Phrase ρ} {ks : List Clue} {text : List Char}

theorem prefix_of_glanceText {cs : List Char} {found : Bool}
    (h : glanceText ends cs ks = some found) (hfits : Fits ends ks text) :
    if found then cs.length ≤ ks.length ∧ text.take cs.length = cs else ¬cs <+: text := by
  induction cs generalizing ks text with
  | nil =>
    cases h
    simp
  | cons y ys ih =>
    cases ks with
    | nil =>
      cases ends with
      | false => cases h
      | true =>
        cases h
        simp [hfits rfl]
    | cons k ks =>
      obtain ⟨x, xs, rfl, hk, hfits⟩ := hfits
      rw [glanceText] at h
      split at h
      · rename_i hy
        have heq : y = x := by simpa using k.is_sound hk hy
        have := ih h hfits
        cases found <;> simp_all
      · rename_i hy
        cases found with
        | true => exact absurd h hy
        | false =>
          have hne : y ≠ x := by simpa using k.is_sound hk h
          simp [hne]

theorem tells_text {cs : List Char} (hfits : Fits ends ks text) :
    Tells g sp (.text cs) ks text (.ofFound cs.length (glanceText ends cs ks)) := by
  cases hfound : glanceText ends cs ks with
  | none => trivial
  | some found =>
    have h := prefix_of_glanceText hfound hfits
    cases found with
    | true =>
      obtain ⟨hlength, htake⟩ := h
      refine ⟨hlength, ?_⟩
      rw [htake]
      exact (takes_text cs _).mono fun ps hps _ => hps
    | false => exact refuses_text h

theorem tells_one {k : CharClass} {clue : Clue} (hfits : Fits ends (clue :: ks) text) :
    Tells g sp (.one k) (clue :: ks) text (.ofFound 1 (clue.isOf? k)) := by
  obtain ⟨x, xs, rfl, hclue, -⟩ := hfits
  cases hk : clue.isOf? k with
  | none => trivial
  | some b =>
    have hx := clue.isOf_sound hclue hk
    cases b with
    | true => exact ⟨by simp, (takes_one hx xs).mono fun ps hps _ => hps⟩
    | false => exact refuses_one (by simpa using hx)

theorem tells_silent {r : ρ} (hstyle : g.style r = .silent) {x : Glimpse}
    (h : Tells g sp (g.body r) ks text x) : Tells g sp (.rule r) ks text x := by
  cases x with
  | unclear => trivial
  | refused => exact Refuses.silent hstyle h
  | took n bare => exact ⟨h.1, h.2.silent hstyle⟩

theorem tells_rule {r : ρ} (hstyle : g.style r ≠ .silent) {x : Glimpse}
    (h : Tells g (innerSpacing (g.style r) sp) (g.body r) ks text x) :
    Tells g sp (.rule r) ks text (x.closed (outerSpacing (g.style r) sp == .atomic)) := by
  cases x with
  | unclear => trivial
  | refused => exact Refuses.rule hstyle h
  | took n bare =>
    refine ⟨h.1, ?_⟩
    by_cases hdropped : outerSpacing (g.style r) sp = .atomic
    · have htakes := h.2.dropped hstyle hdropped
      exact htakes.mono fun ps hps hbare => hps (by simp_all)
    · have htakes := h.2.piece hstyle hdropped
      exact htakes.mono fun ps hps hbare => by simp_all

theorem takes_add {sp' : Spacing} {n n' : Nat} {bare bare' : Bool} (hn : n ≤ ks.length)
    (hn' : n' ≤ (ks.drop n).length)
    (h : Takes g sp' a (text.take n ++ (text.drop n).take n') ((text.drop n).drop n')
      (Then (fun ps => bare = true → Bare ps) fun ps => bare' = true → Bare ps)) :
    Tells g sp' a ks text (.took (n + n') (bare && bare')) := by
  rw [List.length_drop] at hn'
  refine ⟨by omega, ?_⟩
  rw [List.take_add, ← List.drop_drop]
  refine h.mono ?_
  rintro _ ⟨qs, rs, hqs, hrs, rfl⟩ hbare
  rw [Bool.and_eq_true] at hbare
  rw [hqs hbare.1, hrs hbare.2]
  rfl

theorem takes_gap {x : Glimpse} {n : Nat} (h : Tells g .atomic g.blank ks text x)
    (hgap : x.gap? = some n) :
    n ≤ ks.length ∧ Takes g .atomic g.blank (text.take n) (text.drop n) Bare := by
  unfold Glimpse.gap? at hgap
  split at hgap
  · cases hgap
    exact ⟨h.1, h.2.mono fun ps hps => hps rfl⟩
  · cases hgap

theorem tells_tight (hsp : sp ≠ .loose) {x : Glimpse} {f : Nat → Glimpse}
    (ha : Tells g sp a ks text x)
    (hb : ∀ n, n ≤ ks.length → Tells g sp b (ks.drop n) (text.drop n) (f n)) :
    Tells g sp (.seq a b) ks text (x.behind f) := by
  cases x with
  | unclear => trivial
  | refused => exact Refuses.seq ha
  | took n bare =>
    obtain ⟨hn, ha⟩ := ha
    have hb := hb n hn
    unfold Glimpse.behind
    dsimp only
    cases hf : f n with
    | unclear => trivial
    | refused =>
      rw [hf] at hb
      have hseq := Refuses.tight hsp ha hb
      rwa [List.take_append_drop] at hseq
    | took n' bare' =>
      rw [hf] at hb
      rw [← List.take_append_drop n' (text.drop n)] at ha
      exact takes_add hn hb.1 (ha.tight hsp hb.2)

theorem tells_loose {x : Glimpse} {gap : Nat → Glimpse} {f : Nat → Nat → Glimpse}
    (ha : Tells g .loose a ks text x)
    (hgap : ∀ n, n ≤ ks.length → Tells g .atomic g.blank (ks.drop n) (text.drop n) (gap n))
    (hb : ∀ n n', n ≤ ks.length → n' ≤ (ks.drop n).length →
      Tells g .loose b ((ks.drop n).drop n') ((text.drop n).drop n') (f n n')) :
    Tells g .loose (.seq a b) ks text (x.behind fun n =>
      match (gap n).gap? with
      | some n' => (Glimpse.took n' true).behind fun n' => f n n'
      | none => .unclear) := by
  cases x with
  | unclear => trivial
  | refused => exact Refuses.seq ha
  | took n bare =>
    obtain ⟨hn, ha⟩ := ha
    unfold Glimpse.behind
    dsimp only
    cases hsome : (gap n).gap? with
    | none => trivial
    | some n' =>
      obtain ⟨hn', hblank⟩ := takes_gap (hgap n hn) hsome
      have hb := hb n n' hn hn'
      dsimp only
      cases hf : f n n' with
      | unclear => trivial
      | refused =>
        rw [hf] at hb
        rw [← List.take_append_drop n' (text.drop n)] at ha
        have hseq := Refuses.loose ha hblank hb
        rwa [List.take_append_drop, List.take_append_drop] at hseq
      | took n'' bare' =>
        rw [hf] at hb
        have hlength := hb.1
        rw [List.length_drop] at hlength
        refine takes_add hn (by omega) ?_
        rw [List.take_add, ← List.drop_drop]
        rw [← List.take_append_drop n' (text.drop n),
          ← List.take_append_drop n'' ((text.drop n).drop n')] at ha
        rw [← List.take_append_drop n'' ((text.drop n).drop n')] at hblank
        simpa using ha.loose hblank hb.2

theorem tells_more_tight (hsp : sp ≠ .loose) {n : Nat} {bare : Bool} {y : Glimpse}
    (ha : Tells g sp a ks text (.took n bare))
    (h : Tells g sp (.many a) (ks.drop n) (text.drop n) y) :
    Tells g sp (.many a) ks text ((Glimpse.took n bare).behind fun _ => y.taken) := by
  cases y with
  | unclear | refused => trivial
  | took n' bare' =>
    obtain ⟨hn, ha⟩ := ha
    rw [← List.take_append_drop n' (text.drop n)] at ha
    exact takes_add hn h.1 (ha.more_tight hsp h.2)

theorem tells_more {n n' : Nat} {bare : Bool} {next y : Glimpse}
    (ha : Tells g .loose a ks text (.took n bare)) (hn' : n' ≤ (ks.drop n).length)
    (hblank : Takes g .atomic g.blank ((text.drop n).take n') ((text.drop n).drop n') Bare)
    (hnext : Tells g .loose a ((ks.drop n).drop n') ((text.drop n).drop n') next)
    (h : Tells g .loose (.many a) ((ks.drop n).drop n') ((text.drop n).drop n') y) :
    Tells g .loose (.many a) ks text (next.next (.took n bare)
      ((Glimpse.took n bare).behind fun _ => (Glimpse.took n' true).behind fun _ => y.taken)) := by
  obtain ⟨hn, ha⟩ := ha
  cases next with
  | unclear => trivial
  | refused =>
    rw [← List.take_append_drop n' (text.drop n)] at ha
    have hlast := ha.last hblank hnext
    rw [List.take_append_drop] at hlast
    exact ⟨hn, hlast⟩
  | took m _ =>
    have hstarts := hnext.2.starts
    rw [List.take_append_drop] at hstarts
    cases y with
    | unclear | refused => trivial
    | took n'' bare' =>
      have hlength := h.1
      rw [List.length_drop] at hlength
      refine takes_add hn (by omega) ?_
      rw [List.take_add, ← List.drop_drop]
      rw [← List.take_append_drop n' (text.drop n),
        ← List.take_append_drop n'' ((text.drop n).drop n')] at ha
      rw [← List.take_append_drop n'' ((text.drop n).drop n')] at hblank hstarts
      simpa using ha.more hblank hstarts h.2

/-- Looking is sound. -/
theorem tells_glance (g : Grammar ρ) (ends : Bool) : ∀ (fuel : Nat) (sp : Spacing)
    (phrase : Phrase ρ) {ks : List Clue} {text : List Char}, Fits ends ks text →
    Tells g sp phrase ks text (g.glance ends fuel sp phrase ks)
  | 0, sp, phrase, ks, text, hfits => trivial
  | fuel + 1, sp, .text cs, ks, text, hfits => tells_text hfits
  | fuel + 1, sp, .caseless cs, ks, text, hfits => trivial
  | fuel + 1, sp, .one k, [], text, hfits => by
    cases ends with
    | false => trivial
    | true => exact refuses_one (by simp [hfits rfl])
  | fuel + 1, sp, .one k, clue :: ks, text, hfits => tells_one hfits
  | fuel + 1, sp, .startOfInput, ks, text, hfits => trivial
  | fuel + 1, sp, .endOfInput, [], text, hfits => by
    cases ends with
    | false => trivial
    | true =>
      refine ⟨Nat.le_refl _, fun c hc => ⟨c, [], ?_, .rfl, fun _ => rfl⟩⟩
      have h : Answers g sp .endOfInput c _ := .endOfInput
      simpa [hc, hfits rfl] using h
  | fuel + 1, sp, .endOfInput, clue :: ks, text, hfits => by
    obtain ⟨x, xs, rfl, -, -⟩ := hfits
    intro c hc
    have h : Answers g sp .endOfInput c _ := .endOfInput
    simpa [hc] using h
  | fuel + 1, sp, .rule r, ks, text, hfits => by
    rw [glance]
    split
    · rename_i hstyle
      exact tells_silent hstyle (tells_glance g ends fuel sp _ hfits)
    · rename_i hstyle
      exact tells_rule hstyle (tells_glance g ends fuel _ _ hfits)
  | fuel + 1, sp, .seq a b, ks, text, hfits => by
    have ha := tells_glance g ends fuel sp a hfits
    rw [glance]
    by_cases hsp : sp = .loose
    · subst hsp
      exact tells_loose ha (fun n hn => tells_glance g ends fuel _ _ (hfits.drop hn))
        fun n n' hn hn' => tells_glance g ends fuel _ b ((hfits.drop hn).drop hn')
    · simp only [if_neg hsp]
      exact tells_tight hsp ha fun n hn => tells_glance g ends fuel sp b (hfits.drop hn)
  | fuel + 1, sp, .alt a b, ks, text, hfits => by
    have ha := tells_glance g ends fuel sp a hfits
    rw [glance]
    cases hx : g.glance ends fuel sp a ks with
    | unclear => trivial
    | took n bare =>
      rw [hx] at ha
      exact ⟨ha.1, ha.2.left⟩
    | refused =>
      rw [hx] at ha
      have hb := tells_glance g ends fuel sp b hfits
      dsimp only
      cases hy : g.glance ends fuel sp b ks with
      | unclear => trivial
      | refused =>
        rw [hy] at hb
        exact Refuses.alt ha hb
      | took n bare =>
        rw [hy] at hb
        rw [← List.take_append_drop n text] at ha
        exact ⟨hb.1, hb.2.right ha⟩
  | fuel + 1, sp, .opt a, ks, text, hfits => by
    have ha := tells_glance g ends fuel sp a hfits
    rw [glance]
    cases hx : g.glance ends fuel sp a ks with
    | unclear => trivial
    | took n bare =>
      rw [hx] at ha
      exact ⟨ha.1, ha.2.present⟩
    | refused =>
      rw [hx] at ha
      exact ⟨Nat.zero_le _, (Refuses.opt ha).mono fun ps hps _ => hps⟩
  | fuel + 1, sp, .many a, ks, text, hfits => by
    have ha := tells_glance g ends fuel sp a hfits
    rw [glance]
    cases hx : g.glance ends fuel sp a ks with
    | unclear => trivial
    | refused =>
      rw [hx] at ha
      exact ⟨Nat.zero_le _, (Refuses.many ha).mono fun ps hps _ => hps⟩
    | took n bare =>
      rw [hx] at ha
      have hdrop := hfits.drop ha.1
      by_cases hsp : sp = .loose
      · subst hsp
        have hgap := tells_glance g ends fuel .atomic g.blank hdrop
        simp only [if_true]
        cases hsome : (g.glance ends fuel .atomic g.blank (ks.drop n)).gap? with
        | none => trivial
        | some n' =>
          obtain ⟨hn', hblank⟩ := takes_gap hgap hsome
          exact tells_more ha hn' hblank (tells_glance g ends fuel _ a (hdrop.drop hn'))
            (tells_glance g ends fuel _ (.many a) (hdrop.drop hn'))
      · simp only [if_neg hsp]
        exact tells_more_tight hsp ha (tells_glance g ends fuel sp (.many a) hdrop)
  | fuel + 1, sp, .ahead a, ks, text, hfits => by
    have ha := tells_glance g ends fuel sp a hfits
    rw [glance]
    cases hx : g.glance ends fuel sp a ks with
    | unclear => trivial
    | refused =>
      rw [hx] at ha
      exact Refuses.ahead ha
    | took n bare =>
      rw [hx] at ha
      have hstarts := ha.2.starts
      rw [List.take_append_drop] at hstarts
      exact ⟨Nat.zero_le _, hstarts.ahead.mono fun ps hps _ => hps⟩
  | fuel + 1, sp, .never a, ks, text, hfits => by
    have ha := tells_glance g ends fuel sp a hfits
    rw [glance]
    cases hx : g.glance ends fuel sp a ks with
    | unclear => trivial
    | refused =>
      rw [hx] at ha
      exact ⟨Nat.zero_le _, (Refuses.never ha).mono fun ps hps _ => hps⟩
    | took n bare =>
      rw [hx] at ha
      have hstarts := ha.2.starts
      rw [List.take_append_drop] at hstarts
      exact hstarts.never

theorem refuses_of_glance (fuel : Nat) (hfits : Fits ends ks text)
    (h : g.glance ends fuel sp a ks = .refused) : Refuses g sp a text := by
  have htells := tells_glance g ends fuel sp a hfits
  rwa [h] at htells

theorem refuses_of_known (fuel : Nat) (cs rest : List Char)
    (h : g.glance false fuel sp a (cs.map .exactly) = .refused) : Refuses g sp a (cs ++ rest) :=
  refuses_of_glance fuel (.known cs rest) h

theorem takes_of_glance (fuel : Nat) {cs rest : List Char} (hfits : Fits ends ks rest)
    (h : g.glance ends fuel sp a (cs.map .exactly ++ ks) = .took cs.length true) :
    Takes g sp a cs rest Bare := by
  have htells := tells_glance g ends fuel sp a (hfits.append cs)
  rw [h, Tells, List.take_left, List.drop_left] at htells
  exact htells.2.mono fun ps hps => hps rfl

end

end Grammar

end PanelSchema
