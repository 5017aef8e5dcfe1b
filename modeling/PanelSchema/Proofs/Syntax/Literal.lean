import PanelSchema.Proofs.Source.Outline
import PanelSchema.Syntax.Literal

/-!
Numbers that have no value. All that the grammar takes for a float reads as one, so only an
integer can lack a value: it is too large, or to the base sixteen and marked as a decimal.
-/

namespace PanelSchema.Syntax

open Source (Rule grammar)
open Grammar

def IsDigits (ds : List Char) : Prop :=
  ds ≠ [] ∧ ∀ c ∈ ds, c.isDigit = true

inductive IsPower : List Char → Prop where
  | absent : IsPower []
  | unsigned {e : Char} {ds : List Char} (he : e = 'e' ∨ e = 'E') (hds : IsDigits ds) :
      IsPower (e :: ds)
  | signed {e sign : Char} {ds : List Char} (he : e = 'e' ∨ e = 'E')
      (hsign : sign = '+' ∨ sign = '-') (hds : IsDigits ds) : IsPower (e :: sign :: ds)

/-- A decimal number without its ending. -/
inductive IsDecimal : List Char → Prop where
  | whole {ds power : List Char} (hds : IsDigits ds) (hpower : IsPower power) :
      IsDecimal (ds ++ power)
  | fraction {ds part power : List Char} (hds : ds = [] ∨ IsDigits ds) (hpart : IsDigits part)
      (hpower : IsPower power) : IsDecimal (ds ++ '.' :: part ++ power)

def endings : List (List Char) :=
  [[], ['u', 'l'], ['U', 'L'], ['f'], ['F'], ['d'], ['D'], ['m'], ['M'], ['u'], ['U'], ['l'], ['L']]

theorem isPower_spelled {cs : List Char}
    (h : Spells grammar
      (.opt (.all [.any ["e", "E"], .opt (.any ["+", "-"]), .many1 (.one .digit)])) cs) :
    IsPower cs := by
  simp only [Phrase.all, Phrase.any, spells_seq, spells_alt, spells_opt, spells_text] at h
  rcases h with rfl | ⟨e, _, he, ⟨sign, ds, hsign, hds, rfl⟩, rfl⟩
  · exact .absent
  · have hdigits : IsDigits ds := spells_many1_one hds
    have hletter : ∃ c, (c = 'e' ∨ c = 'E') ∧ e = [c] := by
      rcases he with rfl | rfl <;> simp
    obtain ⟨c, hc, rfl⟩ := hletter
    rcases hsign with rfl | rfl | rfl
    · exact .unsigned hc hdigits
    · exact .signed hc (.inl rfl) hdigits
    · exact .signed hc (.inr rfl) hdigits

theorem number_spelled {cs : List Char} (h : Spells grammar (Source.body .number) cs) :
    (∃ x hs ending, (x = 'x' ∨ x = 'X') ∧ hs ≠ [] ∧
      (∀ c ∈ hs, CharClass.hexDigit.holds c = true) ∧ ending ∈ endings ∧
      cs = '0' :: x :: (hs ++ ending)) ∨
    ∃ ds ending, IsDecimal ds ∧ ending ∈ endings ∧ cs = ds ++ ending := by
  obtain ⟨ds, ending, hds, hending, rfl⟩ := spells_seq.1 h
  have hmem : ending ∈ endings := by
    rcases spells_opt.1 hending with rfl | hending
    · decide
    · exact List.mem_cons_of_mem _ (Source.mem_wordsOf hending rfl)
  rcases spells_alt.1 hds with hds | hds
  · simp only [Phrase.all, Phrase.any, spells_seq, spells_alt, spells_text] at hds
    obtain ⟨_, _, rfl, ⟨x, hs, hx, hhs, rfl⟩, rfl⟩ := hds
    obtain ⟨hsome, hdigits⟩ := spells_many1_one hhs
    rcases hx with rfl | rfl
    · exact .inl ⟨'x', hs, ending, .inl rfl, hsome, hdigits, hmem, rfl⟩
    · exact .inl ⟨'X', hs, ending, .inr rfl, hsome, hdigits, hmem, rfl⟩
  · obtain ⟨mantissa, power, hmantissa, hpower, rfl⟩ := spells_seq.1 hds
    have hpower := isPower_spelled hpower
    refine .inr ⟨mantissa ++ power, ending, ?_, hmem, rfl⟩
    simp only [Phrase.all, Phrase.any, spells_seq, spells_alt, spells_opt, spells_text] at hmantissa
    rcases hmantissa with ⟨ds, _, hwhole, rfl | ⟨_, part, rfl, hpart, rfl⟩, rfl⟩ |
      ⟨_, part, rfl, hpart, rfl⟩
    · rw [List.append_nil]
      exact .whole (spells_many1_one hwhole) hpower
    · exact .fraction (.inr (spells_many1_one hwhole)) (spells_many1_one hpart) hpower
    · exact .fraction (.inl rfl) (spells_many1_one hpart) hpower

/-! ### Reading floats -/

theorem splitSign_eq {cs : List Char} (h : ∀ c, cs.head? = some c → c ≠ '+' ∧ c ≠ '-') :
    splitSign cs = (false, cs) := by
  unfold splitSign
  split
  · exact absurd rfl (h '+' rfl).1
  · exact absurd rfl (h '-' rfl).2
  · rfl

theorem IsDigits.not_sign {ds : List Char} (h : IsDigits ds) :
    ∀ c, ds.head? = some c → c ≠ '+' ∧ c ≠ '-' := by
  intro c hc
  have hdigit := h.2 c (List.mem_of_head? hc)
  constructor <;> rintro rfl <;> revert hdigit <;> decide

theorem IsDigits.isRead {ds : List Char} (h : IsDigits ds) :
    (ds.isEmpty || !ds.all Char.isDigit) = false := by
  simpa [IsDigits] using h

theorem readPower_isSome {cs : List Char} (h : IsPower cs) : (readPower? cs).isSome = true := by
  cases h with
  | absent => rfl
  | @unsigned e ds he hds =>
    unfold readPower?
    simp [he, splitSign_eq hds.not_sign, hds.isRead]
  | @signed e sign ds he hsign hds =>
    unfold readPower?
    rcases hsign with rfl | rfl <;> simp [he, splitSign, hds.isRead]

theorem takeWhile_digits {ds rest : List Char} (hds : ∀ c ∈ ds, c.isDigit = true)
    (hrest : ∀ c, rest.head? = some c → c.isDigit = false) :
    (ds ++ rest).takeWhile Char.isDigit = ds ∧ (ds ++ rest).dropWhile Char.isDigit = rest := by
  rw [List.takeWhile_append_of_pos hds, List.dropWhile_append_of_pos hds]
  cases rest with
  | nil => simp
  | cons c rest =>
    have hc := hrest c rfl
    simp [hc]

theorem IsPower.head {cs : List Char} (h : IsPower cs) :
    ∀ c, cs.head? = some c → c = 'e' ∨ c = 'E' := by
  cases h <;> simp_all

theorem IsPower.not_isDigit {cs : List Char} (h : IsPower cs) :
    ∀ c, cs.head? = some c → c.isDigit = false := by
  intro c hc
  rcases h.head c hc with rfl | rfl <;> decide

theorem readUnsigned_isSome {cs : List Char} (h : IsDecimal cs) :
    (readUnsigned? cs).isSome = true := by
  cases h with
  | @whole ds power hds hpower =>
    obtain ⟨htake, hdrop⟩ := takeWhile_digits hds.2 hpower.not_isDigit
    unfold readUnsigned?
    simp only [htake, hdrop]
    split
    · exact absurd (hpower.head '.' rfl) (by decide)
    · simp [hds.1, readPower_isSome hpower]
  | @fraction ds part power hds hpart hpower =>
    have hwhole : ∀ c ∈ ds, c.isDigit = true := by
      rcases hds with rfl | hds
      · simp
      · exact hds.2
    have hpoint : ∀ c, ('.' :: (part ++ power)).head? = some c → c.isDigit = false := by
      simp
    obtain ⟨htake, hdrop⟩ := takeWhile_digits hwhole hpoint
    obtain ⟨htake', hdrop'⟩ := takeWhile_digits hpart.2 hpower.not_isDigit
    unfold readUnsigned?
    rw [List.append_assoc, List.cons_append]
    simp only [htake, hdrop, htake', hdrop']
    simp [hpart.1, readPower_isSome hpower]

theorem IsDecimal.not_sign {cs : List Char} (h : IsDecimal cs) :
    ∀ c, cs.head? = some c → c ≠ '+' ∧ c ≠ '-' := by
  intro c hc
  cases h with
  | whole hds _ =>
    rw [List.head?_append_of_ne_nil _ hds.1] at hc
    exact hds.not_sign c hc
  | fraction hds _ _ =>
    rcases hds with rfl | hds
    · cases hc
      decide
    · rw [List.append_assoc, List.head?_append_of_ne_nil _ hds.1] at hc
      exact hds.not_sign c hc

theorem readFloat_isSome {cs : List Char} (h : IsDecimal cs) : (readFloat? cs).isSome = true := by
  have hread := readUnsigned_isSome h
  unfold readFloat?
  simp only [splitSign_eq h.not_sign, Option.isSome_map]
  split
  · rfl
  · split
    · rfl
    · exact hread

/-! ### Integers -/

/-- An integer literal that is greater than every integer. -/
inductive TooLarge : List Char → Prop where
  | decimal {ds ending : List Char} (hds : IsDigits ds) (hending : ending ∈ endings)
      (h : greatestInt < digitsValue 10 ds) : TooLarge (ds ++ ending)
  | hexadecimal {x : Char} {ds ending : List Char} {n : Nat} (hx : x = 'x' ∨ x = 'X')
      (hn : hexValue? ds = some n) (hending : ending ∈ endings) (h : greatestInt < n) :
      TooLarge ('0' :: x :: (ds ++ ending))

/-- A literal to the base sixteen with the ending of a decimal. -/
def HexDecimal (cs : List Char) : Prop :=
  ∃ x ds m, (x = 'x' ∨ x = 'X') ∧ (m = 'm' ∨ m = 'M') ∧ cs = '0' :: x :: (ds ++ [m])

theorem inRange_eq_none {n : Nat} (h : inRange? n = none) : greatestInt < n := by
  unfold inRange? at h
  split at h
  · cases h
  · omega

theorem dropEnd_append {p : Char → Bool} {ds ending : List Char} {d : Char}
    (hd : p d = false) (hending : ∀ c ∈ ending, p c = true) :
    dropEnd p (ds ++ [d] ++ ending) = ds ++ [d] := by
  unfold dropEnd
  rw [List.reverse_append, List.dropWhile_append_of_pos (by simpa using hending)]
  simp [hd]

section Hexadecimal

theorem hexDigit_isSome {c : Char} (h : CharClass.hexDigit.holds c = true) :
    (hexDigit? c).isSome = true := by
  simp only [CharClass.holds, Bool.or_eq_true, Bool.and_eq_true, decide_eq_true_eq] at h
  unfold hexDigit?
  split
  · rfl
  · split
    · rfl
    · split
      · rfl
      · simp_all

theorem hexValue_isSome {ds : List Char} (h : ∀ c ∈ ds, CharClass.hexDigit.holds c = true) :
    ∃ n, hexValue? ds = some n := by
  have hfold : ∀ acc, ∃ n,
      ds.foldlM (fun n c => (hexDigit? c).map (n * 16 + ·)) acc = some n := by
    induction ds with
    | nil => exact fun acc => ⟨acc, rfl⟩
    | cons c ds ih =>
      rw [List.forall_mem_cons] at h
      intro acc
      obtain ⟨d, hd⟩ := Option.isSome_iff_exists.1 (hexDigit_isSome h.1)
      obtain ⟨n, hn⟩ := ih h.2 (acc * 16 + d)
      exact ⟨n, by simpa [hd] using hn⟩
  exact hfold 0

theorem tooLarge_of_digits {x : Char} {hs ending : List Char} (hx : x = 'x' ∨ x = 'X')
    (hsome : hs ≠ []) (hhs : ∀ c ∈ hs, CharClass.hexDigit.holds c = true)
    (hending : ending ∈ endings)
    (hletters : ∀ c ∈ ending, (c == 'u' || c == 'U' || c == 'l' || c == 'L') = true)
    (hnone : (numberValue? ('0' :: x :: (hs ++ ending))).isNone = true) :
    TooLarge ('0' :: x :: (hs ++ ending)) := by
  have hdigit : ∀ c, CharClass.hexDigit.holds c = true →
      (c == 'u' || c == 'U' || c == 'l' || c == 'L') = false := by
    intro c hc
    rw [Bool.eq_false_iff]
    intro hletter
    simp only [Bool.or_eq_true, beq_iff_eq] at hletter
    rcases hletter with ((rfl | rfl) | rfl) | rfl <;> revert hc <;> decide
  have hdrop : dropEnd (fun c => c == 'u' || c == 'U' || c == 'l' || c == 'L')
      (hs ++ ending) = hs := by
    rw [← List.dropLast_append_getLast hsome]
    exact dropEnd_append (hdigit _ (hhs _ (List.getLast_mem hsome))) hletters
  have hvalue : numberValue? ('0' :: x :: (hs ++ ending)) = (hexInteger? hs).map .integer := by
    rcases hx with rfl | rfl <;> simp only [numberValue?, hdrop]
  obtain ⟨n, hn⟩ := hexValue_isSome hhs
  rw [hvalue, hexInteger?, hn] at hnone
  refine .hexadecimal hx hn hending (inRange_eq_none ?_)
  simpa [hsome] using hnone

theorem numberValue_hex {x : Char} {hs ending : List Char} (hx : x = 'x' ∨ x = 'X')
    (hsome : hs ≠ []) (hhs : ∀ c ∈ hs, CharClass.hexDigit.holds c = true)
    (hending : ending ∈ endings)
    (hnone : (numberValue? ('0' :: x :: (hs ++ ending))).isNone = true) :
    TooLarge ('0' :: x :: (hs ++ ending)) ∨ HexDecimal ('0' :: x :: (hs ++ ending)) := by
  have hkinds : ∀ ending ∈ endings,
      (∀ c ∈ ending, (c == 'u' || c == 'U' || c == 'l' || c == 'L') = true) ∨
        (∀ c ∈ ending, CharClass.hexDigit.holds c = true) ∨ ending = ['m'] ∨ ending = ['M'] := by
    simp only [← List.all_eq_true]
    decide
  rcases hkinds ending hending with hletters | hdigits | rfl | rfl
  · exact .inl (tooLarge_of_digits hx hsome hhs hending hletters hnone)
  · -- Letters that are digits to the base sixteen are read as such.
    have hall : ∀ c ∈ hs ++ ending, CharClass.hexDigit.holds c = true := by
      intro c hc
      rcases List.mem_append.1 hc with hc | hc
      · exact hhs c hc
      · exact hdigits c hc
    rw [← List.append_nil (hs ++ ending)] at hnone ⊢
    exact .inl (tooLarge_of_digits hx (by simp [hsome]) hall (by decide) (by simp) hnone)
  · exact .inr ⟨x, hs, 'm', hx, .inl rfl, rfl⟩
  · exact .inr ⟨x, hs, 'M', hx, .inr rfl, rfl⟩

end Hexadecimal

section Decimal

theorem IsPower.ends {cs : List Char} (h : IsPower cs) :
    cs = [] ∨ ∃ before ds, IsDigits ds ∧ cs = before ++ ds := by
  cases h with
  | absent => exact .inl rfl
  | @unsigned e ds _ hds => exact .inr ⟨[e], ds, hds, rfl⟩
  | @signed e sign ds _ _ hds => exact .inr ⟨[e, sign], ds, hds, rfl⟩

theorem IsDecimal.ends {cs : List Char} (h : IsDecimal cs) :
    ∃ before ds, IsDigits ds ∧ cs = before ++ ds := by
  cases h with
  | @whole ds power hds hpower =>
    rcases hpower.ends with rfl | ⟨before, es, hes, rfl⟩
    · exact ⟨[], ds, hds, by simp⟩
    · exact ⟨ds ++ before, es, hes, by simp⟩
  | @fraction ds part power _ hpart hpower =>
    rcases hpower.ends with rfl | ⟨before, es, hes, rfl⟩
    · exact ⟨ds ++ ['.'], part, hpart, by simp⟩
    · exact ⟨ds ++ '.' :: part ++ before, es, hes, by simp⟩

/-- A decimal with neither a point nor a power is made of digits. -/
theorem IsDecimal.isDigits {cs : List Char} (h : IsDecimal cs)
    (hplain : cs.any (fun c => c == '.' || c == 'e' || c == 'E') = false) : IsDigits cs := by
  rw [List.any_eq_false] at hplain
  cases h with
  | @whole ds power hds hpower =>
    cases power with
    | nil => simpa using hds
    | cons e rest =>
      have he := hplain e (by simp)
      rcases hpower.head e rfl with rfl | rfl <;> exact absurd rfl he
  | fraction _ _ _ => exact absurd rfl (hplain '.' (by simp))

theorem IsPower.mem {cs : List Char} (h : IsPower cs) :
    ∀ c ∈ cs, c.isDigit = true ∨ c ∈ ['e', 'E', '+', '-'] := by
  cases h with
  | absent => simp
  | unsigned he hds => grind [IsDigits]
  | signed he hsign hds => grind [IsDigits]

theorem IsDecimal.mem {cs : List Char} (h : IsDecimal cs) :
    ∀ c ∈ cs, c.isDigit = true ∨ c ∈ ['.', 'e', 'E', '+', '-'] := by
  cases h with
  | whole hds hpower => grind [IsDigits, IsPower.mem]
  | fraction hds hpart hpower => grind [IsDigits, IsPower.mem]

theorem IsDecimal.not_hex {ds ending : List Char} (h : IsDecimal ds) (hending : ending ∈ endings) :
    ∀ c ∈ ds ++ ending, c ≠ 'x' ∧ c ≠ 'X' := by
  have hletters : ∀ ending ∈ endings, ∀ c ∈ ending, c ≠ 'x' ∧ c ≠ 'X' := by
    simp [endings]
  intro c hc
  rcases List.mem_append.1 hc with hc | hc
  · have hmem := h.mem c hc
    constructor <;> rintro rfl <;> revert hmem <;> decide
  · exact hletters ending hending c hc

theorem isAlpha_of_isDigit {c : Char} (h : c.isDigit = true) : c.isAlpha = false := by
  delta Char.isAlpha Char.isUpper Char.isLower
  simp only [Char.isDigit] at h
  grind

theorem numberValue_decimal {ds ending : List Char} (hds : IsDecimal ds)
    (hending : ending ∈ endings) (hnone : (numberValue? (ds ++ ending)).isNone = true) :
    TooLarge (ds ++ ending) := by
  have hletters : ∀ ending ∈ endings, ∀ c ∈ ending, c.isAlpha = true := by
    simp [endings]
  have hdrop : dropEnd Char.isAlpha (ds ++ ending) = ds := by
    obtain ⟨before, es, hes, rfl⟩ := hds.ends
    have hlast : (es.getLast hes.1).isAlpha = false :=
      isAlpha_of_isDigit (hes.2 _ (List.getLast_mem hes.1))
    rw [← List.dropLast_append_getLast hes.1, ← List.append_assoc before]
    exact dropEnd_append hlast (hletters ending hending)
  have hplain := hds.not_hex hending
  unfold numberValue? at hnone
  split at hnone
  · rename_i rest heq
    rw [heq] at hplain
    exact absurd rfl (hplain 'x' (by simp)).1
  · rename_i rest heq
    rw [heq] at hplain
    exact absurd rfl (hplain 'X' (by simp)).2
  · simp only [hdrop] at hnone
    split at hnone
    · have hread := readFloat_isSome hds
      simp_all
    · rename_i hfloat
      rw [Bool.or_eq_true, not_or, Bool.not_eq_true] at hfloat
      have hdigits := hds.isDigits hfloat.1
      refine .decimal hdigits hending (inRange_eq_none ?_)
      rw [decimalInteger?, hdigits.isRead] at hnone
      simpa using hnone

end Decimal

theorem unvalued_cases {cs : List Char} (h : Spells grammar (Source.body .number) cs)
    (hnone : (numberValue? cs).isNone = true) : TooLarge cs ∨ HexDecimal cs := by
  rcases number_spelled h with ⟨x, hs, ending, hx, hsome, hhs, hending, rfl⟩ |
    ⟨ds, ending, hds, hending, rfl⟩
  · exact numberValue_hex hx hsome hhs hending hnone
  · exact .inl (numberValue_decimal hds hending hnone)

end PanelSchema.Syntax
