import PanelSchema.Declaration.Line
import PanelSchema.Proofs.Syntax.Literal

/-!
The numbers of a declaration. A numeral has a value by its digits alone, and every number that the
grammar takes is read as the value of its numeral.
-/

namespace PanelSchema.Declaration

open Grammar
open Syntax (IsDigits takeWhile_digits splitSign_eq)

inductive Sign where
  | absent
  | plus
  | minus
deriving DecidableEq, Repr

def Sign.chars : Sign → List Char
  | .absent => []
  | .plus => ['+']
  | .minus => ['-']

/-- The power of ten behind a number. -/
structure Power where
  letter : Char
  sign : Sign
  digits : List Char
  letter_eq : letter = 'e' ∨ letter = 'E'
  isDigits : IsDigits digits

def Power.chars (p : Power) : List Char :=
  p.letter :: (p.sign.chars ++ p.digits)

def Power.value (p : Power) : Int :=
  if p.sign = .minus then -(digitsValue 10 p.digits : Int) else digitsValue 10 p.digits

structure Numeral where
  sign : Sign
  whole : List Char
  /-- The digits behind a point. -/
  part : Option (List Char)
  power : Option Power
  mark : List Char
  isDigits : IsDigits (whole ++ part.getD [])
  mark_mem : mark ∈ [[], ['f'], ['F']]

namespace Numeral

def point (n : Numeral) : List Char :=
  match n.part with
  | none => []
  | some ds => '.' :: ds

def scale (n : Numeral) : List Char :=
  match n.power with
  | none => []
  | some p => p.chars

def unsigned (n : Numeral) : List Char :=
  n.whole ++ (n.point ++ n.scale)

def chars (n : Numeral) : List Char :=
  n.sign.chars ++ n.unsigned ++ n.mark

/-- All digits as one integer, times the power of ten that puts the point where it stands. -/
def magnitude (n : Numeral) : Float :=
  floatOfDecimal (digitsValue 10 (n.whole ++ n.part.getD []))
    ((n.power.map Power.value).getD 0 - (n.part.getD []).length)

def value (n : Numeral) : Float :=
  if n.sign = .minus then -n.magnitude else n.magnitude

end Numeral

/-! ### Reading -/

theorem splitSign_chars {sign : Sign} {cs : List Char}
    (h : ∀ c, cs.head? = some c → c ≠ '+' ∧ c ≠ '-') :
    splitSign (sign.chars ++ cs) = (decide (sign = .minus), cs) := by
  cases sign with
  | absent => exact splitSign_eq h
  | plus | minus => rfl

theorem readPower?_chars (p : Power) : readPower? p.chars = some p.value := by
  rw [Power.chars, readPower?, if_pos p.letter_eq, splitSign_chars p.isDigits.not_sign]
  simp [p.isDigits.isRead, Power.value]

theorem toNat_figure {c : Char} (h : c.isDigit = true ∨ c = '.') : 46 ≤ c.toNat ∧ c.toNat ≤ 57 := by
  rcases h with h | rfl
  · have hbounds := Char.isDigit_iff_toNat.1 h
    have hdigits : '0'.toNat = 48 ∧ '9'.toNat = 57 := by decide
    omega
  · decide

theorem toLower_eq_self {c : Char} (h : c.toNat < 65) : c.toLower = c := by
  have hupper : ¬(c.val ≥ 'A'.val ∧ c.val ≤ 'Z'.val) := by
    intro hc
    have hle : 65 ≤ c.toNat := UInt32.le_iff_toNat_le.1 hc.1
    omega
  exact dif_neg hupper

theorem isBlank_figure {c : Char} (h : c.isDigit = true ∨ c = '.') : isBlank c = false := by
  have hbounds := toNat_figure h
  rw [Bool.eq_false_iff]
  simp only [isBlank, ne_eq, Bool.or_eq_true, Bool.and_eq_true, decide_eq_true_eq, beq_iff_eq]
  omega

theorem trim_eq_self {cs : List Char} (hhead : ∀ c, cs.head? = some c → isBlank c = false)
    (hlast : ∀ c, cs.getLast? = some c → isBlank c = false) : trim cs = cs := by
  have hkeeps : ∀ {cs : List Char}, (∀ c, cs.head? = some c → isBlank c = false) →
      cs.dropWhile isBlank = cs := by
    intro cs h
    cases cs with
    | nil => rfl
    | cons c cs => rw [List.dropWhile_cons_of_neg (by simp [h c rfl])]
  rw [trim, trimStart, hkeeps hhead, trimEnd, hkeeps (by simpa using hlast), List.reverse_reverse]

theorem exists_last {ds : List Char} (h : IsDigits ds) :
    ∃ cs d, ds = cs ++ [d] ∧ d.isDigit = true := by
  obtain rfl | ⟨cs, d, rfl⟩ := List.eq_nil_or_concat' ds
  · exact absurd rfl h.1
  · exact ⟨cs, d, rfl, h.2 d (by simp)⟩

namespace Numeral

variable (n : Numeral)

theorem readPower?_scale :
    readPower? n.scale = some ((n.power.map Power.value).getD 0) := by
  unfold scale
  cases n.power with
  | none => rfl
  | some p => exact readPower?_chars p

theorem head_scale : ∀ c, n.scale.head? = some c → c = 'e' ∨ c = 'E' := by
  unfold scale
  cases n.power with
  | none => simp
  | some p =>
    intro c hc
    cases hc
    exact p.letter_eq

theorem scale_not_digit : ∀ c, n.scale.head? = some c → c.isDigit = false := by
  intro c hc
  rcases n.head_scale c hc with rfl | rfl <;> decide

theorem readUnsigned?_unsigned : readUnsigned? n.unsigned = some n.magnitude := by
  have hscale := n.readPower?_scale
  unfold unsigned point readUnsigned? magnitude
  have hdigits := n.isDigits
  cases hpart : n.part with
  | none =>
    rw [hpart, Option.getD_none, List.append_nil] at hdigits
    obtain ⟨htake, hdrop⟩ := takeWhile_digits hdigits.2 n.scale_not_digit
    simp only [List.nil_append, htake, hdrop]
    split
    · rename_i hpoint
      exact absurd (n.head_scale '.' (by rw [hpoint]; rfl)) (by decide)
    · simp [hdigits.1, hscale]
  | some ds =>
    rw [hpart, Option.getD_some] at hdigits
    have hwhole : ∀ c ∈ n.whole, c.isDigit = true := fun c hc => hdigits.2 c (by simp [hc])
    have hds : ∀ c ∈ ds, c.isDigit = true := fun c hc => hdigits.2 c (by simp [hc])
    have hpoint : ∀ c, ('.' :: (ds ++ n.scale)).head? = some c → c.isDigit = false := by
      rintro c ⟨⟩
      decide
    obtain ⟨htake, hdrop⟩ := takeWhile_digits hwhole hpoint
    obtain ⟨htake', hdrop'⟩ := takeWhile_digits hds n.scale_not_digit
    simp only [List.cons_append, htake, hdrop, htake', hdrop']
    have hsome : (n.whole.isEmpty && ds.isEmpty) = false := by
      simpa using hdigits.1
    simp [hsome, hscale]

theorem unsigned_head : ∀ c, n.unsigned.head? = some c → c.isDigit = true ∨ c = '.' := by
  intro c hc
  unfold unsigned point at hc
  have hdigits := n.isDigits
  cases hwhole : n.whole with
  | cons d ds =>
    rw [hwhole] at hc hdigits
    cases hc
    exact .inl (hdigits.2 _ (by simp))
  | nil =>
    rw [hwhole] at hc hdigits
    cases hpart : n.part with
    | none =>
      rw [hpart] at hdigits
      exact absurd rfl hdigits.1
    | some ds =>
      rw [hpart] at hc
      cases hc
      exact .inr rfl

theorem unsigned_last : ∃ cs d, n.unsigned = cs ++ [d] ∧ (d.isDigit = true ∨ d = '.') := by
  unfold unsigned scale
  cases n.power with
  | some p =>
    obtain ⟨cs, d, hp, hd⟩ := exists_last p.isDigits
    refine ⟨n.whole ++ (n.point ++ p.letter :: (p.sign.chars ++ cs)), d, ?_, .inl hd⟩
    simp only [Power.chars, hp, List.append_assoc, List.cons_append]
  | none =>
    have hdigits := n.isDigits
    unfold point
    cases hpart : n.part with
    | none =>
      rw [hpart, Option.getD_none, List.append_nil] at hdigits
      obtain ⟨cs, d, hwhole, hd⟩ := exists_last hdigits
      exact ⟨cs, d, by simp [hwhole], .inl hd⟩
    | some ds =>
      rw [hpart, Option.getD_some] at hdigits
      obtain rfl | ⟨cs, d, rfl⟩ := List.eq_nil_or_concat' ds
      · exact ⟨n.whole, '.', rfl, .inr rfl⟩
      · exact ⟨n.whole ++ '.' :: cs, d, by simp, .inl (hdigits.2 d (by simp))⟩

theorem lower_ne (c : Char) (cs : List Char) (hc : 58 ≤ c.toNat) :
    String.ofList (n.unsigned.map Char.toLower) ≠ String.ofList (c :: cs) := by
  intro h
  obtain ⟨d, ds, hd⟩ : ∃ d ds, n.unsigned = d :: ds := by
    obtain ⟨cs, d, hlast, -⟩ := n.unsigned_last
    exact List.exists_cons_of_ne_nil (by simp [hlast])
  have hbounds := toNat_figure (n.unsigned_head d (by rw [hd]; rfl))
  have hlower := List.map_eq_cons_iff.1 (String.ofList_injective h)
  obtain ⟨d', _, hd', rfl, -⟩ := hlower
  obtain ⟨rfl, -⟩ := List.cons.inj (hd.symm.trans hd')
  rw [toLower_eq_self (by omega)] at hc
  omega

theorem readFloat?_unsigned : readFloat? (n.sign.chars ++ n.unsigned) = some n.value := by
  have hsign : ∀ c, n.unsigned.head? = some c → c ≠ '+' ∧ c ≠ '-' := by
    intro c hc
    have hbounds := toNat_figure (n.unsigned_head c hc)
    constructor <;> rintro rfl <;> revert hbounds <;> decide
  unfold readFloat?
  rw [splitSign_chars hsign]
  have hinf := n.lower_ne 'i' ['n', 'f'] (by decide)
  have hinfinity := n.lower_ne 'i' ['n', 'f', 'i', 'n', 'i', 't', 'y'] (by decide)
  have hnan := n.lower_ne 'n' ['a', 'n'] (by decide)
  dsimp only
  rw [if_neg (not_or.2 ⟨hinf, hinfinity⟩), if_neg hnan, readUnsigned?_unsigned]
  simp [value]

theorem trim_chars : trim n.chars = n.chars := by
  obtain ⟨cs, d, hlast, hd⟩ := n.unsigned_last
  apply trim_eq_self
  · intro c hc
    unfold chars at hc
    cases hsign : n.sign with
    | absent =>
      rw [hsign, Sign.chars, List.nil_append,
        List.head?_append_of_ne_nil _ (by simp [hlast])] at hc
      exact isBlank_figure (n.unsigned_head c hc)
    | plus | minus =>
      rw [hsign] at hc
      cases hc
      decide
  · intro c hc
    have hmark := n.mark_mem
    simp only [List.mem_cons, List.not_mem_nil, or_false] at hmark
    unfold chars at hc
    rcases hmark with hmark | hmark | hmark
    · rw [hmark, hlast, List.append_nil, ← List.append_assoc, List.getLast?_concat] at hc
      cases hc
      exact isBlank_figure hd
    · rw [hmark, List.getLast?_concat] at hc
      cases hc
      decide
    · rw [hmark, List.getLast?_concat] at hc
      cases hc
      decide

theorem number?_chars : number? n.chars = some n.value := by
  obtain ⟨cs, d, hlast, hd⟩ := n.unsigned_last
  have hmark : ∀ c ∈ n.mark, (c == 'f' || c == 'F') = true := by
    have hmem := n.mark_mem
    simp only [List.mem_cons, List.not_mem_nil, or_false] at hmem
    rcases hmem with hmem | hmem | hmem <;> simp [hmem]
  have hfigure : (d == 'f' || d == 'F') = false := by
    have hbounds := toNat_figure hd
    rw [Bool.eq_false_iff]
    simp only [ne_eq, Bool.or_eq_true, beq_iff_eq]
    rintro (rfl | rfl) <;> revert hbounds <;> decide
  have hchars : n.chars = n.sign.chars ++ cs ++ [d] ++ n.mark := by
    rw [chars, hlast, List.append_assoc _ cs]
  have hdrop : Syntax.dropEnd (fun c => c == 'f' || c == 'F') n.chars =
      n.sign.chars ++ n.unsigned := by
    rw [hchars, Syntax.dropEnd_append hfigure hmark, hlast, List.append_assoc]
  rw [number?, trim_chars]
  exact (congrArg readFloat? hdrop).trans n.readFloat?_unsigned

end Numeral

/-! ### Spelling -/

theorem sign_spelled {cs : List Char} (h : cs = [] ∨ cs = ['-'] ∨ cs = ['+']) :
    ∃ sign : Sign, sign.chars = cs := by
  rcases h with rfl | rfl | rfl
  · exact ⟨.absent, rfl⟩
  · exact ⟨.minus, rfl⟩
  · exact ⟨.plus, rfl⟩

theorem power_spelled {cs : List Char}
    (h : Spells grammar
      (.opt (.all [.any ["e", "E"], .opt (.any ["+", "-"]), .many1 (.one .digit)])) cs) :
    ∃ p : Option Power, (p.map Power.chars).getD [] = cs := by
  simp only [Phrase.all, Phrase.any, spells_seq, spells_alt, spells_opt, spells_text] at h
  rcases h with rfl | ⟨e, _, he, ⟨sign, ds, hsign, hds, rfl⟩, rfl⟩
  · exact ⟨none, rfl⟩
  · obtain ⟨letter, hletter, rfl⟩ : ∃ c, (c = 'e' ∨ c = 'E') ∧ e = [c] := by
      rcases he with rfl | rfl <;> simp
    obtain ⟨sign, rfl⟩ := sign_spelled (by tauto)
    exact ⟨some ⟨letter, sign, ds, hletter, spells_many1_one hds⟩, rfl⟩

theorem mantissa_spelled {cs : List Char}
    (h : Spells grammar
      (.any [.all [.many1 (.one .digit), .opt (.all [".", .many (.one .digit)])],
        .all [".", .many1 (.one .digit)]]) cs) :
    ∃ whole part, IsDigits (whole ++ Option.getD part []) ∧
      cs = whole ++ (part.map ('.' :: ·)).getD [] := by
  simp only [Phrase.all, Phrase.any, spells_seq, spells_alt, spells_opt, spells_text] at h
  rcases h with ⟨ds, _, hwhole, rfl | ⟨_, part, rfl, hpart, rfl⟩, rfl⟩ | ⟨_, part, rfl, hpart, rfl⟩
  · have hdigits : IsDigits ds := spells_many1_one hwhole
    exact ⟨ds, none, by simpa using hdigits, rfl⟩
  · have hdigits : IsDigits ds := spells_many1_one hwhole
    refine ⟨ds, some part, ⟨by simp [hdigits.1], fun c hc => ?_⟩, rfl⟩
    rcases List.mem_append.1 hc with hc | hc
    · exact hdigits.2 c hc
    · exact spells_many_one hpart c hc
  · exact ⟨[], some part, spells_many1_one hpart, rfl⟩

theorem exists_numeral {cs : List Char} (h : Spells grammar (body .number) cs) :
    ∃ n : Numeral, n.chars = cs := by
  obtain ⟨signs, _, hsign, htail, rfl⟩ := spells_seq.1 h
  obtain ⟨mantissa, _, hmantissa, htail', rfl⟩ := spells_seq.1 htail
  obtain ⟨scale, mark, hscale, hmark, rfl⟩ := spells_seq.1 htail'
  simp only [Phrase.all, Phrase.any, spells_alt, spells_opt, spells_text] at hsign hmark
  obtain ⟨sign, rfl⟩ := sign_spelled hsign
  obtain ⟨whole, part, hdigits, rfl⟩ := mantissa_spelled hmantissa
  obtain ⟨power, rfl⟩ := power_spelled hscale
  refine ⟨⟨sign, whole, part, power, mark, hdigits, by simpa using hmark⟩, ?_⟩
  cases part <;> cases power <;>
    simp [Numeral.chars, Numeral.unsigned, Numeral.point, Numeral.scale]

theorem number?_of_spells {cs : List Char} (h : Spells grammar (body .number) cs) :
    ∃ n : Numeral, n.chars = cs ∧ number? cs = some n.value := by
  obtain ⟨n, rfl⟩ := exists_numeral h
  exact ⟨n, rfl, n.number?_chars⟩

end PanelSchema.Declaration
