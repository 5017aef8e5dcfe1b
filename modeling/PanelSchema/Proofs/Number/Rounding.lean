import PanelSchema.Number.Exact

/-!
Integers as floats. A float takes the 53 leading bits of an integer, rounded to the nearest, and
gives them back when it is cut to an integer. This follows the operations on floats from the bits
they are packed in.
-/

namespace PanelSchema.Rounding

open Float.Model (UnpackedFloat Format totalExponent)
open Float.Model.UnpackedFloat (Sign ExtendedMantissa Accuracy roundWithAccuracy
  shiftToTargetExponent shiftToExponent)

/-- The quotient rounded to the nearest integer; halfway, to the even one. -/
def nearest (m unit : Nat) : Nat :=
  if 2 * (m % unit) < unit then m / unit
  else if 2 * (m % unit) = unit then m / unit + m / unit % 2
  else m / unit + 1

theorem roundNat_eq_nearest (n : Nat) :
    roundNat n = nearest n (Nat.pow 2 (n.log2 + 1 - 53)) * Nat.pow 2 (n.log2 + 1 - 53) := by
  unfold roundNat nearest
  dsimp only
  split
  · rfl
  · split <;> rfl

theorem nearest_mul (m unit : Nat) {k : Nat} (hk : 0 < k) :
    nearest (m * k) (unit * k) = nearest m unit := by
  unfold nearest
  rw [Nat.mul_div_mul_right _ _ hk, Nat.mul_mod_mul_right, ← Nat.mul_assoc]
  simp only [Nat.mul_lt_mul_right hk, Nat.mul_left_inj (Nat.ne_of_gt hk)]

theorem nearest_one (m : Nat) : nearest m 1 = m := by
  simp [nearest, Nat.mod_one]

/-! ### Cutting bits off -/

/-- The bits of `m` above `unit`, and what rounding needs to know of those below. -/
structure Shifted (em : ExtendedMantissa) (m unit : Nat) : Prop where
  mantissa : em.mantissa = m / unit
  roundBit : em.roundBit = decide (unit ≤ 2 * (m % unit))
  stickyBit : em.stickyBit = decide (2 * (m % unit) % unit ≠ 0)

theorem Shifted.shiftRightOne {em : ExtendedMantissa} {m unit : Nat} (h : Shifted em m unit)
    (hunit : 0 < unit) : Shifted em.shiftRightOne m (unit * 2) := by
  have hrest : m % (unit * 2) = m % unit + unit * (m / unit % 2) := Nat.mod_mul
  have hlt : m % unit < unit := Nat.mod_lt _ hunit
  refine ⟨?_, ?_, ?_⟩
  · rw [ExtendedMantissa.shiftRightOne, h.mantissa, Nat.div_div_eq_div_mul]
  · rw [ExtendedMantissa.shiftRightOne, h.mantissa, hrest]
    dsimp only
    rcases Nat.mod_two_eq_zero_or_one (m / unit) with hbit | hbit
    · rw [hbit]
      exact (decide_eq_false (by omega)).symm
    · rw [hbit]
      exact (decide_eq_true (by omega)).symm
  · have hsticky : 2 * (m % (unit * 2)) % (unit * 2) = 2 * (m % unit) := by
      rw [hrest, Nat.mul_add, ← Nat.mul_assoc, Nat.mul_comm 2 unit, Nat.add_mul_mod_self_left]
      exact Nat.mod_eq_of_lt (by omega)
    rw [ExtendedMantissa.shiftRightOne, h.roundBit, h.stickyBit, hsticky]
    by_cases hhalf : unit ≤ 2 * (m % unit)
    · have hne : 2 * (m % unit) ≠ 0 := by omega
      rw [decide_eq_true hhalf, decide_eq_true hne, Bool.true_or]
    · rw [decide_eq_false hhalf, Nat.mod_eq_of_lt (Nat.lt_of_not_le hhalf), Bool.false_or]

theorem shifted_shiftRight (m k : Nat) :
    Shifted ((⟨m, false, false⟩ : ExtendedMantissa) >>> k) m (Nat.pow 2 k) := by
  induction k with
  | zero =>
    change Shifted ⟨m, false, false⟩ m 1
    exact ⟨(Nat.div_one m).symm, by simp [Nat.mod_one], by simp [Nat.mod_one]⟩
  | succ k ih => exact ih.shiftRightOne (Nat.two_pow_pos k)

theorem Shifted.roundedMantissa {em : ExtendedMantissa} {m unit : Nat} (h : Shifted em m unit)
    (hunit : 0 < unit) : em.roundedMantissa = nearest m unit := by
  have hlt : m % unit < unit := Nat.mod_lt _ hunit
  have hwrap : unit ≤ 2 * (m % unit) → 2 * (m % unit) % unit = 2 * (m % unit) - unit := by
    intro hle
    rw [Nat.mod_eq_sub_mod hle]
    exact Nat.mod_eq_of_lt (by omega)
  obtain ⟨mantissa, roundBit, stickyBit⟩ := em
  obtain ⟨hmantissa, hround, hsticky⟩ := h
  dsimp only at hmantissa hround hsticky
  subst hmantissa
  unfold nearest
  cases roundBit with
  | false =>
    rw [if_pos (Nat.lt_of_not_le (of_decide_eq_false hround.symm))]
    cases stickyBit <;> rfl
  | true =>
    have hle := of_decide_eq_true hround.symm
    rw [if_neg (Nat.not_lt.2 hle)]
    cases stickyBit with
    | false =>
      have hzero := of_decide_eq_false hsticky.symm
      rw [if_pos (by omega)]
      rfl
    | true =>
      have hzero := of_decide_eq_true hsticky.symm
      rw [if_neg (by omega)]
      rfl

theorem mantissaBits_eq : (Format.binary64.mantissaBits : Int) = 53 := rfl

theorem minExponent_eq : Format.binary64.minExponent = -1074 := rfl

theorem targetExponent_eq {m : Nat} {e : Int} (hlog : 52 ≤ m.log2)
    (he : -1074 ≤ e + ((m.log2 - 52 : Nat) : Int)) :
    Format.binary64.targetExponent (totalExponent m e) = e + ((m.log2 - 52 : Nat) : Int) := by
  rw [Format.targetExponent, mantissaBits_eq, minExponent_eq, totalExponent]
  omega

theorem shiftToTargetExponent_exact {m : Nat} {e : Int} (hlog : 52 ≤ m.log2)
    (he : -1074 ≤ e + ((m.log2 - 52 : Nat) : Int)) :
    shiftToTargetExponent .binary64 m e .exact =
      ((⟨m, false, false⟩ : ExtendedMantissa) >>> (m.log2 - 52),
        e + ((m.log2 - 52 : Nat) : Int)) := by
  rw [shiftToTargetExponent, shiftToExponent, targetExponent_eq hlog he]
  have hshift : (e + ((m.log2 - 52 : Nat) : Int) - e).toNat = m.log2 - 52 := by omega
  rw [hshift]
  rfl

def IsMantissa (m : Nat) : Prop :=
  0x10000000000000 ≤ m ∧ m < 0x20000000000000

theorem log2_of_isMantissa {m : Nat} (h : IsMantissa m) : m.log2 = 52 := by
  have hne : m ≠ 0 := by
    rintro rfl
    exact absurd h.1 (by decide)
  exact (Nat.log2_eq_iff hne).2 h

theorem shiftToTargetExponent_of_isMantissa {m : Nat} {e : Int} (hm : IsMantissa m)
    (he : -1074 ≤ e) :
    shiftToTargetExponent .binary64 m e .exact = (⟨m, false, false⟩, e) := by
  have hlog := log2_of_isMantissa hm
  rw [shiftToTargetExponent_exact (by omega) (by omega), hlog]
  simp
  rfl

theorem shiftToTargetExponent_carry {e : Int} (he : -1074 ≤ e) :
    shiftToTargetExponent .binary64 0x20000000000000 e .exact =
      (⟨0x10000000000000, false, false⟩, e + 1) := by
  have hlog : Nat.log2 0x20000000000000 = 53 := by decide
  rw [shiftToTargetExponent_exact (by omega) (by omega), hlog]
  rfl

theorem nearest_bounds (m unit : Nat) :
    m / unit ≤ nearest m unit ∧ nearest m unit ≤ m / unit + 1 := by
  unfold nearest
  split
  · omega
  · split <;> omega

theorem isMantissa_div {m : Nat} (hlog : 52 ≤ m.log2) :
    IsMantissa (m / Nat.pow 2 (m.log2 - 52)) := by
  have hne : m ≠ 0 := by
    rintro rfl
    exact absurd hlog (by decide)
  have hunit : 0 < Nat.pow 2 (m.log2 - 52) := Nat.two_pow_pos _
  constructor
  · apply (Nat.le_div_iff_mul_le hunit).2
    calc Nat.pow 2 52 * Nat.pow 2 (m.log2 - 52)
        = Nat.pow 2 (52 + (m.log2 - 52)) := (Nat.pow_add 2 52 _).symm
      _ = Nat.pow 2 m.log2 := by rw [Nat.add_sub_cancel' hlog]
      _ ≤ m := Nat.log2_self_le hne
  · apply (Nat.div_lt_iff_lt_mul hunit).2
    calc m < Nat.pow 2 (m.log2 + 1) := Nat.lt_log2_self
      _ = Nat.pow 2 (53 + (m.log2 - 52)) := by rw [show 53 + (m.log2 - 52) = m.log2 + 1 by omega]
      _ = Nat.pow 2 53 * Nat.pow 2 (m.log2 - 52) := Nat.pow_add 2 53 _

/-- A number cut down to 53 bits. Where rounding carries into a further bit, the exponent is
one greater. -/
theorem roundWithAccuracy_eq {s : Sign} {m : Nat} {e : Int} (hlog : 52 ≤ m.log2)
    (he : -1074 ≤ e + ((m.log2 - 52 : Nat) : Int)) :
    ∃ q f hq, roundWithAccuracy .binary64 s m e .exact = .finite s q f hq ∧ IsMantissa q ∧
      (q = nearest m (Nat.pow 2 (m.log2 - 52)) ∧ f = e + ((m.log2 - 52 : Nat) : Int) ∨
        2 * q = nearest m (Nat.pow 2 (m.log2 - 52)) ∧ f = e + ((m.log2 - 52 : Nat) : Int) + 1) := by
  have hbounds := nearest_bounds m (Nat.pow 2 (m.log2 - 52))
  have hdiv := isMantissa_div hlog
  have hrounded := (shifted_shiftRight m (m.log2 - 52)).roundedMantissa (Nat.two_pow_pos _)
  generalize hq : nearest m (Nat.pow 2 (m.log2 - 52)) = q at *
  unfold roundWithAccuracy
  rw [shiftToTargetExponent_exact hlog he]
  dsimp only
  rw [hrounded]
  by_cases hcarry : q = 0x20000000000000
  · subst hcarry
    rw [shiftToTargetExponent_carry he]
    dsimp only
    rw [dif_neg (by decide)]
    exact ⟨_, _, _, rfl, ⟨Nat.le_refl _, by omega⟩, .inr ⟨by omega, rfl⟩⟩
  · have hmantissa : IsMantissa q := ⟨Nat.le_trans hdiv.1 hbounds.1, by have := hdiv.2; omega⟩
    rw [shiftToTargetExponent_of_isMantissa hmantissa he]
    have hne : q ≠ 0 := by
      have := hmantissa.1
      omega
    dsimp only
    rw [dif_neg hne]
    exact ⟨_, _, _, rfl, hmantissa, .inl ⟨rfl, rfl⟩⟩

/-! ### Bits -/

section

variable {s : Sign} {m : Nat} {e : Int} {hm : 0 < m}

theorem pack_eq (hmantissa : IsMantissa m) (hleast : -1074 ≤ e) (hgreatest : e ≤ 971) :
    UnpackedFloat.pack .binary64 (.finite s m e hm) =
      UnpackedFloat.packComponents .binary64 s (BitVec.ofNat 11 (e + 1075).toNat)
        (BitVec.ofNat 52 m) := by
  have hbias : (e + (Format.binary64.exponentBias : Int) +
      ((Format.binary64.mantissaBitsWithoutImplicit : Nat) : Int)).toNat = (e + 1075).toNat := by
    have : (Format.binary64.exponentBias : Int) = 1023 := rfl
    have : ((Format.binary64.mantissaBitsWithoutImplicit : Nat) : Int) = 52 := rfl
    omega
  have hfits : ¬ 2 ^ Format.binary64.exponentBits ≤ (e + 1075).toNat + 1 := by
    have : 2 ^ Format.binary64.exponentBits = 2048 := rfl
    omega
  have hlog : m.log2 + 1 = Format.binary64.mantissaBits := by
    rw [log2_of_isMantissa hmantissa]
    rfl
  unfold UnpackedFloat.pack
  dsimp only
  rw [hbias, if_neg hfits, if_pos hlog]

theorem unpackSign_packComponents (spec : Format) (s : Sign) (e : BitVec spec.exponentBits)
    (m : BitVec spec.mantissaBitsWithoutImplicit) :
    UnpackedFloat.unpackSign (UnpackedFloat.packComponents spec s e m) = s.toBitVec := by
  ext i hi
  have hzero : i = 0 := by omega
  subst hzero
  delta UnpackedFloat.unpackSign UnpackedFloat.packComponents
  simp [BitVec.getLsbD_append, BitVec.getElem_append]

theorem toNat_append_one (m : BitVec 52) : (1#1 ++ m).toNat = 0x10000000000000 + m.toNat := by
  rw [BitVec.toNat_append, ← Nat.shiftLeft_add_eq_or_of_lt m.isLt]
  rfl

theorem unpack_eq {bits : BitVec Format.binary64.numBits}
    (hsign : Sign.ofBitVec (UnpackedFloat.unpackSign bits) = s)
    (hfinite : UnpackedFloat.unpackExponent bits ≠ -1#11)
    (hnormal : UnpackedFloat.unpackExponent bits ≠ 0#11)
    (hmantissa : (1#1 ++ UnpackedFloat.unpackMantissa bits).toNat = m)
    (hexponent : (UnpackedFloat.unpackExponent bits).toNat = (e + 1075).toNat)
    (hleast : -1074 ≤ e) : UnpackedFloat.unpack .binary64 bits = .finite s m e hm := by
  have hbias : (Format.binary64.exponentBias : Int) = 1023 := rfl
  unfold UnpackedFloat.unpack
  dsimp only
  rw [if_neg hfinite, if_neg hnormal, UnpackedFloat.finite.injEq]
  exact ⟨hsign, hmantissa, by omega⟩

/-- Nothing is lost in a float. -/
theorem unpack_pack (hmantissa : IsMantissa m) (hleast : -1074 ≤ e) (hgreatest : e ≤ 971) :
    (Float.Model.pack (.finite s m e hm)).unpack = .finite s m e hm := by
  have hexp : (BitVec.ofNat 11 (e + 1075).toNat).toNat = (e + 1075).toNat := by
    rw [BitVec.toNat_ofNat]
    exact Nat.mod_eq_of_lt (by omega)
  have hnormal : BitVec.ofNat 11 (e + 1075).toNat ≠ 0#11 := by
    intro h
    have := congrArg BitVec.toNat h
    rw [hexp, BitVec.toNat_zero] at this
    omega
  have hfinite : BitVec.ofNat 11 (e + 1075).toNat ≠ -1#11 := by
    intro h
    have := congrArg BitVec.toNat h
    rw [hexp, show (-1#11).toNat = 2047 from rfl] at this
    omega
  have hbits : (1#1 ++ BitVec.ofNat 52 m).toNat = m := by
    obtain ⟨hlow, hhigh⟩ := hmantissa
    rw [toNat_append_one, BitVec.toNat_ofNat]
    omega
  have hsign : Sign.ofBitVec s.toBitVec = s := by
    cases s <;> rfl
  unfold Float.Model.unpack Float.Model.pack
  dsimp only
  rw [pack_eq hmantissa hleast hgreatest]
  refine unpack_eq ?_ ?_ ?_ ?_ ?_ hleast
  · rw [unpackSign_packComponents, hsign]
  · rwa [UnpackedFloat.unpackExponent_packComponents]
  · rwa [UnpackedFloat.unpackExponent_packComponents]
  · rwa [UnpackedFloat.unpackMantissa_packComponents]
  · rwa [UnpackedFloat.unpackExponent_packComponents]

end

theorem toNat_packComponents (s : Sign) (e : BitVec 11) (m : BitVec 52) :
    (UnpackedFloat.packComponents .binary64 s e m).toNat =
      (s.toBitVec.toNat * 0x800 + e.toNat) * 0x10000000000000 + m.toNat := by
  unfold UnpackedFloat.packComponents
  rw [BitVec.toNat_append, ← Nat.shiftLeft_add_eq_or_of_lt m.isLt, BitVec.toNat_append,
    ← Nat.shiftLeft_add_eq_or_of_lt e.isLt, Nat.shiftLeft_eq, Nat.shiftLeft_eq]

theorem quantity_pack {s : Sign} {m : Nat} {e : Int} (hm : 0 < m) (hmantissa : IsMantissa m)
    (hleast : -1074 ≤ e) (hgreatest : e ≤ 971) :
    Quantity.ofFloat (.ofModel (.pack (.finite s m e hm))) = .finite (s.apply m) e := by
  have hbits : (Float.ofModel (.pack (.finite s m e hm))).toBits.toNat =
      (s.toBitVec.toNat * 0x800 + (e + 1075).toNat) * 0x10000000000000 +
        (m - 0x10000000000000) := by
    change (UnpackedFloat.pack .binary64 (.finite s m e hm)).toNat = _
    obtain ⟨hlow, hhigh⟩ := hmantissa
    rw [pack_eq ⟨hlow, hhigh⟩ hleast hgreatest, toNat_packComponents, BitVec.toNat_ofNat,
      BitVec.toNat_ofNat]
    omega
  obtain ⟨hlow, hhigh⟩ := hmantissa
  unfold Quantity.ofFloat
  dsimp only
  generalize (Float.ofModel (.pack (.finite s m e hm))).toBits.toNat = bits at hbits ⊢
  have hsign : s.toBitVec.toNat = 0 ∨ s.toBitVec.toNat = 1 := by
    cases s
    · exact .inr rfl
    · exact .inl rfl
  have hpower : bits / 0x10000000000000 % 0x800 = (e + 1075).toNat := by omega
  have hfraction : bits % 0x10000000000000 = m - 0x10000000000000 := by omega
  have hfinite : (e + 1075).toNat ≠ 2047 := by omega
  have hnormal : (e + 1075).toNat ≠ 0 := by omega
  rw [hpower, hfraction, if_neg hfinite, if_neg hnormal, if_neg hnormal]
  have hexponent : ((e + 1075).toNat : Int) - 1075 = e := by omega
  have hback : ((m - 0x10000000000000 : Nat) : Int) + 0x10000000000000 = m := by omega
  rw [hexponent, hback]
  cases s with
  | positive =>
    have : Sign.positive.toBitVec.toNat = 0 := rfl
    rw [if_neg (by omega)]
    rfl
  | negative =>
    have : Sign.negative.toBitVec.toNat = 1 := rfl
    rw [if_pos (by omega)]
    rfl

/-! ### Integers -/

/-- The float is `q * 2 ^ f`, the mantissa `q` having 53 bits. -/
structure IsNormal (x : Float) (s : Sign) (q : Nat) (f : Int) : Prop where
  mantissa : IsMantissa q
  least : -1074 ≤ f
  greatest : f ≤ 971
  model : ∃ hq, x.toModel = .pack (.finite s q f hq)

theorem IsNormal.quantity {x : Float} {s : Sign} {q : Nat} {f : Int} (h : IsNormal x s q f) :
    Quantity.ofFloat x = .finite (s.apply q) f := by
  obtain ⟨hq, hx⟩ := h.model
  rw [← quantity_pack hq h.mantissa h.least h.greatest, ← hx]

theorem IsNormal.unpack {x : Float} {s : Sign} {q : Nat} {f : Int} (h : IsNormal x s q f) :
    ∃ hq, x.toModel.unpack = .finite s q f hq := by
  obtain ⟨hq, hx⟩ := h.model
  exact ⟨hq, by rw [hx, unpack_pack h.mantissa h.least h.greatest]⟩

theorem IsNormal.neg {x : Float} {s : Sign} {q : Nat} {f : Int} (h : IsNormal x s q f) :
    IsNormal (-x) (-s) q f := by
  obtain ⟨hq, hx⟩ := h.unpack
  refine ⟨h.mantissa, h.least, h.greatest, hq, ?_⟩
  change Float.Model.pack x.toModel.unpack.neg = _
  rw [hx]
  rfl

theorem log2_mul_pow {n : Nat} (hn : n ≠ 0) (k : Nat) :
    (n * Nat.pow 2 k).log2 = n.log2 + k := by
  induction k with
  | zero => exact congrArg Nat.log2 (Nat.mul_one n)
  | succ k ih =>
    have hne : n * Nat.pow 2 k ≠ 0 := Nat.mul_ne_zero hn (Nat.ne_of_gt (Nat.two_pow_pos k))
    have hdouble : n * Nat.pow 2 (k + 1) = 2 * (n * Nat.pow 2 k) := by
      rw [Nat.mul_comm 2, Nat.mul_assoc]
      rfl
    rw [hdouble, Nat.log2_two_mul hne, ih]
    rfl

/-- A mantissa and a power of two that come to an integer. -/
def Amounts (q : Nat) (f : Int) (n : Nat) : Prop :=
  q * Nat.pow 2 f.toNat = n * Nat.pow 2 (-f).toNat

theorem toModel_ofNat_wide {n : Nat} (hlow : 0x20000000000000 ≤ n) :
    (Float.ofNat n).toModel =
      .pack (roundWithAccuracy .binary64 .positive (n * Nat.pow 2 53) (-53) .exact) := by
  have hne : n ≠ 0 := by omega
  have hslow : ¬ (n < 2 ^ 53 ∧ 0 ≤ 22) := fun h => absurd h.1 (Nat.not_lt.2 hlow)
  change (Float.ofScientific n false 0).toModel = _
  unfold Float.ofScientific
  rw [dif_neg hslow]
  change Float.Model.pack (UnpackedFloat.ofScientific .binary64 n 0) = _
  have hbits : Format.binary64.mantissaBits = 53 := rfl
  have hrange : (2 ^ Format.binary64.exponentBits : Int) = 2048 := rfl
  unfold UnpackedFloat.ofScientific
  rw [dif_neg hne, if_neg (by omega), if_neg (by omega), if_pos (by omega)]
  unfold UnpackedFloat.mul
  dsimp only
  rw [hbits, Nat.shiftLeft_eq, Int.toNat_zero, Nat.pow_zero, Nat.mul_one]
  rfl

theorem ofNat_wide {n : Nat} (hlow : 0x20000000000000 ≤ n) (hlog : n.log2 ≤ 1000) :
    ∃ q f, IsNormal (Float.ofNat n) .positive q f ∧ Amounts q f (roundNat n) := by
  have hne : n ≠ 0 := by omega
  have hwide : 53 ≤ n.log2 := (Nat.le_log2 hne).2 hlow
  have hlog' := log2_mul_pow hne 53
  obtain ⟨q, f, hq, hround, hmantissa, hcases⟩ :=
    roundWithAccuracy_eq (s := .positive) (m := n * Nat.pow 2 53) (e := -53) (by omega) (by omega)
  have hnearest : nearest (n * Nat.pow 2 53) (Nat.pow 2 ((n * Nat.pow 2 53).log2 - 52)) =
      nearest n (Nat.pow 2 (n.log2 + 1 - 53)) := by
    rw [hlog', show n.log2 + 53 - 52 = n.log2 + 1 - 53 + 53 by omega]
    exact (congrArg _ (Nat.pow_add 2 (n.log2 + 1 - 53) 53)).trans
      (nearest_mul n _ (Nat.two_pow_pos 53))
  rw [hnearest, hlog'] at hcases
  have hmodel := toModel_ofNat_wide hlow
  rw [hround] at hmodel
  refine ⟨q, f, ⟨hmantissa, by omega, by omega, hq, hmodel⟩, ?_⟩
  have hone : Nat.pow 2 0 = 1 := rfl
  rw [Amounts, roundNat_eq_nearest, show (-f).toNat = 0 by omega, hone, Nat.mul_one]
  rcases hcases with ⟨rfl, hf⟩ | ⟨htwice, hf⟩
  · rw [show f.toNat = n.log2 + 1 - 53 by omega]
  · have hpow : Nat.pow 2 (n.log2 + 1 - 53 + 1) = 2 * Nat.pow 2 (n.log2 + 1 - 53) :=
      Nat.mul_comm _ _
    rw [show f.toNat = n.log2 + 1 - 53 + 1 by omega, ← htwice, hpow, Nat.mul_comm 2 q,
      Nat.mul_assoc]

theorem isMantissa_mul {n : Nat} (hn : n ≠ 0) (hlog : n.log2 ≤ 52) :
    IsMantissa (n * Nat.pow 2 (52 - n.log2)) := by
  have hne : n * Nat.pow 2 (52 - n.log2) ≠ 0 :=
    Nat.mul_ne_zero hn (Nat.ne_of_gt (Nat.two_pow_pos _))
  have hbits : (n * Nat.pow 2 (52 - n.log2)).log2 = 52 := by
    rw [log2_mul_pow hn]
    omega
  exact (Nat.log2_eq_iff hne).1 hbits

theorem roundWithAccuracy_of_isMantissa {s : Sign} {m : Nat} {e : Int} (hm : IsMantissa m)
    (he : -1074 ≤ e) :
    ∃ hq, roundWithAccuracy .binary64 s m e .exact = .finite s m e hq := by
  have hlog := log2_of_isMantissa hm
  obtain ⟨q, f, hq, hround, hmantissa, hcases⟩ :=
    roundWithAccuracy_eq (s := s) (m := m) (e := e) (by omega) (by omega)
  have hone : Nat.pow 2 (52 - 52) = 1 := rfl
  rw [hlog, hone, nearest_one] at hcases
  obtain ⟨hlow, hhigh⟩ := hm
  obtain ⟨hlow', hhigh'⟩ := hmantissa
  obtain ⟨rfl, rfl⟩ : q = m ∧ f = e := by omega
  exact ⟨hq, hround⟩

theorem ofNat_model {n : Nat} (hn : n ≠ 0) (hlog : n.log2 ≤ 52) :
    ∃ hq, UnpackedFloat.ofNat .binary64 n =
      .finite .positive (n * Nat.pow 2 (52 - n.log2)) (n.log2 - 52) hq := by
  have htarget : Format.binary64.targetExponent (totalExponent n 0) = n.log2 - 52 := by
    rw [Format.targetExponent, mantissaBits_eq, minExponent_eq, totalExponent]
    omega
  have hcompare : compare (n : Int) 0 = .gt := Int.compare_eq_gt.2 (by omega)
  unfold UnpackedFloat.ofNat UnpackedFloat.ofInt UnpackedFloat.normalize
  rw [hcompare]
  dsimp only
  unfold UnpackedFloat.round UnpackedFloat.decreaseExponent
  rw [Int.toNat_natCast, htarget]
  dsimp only
  rw [show (0 - ((n.log2 : Int) - 52)).toNat = 52 - n.log2 by omega, Nat.shiftLeft_eq,
    show (0 : Int) - ((52 - n.log2 : Nat) : Int) = n.log2 - 52 by omega]
  exact roundWithAccuracy_of_isMantissa (isMantissa_mul hn hlog) (by omega)

theorem IsNormal.mul_one {x : Float} {s : Sign} {q : Nat} {f : Int} (h : IsNormal x s q f)
    (hleast : -1022 ≤ f) : IsNormal (x * Float.ofBits 0x3FF0000000000000) s q f := by
  obtain ⟨hq, hx⟩ := h.unpack
  have hlog : (q * Nat.pow 2 52).log2 = 104 := by
    rw [log2_mul_pow (by omega), log2_of_isMantissa h.mantissa]
  have hsign : s * Sign.positive = s := by
    cases s <;> rfl
  obtain ⟨q', f', hq', hround, hmantissa, hcases⟩ :=
    roundWithAccuracy_eq (s := s) (m := q * Nat.pow 2 52) (e := f + -52) (by omega) (by omega)
  have hnearest : nearest (q * Nat.pow 2 52) (Nat.pow 2 52) = q := by
    have hscale := nearest_mul q 1 (Nat.two_pow_pos 52)
    rw [nearest_one, Nat.one_mul] at hscale
    exact hscale
  rw [hlog, show 104 - 52 = 52 from rfl, hnearest] at hcases
  obtain ⟨hlow, hhigh⟩ := h.mantissa
  obtain ⟨hlow', hhigh'⟩ := hmantissa
  obtain ⟨rfl, rfl⟩ : q = q' ∧ f = f' := by omega
  refine ⟨h.mantissa, h.least, h.greatest, hq, ?_⟩
  rw [← hround]
  have hone : (Float.Model.ofBits 0x3FF0000000000000).unpack =
      .finite .positive (Nat.pow 2 52) (-52) (by decide) := rfl
  change Float.Model.pack (UnpackedFloat.mul .binary64 x.toModel.unpack
    (Float.Model.ofBits 0x3FF0000000000000).unpack) = _
  rw [hx, hone]
  change Float.Model.pack (roundWithAccuracy .binary64 (s * .positive) (q * Nat.pow 2 52)
    (f + -52) .exact) = _
  rw [hsign]

theorem ofNat_narrow {n : Nat} (hn : n ≠ 0) (hlt : n < 0x20000000000000) :
    IsNormal (Float.ofNat n) .positive (n * Nat.pow 2 (52 - n.log2)) (n.log2 - 52) := by
  have hlog : n.log2 < 53 := (Nat.log2_lt hn).2 hlt
  obtain ⟨hq, hmodel⟩ := ofNat_model hn (by omega)
  have hword : n.toUInt64.toNat = n := Nat.mod_eq_of_lt (by omega)
  have hfast : n < 2 ^ 53 ∧ 0 ≤ 22 := ⟨hlt, Nat.zero_le _⟩
  have hx : IsNormal n.toUInt64.toFloat .positive (n * Nat.pow 2 (52 - n.log2)) (n.log2 - 52) := by
    refine ⟨isMantissa_mul hn (by omega), by omega, by omega, hq, ?_⟩
    change Float.Model.pack (UnpackedFloat.ofNat .binary64 n.toUInt64.toNat) = _
    rw [hword, hmodel]
  have hone := hx.mul_one (by omega)
  change IsNormal (Float.ofScientific n false 0) _ _ _
  unfold Float.ofScientific
  rw [dif_pos hfast]
  exact hone

theorem ofNat_normal {n : Nat} (hn : n ≠ 0) (hlog : n.log2 ≤ 1000) :
    ∃ q f, IsNormal (Float.ofNat n) .positive q f ∧ Amounts q f (roundNat n) := by
  by_cases hlt : n < 0x20000000000000
  · have hlog : n.log2 < 53 := (Nat.log2_lt hn).2 hlt
    refine ⟨_, _, ofNat_narrow hn hlt, ?_⟩
    rw [Amounts, roundNat_of_lt hlt, show ((n.log2 : Int) - 52).toNat = 0 by omega,
      show (-((n.log2 : Int) - 52)).toNat = 52 - n.log2 by omega]
    exact Nat.mul_one _
  · exact ofNat_wide (Nat.le_of_not_lt hlt) hlog

theorem toInt_finite {s : Sign} {q n : Nat} {f : Int} (h : Amounts q f n) :
    (Quantity.finite (s.apply q) f).toInt = clampInt (s.apply n) := by
  have hpow : ∀ k : Nat, ((Nat.pow 2 k : Nat) : Int) = Int.pow 2 k := Int.natCast_pow 2
  have hcast : (q : Int) * Int.pow 2 f.toNat = n * Int.pow 2 (-f).toNat := by
    rw [← hpow, ← hpow, ← Int.natCast_mul, ← Int.natCast_mul, h]
  have happly : ∀ a k : Int, s.apply a * k = s.apply (a * k) := by
    intro a k
    cases s
    · exact Int.neg_mul a k
    · rfl
  have hone : Int.pow 2 0 = 1 := rfl
  rw [Quantity.toInt]
  congr 1
  split
  · rw [happly, hcast, show (-f).toNat = 0 by omega, hone, Int.mul_one]
  · have hne : Int.pow 2 (-f).toNat ≠ 0 := by
      rw [← hpow]
      exact Int.natCast_ne_zero.2 (Nat.ne_of_gt (Nat.two_pow_pos _))
    rw [show f.toNat = 0 by omega, hone, Int.mul_one] at hcast
    rw [hcast, ← happly, Int.mul_tdiv_cancel _ hne]

/-- The float is an integer. There are two zeros. -/
inductive Carries : Float → Int → Prop where
  | zero {s : Sign} : Carries (.ofModel (.pack (.zero s))) 0
  | normal {x : Float} {s : Sign} {q n : Nat} {f : Int} (hx : IsNormal x s q f)
      (h : Amounts q f n) : Carries x (s.apply n)

theorem Carries.neg {x : Float} {n : Int} (h : Carries x n) : Carries (-x) (-n) := by
  cases h with
  | @zero s =>
    have hzero : -Float.ofModel (.pack (.zero s)) = .ofModel (.pack (.zero (-s))) := by
      cases s <;> rfl
    rw [hzero]
    exact .zero
  | @normal _ s q n f hx h =>
    have hsign : -s.apply n = (-s).apply n := by
      cases s
      · exact Int.neg_neg _
      · rfl
    rw [hsign]
    exact .normal hx.neg h

theorem Carries.toInt {x : Float} {n : Int} (h : Carries x n) : floatToInt x = clampInt n := by
  cases h with
  | @zero s =>
    cases s <;> decide +kernel
  | normal hx h =>
    rw [floatToInt, hx.quantity, toInt_finite h]

theorem carries_ofNat {n : Nat} (h : n < 0x10000000000000000) :
    Carries (Float.ofNat n) (roundNat n) := by
  by_cases hn : n = 0
  · subst hn
    have hzero : Float.ofNat 0 = .ofModel (.pack (.zero .positive)) := rfl
    rw [hzero]
    exact .zero
  · have hlog : n.log2 < 64 := (Nat.log2_lt hn).2 h
    obtain ⟨q, f, hx, h⟩ := ofNat_normal hn (by omega)
    exact .normal hx h

theorem carries_ofInt {n : Int} (h : n.natAbs < 0x10000000000000000) :
    Carries (Float.ofInt n) (roundInt n) := by
  cases n with
  | ofNat n => exact carries_ofNat h
  | negSucc n => exact (carries_ofNat h).neg

theorem roundInt_neg (n : Int) : roundInt (-n) = -roundInt n := by
  cases n with
  | ofNat n =>
    cases n with
    | zero => rfl
    | succ n => rfl
  | negSucc n => exact (Int.neg_neg _).symm

end PanelSchema.Rounding
