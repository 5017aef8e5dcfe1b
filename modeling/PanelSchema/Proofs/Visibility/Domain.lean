import PanelSchema.Visibility.Test

/-!
The values a bounded binding can take, and how they compare with a literal.
Integers meet as a float holds them; a bound of a range meets them unrounded.
-/

namespace PanelSchema

namespace Quantity

def exact (n : Int) : Quantity :=
  .finite n 0

@[simp] theorem lt_ofInt (m n : Int) :
    (ofInt m).lt (ofInt n) = decide (roundInt m < roundInt n) := by
  change decide (roundInt m * 2 ^ 0 < roundInt n * 2 ^ 0) = _
  simp

@[simp] theorem le_ofInt (m n : Int) :
    (ofInt m).le (ofInt n) = decide (roundInt m ≤ roundInt n) := by
  change decide (roundInt m * 2 ^ 0 ≤ roundInt n * 2 ^ 0) = _
  simp

theorem exact_le_iff {q : Quantity} {hi : Int} (h : q.floor? = some hi) (n : Int) :
    (exact n).le q = true ↔ n ≤ hi := by
  cases q with
  | infinite negative => cases h
  | undefined => cases h
  | finite m e =>
    change decide (n * 2 ^ (0 - min 0 e).toNat ≤ m * 2 ^ (e - min 0 e).toNat) = true ↔ _
    change (if 0 ≤ e then some (m * 2 ^ e.toNat) else some (m.fdiv (2 ^ (-e).toNat))) = _ at h
    rw [decide_eq_true_iff]
    by_cases hpos : 0 ≤ e
    · have hmin : min 0 e = 0 := by omega
      rw [if_pos hpos, Option.some_inj] at h
      rw [hmin, ← h]
      simp
    · have hmin : min 0 e = e := by omega
      have hunit : (0 : Int) < 2 ^ (-e).toNat := Int.pow_pos (by decide)
      rw [if_neg hpos, Option.some_inj] at h
      rw [hmin, ← h, Int.fdiv_eq_ediv_of_nonneg _ (Int.le_of_lt hunit),
        Int.le_ediv_iff_mul_le hunit]
      simp

theorem le_exact_iff {q : Quantity} {lo : Int} (h : q.ceil? = some lo) (n : Int) :
    q.le (exact n) = true ↔ lo ≤ n := by
  obtain ⟨hi, hhi, rfl⟩ := Option.map_eq_some_iff.1 h
  have hmirror : q.le (exact n) = (exact (-n)).le q.neg := by
    cases q with
    | infinite negative => cases hhi
    | undefined => cases hhi
    | finite m e =>
      change decide (m * 2 ^ (e - min e 0).toNat ≤ n * 2 ^ (0 - min e 0).toNat) =
        decide (-n * 2 ^ (0 - min 0 e).toNat ≤ -m * 2 ^ (e - min 0 e).toNat)
      rw [Int.min_comm 0 e, Int.neg_mul, Int.neg_mul]
      simp
  rw [hmirror, exact_le_iff hhi]
  omega

end Quantity

theorem TestScope.differs_ofInt (m n : Int) :
    TestScope.differs (.ofInt n) m = (roundInt m != roundInt n) := by
  change decide ((1 : Int) * 2 ^ 0 <
    ((roundInt m * 2 ^ 0 - roundInt n * 2 ^ 0).natAbs : Int) * 2 ^ 52) = _
  rw [Bool.eq_iff_iff, decide_eq_true_iff, bne_iff_ne]
  constructor
  · intro hlt heq
    simp [heq] at hlt
  · intro hne
    have hpos : 1 ≤ (roundInt m * 2 ^ 0 - roundInt n * 2 ^ 0).natAbs := by omega
    omega

/-- Whether an integer that fits is one of the values. -/
def Domain.Contains : Domain → Int → Prop
  | .values ns, n => n ∈ ns
  | .range min max, n =>
    leastInt ≤ n ∧ n ≤ greatestInt ∧
      (Quantity.ofFloat min).le (.exact n) = true ∧ (Quantity.exact n).le (.ofFloat max) = true

/-- Few enough to be listed. The width of a range is measured against the cap as a
float holds the two, and its ends have to fit. -/
def Domain.Listable (cap : Nat) : Domain → Prop
  | .values ns => ns.length ≤ cap
  | .range min max =>
    ∃ lo hi, (Quantity.ofFloat min).ceil? = some lo ∧ (Quantity.ofFloat max).floor? = some hi ∧
      leastInt ≤ lo ∧ hi ≤ greatestInt + 1 ∧ roundInt (hi - lo) < roundNat cap

theorem Domain.contains_range_iff {min max : Float} {lo hi : Int}
    (hlo : (Quantity.ofFloat min).ceil? = some lo)
    (hhi : (Quantity.ofFloat max).floor? = some hi) (n : Int) :
    (Domain.range min max).Contains n ↔
      leastInt ≤ n ∧ n ≤ greatestInt ∧ lo ≤ n ∧ n ≤ hi := by
  rw [Domain.Contains, Quantity.le_exact_iff hlo, Quantity.exact_le_iff hhi]

theorem mem_intsBetween {lo hi n : Int} : n ∈ intsBetween lo hi ↔ lo ≤ n ∧ n ≤ hi := by
  unfold intsBetween
  rw [List.mem_map]
  constructor
  · rintro ⟨i, hi, rfl⟩
    rw [List.mem_range] at hi
    omega
  · rintro ⟨hlo, hhi⟩
    refine ⟨(n - lo).toNat, ?_, by omega⟩
    rw [List.mem_range]
    omega

theorem Domain.mem_of_members? {d : Domain} {cap : Nat} {ns : List Int}
    (h : d.members? cap = some ns) {n : Int} (hn : d.Contains n) : n ∈ ns := by
  cases d with
  | values ms =>
    rw [Domain.members?] at h
    split at h
    · cases h
      exact hn
    · cases h
  | range min max =>
    rw [Domain.members?] at h
    split at h
    · rename_i lo hi hlo hhi
      rw [contains_range_iff hlo hhi] at hn
      split at h
      · omega
      · split at h
        · cases h
        · cases h
          rw [mem_intsBetween]
          unfold clampInt
          omega
    · cases h

theorem Domain.members?_of_listable {d : Domain} {cap : Nat} (h : d.Listable cap) {k : Int}
    (hk : d.Contains k) : ∃ ns, d.members? cap = some ns ∧ ∀ n, n ∈ ns ↔ d.Contains n := by
  cases d with
  | values ns => exact ⟨ns, if_pos h, fun n => Iff.rfl⟩
  | range min max =>
    obtain ⟨lo, hi, hlo, hhi, hleast, hgreatest, hwidth⟩ := h
    have hk := (contains_range_iff hlo hhi k).1 hk
    refine ⟨intsBetween (clampInt lo) (clampInt hi), ?_, ?_⟩
    · unfold Domain.members?
      simp only [hlo, hhi]
      rw [if_neg (by omega), if_neg (by omega)]
    · intro n
      rw [mem_intsBetween, contains_range_iff hlo hhi]
      unfold clampInt
      omega

end PanelSchema
