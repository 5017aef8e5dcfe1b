import PanelSchema.Proofs.Visibility.Exact

/-!
What a comparison with an integer lists. A float holds every integer up to `2 ^ 53`, so below it
a bounded binding is asked to be one of the members that satisfy the comparison, in the order of
its domain. The members of a range are counted as a float would count them, which tells more of
them than the cap allows from fewer unless there are more than `2 ^ 53` of both.
-/

namespace PanelSchema

open Syntax (Expr BinaryOp)

/-! ### Integers that a float holds -/

/-- A float holds all integers up to this one. -/
def exactLimit : Nat := 0x20000000000000

theorem roundNat_of_le {n : Nat} (h : n ≤ exactLimit) : roundNat n = n := by
  rcases Nat.lt_or_eq_of_le h with hlt | rfl
  · exact roundNat_of_lt hlt
  · decide

theorem roundInt_of_le {n : Int} (h : n.natAbs ≤ exactLimit) : roundInt n = n := by
  cases n with
  | ofNat n => exact congrArg Int.ofNat (roundNat_of_le h)
  | negSucc n =>
    have hround : roundNat (n + 1) = n + 1 := roundNat_of_le h
    rw [roundInt, hround]
    rfl

theorem exactLimit_le_roundNat {n : Nat} (h : exactLimit ≤ n) : exactLimit ≤ roundNat n := by
  have hne : n ≠ 0 := by
    rintro rfl
    cases h
  have hlog : 53 ≤ n.log2 := (Nat.le_log2 hne).2 h
  -- Cutting the excess bits off leaves 53 of them, the first of which is set.
  have hcut : exactLimit ≤ n / Nat.pow 2 (n.log2 + 1 - 53) * Nat.pow 2 (n.log2 + 1 - 53) := by
    have hlow : Nat.pow 2 52 ≤ n / Nat.pow 2 (n.log2 + 1 - 53) := by
      apply (Nat.le_div_iff_mul_le (Nat.two_pow_pos _)).2
      calc Nat.pow 2 52 * Nat.pow 2 (n.log2 + 1 - 53)
          = Nat.pow 2 (52 + (n.log2 + 1 - 53)) := (Nat.pow_add 2 52 _).symm
        _ = Nat.pow 2 n.log2 := by rw [show 52 + (n.log2 + 1 - 53) = n.log2 by omega]
        _ ≤ n := Nat.log2_self_le hne
    have hunit : Nat.pow 2 1 ≤ Nat.pow 2 (n.log2 + 1 - 53) :=
      Nat.pow_le_pow_right (by decide) (by omega)
    exact Nat.mul_le_mul hlow hunit
  unfold roundNat
  dsimp only
  split
  · exact hcut
  · split <;> exact Nat.le_trans hcut (Nat.mul_le_mul_right _ (Nat.le_add_right _ _))

theorem roundNat_le_iff {m n : Nat} (h : m ≤ exactLimit ∨ n < exactLimit) :
    roundNat m ≤ roundNat n ↔ m ≤ n := by
  by_cases hm : m ≤ exactLimit
  · rw [roundNat_of_le hm]
    by_cases hn : n ≤ exactLimit
    · rw [roundNat_of_le hn]
    · have := exactLimit_le_roundNat (n := n) (by omega)
      omega
  · have hn : n < exactLimit := h.resolve_left hm
    have := exactLimit_le_roundNat (n := m) (by omega)
    rw [roundNat_of_lt hn]
    omega

/-! ### Members of a domain -/

theorem pairwise_intsBetween (lo hi : Int) : (intsBetween lo hi).Pairwise (· < ·) := by
  unfold intsBetween
  rw [List.pairwise_map]
  exact List.pairwise_lt_range.imp fun h => by omega

theorem length_intsBetween (lo hi : Int) : (intsBetween lo hi).length = (hi + 1 - lo).toNat := by
  simp [intsBetween]

/-- The members of a domain in their order: the values as they are declared, and the integers
of a range from the least to the greatest. -/
inductive Domain.Lists : Domain → List Int → Prop where
  | values (ns : List Int) : Lists (.values ns) ns
  | range {min max : Float} {lo hi : Int} {ns : List Int}
      (hlo : (Quantity.ofFloat min).ceil? = some lo)
      (hhi : (Quantity.ofFloat max).floor? = some hi) (hordered : ns.Pairwise (· < ·))
      (hmem : ∀ n, n ∈ ns ↔ lo ≤ n ∧ n ≤ hi) : Lists (.range min max) ns

/-- Whether a domain of `count` members has too many of them. Those of a range are counted as a
float would count them. -/
def Domain.exceeds (cap count : Nat) : Domain → Bool
  | .values _ => cap < count
  | .range _ _ => 0 < count && roundNat cap ≤ roundNat (count - 1)

theorem Domain.exceeds_iff {cap count : Nat} (h : cap ≤ exactLimit ∨ count ≤ exactLimit)
    (d : Domain) : d.exceeds cap count = true ↔ cap < count := by
  cases d with
  | values ns => simp [exceeds]
  | range min max =>
    rw [exceeds, Bool.and_eq_true, decide_eq_true_iff, decide_eq_true_iff]
    constructor
    · rintro ⟨hpos, hle⟩
      rw [roundNat_le_iff (h.imp_right fun _ => by omega)] at hle
      omega
    · intro hlt
      refine ⟨by omega, ?_⟩
      rw [roundNat_le_iff (h.imp_right fun _ => by omega)]
      omega

theorem eq_intsBetween {lo hi : Int} {ns : List Int} (hordered : ns.Pairwise (· < ·))
    (hmem : ∀ n, n ∈ ns ↔ lo ≤ n ∧ n ≤ hi) : ns = intsBetween lo hi := by
  have hperm : ns.Perm (intsBetween lo hi) := by
    rw [List.perm_ext_iff_of_nodup (hordered.imp fun h => by omega)
      ((pairwise_intsBetween lo hi).imp fun h => by omega)]
    intro n
    rw [hmem, mem_intsBetween]
  exact hperm.eq_of_pairwise (fun a b _ _ hab hba => by omega) hordered
    (pairwise_intsBetween lo hi)

/-- The members are listed unless there are too many. -/
theorem Domain.Lists.members? {d : Domain} {ns : List Int} (h : d.Lists ns)
    (hsmall : ∀ n ∈ ns, n.natAbs ≤ exactLimit) (cap : Nat) :
    (d.members? cap).getD [] = if d.exceeds cap ns.length then [] else ns := by
  cases h with
  | values ns =>
    unfold Domain.members? exceeds
    by_cases hfits : ns.length ≤ cap
    · simp [hfits, Nat.not_lt.2 hfits]
    · simp [hfits, Nat.lt_of_not_le hfits]
  | @range min max lo hi ns hlo hhi hordered hmem =>
    obtain rfl := eq_intsBetween hordered hmem
    unfold Domain.members? exceeds
    simp only [hlo, hhi, length_intsBetween]
    by_cases hempty : hi < lo
    · have hnone : intsBetween lo hi = [] := by
        rw [← List.length_eq_zero_iff, length_intsBetween]
        omega
      simp [hempty, hnone]
    · have hlo' := hsmall lo ((hmem lo).2 ⟨by omega, by omega⟩)
      have hhi' := hsmall hi ((hmem hi).2 ⟨by omega, by omega⟩)
      unfold exactLimit at hlo' hhi'
      have hfits : ¬(lo < leastInt ∨ greatestInt + 1 < hi) := by
        unfold leastInt greatestInt
        omega
      have hwidth : roundInt (hi - lo) = roundNat ((hi + 1 - lo).toNat - 1) := by
        rw [show hi - lo = ((hi + 1 - lo).toNat - 1 : Nat) by omega]
        rfl
      have hclamped : clampInt lo = lo ∧ clampInt hi = hi := by
        unfold clampInt leastInt greatestInt
        omega
      rw [if_neg hempty, hwidth, hclamped.1, hclamped.2]
      have hpos : 0 < (hi + 1 - lo).toNat := by omega
      by_cases hwide : roundNat cap ≤ roundNat ((hi + 1 - lo).toNat - 1)
      · simp [hwide, hpos]
      · simp [hwide, hfits]

/-! ### Comparisons -/

/-- The comparison of two integers. -/
def Syntax.BinaryOp.relates : BinaryOp → Int → Int → Bool
  | .ne, m, n => m != n
  | .lt, m, n => m < n
  | .le, m, n => m ≤ n
  | .gt, m, n => n < m
  | .ge, m, n => n ≤ m
  | _, _, _ => false

namespace TestScope

variable {s : TestScope} {b : Binding} {op : BinaryOp} {n : Int}

/-- A test that compares a binding with an integer literal, with the operator as the binding
sees it. -/
inductive ComparesInt (s : TestScope) : Expr → Binding → BinaryOp → Int → Prop where
  | right {m l op r b n} (hb : s.bindings.resolve? l = some b)
      (hn : literalValue? r = some (.int n)) : ComparesInt s (.binary m l op r) b op n
  | left {m l op r b n} (hn : literalValue? l = some (.int n))
      (hb : s.bindings.resolve? r = some b) : ComparesInt s (.binary m l op r) b op.swapped n

theorem ComparesInt.asks {e : Expr} (h : s.ComparesInt e b op n) (hop : Compares op) :
    (s.visibilityOf e).result = .ok (s.asksFor b op (.int n)) := by
  have hread : ∀ {e : Expr} {op : BinaryOp}, Compares op → literalValue? e = some (.int n) →
      (s.compareWith b op e).result = .ok (s.asksFor b op (.int n)) := by
    intro e op hop hn
    have hliteral := literal?_of_literalValue? s hn
    have hstays : ¬s.NegatesLeast e :=
      (s.literal?_result e).1 ⟨some (.int n), by rw [hliteral]; rfl⟩
    rw [compareWith_result hop hstays, literalOf?, hliteral]
    rfl
  cases h with
  | right hb hn =>
    rw [visibilityOf_comparison hop, TestScope.compare, hb, Bindings.resolve?_of_literalValue? _ hn]
    exact hread hop hn
  | @left m l op r b n hn hb =>
    have hwritten : Compares op := by
      have := hop.swapped
      rwa [BinaryOp.swapped_swapped] at this
    rw [visibilityOf_comparison hwritten, TestScope.compare, hb,
      Bindings.resolve?_of_literalValue? _ hn]
    exact hread hop hn

theorem asksFor_bounded {d : Domain} (hkind : b.kind = .bounded d)
    (hop : op = .ne ∨ op.isOrdering = true) :
    s.asksFor b op (.int n) = s.listed b.path d fun k => op.relates (roundInt k) (roundInt n) := by
  have hbounds : bounds? b (.int n) = some (d, .ofInt n) := by
    rw [bounds?, hkind]
    rfl
  rcases hop with rfl | hop
  · unfold asksFor
    rw [hbounds]
    change s.listed b.path d (differs (.ofInt n)) = _
    congr 1
    funext k
    exact differs_ofInt k n
  · rw [s.asksFor_ordering b hop, hbounds]
    change s.listed b.path d (fun k => holds op (.ofInt k) (.ofInt n)) = _
    congr 1
    funext k
    cases op with
    | lt | le | gt | ge => simp [holds, BinaryOp.relates]
    | _ => cases hop

theorem conditions_listed (path : String) (ks : List Int) :
    (Visibility.ofConditions (ks.map fun k => Condition.single path (.int k))).conditions =
      ks.eraseDups.map fun k => Condition.single path (.int k) := by
  induction ks using List.reverseRecOn with
  | nil => rfl
  | append_singleton ks k ih =>
    have hcontains : (ks.eraseDups.map fun k => Condition.single path (.int k)).contains
        (.single path (.int k)) = ks.eraseDups.contains k := by
      rw [List.contains_eq_any_beq, List.any_map, List.contains_eq_any_beq]
      congr 1
      funext i
      rw [Function.comp, Bool.eq_iff_iff, Condition.beq_iff]
      simp [Condition.single]
    rw [List.map_append, Visibility.ofConditions, List.foldl_append, eraseDups_concat]
    change (Visibility.add (Visibility.ofConditions _) _).conditions = _
    rw [Visibility.conditions_add, ih, adding, adding]
    dsimp only
    rw [hcontains]
    split
    · rfl
    · rw [List.map_append]
      rfl

/-- Where no integer is rounded, a comparison of a bounded binding with a literal asks for the
members that satisfy it, in their order and each of them once. It asks for nothing exactly if
there are too many members, or none, or none of them satisfies the comparison; and there are too
many if they are more than the cap, except that past the limit the two are compared as rounded. -/
theorem visibilityOf_lists {e : Expr} {d : Domain} {ns : List Int}
    (hcompared : s.ComparesInt e b op n) (hop : op = .ne ∨ op.isOrdering = true)
    (hkind : b.kind = .bounded d) (hns : d.Lists ns)
    (hsmall : ∀ k ∈ ns, k.natAbs ≤ exactLimit) (hn : n.natAbs ≤ exactLimit) :
    ∃ v, (s.visibilityOf e).result = .ok v ∧
      (d.exceeds s.cap ns.length = false →
        v.conditions = (ns.filter (op.relates · n)).eraseDups.map fun k =>
          .single b.path (.int k)) ∧
      (v.isAlways = true ↔ d.exceeds s.cap ns.length = true ∨ ns = [] ∨
        ∀ k ∈ ns, op.relates k n = false) ∧
      (s.cap ≤ exactLimit ∨ ns.length ≤ exactLimit →
        (d.exceeds s.cap ns.length = true ↔ s.cap < ns.length)) := by
  refine ⟨_, hcompared.asks (.inr hop), ?_, ?_, fun hexact => Domain.exceeds_iff hexact d⟩
  all_goals
    rw [asksFor_bounded hkind hop, roundInt_of_le hn, listed, hns.members? hsmall]
  · intro hfits
    have hkept : ns.filter (fun k => op.relates (roundInt k) n) = ns.filter (op.relates · n) :=
      List.filter_congr fun k hk => by rw [roundInt_of_le (hsmall k hk)]
    rw [hfits, if_neg Bool.false_ne_true, hkept, conditions_listed]
  · rw [Visibility.isAlways_ofConditions, List.isEmpty_map, List.isEmpty_iff,
      List.filter_eq_nil_iff]
    cases d.exceeds s.cap ns.length with
    | true => simp
    | false =>
      simp only [Bool.false_eq_true, if_false, false_or, Bool.not_eq_true]
      constructor
      · intro hnone
        exact .inr fun k hk => roundInt_of_le (hsmall k hk) ▸ hnone k hk
      · rintro (rfl | hnone) k hk
        · cases hk
        · rw [roundInt_of_le (hsmall k hk)]
          exact hnone k hk

/-! ### Instances -/

section Instances

/-- A local for the mode, with the values it can have. -/
private def modes (d : Domain) (cap : Nat) : TestScope where
  bindings := ⟨[("mode", { path := "_Mode", kind := .bounded d })]⟩
  catalog := {}
  cap := cap

/-- Of the modes 2, 0, 2 and 5, those that `1 <= mode` lists are 2 and 5. -/
theorem visibilityOf_lists_modes :
    ∃ v, ((modes (.values [2, 0, 2, 5]) 4).visibilityOf
        (.binary default (.integer default 1) .le (.name default "mode"))).result = .ok v ∧
      v.conditions = [.single "_Mode" (.int 2), .single "_Mode" (.int 5)] ∧
      v.isAlways = false := by
  have hcompared : (modes (.values [2, 0, 2, 5]) 4).ComparesInt
      (.binary default (.integer default 1) .le (.name default "mode"))
      { path := "_Mode", kind := .bounded (.values [2, 0, 2, 5]) } .ge 1 := .left rfl rfl
  obtain ⟨v, hv, hlists, halways, -⟩ := visibilityOf_lists hcompared (.inr rfl) rfl
    (.values [2, 0, 2, 5]) (by decide) (by decide)
  refine ⟨v, hv, hlists rfl, ?_⟩
  rw [Bool.eq_false_iff, ne_eq, halways]
  decide

/-- A range of as many members as the cap allows is not listed where the two are rounded, though
its least member satisfies the comparison. -/
theorem visibilityOf_lists_not_rounded :
    let d := Domain.range (-4503599627370496) 4503599627370496
    let s := modes d 9007199254740993
    let e : Expr := .binary default (.name default "mode") .lt
      (.unary default .minus (.integer default 4503599627370495))
    s.ComparesInt e { path := "_Mode", kind := .bounded d } .lt (-4503599627370495) ∧
    (∃ ns, d.Lists ns ∧ (∀ k ∈ ns, k.natAbs ≤ exactLimit) ∧ ns.length = s.cap ∧
      -4503599627370496 ∈ ns) ∧
    BinaryOp.lt.relates (-4503599627370496) (-4503599627370495) = true ∧
    (s.visibilityOf e).result = .ok .always := by
  intro d s e
  have hcompared : s.ComparesInt e { path := "_Mode", kind := .bounded d } .lt
      (-4503599627370495) := .right rfl rfl
  have hnone : d.members? s.cap = none := by decide
  refine ⟨hcompared, ⟨intsBetween (-4503599627370496) 4503599627370496, ?_, ?_, ?_, ?_⟩,
    by decide, ?_⟩
  · exact .range (by decide) (by decide) (pairwise_intsBetween _ _) fun n => mem_intsBetween
  · intro k hk
    rw [mem_intsBetween] at hk
    unfold exactLimit
    omega
  · rw [length_intsBetween]
    rfl
  · rw [mem_intsBetween]
    decide
  · rw [hcompared.asks (.inr (.inr rfl)), asksFor_bounded rfl (.inr rfl), listed, hnone]
    rfl

end Instances

end TestScope

end PanelSchema
