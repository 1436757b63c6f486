import ResponseFraming.Decimal
import Mathlib

/-!
# Rounding a decimal number

`Binary64.ofDecimal` computes with natural numbers; here it is held against the rational numbers
that these stand for.

* `ratio_eq`: a ratio is the number it is meant to be.
* `nearest_roundDiv`: a quotient is rounded to the nearest number, a half to the even one.
* `binade_lastPlace`: the exponent of the last binary digit.
* `ofDecimal_eq_finite`: **a decimal number between the ends of the interval of a binary number
  gives that number.**
* `ofDecimal_cases`: a number that is rounded is zero, canonical or infinite.
-/

namespace ResponseFraming.Binary64

/-! ## Ratios -/

theorem zpow_eq_div (a : ℚ) (e : Int) : a ^ e = a ^ e.toNat / a ^ (-e).toNat := by
  rcases Int.le_total 0 e with he | he
  · obtain ⟨n, rfl⟩ := Int.eq_ofNat_of_zero_le he
    simp
  · obtain ⟨n, rfl⟩ := Int.exists_eq_neg_ofNat he
    simp

theorem ratio_snd_pos (n : Nat) (e f : Int) : 0 < (ratio n e f).2 := by
  simp only [ratio, Nat.shiftLeft_eq, Nat.pow_eq]
  positivity

theorem ratio_fst_pos {n : Nat} (hn : 0 < n) (e f : Int) : 0 < (ratio n e f).1 := by
  simp only [ratio, Nat.shiftLeft_eq, Nat.pow_eq]
  positivity

theorem ratio_eq (n : Nat) (e f : Int) :
    ((ratio n e f).1 : ℚ) / (ratio n e f).2 = n * 2 ^ e * 10 ^ f := by
  rw [zpow_eq_div 2 e, zpow_eq_div 10 f]
  simp only [ratio, Nat.shiftLeft_eq, Nat.pow_eq]
  push_cast
  ring

/-! ## Quotients -/

/-- The natural number next to a rational one, of two the even one. -/
structure Nearest (x : ℚ) (m : Nat) : Prop where
  near : |(m : ℚ) - x| ≤ 1 / 2
  even : |(m : ℚ) - x| = 1 / 2 → m % 2 = 0

section Quotients

variable {q : Nat} {t : ℚ}

theorem nearest_of_lt_half (h0 : 0 ≤ t) (h : t < 1 / 2) : Nearest (q + t) q := by
  have habs : |(q : ℚ) - (q + t)| = t := by rw [sub_add_cancel_left, abs_neg, abs_of_nonneg h0]
  exact ⟨habs.trans_le h.le, fun heq => absurd (habs.symm.trans heq) h.ne⟩

theorem nearest_of_half_lt (h : 1 / 2 < t) (h1 : t < 1) : Nearest (q + t) (q + 1) := by
  have habs : |((q + 1 : ℕ) : ℚ) - (q + t)| = 1 - t := by
    rw [Nat.cast_add, Nat.cast_one, add_sub_add_left_eq_sub, abs_of_nonneg (by linarith)]
  refine ⟨habs.trans_le (by linarith), fun heq => ?_⟩
  have := habs.symm.trans heq
  linarith

theorem nearest_half (q : Nat) : Nearest (q + 1 / 2) (q + q % 2) := by
  refine ⟨?_, fun _ => by omega⟩
  rcases Nat.mod_two_eq_zero_or_one q with h | h <;>
  · rw [h, abs_le]
    push_cast
    constructor <;> linarith

theorem nearest_roundDiv (n : Nat) {d : Nat} (hd : 0 < d) :
    Nearest ((n : ℚ) / d) (roundDiv n d) := by
  have hd' : (0 : ℚ) < d := by exact_mod_cast hd
  have hn : (n : ℚ) = d * (n / d : ℕ) + (n % d : ℕ) := by exact_mod_cast (Nat.div_add_mod n d).symm
  have hx : (n : ℚ) / d = (n / d : ℕ) + (n % d : ℕ) / (d : ℚ) := by
    rw [hn, add_div, mul_div_cancel_left₀ _ hd'.ne']
  have h1 : (n % d : ℕ) / (d : ℚ) < 1 := by
    rw [div_lt_one hd']
    exact_mod_cast Nat.mod_lt n hd
  unfold roundDiv
  rw [hx]
  dsimp only
  split_ifs with hless hmore
  · refine nearest_of_lt_half (by positivity) ?_
    rw [div_lt_iff₀ hd']
    have : (2 : ℚ) * (n % d : ℕ) < d := by exact_mod_cast hless
    linarith
  · refine nearest_of_half_lt ?_ h1
    rw [lt_div_iff₀ hd']
    have : (d : ℚ) < 2 * (n % d : ℕ) := by exact_mod_cast hmore
    linarith
  · have hhalf : (n % d : ℕ) / (d : ℚ) = 1 / 2 := by
      have : (d : ℚ) = 2 * (n % d : ℕ) := by exact_mod_cast (by omega : d = 2 * (n % d))
      rw [div_eq_iff hd'.ne']
      linarith
    rw [hhalf]
    exact nearest_half (n / d)

end Quotients

theorem Nearest.unique {x : ℚ} {m m' : Nat} (h : Nearest x m) (h' : Nearest x m') : m = m' := by
  obtain ⟨hlow, hhigh⟩ := abs_le.mp h.near
  obtain ⟨hlow', hhigh'⟩ := abs_le.mp h'.near
  have hle : m ≤ m' + 1 := by exact_mod_cast (by linarith : (m : ℚ) ≤ m' + 1)
  have hle' : m' ≤ m + 1 := by exact_mod_cast (by linarith : (m' : ℚ) ≤ m + 1)
  -- two that are next to each other are both half a unit away
  rcases Nat.lt_trichotomy m m' with hlt | heq | hlt
  · have hm : (m' : ℚ) = m + 1 := by exact_mod_cast (by omega : m' = m + 1)
    have heven := h.even (by rw [abs_of_nonpos] <;> linarith)
    have heven' := h'.even (by rw [abs_of_nonneg] <;> linarith)
    omega
  · exact heq
  · have hm : (m : ℚ) = m' + 1 := by exact_mod_cast (by omega : m = m' + 1)
    have heven := h.even (by rw [abs_of_nonneg] <;> linarith)
    have heven' := h'.even (by rw [abs_of_nonpos] <;> linarith)
    omega

/-! ## The last binary place -/

/-- The last of 53 binary digits of a number stands at an exponent, or that is the least one. -/
structure Binade (x : ℚ) (q : Int) : Prop where
  least : -1074 ≤ q
  lt : x < 2 ^ (53 + q)
  le : q = -1074 ∨ 2 ^ (52 + q) ≤ x

theorem two_zpow_add (k : Nat) (q : Int) : (2 : ℚ) ^ (k + q) = 2 ^ k * 2 ^ q := by
  rw [zpow_add₀ two_ne_zero, zpow_natCast]

theorem two_zpow_lt_iff {a b : Int} : (2 : ℚ) ^ a < 2 ^ b ↔ a < b :=
  zpow_lt_zpow_iff_right₀ one_lt_two

theorem Binade.unique {x : ℚ} {q r : Int} (hq : Binade x q) (hr : Binade x r) : q = r := by
  have hle : ∀ {q r : Int}, Binade x q → Binade x r → q ≤ r := by
    intro q r hq hr
    rcases hq.le with rfl | hle
    · exact hr.least
    · have := two_zpow_lt_iff.mp (hle.trans_lt hr.lt)
      omega
  exact le_antisymm (hle hq hr) (hle hr hq)

/-- Below the least exponent there is only that one. -/
theorem binade_max {x : ℚ} {g : Int} (hlt : x < 2 ^ (53 + g)) (hle : (2 : ℚ) ^ (52 + g) ≤ x) :
    Binade x (max g (-1074)) := by
  rcases Int.le_total (-1074) g with hg | hg
  · rw [max_eq_left hg]
    exact ⟨hg, hlt, .inr hle⟩
  · rw [max_eq_right hg]
    refine ⟨le_rfl, hlt.trans_le ?_, .inl rfl⟩
    exact zpow_le_zpow_right₀ one_le_two (by omega)

theorem binade_lastPlace {n d : Nat} (hn : 0 < n) (hd : 0 < d) :
    Binade ((n : ℚ) / d) (lastPlace n d) := by
  have hd' : (0 : ℚ) < d := by exact_mod_cast hd
  obtain ⟨guess, hguess⟩ : ∃ guess : Int, guess = (n.log2 : Int) - d.log2 - 53 := ⟨_, rfl⟩
  -- the quotient of the leading digits is right, or one too small
  have hnle : (2 : ℚ) ^ (n.log2 : Int) ≤ n := by exact_mod_cast Nat.log2_self_le hn.ne'
  have hnlt : (n : ℚ) < 2 ^ (n.log2 + 1 : Int) := by exact_mod_cast Nat.lt_log2_self
  have hdle : (2 : ℚ) ^ (d.log2 : Int) ≤ d := by exact_mod_cast Nat.log2_self_le hd.ne'
  have hdlt : (d : ℚ) < 2 ^ (d.log2 + 1 : Int) := by exact_mod_cast Nat.lt_log2_self
  have hlow : (2 : ℚ) ^ (52 + guess) ≤ n / d := by
    rw [le_div_iff₀ hd']
    calc (2 : ℚ) ^ (52 + guess) * d ≤ 2 ^ (52 + guess) * 2 ^ (d.log2 + 1 : Int) := by gcongr
      _ = 2 ^ (n.log2 : Int) := by
        rw [← zpow_add₀ two_ne_zero, hguess]
        congr 1
        ring
      _ ≤ n := hnle
  have hhigh : (n : ℚ) / d < 2 ^ (54 + guess) := by
    rw [div_lt_iff₀ hd']
    calc (n : ℚ) < 2 ^ (n.log2 + 1 : Int) := hnlt
      _ = 2 ^ (54 + guess) * 2 ^ (d.log2 : Int) := by
        rw [← zpow_add₀ two_ne_zero, hguess]
        congr 1
        ring
      _ ≤ 2 ^ (54 + guess) * d := by gcongr
  have htest : n * (ratio 1 guess 0).2 < 1 <<< 53 * d * (ratio 1 guess 0).1 ↔
      (n : ℚ) / d < 2 ^ (53 + guess) := by
    have hb : (0 : ℚ) < (ratio 1 guess 0).2 := by exact_mod_cast ratio_snd_pos 1 guess 0
    have hratio := ratio_eq 1 guess 0
    rw [div_eq_iff hb.ne', zpow_zero, Nat.cast_one, one_mul, mul_one] at hratio
    rw [← Nat.cast_lt (α := ℚ), div_lt_iff₀ hd', zpow_add₀ two_ne_zero, Nat.shiftLeft_eq]
    push_cast
    rw [hratio, ← mul_lt_mul_iff_of_pos_right hb (b := (n : ℚ))]
    ring_nf
  unfold lastPlace
  dsimp only
  rw [← hguess]
  split_ifs with hless
  · exact binade_max (htest.mp hless) hlow
  · refine binade_max ?_ ?_
    · rwa [show 53 + (guess + 1) = 54 + guess by ring]
    · rw [show 52 + (guess + 1) = 53 + guess by ring]
      exact not_lt.mp (hless ∘ htest.mpr)

/-- The digits of a number in units of its last place. -/
theorem Binade.digits {x : ℚ} {q : Int} {m : Nat} (hx : Binade x q) (hm : Nearest (x / 2 ^ q) m) :
    m ≤ 2 ^ 53 ∧ (q = -1074 ∨ 2 ^ 52 ≤ m) := by
  have hq : (0 : ℚ) < 2 ^ q := by positivity
  obtain ⟨hlow, hhigh⟩ := abs_le.mp hm.near
  constructor
  · have hlt : x / 2 ^ q < 2 ^ 53 := by
      rw [div_lt_iff₀ hq, ← two_zpow_add]
      exact hx.lt
    have hm : (m : ℚ) < 2 ^ 53 + 1 := by linarith
    exact Nat.lt_succ_iff.mp (by exact_mod_cast hm)
  · refine hx.le.imp_right fun hle => ?_
    have hle : 2 ^ 52 ≤ x / 2 ^ q := by
      rw [le_div_iff₀ hq, ← two_zpow_add]
      exact hle
    have hm : (2 : ℚ) ^ 52 < m + 1 := by linarith
    exact Nat.lt_succ_iff.mp (by exact_mod_cast hm)

/-! ## Intervals -/

/-- The finite numbers that are not zero, each in one way. -/
structure Canonical (m : Nat) (e : Int) : Prop where
  pos : 0 < m
  lt : m < 2 ^ 53
  least : -1074 ≤ e
  most : e ≤ 971
  normal : e = -1074 ∨ 2 ^ 52 ≤ m

/-- How far below a number its interval begins, in units of its last place: half way to the next
number. -/
def below (m : Nat) (e : Int) : ℚ := if m = 2 ^ 52 ∧ -1074 < e then 1 / 4 else 1 / 2

/-- The interval of a number: what is nearest to it, and the ends if its last digit is even. -/
structure Rounds (m : Nat) (e : Int) (x : ℚ) : Prop where
  low : (m - below m e) * 2 ^ e ≤ x
  high : x ≤ (m + 1 / 2) * 2 ^ e
  inside : m % 2 = 1 → (m - below m e) * 2 ^ e < x ∧ x < (m + 1 / 2) * 2 ^ e

section Intervals

variable {m : Nat} {e : Int} {x : ℚ}

theorem below_le (m : Nat) (e : Int) : below m e ≤ 1 / 2 := by
  unfold below
  split_ifs <;> norm_num

/-- The interval in units of the last place. -/
theorem Rounds.units (hx : Rounds m e x) :
    m - below m e ≤ x / 2 ^ e ∧ x / 2 ^ e ≤ m + 1 / 2 ∧
      (m % 2 = 1 → m - below m e < x / 2 ^ e ∧ x / 2 ^ e < m + 1 / 2) := by
  have he : (0 : ℚ) < 2 ^ e := by positivity
  rw [le_div_iff₀ he, div_le_iff₀ he, lt_div_iff₀ he, div_lt_iff₀ he]
  exact ⟨hx.low, hx.high, hx.inside⟩

/-- What is below the least number of 53 digits has one binary place more. -/
theorem Rounds.binade_below (hx : Rounds (2 ^ 52) e x) (he : -1074 < e)
    (hlt : x / 2 ^ e < 2 ^ 52) :
    Binade x (e - 1) ∧ Nearest (x / 2 ^ (e - 1)) (2 ^ 53) := by
  have hpos : (0 : ℚ) < 2 ^ e := by positivity
  obtain ⟨hlow, -⟩ := hx.units
  rw [below, if_pos ⟨rfl, he⟩] at hlow
  push_cast at hlow
  have hdouble : x / 2 ^ (e - 1) = 2 * (x / 2 ^ e) := by
    rw [zpow_sub_one₀ two_ne_zero]
    field_simp
  refine ⟨⟨by omega, ?_, .inr ?_⟩, abs_le.mpr ⟨?_, ?_⟩, fun _ => rfl⟩
  · rw [show 53 + (e - 1) = (52 : ℕ) + e by push_cast; ring, two_zpow_add, ← div_lt_iff₀ hpos]
    exact hlt
  · rw [show 52 + (e - 1) = (51 : ℕ) + e by push_cast; ring, two_zpow_add, ← le_div_iff₀ hpos]
    linarith
  · rw [hdouble]
    push_cast
    linarith
  · rw [hdouble]
    push_cast
    linarith

/-- All else in an interval has the last place of its number. -/
theorem Rounds.binade_self (hx : Rounds m e x) (h : Canonical m e)
    (hy : m = 2 ^ 52 → -1074 < e → 2 ^ 52 ≤ x / 2 ^ e) :
    Binade x e ∧ Nearest (x / 2 ^ e) m := by
  have hpos : (0 : ℚ) < 2 ^ e := by positivity
  have hbelow := below_le m e
  obtain ⟨hlow, hhigh, hinside⟩ := hx.units
  have hm : (m : ℚ) + 1 ≤ 2 ^ 53 := by exact_mod_cast h.lt
  refine ⟨⟨h.least, ?_, ?_⟩, abs_le.mpr ⟨by linarith, by linarith⟩, fun htie => ?_⟩
  · rw [show 53 + e = (53 : ℕ) + e by rfl, two_zpow_add, ← div_lt_iff₀ hpos]
    linarith
  · refine or_iff_not_imp_left.mpr fun hleast => ?_
    rw [show 52 + e = (52 : ℕ) + e by rfl, two_zpow_add, ← le_div_iff₀ hpos]
    rcases (h.normal.resolve_left hleast).eq_or_lt with heq | hlt
    · exact hy heq.symm (h.least.lt_of_ne' hleast)
    · have : (2 : ℚ) ^ 52 + 1 ≤ m := by exact_mod_cast hlt
      linarith
  · -- the ends of an interval are half a unit away, and they are in it only if the digit is even
    by_contra hodd
    obtain ⟨hlow, hhigh⟩ := hinside (Nat.mod_two_ne_zero.mp hodd)
    have hnear : |(m : ℚ) - x / 2 ^ e| < 1 / 2 := abs_lt.mpr ⟨by linarith, by linarith⟩
    exact hnear.ne htie

/-- **A number in the interval has the last place of the number**, unless it is below the least
number of 53 digits and rounds up to it. -/
theorem Rounds.binade (hx : Rounds m e x) (h : Canonical m e) :
    Binade x e ∧ Nearest (x / 2 ^ e) m ∨
      m = 2 ^ 52 ∧ Binade x (e - 1) ∧ Nearest (x / 2 ^ (e - 1)) (2 ^ 53) := by
  by_cases hcase : m = 2 ^ 52 ∧ -1074 < e ∧ x / 2 ^ e < 2 ^ 52
  · obtain ⟨rfl, he, hlt⟩ := hcase
    exact .inr ⟨rfl, hx.binade_below he hlt⟩
  · exact .inl (hx.binade_self h fun hm he => not_lt.mp fun hlt => hcase ⟨hm, he, hlt⟩)

theorem Rounds.bounds (hx : Rounds m e x) (h : Canonical m e) :
    (2 : ℚ) ^ (-1075 : Int) ≤ x ∧ x < 2 ^ (1024 : Int) := by
  have he : (0 : ℚ) < 2 ^ e := by positivity
  have hbelow := below_le m e
  have hm1 : (1 : ℚ) ≤ m := by exact_mod_cast h.pos
  have hm53 : (m : ℚ) + 1 ≤ 2 ^ 53 := by exact_mod_cast h.lt
  constructor
  · calc (2 : ℚ) ^ (-1075 : Int) = 1 / 2 * 2 ^ (-1074 : Int) := by
          rw [show (-1075 : Int) = -1 + -1074 by rfl, zpow_add₀ two_ne_zero, zpow_neg_one, one_div]
      _ ≤ 1 / 2 * 2 ^ e := by gcongr; exacts [one_le_two, h.least]
      _ ≤ (m - below m e) * 2 ^ e := by gcongr; linarith
      _ ≤ x := hx.low
  · calc x ≤ (m + 1 / 2) * 2 ^ e := hx.high
      _ < 2 ^ (53 : Int) * 2 ^ e := by
        rw [show ((2 : ℚ) ^ (53 : Int)) = 2 ^ 53 by norm_cast]
        gcongr
        linarith
      _ ≤ 2 ^ (53 : Int) * 2 ^ (971 : Int) := by gcongr; exacts [one_le_two, h.most]
      _ = 2 ^ (1024 : Int) := by rw [← zpow_add₀ two_ne_zero]; rfl

end Intervals

theorem places_bounds {c : Nat} (hc : 0 < c) (p : Int) :
    (10 : ℚ) ^ (p + (Nat.toDigits 10 c).length - 1) ≤ c * 10 ^ p ∧
      (c : ℚ) * 10 ^ p < 10 ^ (p + (Nat.toDigits 10 c).length) := by
  have hp : (0 : ℚ) < 10 ^ p := by positivity
  have h10 : (10 : ℚ) ≠ 0 := by norm_num
  obtain ⟨k, hk⟩ : ∃ k, (Nat.toDigits 10 c).length = k + 1 :=
    Nat.exists_eq_add_one.mpr Nat.length_toDigits_pos
  have hlt : c < 10 ^ (k + 1) := (Nat.length_toDigits_le_iff (by decide) (by omega)).mp hk.le
  have hle : 10 ^ k ≤ c := by
    rcases Nat.eq_zero_or_pos k with rfl | hk0
    · exact hc
    · have := (Nat.length_toDigits_le_iff (b := 10) (n := c) (by decide) hk0).not
      omega
  rw [hk]
  constructor
  · rw [show p + ((k + 1 : ℕ) : Int) - 1 = k + p by push_cast; ring, zpow_add₀ h10, zpow_natCast]
    exact mul_le_mul_of_nonneg_right (by exact_mod_cast hle) hp.le
  · rw [add_comm p, zpow_add₀ h10, zpow_natCast]
    exact mul_lt_mul_of_pos_right (by exact_mod_cast hlt) hp

theorem Rounds.places {m c : Nat} {e p : Int} (hx : Rounds m e (c * 10 ^ p)) (h : Canonical m e)
    (hc : 0 < c) :
    -330 ≤ p + (Nat.toDigits 10 c).length ∧ p + (Nat.toDigits 10 c).length ≤ 310 := by
  obtain ⟨hsmall, hlarge⟩ := hx.bounds h
  obtain ⟨hplaces, hplaces'⟩ := places_bounds hc p
  constructor
  · by_contra! hlt
    have hpow : (10 : ℚ) ^ (p + (Nat.toDigits 10 c).length) ≤ 10 ^ (-330 : Int) :=
      zpow_le_zpow_right₀ (by norm_num) hlt.le
    have hbound : (10 : ℚ) ^ (-330 : Int) < 2 ^ (-1075 : Int) := by
      have hnat : 2 ^ 1075 < 10 ^ 330 := by decide +kernel
      rw [zpow_neg, zpow_neg]
      exact inv_strictAnti₀ (by positivity) (by exact_mod_cast hnat)
    exact absurd (hplaces'.trans_le hpow) (hbound.trans_le hsmall).not_gt
  · by_contra! hlt
    have hpow : (10 : ℚ) ^ (310 : Int) ≤ 10 ^ (p + (Nat.toDigits 10 c).length - 1) :=
      zpow_le_zpow_right₀ (by norm_num) (by omega)
    have hbound : (2 : ℚ) ^ (1024 : Int) < 10 ^ (310 : Int) := by
      have hnat : 2 ^ 1024 < 10 ^ 310 := by decide +kernel
      exact_mod_cast hnat
    exact absurd (hbound.trans_le (hpow.trans hplaces)) hlarge.not_gt

/-- A number is below a power of two if its digits and the places after them are not too many. -/
theorem not_overflow {mantissa w k : Nat} {q : Int} (hm : mantissa < 2 ^ (w - k)) (hq : q ≤ k)
    (hk : k ≤ w) : ¬ 1 <<< w ≤ mantissa <<< q.toNat := by
  rw [Nat.shiftLeft_eq, Nat.shiftLeft_eq, one_mul, not_le]
  calc mantissa * 2 ^ q.toNat ≤ mantissa * 2 ^ k := by
        gcongr
        exacts [one_le_two, by omega]
    _ < 2 ^ (w - k) * 2 ^ k := by gcongr
    _ = 2 ^ w := by rw [← pow_add, Nat.sub_add_cancel hk]

theorem nearest_units (c : Nat) (p q : Int) :
    Nearest (c * 10 ^ p / 2 ^ q)
      (roundDiv ((ratio c 0 p).1 * (ratio 1 q 0).2) ((ratio c 0 p).2 * (ratio 1 q 0).1)) := by
  have hnumber : ((ratio c 0 p).1 : ℚ) / (ratio c 0 p).2 = c * 10 ^ p := by
    rw [ratio_eq, zpow_zero, mul_one]
  have hunit : ((ratio 1 q 0).1 : ℚ) / (ratio 1 q 0).2 = 2 ^ q := by
    rw [ratio_eq, Nat.cast_one, one_mul, zpow_zero, mul_one]
  have hquotient := nearest_roundDiv ((ratio c 0 p).1 * (ratio 1 q 0).2)
    (Nat.mul_pos (ratio_snd_pos c 0 p) (ratio_fst_pos Nat.one_pos q 0))
  rwa [Nat.cast_mul, Nat.cast_mul, ← div_div_div_eq, hnumber, hunit] at hquotient

/-- **A decimal number in the interval of a binary one is rounded to it.** -/
theorem ofDecimal_eq_finite {m c : Nat} {e p : Int} (h : Canonical m e)
    (hx : Rounds m e (c * 10 ^ p)) (negative : Bool) :
    ofDecimal negative c p = finite negative m e := by
  have hc : 0 < c := by
    rcases Nat.eq_zero_or_pos c with rfl | hc
    · have hpos : (0 : ℚ) < (0 : ℕ) * 10 ^ p := lt_of_lt_of_le (by positivity) (hx.bounds h).1
      simp at hpos
    · exact hc
  obtain ⟨hlow, hhigh⟩ := hx.places h hc
  have hplace := binade_lastPlace (ratio_fst_pos hc 0 p) (ratio_snd_pos c 0 p)
  rw [ratio_eq, zpow_zero, mul_one] at hplace
  have hmantissa := nearest_units c p (lastPlace (ratio c 0 p).1 (ratio c 0 p).2)
  have hshift : 1 <<< 53 = 2 ^ 53 := rfl
  have hmost := h.most
  unfold ofDecimal
  dsimp only
  rw [if_neg (not_or.mpr ⟨hc.ne', hlow.not_gt⟩), if_neg hhigh.not_gt, hshift]
  rcases hx.binade h with ⟨hbinade, hnear⟩ | ⟨rfl, hbinade, hnear⟩
  · rw [hplace.unique hbinade] at hmantissa ⊢
    rw [hmantissa.unique hnear,
      if_neg (not_overflow (w := 1024) (k := 971) h.lt h.most (by decide)), if_neg h.lt.ne]
  · rw [hplace.unique hbinade] at hmantissa ⊢
    have hless : 2 ^ 53 < 2 ^ (1024 - 970) := by decide
    rw [hmantissa.unique hnear,
      if_neg (not_overflow (w := 1024) (k := 970) hless (by omega) (by decide)), if_pos rfl,
      sub_add_cancel]
    rfl

/-- The places after many digits are few if the number is below a power of two. -/
theorem lt_of_not_overflow {mantissa k j : Nat} {q : Int} (hm : 2 ^ k ≤ mantissa)
    (h : ¬ 1 <<< (k + j) ≤ mantissa <<< q.toNat) : q < j := by
  rw [Nat.shiftLeft_eq, Nat.shiftLeft_eq, one_mul] at h
  by_contra! hle
  refine h ?_
  calc 2 ^ (k + j) = 2 ^ k * 2 ^ j := pow_add ..
    _ ≤ mantissa * 2 ^ q.toNat := by
        gcongr
        exacts [one_le_two, by omega]

/-- **A number that is rounded is zero, canonical or infinite.** -/
theorem ofDecimal_cases (negative : Bool) (c : Nat) (p : Int) :
    (∃ m e, ofDecimal negative c p = finite negative m e ∧ (0 < m → Canonical m e)) ∨
      ofDecimal negative c p = infinity negative := by
  unfold ofDecimal
  dsimp only
  split_ifs with hzero hlarge hover hcarry
  · exact .inl ⟨0, 0, rfl, fun hpos => absurd hpos (Nat.lt_irrefl 0)⟩
  · exact .inr rfl
  · exact .inr rfl
  all_goals
    have hc := Nat.pos_of_ne_zero (not_or.mp hzero).1
    have hplace := binade_lastPlace (ratio_fst_pos hc 0 p) (ratio_snd_pos c 0 p)
    rw [ratio_eq, zpow_zero, mul_one] at hplace
    obtain ⟨hmost, hnormal⟩ :=
      hplace.digits (nearest_units c p (lastPlace (ratio c 0 p).1 (ratio c 0 p).2))
    have hleast := hplace.least
    generalize lastPlace (ratio c 0 p).1 (ratio c 0 p).2 = q at *
    generalize roundDiv _ _ = m at *
  · -- the last digit is carried over
    have hq := lt_of_not_overflow (k := 53) (j := 971) hcarry.ge hover
    exact .inl ⟨1 <<< 52, q + 1, rfl,
      fun _ => ⟨by decide, by decide, by omega, by omega, .inr le_rfl⟩⟩
  · refine .inl ⟨m, q, rfl, fun hpos => ⟨hpos, lt_of_le_of_ne hmost hcarry, hleast, ?_, hnormal⟩⟩
    rcases hnormal with rfl | hnormal
    · decide
    · have := lt_of_not_overflow (k := 52) (j := 972) hnormal hover
      omega

end ResponseFraming.Binary64
