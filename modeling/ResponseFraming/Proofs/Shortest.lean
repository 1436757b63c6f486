import ResponseFraming.Proofs.Rounding

/-!
# The shortest decimal number

A binary number is shown with the fewest digits that are rounded to it.

* `roundsTo_iff`: the test on natural numbers.
* `onGrid?_eq_some`, `onGrid?_eq_none`: the multiples of a power of ten in the interval of a number.
* `shortest_spec`: no coarser power of ten has a multiple there, and the nearest one is taken.
* `Shortest.length_le`: no number that is rounded to it has fewer digits.
-/

namespace ResponseFraming.Binary64

section Grids

variable {m c : Nat} {e p : Int} {x y : ℚ}

/-! ## Intervals -/

theorem below_pos (m : Nat) (e : Int) : 0 < below m e := by
  unfold below
  split_ifs <;> norm_num

theorem rounds_self (m : Nat) (e : Int) : Rounds m e (m * 2 ^ e) := by
  have he : (0 : ℚ) < 2 ^ e := by positivity
  have hbelow := below_pos m e
  have hlow : ((m : ℚ) - below m e) * 2 ^ e < m * 2 ^ e := by gcongr; linarith
  have hhigh : (m : ℚ) * 2 ^ e < (m + 1 / 2) * 2 ^ e := by gcongr; linarith
  exact ⟨hlow.le, hhigh.le, fun _ => ⟨hlow, hhigh⟩⟩

/-- What lies between two numbers of an interval is in it. -/
theorem Rounds.between {z : ℚ} (hx : Rounds m e x) (hz : Rounds m e z) (hxy : x ≤ y) (hyz : y ≤ z) :
    Rounds m e y where
  low := hx.low.trans hxy
  high := hyz.trans hz.high
  inside hodd := ⟨(hx.inside hodd).1.trans_le hxy, hyz.trans_lt (hz.inside hodd).2⟩

/-! ## Multiples of a power of ten -/

theorem ratio_snd_cast_pos (e p : Int) : (0 : ℚ) < (ratio 1 (e - 2) (-p)).2 := by
  exact_mod_cast ratio_snd_pos 1 (e - 2) (-p)

theorem quarter_eq (e p : Int) :
    ((ratio 1 (e - 2) (-p)).1 : ℚ) * 10 ^ p = (ratio 1 (e - 2) (-p)).2 * (2 ^ e / 4) := by
  have hd := ratio_snd_cast_pos e p
  have h10 : (10 : ℚ) ≠ 0 := by norm_num
  have hratio := ratio_eq 1 (e - 2) (-p)
  rw [div_eq_iff hd.ne'] at hratio
  rw [hratio, zpow_sub₀ two_ne_zero, zpow_neg]
  field_simp
  norm_num

section Quarters

variable {k : Nat}

theorem quarters_eq (k : Nat) (e p : Int) :
    ((k * (ratio 1 (e - 2) (-p)).1 : ℕ) : ℚ) * 10 ^ p =
      (ratio 1 (e - 2) (-p)).2 * (k / 4 * 2 ^ e) := by
  rw [Nat.cast_mul, mul_assoc, quarter_eq]
  ring

theorem multiple_eq (c : Nat) (e p : Int) :
    ((c * (ratio 1 (e - 2) (-p)).2 : ℕ) : ℚ) * 10 ^ p =
      (ratio 1 (e - 2) (-p)).2 * (c * 10 ^ p) := by
  push_cast
  ring

/-- Natural numbers compare as the numbers that they stand for. -/
theorem units_le_iff {a b : Nat} (ha : (a : ℚ) * 10 ^ p = (ratio 1 (e - 2) (-p)).2 * x)
    (hb : (b : ℚ) * 10 ^ p = (ratio 1 (e - 2) (-p)).2 * y) : a ≤ b ↔ x ≤ y := by
  rw [← Nat.cast_le (α := ℚ), ← mul_le_mul_iff_of_pos_right (by positivity : (0 : ℚ) < 10 ^ p),
    ha, hb, mul_le_mul_iff_of_pos_left (ratio_snd_cast_pos e p)]

theorem quarters_le_iff : k * (ratio 1 (e - 2) (-p)).1 ≤ c * (ratio 1 (e - 2) (-p)).2 ↔
    (k : ℚ) / 4 * 2 ^ e ≤ c * 10 ^ p :=
  units_le_iff (quarters_eq k e p) (multiple_eq c e p)

theorem le_quarters_iff : c * (ratio 1 (e - 2) (-p)).2 ≤ k * (ratio 1 (e - 2) (-p)).1 ↔
    (c : ℚ) * 10 ^ p ≤ k / 4 * 2 ^ e :=
  units_le_iff (multiple_eq c e p) (quarters_eq k e p)

theorem quarters_lt_iff : k * (ratio 1 (e - 2) (-p)).1 < c * (ratio 1 (e - 2) (-p)).2 ↔
    (k : ℚ) / 4 * 2 ^ e < c * 10 ^ p := by
  rw [← not_le, ← not_le, le_quarters_iff]

theorem lt_quarters_iff : c * (ratio 1 (e - 2) (-p)).2 < k * (ratio 1 (e - 2) (-p)).1 ↔
    (c : ℚ) * 10 ^ p < k / 4 * 2 ^ e := by
  rw [← not_le, ← not_le, quarters_le_iff]

end Quarters

/-- **The test of a multiple** says whether it is in the interval. -/
theorem roundsTo_iff (hm : 0 < m) : roundsTo m e p c ↔ 0 < c ∧ Rounds m e (c * 10 ^ p) := by
  obtain ⟨b, hb⟩ : ∃ b, b = if m = 1 <<< 52 ∧ -1074 < e then 1 else 2 := ⟨_, rfl⟩
  have hbelow : ((4 * m - b : ℕ) : ℚ) / 4 = m - below m e := by
    have hshift : 1 <<< 52 = 2 ^ 52 := rfl
    have hle : b ≤ 4 * m := by
      rw [hb]
      split_ifs <;> omega
    rw [Nat.cast_sub hle, hb, below, hshift]
    split_ifs <;> push_cast <;> ring
  have habove : ((4 * m + 2 : ℕ) : ℚ) / 4 = m + 1 / 2 := by
    push_cast
    ring
  unfold roundsTo
  dsimp only
  rw [← hb]
  simp only [Bool.and_eq_true, decide_eq_true_eq, Bool.ite_eq_true_distrib, quarters_le_iff,
    le_quarters_iff, quarters_lt_iff, lt_quarters_iff, hbelow, habove, ← Nat.pos_iff_ne_zero]
  refine and_congr_right fun _ => ?_
  split_ifs with heven
  · constructor
    · intro h
      exact ⟨h.1, h.2, fun hodd => by omega⟩
    · intro h
      exact ⟨h.low, h.high⟩
  · constructor
    · intro h
      exact ⟨h.1.le, h.2.le, fun _ => h⟩
    · intro h
      exact h.inside (Nat.mod_two_ne_zero.mp heven)

/-- The last multiple that is not above a number. -/
def floorOn (m : Nat) (e p : Int) : Nat :=
  4 * m * (ratio 1 (e - 2) (-p)).1 / (ratio 1 (e - 2) (-p)).2

theorem four_quarters (m : Nat) : ((4 * m : ℕ) : ℚ) / 4 = m := by
  push_cast
  ring

theorem floorOn_le (m : Nat) (e p : Int) : (floorOn m e p : ℚ) * 10 ^ p ≤ m * 2 ^ e := by
  rw [← four_quarters m, ← le_quarters_iff]
  exact Nat.div_mul_le_self ..

theorem lt_floorOn_succ (m : Nat) (e p : Int) :
    (m : ℚ) * 2 ^ e < (floorOn m e p + 1 : ℕ) * 10 ^ p := by
  rw [← four_quarters m, ← quarters_lt_iff]
  exact Nat.lt_mul_of_div_lt (Nat.lt_succ_self _) (ratio_snd_pos 1 (e - 2) (-p))

theorem Rounds.pos (hx : Rounds m e x) (hm : 0 < m) : 0 < x := by
  have hm1 : (1 : ℚ) ≤ m := by exact_mod_cast hm
  have hbelow := below_le m e
  have hlow : 0 < ((m : ℚ) - below m e) * 2 ^ e := mul_pos (by linarith) (by positivity)
  exact hlow.trans_le hx.low

theorem Rounds.multiple_pos (hx : Rounds m e (c * 10 ^ p)) (hm : 0 < m) : 0 < c := by
  have hpos := pos_of_mul_pos_left (hx.pos hm) (by positivity)
  exact_mod_cast hpos

/-- How far a multiple is from a number. -/
def gap (m : Nat) (e p : Int) (c : Nat) : ℚ := |(c : ℚ) * 10 ^ p - m * 2 ^ e|

theorem gap_floorOn (m : Nat) (e p : Int) :
    gap m e p (floorOn m e p) = m * 2 ^ e - floorOn m e p * 10 ^ p := by
  rw [gap, abs_sub_comm, abs_of_nonneg (sub_nonneg.mpr (floorOn_le m e p))]

theorem gap_floorOn_succ (m : Nat) (e p : Int) :
    gap m e p (floorOn m e p + 1) = (floorOn m e p + 1 : ℕ) * 10 ^ p - m * 2 ^ e :=
  abs_of_nonneg (sub_nonneg.mpr (lt_floorOn_succ m e p).le)

theorem gap_floorOn_le (hc : c ≤ floorOn m e p) : gap m e p (floorOn m e p) ≤ gap m e p c := by
  have hle : (c : ℚ) * 10 ^ p ≤ floorOn m e p * 10 ^ p := by gcongr
  rw [gap_floorOn, gap, abs_sub_comm]
  exact le_trans (by linarith) (le_abs_self _)

theorem gap_floorOn_succ_le (hc : floorOn m e p < c) :
    gap m e p (floorOn m e p + 1) ≤ gap m e p c := by
  have hle : ((floorOn m e p + 1 : ℕ) : ℚ) * 10 ^ p ≤ c * 10 ^ p := by gcongr; exact hc
  rw [gap_floorOn_succ, gap]
  exact le_trans (by linarith) (le_abs_self _)

/-- Which of the two multiples next to a number is nearer. -/
theorem nearer_floorOn (m : Nat) (e p : Int) :
    4 * m * (ratio 1 (e - 2) (-p)).1 - floorOn m e p * (ratio 1 (e - 2) (-p)).2 <
        (floorOn m e p + 1) * (ratio 1 (e - 2) (-p)).2 - 4 * m * (ratio 1 (e - 2) (-p)).1 ↔
      gap m e p (floorOn m e p) < gap m e p (floorOn m e p + 1) := by
  have hle : floorOn m e p * (ratio 1 (e - 2) (-p)).2 ≤ 4 * m * (ratio 1 (e - 2) (-p)).1 :=
    Nat.div_mul_le_self ..
  have hlt : 4 * m * (ratio 1 (e - 2) (-p)).1 < (floorOn m e p + 1) * (ratio 1 (e - 2) (-p)).2 :=
    Nat.lt_mul_of_div_lt (Nat.lt_succ_self _) (ratio_snd_pos 1 (e - 2) (-p))
  -- twice the number against the middle of the two
  have hdouble : 8 * m * (ratio 1 (e - 2) (-p)).1 <
      (2 * floorOn m e p + 1) * (ratio 1 (e - 2) (-p)).2 ↔
        gap m e p (floorOn m e p) < gap m e p (floorOn m e p + 1) := by
    rw [quarters_lt_iff, gap_floorOn, gap_floorOn_succ]
    push_cast
    constructor <;> intro h <;> linarith
  rw [← hdouble]
  have hmiddle : (2 * floorOn m e p + 1) * (ratio 1 (e - 2) (-p)).2 =
      floorOn m e p * (ratio 1 (e - 2) (-p)).2 +
        (floorOn m e p + 1) * (ratio 1 (e - 2) (-p)).2 := by ring
  have hvalue : 8 * m * (ratio 1 (e - 2) (-p)).1 = 2 * (4 * m * (ratio 1 (e - 2) (-p)).1) := by ring
  rw [hmiddle, hvalue]
  omega

/-- If a multiple is in the interval, so is the one next to the number on that side. -/
theorem Rounds.roundsTo_floorOn (hx : Rounds m e (c * 10 ^ p)) (hm : 0 < m) :
    c ≤ floorOn m e p ∧ roundsTo m e p (floorOn m e p) ∨
      floorOn m e p < c ∧ roundsTo m e p (floorOn m e p + 1) := by
  have hp : (0 : ℚ) < 10 ^ p := by positivity
  rcases Nat.lt_or_ge (floorOn m e p) c with hlt | hle
  · refine .inr ⟨hlt, (roundsTo_iff hm).mpr ⟨Nat.succ_pos _, ?_⟩⟩
    refine (rounds_self m e).between hx (lt_floorOn_succ m e p).le ?_
    exact mul_le_mul_of_nonneg_right (by exact_mod_cast hlt) hp.le
  · refine .inl ⟨hle, (roundsTo_iff hm).mpr ⟨(hx.multiple_pos hm).trans_le hle, ?_⟩⟩
    refine hx.between (rounds_self m e) ?_ (floorOn_le m e p)
    exact mul_le_mul_of_nonneg_right (by exact_mod_cast hle) hp.le

theorem onGrid?_eq_none (hm : 0 < m) (h : onGrid? m e p = none) :
    ¬ Rounds m e (c * 10 ^ p) := by
  intro hx
  have hfloor := hx.roundsTo_floorOn hm
  unfold onGrid? at h
  dsimp only at h
  rw [← floorOn] at h
  split at h
  case h_4 hlow hhigh =>
    rw [hlow, hhigh] at hfloor
    simp at hfloor
  all_goals cases h

/-- **A multiple in the interval**, and none there is nearer to the number. -/
theorem onGrid?_eq_some (hm : 0 < m) (h : onGrid? m e p = some c) :
    Rounds m e (c * 10 ^ p) ∧
      ∀ d : Nat, Rounds m e (d * 10 ^ p) → gap m e p c ≤ gap m e p d := by
  unfold onGrid? at h
  dsimp only at h
  rw [← floorOn] at h
  split at h
  case h_1 hlow hhigh =>
    split_ifs at h with hnearer <;> obtain rfl := Option.some.inj h <;>
      rw [nearer_floorOn] at hnearer
    · refine ⟨((roundsTo_iff hm).mp hlow).2, fun d _ => ?_⟩
      rcases Nat.lt_or_ge (floorOn m e p) d with hlt | hle
      · exact hnearer.le.trans (gap_floorOn_succ_le hlt)
      · exact gap_floorOn_le hle
    · refine ⟨((roundsTo_iff hm).mp hhigh).2, fun d _ => ?_⟩
      rcases Nat.lt_or_ge (floorOn m e p) d with hlt | hle
      · exact gap_floorOn_succ_le hlt
      · exact (not_lt.mp hnearer).trans (gap_floorOn_le hle)
  case h_2 hlow hhigh =>
    obtain rfl := Option.some.inj h
    refine ⟨((roundsTo_iff hm).mp hlow).2, fun d hd => ?_⟩
    rcases hd.roundsTo_floorOn hm with ⟨hle, -⟩ | ⟨-, htrue⟩
    · exact gap_floorOn_le hle
    · rw [hhigh] at htrue
      cases htrue
  case h_3 hlow hhigh =>
    obtain rfl := Option.some.inj h
    refine ⟨((roundsTo_iff hm).mp hhigh).2, fun d hd => ?_⟩
    rcases hd.roundsTo_floorOn hm with ⟨-, htrue⟩ | ⟨hlt, -⟩
    · rw [hlow] at htrue
      cases htrue
    · exact gap_floorOn_succ_le hlt
  case h_4 => cases h

/-- Below a certain power of ten every interval has a multiple. -/
theorem Canonical.onGrid?_ne_none (h : Canonical m e) (hp : p ≤ -349) : onGrid? m e p ≠ none := by
  intro hnone
  refine onGrid?_eq_none (c := floorOn m e p) h.pos hnone ?_
  have he : (0 : ℚ) < 2 ^ e := by positivity
  have hbelow : 1 / 4 ≤ below m e := by
    unfold below
    split_ifs <;> norm_num
  have hfine : (10 : ℚ) ^ p < 1 / 4 * 2 ^ e := by
    have hnat : 2 ^ 1076 < 10 ^ 349 := by decide +kernel
    calc (10 : ℚ) ^ p ≤ 10 ^ (-349 : Int) := zpow_le_zpow_right₀ (by norm_num) hp
      _ < 2 ^ (-1076 : Int) := by
          rw [zpow_neg, zpow_neg]
          exact inv_strictAnti₀ (by positivity) (by exact_mod_cast hnat)
      _ = 1 / 4 * 2 ^ (-1074 : Int) := by
          rw [show (-1076 : Int) = -2 + -1074 by rfl, zpow_add₀ two_ne_zero]
          norm_num
      _ ≤ 1 / 4 * 2 ^ e := by gcongr; exacts [one_le_two, h.least]
  have hnext := lt_floorOn_succ m e p
  rw [Nat.cast_succ, add_one_mul] at hnext
  have hlow : (m - below m e) * 2 ^ e < floorOn m e p * 10 ^ p := by
    have : 1 / 4 * (2 : ℚ) ^ e ≤ below m e * 2 ^ e := by gcongr
    linarith
  have hfloor := floorOn_le m e p
  have hself := rounds_self m e
  exact ⟨hlow.le, hfloor.trans hself.high, fun _ => ⟨hlow, hfloor.trans_lt (by linarith)⟩⟩

/-- What is written of a number: the coarsest power of ten that has a multiple in its interval, and
of the multiples there the nearest. -/
structure Shortest (m : Nat) (e : Int) (c : Nat) (p : Int) : Prop where
  rounds : Rounds m e (c * 10 ^ p)
  coarsest : ∀ {q : Int} {d : Nat}, p < q → ¬ Rounds m e (d * 10 ^ q)
  nearest : ∀ d : Nat, Rounds m e (d * 10 ^ p) → gap m e p c ≤ gap m e p d

theorem shortest_spec (h : Canonical m e) :
    ∃ c p, shortest m e = (c, p) ∧ Shortest m e c p := by
  obtain ⟨found, hfound⟩ : ∃ found, (List.range 660).findSome? (fun (i : Nat) =>
      (onGrid? m e (310 - (i : Int))).map (·, 310 - (i : Int))) = some found := by
    rw [← Option.isSome_iff_exists, List.findSome?_isSome_iff]
    have hlast := Option.ne_none_iff_isSome.mp (h.onGrid?_ne_none le_rfl)
    exact ⟨659, List.mem_range.mpr (by omega), by simpa using hlast⟩
  refine ⟨found.1, found.2, by rw [shortest, hfound]; rfl, ?_⟩
  obtain ⟨coarser, i, finer, hrange, hi, hcoarser⟩ := List.findSome?_eq_some_iff.mp hfound
  obtain ⟨c, hc, rfl⟩ := Option.map_eq_some_iff.mp hi
  obtain ⟨hrounds, hnear⟩ := onGrid?_eq_some h.pos hc
  refine ⟨hrounds, fun {p' c'} hp hx => ?_, hnear⟩
  -- a coarser power that has a multiple was looked at before
  have hplaces := (hx.places h (hx.multiple_pos h.pos)).2
  obtain ⟨j, rfl⟩ : ∃ j : Nat, p' = 310 - j := ⟨(310 - p').toNat, by omega⟩
  have hj : j ∈ coarser := by
    have hsorted := List.pairwise_lt_range (n := 660)
    have hmem : j ∈ List.range 660 := by
      have := List.mem_range.mp (hrange ▸ List.mem_append_right coarser List.mem_cons_self)
      exact List.mem_range.mpr (by omega)
    rw [hrange] at hsorted hmem
    rcases List.mem_append.mp hmem with hmem | hmem
    · exact hmem
    · rcases List.mem_cons.mp hmem with rfl | hmem
      · omega
      · have := List.rel_of_pairwise_cons (List.pairwise_append.mp hsorted).2.1 hmem
        omega
  exact onGrid?_eq_none h.pos (Option.map_eq_none_iff.mp (hcoarser j hj)) hx

/-- **No decimal number that is rounded to a number has fewer digits** than what is written. -/
theorem Shortest.length_le (hs : Shortest m e c p) (hm : 0 < m) {c' : Nat} {p' : Int}
    (hx : Rounds m e (c' * 10 ^ p')) :
    (Nat.toDigits 10 c).length ≤ (Nat.toDigits 10 c').length := by
  obtain ⟨hlow, -⟩ := places_bounds (hs.rounds.multiple_pos hm) p
  obtain ⟨-, hhigh⟩ := places_bounds (hx.multiple_pos hm) p'
  have hplace : p' ≤ p := not_lt.mp fun hp => hs.coarsest hp hx
  have hdigits := Nat.length_toDigits_pos (b := 10) (n := c')
  by_contra! hfewer
  -- then a power of ten lies between the two, and it has one digit
  refine hs.coarsest (q := p + (Nat.toDigits 10 c').length) (d := 1) (by omega) ?_
  rw [Nat.cast_one, one_mul]
  refine hx.between hs.rounds (hhigh.le.trans ?_) (le_trans ?_ hlow)
  · exact zpow_le_zpow_right₀ (by norm_num) (by omega)
  · exact zpow_le_zpow_right₀ (by norm_num) (by omega)

end Grids

end ResponseFraming.Binary64
