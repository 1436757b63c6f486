import ResponseFraming.Proofs.Quoting
import ResponseFraming.Proofs.Shortest

/-!
# Numbers can be read back

A message shows a number as TOML writes it.

* `integer?_toString`: an integer of 64 bits.
* `float?_point`: digits with a point among them.
* `float?_text`: **TOML reads the text of a binary number as that number.**
-/

namespace ResponseFraming

/-! ## Digits -/

/-- Digits that TOML takes as a decimal integer. -/
structure Leading (digits : List Char) : Prop where
  nonempty : digits ≠ []
  digit : ∀ c ∈ digits, c.isDigit
  zero : digits.head? = some '0' → digits.length = 1

theorem ungroup_digits {ds : List Char} (hne : ds ≠ []) (h : ∀ c ∈ ds, c.isDigit) :
    Toml.ungroup Char.isDigit ds = some ds := by
  fun_induction Toml.ungroup Char.isDigit ds with
  | case1 => exact absurd rfl hne
  | case2 c hc => rfl
  | case3 c hc => exact absurd (h c (by simp)) hc
  | case4 c rest hc ih => exact absurd (h '_' (by simp)) (by decide)
  | case5 c rest hc => exact absurd (h c (by simp)) hc
  | case6 c rest hc hrest hrest' ih =>
    rw [ih (fun hnil => hc hnil) (fun d hd => h d (List.mem_cons_of_mem c hd))]
    rfl
  | case7 c rest hrest hrest' hc => exact absurd (h c (by simp)) hc

theorem Leading.decimalDigits {ds : List Char} (h : Leading ds) :
    Toml.decimalDigits? ds = some ds := by
  unfold Toml.decimalDigits?
  rw [ungroup_digits h.nonempty h.digit]
  exact if_neg fun ⟨hzero, hlength⟩ => hlength (h.zero hzero)

theorem head?_toDigits {n : Nat} (hn : 0 < n) : (Nat.toDigits 10 n).head? ≠ some '0' := by
  induction n using Nat.strongRecOn with
  | ind n ih =>
    by_cases hlt : n < 10
    · rw [Nat.toDigits_of_lt_base hlt]
      have hall : ∀ n : Fin 10, 0 < n.val → [Nat.digitChar n].head? ≠ some '0' := by decide
      exact hall ⟨n, hlt⟩ hn
    · have hpos : 0 < n / 10 := by omega
      have hsplit := Nat.toDigits_append_toDigits (b := 10) (by decide) hpos
        (Nat.mod_lt n (by decide))
      rw [Nat.div_add_mod] at hsplit
      rw [← hsplit, List.head?_append_of_ne_nil _ Nat.toDigits_ne_nil]
      exact ih _ (by omega) hpos

theorem leading_toDigits (n : Nat) : Leading (Nat.toDigits 10 n) where
  nonempty := Nat.toDigits_ne_nil
  digit _ := Nat.isDigit_of_mem_toDigits (by decide) (by decide)
  zero hzero := by
    rcases Nat.eq_zero_or_pos n with rfl | hn
    · rfl
    · exact absurd hzero (head?_toDigits hn)

theorem digitsValue_zeros_append (k : Nat) (ds : List Char) :
    Toml.digitsValue 10 (List.replicate k '0' ++ ds) = Toml.digitsValue 10 ds := by
  induction k with
  | zero => rfl
  | succ k ih => exact ih

theorem digitsValue_append_zeros (ds : List Char) (k : Nat) :
    Toml.digitsValue 10 (ds ++ List.replicate k '0') = Toml.digitsValue 10 ds * 10 ^ k := by
  induction k with
  | zero => simp
  | succ k ih =>
    rw [List.replicate_succ', ← List.append_assoc, digitsValue_append, ih, pow_succ, mul_assoc]
    rfl

theorem digit_beq {c d : Char} (hc : c.isDigit) (hd : d.isDigit = false) : (c == d) = false := by
  rw [beq_eq_false_iff_ne]
  rintro rfl
  rw [hd] at hc
  cases hc

/-! ## Integers -/

theorem Leading.unsign {ds : List Char} (h : Leading ds) (rest : List Char) :
    Toml.unsign (ds ++ rest) = (false, ds ++ rest) := by
  obtain ⟨c, cs, rfl⟩ := List.exists_cons_of_ne_nil h.nonempty
  have hc := h.digit c List.mem_cons_self
  unfold Toml.unsign
  split
  · next heq =>
    obtain rfl := (List.cons.inj heq).1
    cases hc
  · next heq =>
    obtain rfl := (List.cons.inj heq).1
    cases hc
  · rfl

theorem unsign_sign (negative : Bool) {ds : List Char} (h : Leading ds) (rest : List Char) :
    Toml.unsign ((Binary64.sign negative).toList ++ (ds ++ rest)) = (negative, ds ++ rest) := by
  cases negative with
  | false => exact h.unsign rest
  | true => rfl

/-- **TOML reads an integer of 64 bits as it is written.** -/
theorem integer?_toString {n : Int} (h : Int64.minValue.toInt ≤ n)
    (h' : n ≤ Int64.maxValue.toInt) : Toml.integer? (toString n).toList = some n := by
  obtain ⟨negative, m, hn, htext⟩ : ∃ (negative : Bool) (m : Nat),
      (if negative then -(m : Int) else m) = n ∧
        (toString n).toList = (Binary64.sign negative).toList ++ (Nat.toDigits 10 m ++ []) := by
    cases n with
    | ofNat m => exact ⟨false, m, rfl, by simp [Binary64.sign, Int.repr, toString]⟩
    | negSucc m => exact ⟨true, m + 1, rfl, by simp [Binary64.sign, Int.repr, toString]⟩
  -- no letter names a base
  have hletter : ∀ c ∈ (toString n).toList, c = '-' ∨ c.isDigit := by
    intro c hc
    rw [htext, List.append_nil] at hc
    rcases List.mem_append.mp hc with hc | hc
    · cases negative with
      | false => cases hc
      | true => exact .inl (List.mem_singleton.mp hc)
    · exact .inr ((leading_toDigits m).digit c hc)
  unfold Toml.integer?
  split
  · next heq => exact absurd (hletter 'x' (by rw [heq]; simp)) (by decide)
  · next heq => exact absurd (hletter 'o' (by rw [heq]; simp)) (by decide)
  · next heq => exact absurd (hletter 'b' (by rw [heq]; simp)) (by decide)
  · rw [htext, unsign_sign negative (leading_toDigits m), List.append_nil]
    dsimp only
    rw [(leading_toDigits m).decimalDigits]
    simp only [Option.bind_eq_bind, Option.bind_some,
      @digitsValue_toDigits 10 (by decide) (by decide), hn]
    exact if_pos ⟨h, h'⟩

/-! ## Binary numbers -/

theorem cut_of_not {p : Char → Bool} {run : List Char} (h : ∀ c ∈ run, p c = false) :
    Toml.cut p run = (run, none) := by
  have hdrop : run.dropWhile (!p ·) = [] := by
    rw [List.dropWhile_eq_nil_iff]
    intro c hc
    rw [h c hc]
    rfl
  rw [Toml.cut, hdrop]

theorem cut_append {p : Char → Bool} {run : List Char} (h : ∀ c ∈ run, p c = false) {c : Char}
    (hc : p c) (rest : List Char) : Toml.cut p (run ++ c :: rest) = (run, some rest) := by
  have hrun : ∀ d ∈ run, (!p d) = true := fun d hd => by rw [h d hd]; rfl
  rw [Toml.cut, List.dropWhile_append_of_pos hrun, List.takeWhile_append_of_pos hrun]
  simp [hc]

/-- Digits on either side of a point, and the number they stand for. -/
structure Pointed (whole fraction : List Char) (x : ℚ) : Prop where
  leading : Leading whole
  nonempty : fraction ≠ []
  digit : ∀ c ∈ fraction, c.isDigit
  value : (Toml.digitsValue 10 (whole ++ fraction) : ℚ) * 10 ^ (-fraction.length : Int) = x

/-- **Digits with a point among them** are rounded as the number they stand for. -/
theorem float?_point {whole fraction : List Char} {x : ℚ} (h : Pointed whole fraction x)
    (negative : Bool) :
    Toml.float? ((Binary64.sign negative).toList ++ (whole ++ '.' :: fraction)) =
      let x := Binary64.ofDecimal negative (Toml.digitsValue 10 (whole ++ fraction))
        (-fraction.length)
      if x = .infinity false then none else some x := by
  have hmem : ∀ c ∈ whole ++ '.' :: fraction, c = '.' ∨ c.isDigit := by
    intro c hc
    rcases List.mem_append.mp hc with hc | hc
    · exact .inr (h.leading.digit c hc)
    · exact (List.mem_cons.mp hc).imp_right (h.digit c)
  have hexponent : ∀ c ∈ whole ++ '.' :: fraction, (c == 'e' || c == 'E') = false := by
    intro c hc
    rcases hmem c hc with rfl | hc
    · rfl
    · rw [digit_beq hc (by decide), digit_beq hc (by decide)]
      rfl
  unfold Toml.float?
  rw [unsign_sign negative h.leading]
  dsimp only
  rw [if_neg ?_, if_neg ?_, Toml.decimal?, cut_of_not hexponent]
  · dsimp only
    rw [cut_append (fun c hc => digit_beq (h.leading.digit c hc) (by decide)) (by rfl) fraction]
    simp [h.leading.decimalDigits, ungroup_digits h.nonempty h.digit]
  · exact fun heq => absurd (hmem 'n' (by simp [heq])) (by decide)
  · exact fun heq => absurd (hmem 'n' (by simp [heq])) (by decide)

theorem isDigit_of_mem_zeros {k : Nat} {c : Char} (hc : c ∈ List.replicate k '0') : c.isDigit := by
  rw [List.eq_of_mem_replicate hc]
  rfl

theorem positional_natCast {c : Nat} (hc : 0 < c) (k : Nat) :
    ∃ whole fraction, (Binary64.positional c k).toList = whole ++ '.' :: fraction ∧
      Pointed whole fraction (c * 10 ^ (k : Int)) := by
  have hlead := leading_toDigits c
  refine ⟨Nat.toDigits 10 c ++ List.replicate k '0', ['0'], ?_, ⟨?_, ?_, ?_⟩, by decide,
    fun d hd => isDigit_of_mem_zeros (k := 1) hd, ?_⟩
  · simp [Binary64.positional]
  · exact List.append_ne_nil_of_left_ne_nil hlead.nonempty _
  · exact fun d hd => (List.mem_append.mp hd).elim (hlead.digit d) isDigit_of_mem_zeros
  · rw [List.head?_append_of_ne_nil _ hlead.nonempty]
    exact fun hzero => absurd hzero (head?_toDigits hc)
  · have hvalue := digitsValue_append_zeros (Nat.toDigits 10 c) (k + 1)
    rw [List.replicate_succ', ← List.append_assoc,
      @digitsValue_toDigits 10 (by decide) (by decide)] at hvalue
    rw [hvalue, zpow_natCast]
    push_cast
    rw [pow_succ]
    field_simp
    simp

theorem positional_neg {c : Nat} (hc : 0 < c) {k : Nat} (hk : 0 < k) :
    ∃ whole fraction, (Binary64.positional c (-k)).toList = whole ++ '.' :: fraction ∧
      Pointed whole fraction (c * 10 ^ (-k : Int)) := by
  have hlead := leading_toDigits c
  obtain ⟨padded, hpadded⟩ : ∃ padded, padded =
      List.replicate (k + 1 - (Nat.toDigits 10 c).length) '0' ++ Nat.toDigits 10 c := ⟨_, rfl⟩
  have hlength : padded.length = max (k + 1) (Nat.toDigits 10 c).length := by
    rw [hpadded, List.length_append, List.length_replicate]
    omega
  have hdigit : ∀ d ∈ padded, d.isDigit := by
    rw [hpadded]
    exact fun d hd => (List.mem_append.mp hd).elim isDigit_of_mem_zeros (hlead.digit d)
  have hdrop : (padded.drop (padded.length - k)).length = k := by
    rw [List.length_drop]
    omega
  refine ⟨padded.take (padded.length - k), padded.drop (padded.length - k), ?_, ⟨?_, ?_, ?_⟩,
    List.ne_nil_of_length_pos (hk.trans_eq hdrop.symm),
    fun d hd => hdigit d (List.mem_of_mem_drop hd), ?_⟩
  · simp [Binary64.positional, hk.ne', hpadded]
  · refine List.ne_nil_of_length_pos ?_
    rw [List.length_take]
    omega
  · exact fun d hd => hdigit d (List.mem_of_mem_take hd)
  · intro hzero
    rw [List.length_take]
    -- a zero stands in front only if it is the one digit before the point
    rcases Nat.lt_or_ge k (Nat.toDigits 10 c).length with hlt | hle
    · rw [Nat.sub_eq_zero_of_le hlt, List.replicate_zero, List.nil_append] at hpadded
      rw [List.head?_take, if_neg (by omega), hpadded] at hzero
      exact absurd hzero (head?_toDigits hc)
    · omega
  · rw [List.take_append_drop, hdrop, hpadded, digitsValue_zeros_append,
      @digitsValue_toDigits 10 (by decide) (by decide)]

theorem positional_spec {c : Nat} (hc : 0 < c) (p : Int) :
    ∃ whole fraction, (Binary64.positional c p).toList = whole ++ '.' :: fraction ∧
      Pointed whole fraction (c * 10 ^ p) := by
  rcases lt_or_ge p 0 with hp | hp
  · obtain ⟨k, rfl⟩ := Int.exists_eq_neg_ofNat hp.le
    exact positional_neg hc (by omega)
  · obtain ⟨k, rfl⟩ := Int.eq_ofNat_of_zero_le hp
    exact positional_natCast hc k

/-- The numbers that TOML can write, each in one way; of zero there are two signs. -/
inductive Writable : Binary64 → Prop
  | zero (negative : Bool) : Writable (.finite negative 0 0)
  | finite (negative : Bool) {m : Nat} {e : Int} (h : Binary64.Canonical m e) :
      Writable (.finite negative m e)
  | infinity (negative : Bool) : Writable (.infinity negative)

/-- **TOML reads the text of a number as that number.** -/
theorem float?_text {x : Binary64} (hx : Writable x) : Toml.float? x.text.toList = some x := by
  cases hx with
  | zero negative => cases negative <;> rfl
  | infinity negative => cases negative <;> rfl
  | @finite negative m e h =>
    obtain ⟨c, p, hshortest, hs⟩ := Binary64.shortest_spec h
    obtain ⟨whole, fraction, htext, hpoint⟩ := positional_spec (hs.rounds.multiple_pos h.pos) p
    have hfinite := Binary64.ofDecimal_eq_finite h (hpoint.value ▸ hs.rounds) negative
    have hsign : (Binary64.finite negative m e).text =
        Binary64.sign negative ++ Binary64.positional c p := by
      rw [Binary64.text, hshortest]
      exact h.pos.ne'
    rw [hsign, String.toList_append, htext, float?_point hpoint, hfinite]
    rfl

end ResponseFraming
