import ResponseFraming.Json
import ResponseFraming.Text.Quoted
import ResponseFraming.Toml.Scalar
import Mathlib.Data.List.Chain

/-!
# Quoted texts can be read back

Messages quote a text in one way and JSON in another.  Each is a `Code`: of every character its
escape can be read off the front of a text, and no escape begins with the quote that ends the
text.

* `Code.flatMap_append_inj`: a text is known by its escapes, and ends at the quote.
* `Quoted.read_escape`, `Json.read_escape`: the two codes.
* `isVisible_of_mem_quote`: a message shows nothing but visible characters.
* `Toml.basicString_quote`: what JSON quotes is a string of TOML too, unless a delete character
  is in it.
-/

namespace ResponseFraming

/-! ## Digits -/

theorem hexValue?_digitChar {n : Nat} (h : n < 16) :
    Toml.hexValue? (Nat.digitChar n) = some n := by
  have hall : ∀ n : Fin 16, Toml.hexValue? (Nat.digitChar n) = some n.val := by decide
  exact hall ⟨n, h⟩

theorem digitsValue_append (base : Nat) (ds : List Char) (d : Char) :
    Toml.digitsValue base (ds ++ [d]) =
      Toml.digitsValue base ds * base + (Toml.hexValue? d).getD 0 := by
  rw [Toml.digitsValue, List.foldl_append]
  rfl

/-- **The digits of a number have its value.** -/
theorem digitsValue_toDigits {base : Nat} (h : 1 < base) (h' : base ≤ 16) (n : Nat) :
    Toml.digitsValue base (Nat.toDigits base n) = n := by
  induction n using Nat.strongRecOn with
  | ind n ih =>
    by_cases hn : n < base
    · rw [Nat.toDigits_of_lt_base hn, ← List.nil_append [_], digitsValue_append,
        hexValue?_digitChar (by omega)]
      simp [Toml.digitsValue]
    · have hpos : 0 < n / base := Nat.div_pos (by omega) (by omega)
      have hlt : n % base < base := Nat.mod_lt n (by omega)
      have hsplit := Nat.toDigits_append_toDigits h hpos hlt
      rw [Nat.div_add_mod, Nat.toDigits_of_lt_base hlt] at hsplit
      rw [← hsplit, digitsValue_append, ih _ (Nat.div_lt_self (by omega) h),
        hexValue?_digitChar (by omega), Option.getD_some, Nat.div_add_mod']

theorem exists_digitChar_of_mem {base n : Nat} (h : 1 < base) {c : Char}
    (hc : c ∈ Nat.toDigits base n) : ∃ d < base, c = Nat.digitChar d := by
  induction n using Nat.strongRecOn with
  | ind n ih =>
    by_cases hn : n < base
    · rw [Nat.toDigits_of_lt_base hn, List.mem_singleton] at hc
      exact ⟨n, hn, hc⟩
    · have hpos : 0 < n / base := Nat.div_pos (by omega) (by omega)
      have hlt : n % base < base := Nat.mod_lt n (by omega)
      have hsplit := Nat.toDigits_append_toDigits h hpos hlt
      rw [Nat.div_add_mod, Nat.toDigits_of_lt_base hlt] at hsplit
      rw [← hsplit, List.mem_append, List.mem_singleton] at hc
      rcases hc with hc | hc
      · exact ih _ (Nat.div_lt_self (by omega) h) hc
      · exact ⟨_, hlt, hc⟩

/-! ## Codes -/

/-- A way to write characters so that each can be read off the front of a text. -/
structure Code where
  escape : Char → List Char
  read? : List Char → Option (Char × List Char)
  read_escape (c : Char) (rest : List Char) : read? (escape c ++ rest) = some (c, rest)
  /-- A quote ends the text. -/
  head?_escape (c : Char) (rest : List Char) : (escape c ++ rest).head? ≠ some '"'

namespace Code

variable (code : Code)

/-- **A text is known by its escapes**, and ends at the quote. -/
theorem flatMap_append_inj {cs ds x y : List Char}
    (h : cs.flatMap code.escape ++ '"' :: x = ds.flatMap code.escape ++ '"' :: y) :
    cs = ds ∧ x = y := by
  induction cs generalizing ds with
  | nil =>
    cases ds with
    | nil => exact ⟨rfl, (List.cons.inj h).2⟩
    | cons d ds =>
      rw [List.flatMap_cons, List.append_assoc] at h
      exact absurd (by rw [← h]; rfl) (code.head?_escape d _)
  | cons c cs ih =>
    cases ds with
    | nil =>
      rw [List.flatMap_cons, List.append_assoc] at h
      exact absurd (by rw [h]; rfl) (code.head?_escape c _)
    | cons d ds =>
      simp only [List.flatMap_cons, List.append_assoc] at h
      have hread := code.read_escape c (cs.flatMap code.escape ++ '"' :: x)
      rw [h, code.read_escape, Option.some.injEq, Prod.mk.injEq] at hread
      obtain ⟨rfl, hrest⟩ := hread
      obtain ⟨rfl, hxy⟩ := ih hrest.symm
      exact ⟨rfl, hxy⟩

end Code

/-! ## Visible characters -/

/-- The ranges are in order, and none could be joined to the next. -/
theorem isChain_invisibleRanges :
    invisibleRanges.IsChain (fun r s => r.1 ≤ r.2 ∧ r.2 + 1 < s.1) := by decide +kernel

/-- Of the ASCII characters those that are printed are visible. -/
theorem isVisible_of_ascii {c : Char} (h : c.toNat < 0x80) :
    isVisible c ↔ 0x20 ≤ c.toNat ∧ c.toNat ≤ 0x7E := by
  have hsplit : invisibleRanges = (0x0, 0x1F) :: (0x7F, 0xA0) :: invisibleRanges.drop 2 := rfl
  -- only two ranges touch ASCII, as all others come after them
  have hrest : ∀ range ∈ invisibleRanges.drop 2, 0x80 ≤ range.1 := by
    have hchain := isChain_invisibleRanges
    rw [hsplit] at hchain
    have htrans : ∀ r s t : Nat × Nat, r.1 ≤ r.2 ∧ r.2 + 1 < s.1 → s.1 ≤ s.2 ∧ s.2 + 1 < t.1 →
        r.1 ≤ r.2 ∧ r.2 + 1 < t.1 := by
      intro r s t hrs hst
      omega
    have : IsTrans (Nat × Nat) fun r s => r.1 ≤ r.2 ∧ r.2 + 1 < s.1 := ⟨htrans⟩
    intro range hr
    have := List.rel_of_pairwise_cons hchain.pairwise.of_cons hr
    omega
  have hnone : (invisibleRanges.drop 2).any
      (fun range => range.1 ≤ c.toNat && c.toNat ≤ range.2) = false := by
    rw [List.any_eq_false]
    intro range hr
    have := hrest range hr
    simp only [Bool.and_eq_true, decide_eq_true_eq]
    omega
  rw [isVisible, hsplit, List.any_cons, List.any_cons, hnone]
  simp only [Bool.not_eq_true', Bool.or_false, Bool.or_eq_false_iff, Bool.and_eq_false_iff,
    decide_eq_false_iff_not]
  omega

theorem isVisible_of_printed {c : Char} (h : 0x20 ≤ c.toNat) (h' : c.toNat ≤ 0x7E) :
    isVisible c :=
  (isVisible_of_ascii (by omega)).mpr ⟨h, h'⟩

/-! ## Messages -/

namespace Quoted

/-- What an escape at the front of a text stands for. -/
def read? : List Char → Option (Char × List Char)
  | '\\' :: 'u' :: '\x7b' :: rest =>
    some (Char.ofNat (Toml.digitsValue 16 (rest.takeWhile (· ≠ '\x7d'))),
      (rest.dropWhile (· ≠ '\x7d')).tail)
  | '\\' :: 'n' :: rest => some ('\n', rest)
  | '\\' :: 'r' :: rest => some ('\r', rest)
  | '\\' :: 't' :: rest => some ('\t', rest)
  | '\\' :: '0' :: rest => some ('\x00', rest)
  | '\\' :: c :: rest => some (c, rest)
  | c :: rest => some (c, rest)
  | [] => none

theorem read_codePoint (c : Char) (rest : List Char) :
    read? (codePoint c ++ rest) = some (c, rest) := by
  have hdigits : ∀ d ∈ Nat.toDigits 16 c.toNat, decide (d ≠ '\x7d') = true := by
    intro d hd
    obtain ⟨n, hn, rfl⟩ := exists_digitChar_of_mem (by decide) hd
    have hall : ∀ n : Fin 16, decide (Nat.digitChar n ≠ '\x7d') = true := by decide
    exact hall ⟨n, hn⟩
  simp only [codePoint, read?, List.cons_append, List.nil_append, List.append_assoc]
  rw [List.takeWhile_append_of_pos hdigits, List.dropWhile_append_of_pos hdigits,
    List.takeWhile_cons_of_neg (by decide), List.dropWhile_cons_of_neg (by decide),
    List.append_nil, digitsValue_toDigits (by decide) (by decide), Char.ofNat_toNat]
  rfl

theorem read_escape (c : Char) (rest : List Char) : read? (escape c ++ rest) = some (c, rest) := by
  unfold escape
  split
  any_goals rfl
  split
  · rw [List.singleton_append, read?.eq_def]
    split <;> simp_all
  · exact read_codePoint c rest

theorem head?_escape (c : Char) (rest : List Char) : (escape c ++ rest).head? ≠ some '"' := by
  unfold escape
  split
  any_goals simp
  split
  · simpa
  · simp [codePoint]

def code : Code := ⟨escape, read?, read_escape, head?_escape⟩

/-- **A quoted text is known by what messages show of it.** -/
theorem quote_append_inj {s t x y : String} (h : quote s ++ x = quote t ++ y) : s = t ∧ x = y := by
  have hlist := congrArg String.toList h
  simp only [quote, String.toList_append, String.toList_ofList, List.cons_append, List.append_assoc,
    List.cons.injEq, true_and, List.nil_append] at hlist
  obtain ⟨hst, hxy⟩ := code.flatMap_append_inj hlist
  exact ⟨String.toList_inj.mp hst, String.toList_inj.mp hxy⟩

/-- The characters that escapes are made of, save digits. -/
def marks : List Char := ['\\', '"', 'n', 'r', 't', '0', 'u', '\x7b', '\x7d']

theorem isVisible_of_subset_marks {cs : List Char} (h : cs ⊆ marks) {d : Char} (hd : d ∈ cs) :
    isVisible d := by
  have hmarks : marks.all fun d => 0x20 ≤ d.toNat ∧ d.toNat ≤ 0x7E := by decide
  obtain ⟨hlow, hhigh⟩ := of_decide_eq_true (List.all_eq_true.mp hmarks d (h hd))
  exact isVisible_of_printed hlow hhigh

theorem isVisible_of_mem_escape {c d : Char} (h : d ∈ escape c) : isVisible d := by
  have hdigit : ∀ n : Fin 16, 0x20 ≤ (Nat.digitChar n).toNat ∧ (Nat.digitChar n).toNat ≤ 0x7E := by
    decide
  unfold escape at h
  split at h
  case h_7 =>
    split at h
    · rw [List.mem_singleton.mp h]
      assumption
    · simp only [codePoint, List.mem_append] at h
      rcases h with (h | h) | h
      · exact isVisible_of_subset_marks (by decide) h
      · obtain ⟨n, hn, rfl⟩ := exists_digitChar_of_mem (by decide) h
        exact isVisible_of_printed (hdigit ⟨n, hn⟩).1 (hdigit ⟨n, hn⟩).2
      · exact isVisible_of_subset_marks (by decide) h
  all_goals exact isVisible_of_subset_marks (by decide) h

/-- **A message shows nothing but visible characters.** -/
theorem isVisible_of_mem_quote {s : String} {c : Char} (h : c ∈ (quote s).toList) :
    isVisible c := by
  have hquote : isVisible '"' := isVisible_of_printed (by decide) (by decide)
  simp only [quote, String.toList_ofList, List.cons_append, List.mem_cons, List.mem_append,
    List.mem_flatMap, List.not_mem_nil, or_false] at h
  rcases h with rfl | ⟨d, -, hd⟩ | rfl
  · exact hquote
  · exact isVisible_of_mem_escape hd
  · exact hquote

end Quoted

/-! ## JSON -/

namespace Json

/-- What an escape at the front of a text stands for. -/
def read? : List Char → Option (Char × List Char)
  | '\\' :: 'u' :: a :: b :: c :: d :: rest => (Toml.codePoint? [a, b, c, d]).map (·, rest)
  | '\\' :: c :: rest => (Toml.escape? c).map (·, rest)
  | c :: rest => some (c, rest)
  | [] => none

theorem codePoint?_control {c : Char} (h : c < ' ') :
    Toml.codePoint? ['0', '0', Nat.digitChar (c.toNat / 16), Nat.digitChar (c.toNat % 16)] =
      some c := by
  have hall : ∀ n : Fin 32, Toml.codePoint?
      ['0', '0', Nat.digitChar (n.val / 16), Nat.digitChar (n.val % 16)] =
        some (Char.ofNat n.val) := by decide
  have hc : c.toNat < 32 := UInt32.lt_iff_toNat_lt.mp (Char.lt_def.mp h)
  rw [hall ⟨c.toNat, hc⟩, Char.ofNat_toNat]

theorem read_escape (c : Char) (rest : List Char) : read? (escape c ++ rest) = some (c, rest) := by
  unfold escape
  split
  any_goals rfl
  split
  · simp [read?, codePoint?_control ‹_›]
  · rw [List.singleton_append, read?.eq_def]
    split <;> simp_all

theorem head?_escape (c : Char) (rest : List Char) : (escape c ++ rest).head? ≠ some '"' := by
  unfold escape
  split
  any_goals simp
  split
  · simp
  · simpa

def code : Code := ⟨escape, read?, read_escape, head?_escape⟩

/-- **A text is known by its JSON string**, which ends where it is closed. -/
theorem quote_append_inj {s t x y : String} (h : quote s ++ x = quote t ++ y) : s = t ∧ x = y := by
  have hlist := congrArg String.toList h
  simp only [quote, String.toList_append, String.toList_ofList, List.cons_append, List.append_assoc,
    List.cons.injEq, true_and, List.nil_append] at hlist
  obtain ⟨hst, hxy⟩ := code.flatMap_append_inj hlist
  exact ⟨String.toList_inj.mp hst, String.toList_inj.mp hxy⟩

end Json

/-! ## TOML -/

namespace Toml

/-- What JSON shows as it is, TOML allows, save the delete character. -/
theorem isText_of_le {c : Char} (h : ¬ c < ' ') (hdel : c ≠ '\x7F') : isText c := by
  have hle : 32 ≤ c.toNat := Nat.le_of_not_lt fun hlt =>
    h (Char.lt_def.mpr (UInt32.lt_iff_toNat_lt.mpr hlt))
  have hne : c.toNat ≠ 127 := fun heq => hdel (Char.toNat_inj.mp heq)
  have hspan : ' ' ≤ c ∧ c ≤ '~' ∨ '\x80' ≤ c := by
    simp only [Char.le_def, UInt32.le_iff_toNat_le]
    have : c.val.toNat = c.toNat := rfl
    have : (' ' : Char).val.toNat = 32 := rfl
    have : ('~' : Char).val.toNat = 126 := rfl
    have : ('\x80' : Char).val.toNat = 128 := rfl
    omega
  simp only [isText, Bool.or_eq_true, Bool.and_eq_true, decide_eq_true_eq]
  tauto

theorem basicString_backslash {c : Char} (hu : c ≠ 'u') (hU : c ≠ 'U') (rest : List Char) :
    basicString ('\\' :: c :: rest) =
      (do return before (← escape? c) (← basicString rest)) := by
  rw [basicString.eq_def]
  split
  case h_6 hneq heq =>
    obtain ⟨rfl, hrest⟩ := List.cons.inj heq
    exact absurd hrest.symm (hneq _ _ rfl)
  all_goals simp_all

theorem basicString_escape {c : Char} (h : c ≠ '\x7F') (rest : List Char) :
    basicString (Json.escape c ++ rest) = before c <$> basicString rest := by
  unfold Json.escape
  split
  case h_8 =>
    split
    case isTrue hlow =>
      rw [List.cons_append, List.cons_append, List.cons_append, List.cons_append, List.cons_append,
        List.cons_append, List.nil_append, basicString, Json.codePoint?_control hlow]
      cases basicString rest <;> rfl
    case isFalse hlow =>
      have htext := isText_of_le hlow h
      rw [List.singleton_append, basicString.eq_def]
      split <;> simp_all
  all_goals
    rw [List.cons_append, List.singleton_append, basicString_backslash (by decide) (by decide)]
    cases basicString rest <;> rfl

/-- **What JSON quotes is a string of TOML**, unless a delete character is in it, which TOML wants
escaped and JSON leaves alone. -/
theorem basicString_quote {s : List Char} (h : '\x7F' ∉ s) (rest : List Char) :
    basicString (s.flatMap Json.escape ++ '"' :: rest) = some (s, rest) := by
  induction s with
  | nil => rw [List.flatMap_nil, List.nil_append, basicString]
  | cons c s ih =>
    rw [List.mem_cons, not_or] at h
    rw [List.flatMap_cons, List.append_assoc, basicString_escape (Ne.symm h.1), ih h.2]
    rfl

end Toml

end ResponseFraming
