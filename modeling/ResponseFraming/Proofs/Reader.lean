import ResponseFraming.Toml.Scalar
import Mathlib

/-!
# What readers give

`Reader.Gives` says what holds of everything that a reader gives, and that the reader leaves an end
of its text.  Each way to make a reader out of others has one law, and so has each reader for a
piece of TOML.

* `Gives.bind`, `Gives.orElse`, `Gives.optional`, `Gives.separated`: the ways to join readers.
* `suffix_many`, `of_mem_many`: repetition.
* `gives_dottedKey`: keys have parts, and not too many.
* `gives_string`, `gives_scalar`: strings, and values without quotes or brackets.
-/

namespace ResponseFraming.Toml

namespace Reader

variable {α β : Type} {P P' : α → Prop} {Q : β → Prop} {r s : Reader α}

/-- What the reader gives is such, and what it leaves is an end of the text. -/
def Gives (r : Reader α) (P : α → Prop) : Prop :=
  ∀ input a rest, r input = some (a, rest) → rest <:+ input ∧ P a

theorem Gives.imp (h : r.Gives P) (himp : ∀ a, P a → P' a) : r.Gives P' :=
  fun input a rest hr => ⟨(h input a rest hr).1, himp a (h input a rest hr).2⟩

theorem gives_pure {a : α} (h : P a) : Gives (pure a) P := by
  rintro input b rest ⟨⟩
  exact ⟨List.suffix_rfl, h⟩

theorem gives_failure : Gives failure P := nofun

theorem Gives.bind {f : α → Reader β} (hr : r.Gives P) (hf : ∀ a, P a → (f a).Gives Q) :
    Gives (r >>= f) Q := by
  intro input b rest h
  obtain ⟨⟨a, middle⟩, ha, hb⟩ := Option.bind_eq_some_iff.mp h
  obtain ⟨hmiddle, hPa⟩ := hr input a middle ha
  obtain ⟨hrest, hQb⟩ := hf a hPa middle b rest hb
  exact ⟨hrest.trans hmiddle, hQb⟩

theorem Gives.map {f : α → β} (hr : r.Gives P) (hf : ∀ a, P a → Q (f a)) : Gives (f <$> r) Q := by
  rw [← bind_pure_comp]
  exact hr.bind fun a ha => gives_pure (hf a ha)

theorem Gives.orElse (hr : r.Gives P) (hs : s.Gives P) : Gives (r <|> s) P := by
  intro input a rest h
  have h : (r input).orElse (fun _ => s input) = some (a, rest) := h
  cases hr' : r input with
  | none =>
    rw [hr'] at h
    exact hs input a rest h
  | some p =>
    rw [hr'] at h
    exact hr input a rest (hr'.trans h)

theorem Gives.optional (hr : r.Gives P) : (optional r).Gives fun o => ∀ a ∈ o, P a :=
  .orElse (hr.map fun _ ha _ hb => Option.some.inj hb ▸ ha) (gives_pure nofun)

theorem gives_satisfy (p : Char → Bool) : (satisfy p).Gives fun c => p c := by
  intro input c rest h
  cases input with
  | nil => cases h
  | cons d ds =>
    have h : (if p d then some (d, ds) else none) = some (c, rest) := h
    split at h
    case isTrue hd =>
      cases h
      exact ⟨List.suffix_cons c rest, hd⟩
    case isFalse => cases h

theorem gives_char (c : Char) : (char c).Gives fun _ => True :=
  (gives_satisfy _).bind fun _ _ => gives_pure trivial

theorem gives_span (p : Char → Bool) : (span p).Gives fun cs => ∀ c ∈ cs, p c := by
  rintro input cs rest ⟨⟩
  exact ⟨List.dropWhile_suffix p, fun c hc => List.mem_takeWhile_imp hc⟩

theorem gives_peek : peek.Gives fun _ => True := by
  intro input c rest h
  cases input with
  | nil => cases h
  | cons d ds =>
    cases h
    exact ⟨List.suffix_rfl, trivial⟩

theorem suffix_many (hr : r.Gives P) (input : List Char) : (many r input).2 <:+ input := by
  fun_induction many r input with
  | case1 input h => exact List.suffix_rfl
  | case2 input a rest h hlt ih => exact ih.trans (hr input a rest h).1
  | case3 input a rest h hlt => exact List.suffix_rfl

theorem of_mem_many (hr : r.Gives P) (input : List Char) : ∀ a ∈ (many r input).1, P a := by
  fun_induction many r input with
  | case1 input h => exact nofun
  | case2 input a rest h hlt ih => exact List.forall_mem_cons.mpr ⟨(hr input a rest h).2, ih⟩
  | case3 input a rest h hlt => exact nofun

theorem gives_many (hr : r.Gives P) :
    Gives (of fun input => some (many r input)) fun as => ∀ a ∈ as, P a := by
  intro input as rest h
  have hmany : many r input = (as, rest) := Option.some.inj h
  have hrest := suffix_many hr input
  have has := of_mem_many hr input
  rw [hmany] at hrest has
  exact ⟨hrest, has⟩

theorem Gives.separated {separator : Reader Unit} (hs : separator.Gives fun _ => True)
    (hr : r.Gives P) : (separated separator r).Gives fun as => as ≠ [] ∧ ∀ a ∈ as, P a :=
  hr.bind fun a ha => (gives_many (hs.bind fun _ _ => hr)).bind fun as has =>
    gives_pure ⟨List.cons_ne_nil a as, List.forall_mem_cons.mpr ⟨ha, has⟩⟩

end Reader

open Reader

/-! ## Blanks -/

theorem gives_blanks : blanks.Gives fun _ => True :=
  (gives_span _).bind fun _ _ => gives_pure trivial

theorem gives_newline : newline.Gives fun _ => True := by
  intro input u rest h
  unfold newline at h
  rw [of] at h
  split at h
  case h_1 rest =>
    cases h
    exact ⟨List.suffix_cons .., trivial⟩
  case h_2 rest =>
    cases h
    exact ⟨(List.suffix_cons ..).trans (List.suffix_cons ..), trivial⟩
  case h_3 => cases h

theorem gives_comment : comment.Gives fun _ => True :=
  (gives_char _).bind fun _ _ => (gives_span _).bind fun _ _ => gives_pure trivial

theorem gives_lineRest : lineRest.Gives fun _ => True :=
  gives_blanks.bind fun _ _ => gives_comment.optional.bind fun _ _ => gives_pure trivial

theorem gives_gap : gap.Gives fun _ => True :=
  (gives_many (gives_lineRest.bind fun _ _ => gives_newline)).bind fun _ _ => gives_blanks

/-! ## Strings -/

section Strings

variable {o : Option (List Char × List Char)} {s rest : List Char}

theorem of_before {c : Char} (h : before c <$> o = some (s, rest)) : ∃ s', o = some (s', rest) := by
  obtain ⟨⟨s', rest'⟩, ho, heq⟩ := Option.map_eq_some_iff.mp h
  cases heq
  exact ⟨s', ho⟩

theorem of_escape {c? : Option Char}
    (h : (do return before (← c?) (← o)) = some (s, rest)) : ∃ s', o = some (s', rest) := by
  obtain ⟨c, -, h⟩ := Option.bind_eq_some_iff.mp h
  obtain ⟨⟨s', rest'⟩, ho, heq⟩ := Option.bind_eq_some_iff.mp h
  cases heq
  exact ⟨s', ho⟩

variable {input : List Char}

theorem suffix_basicString (h : basicString input = some (s, rest)) : rest <:+ input := by
  fun_induction basicString input generalizing s rest
  case case1 | case7 => cases h
  case case2 =>
    cases h
    exact List.suffix_cons ..
  case case3 ih | case4 ih | case5 ih =>
    obtain ⟨s', hs⟩ := of_escape h
    simp only [List.suffix_cons_iff, ih hs, or_true]
  case case6 ih =>
    obtain ⟨s', hs⟩ := of_before h
    exact (ih hs).trans (List.suffix_cons ..)

theorem suffix_literalString (h : literalString input = some (s, rest)) : rest <:+ input := by
  fun_induction literalString input generalizing s rest
  case case1 | case4 => cases h
  case case2 =>
    cases h
    exact List.suffix_cons ..
  case case3 ih =>
    obtain ⟨s', hs⟩ := of_before h
    exact (ih hs).trans (List.suffix_cons ..)

theorem suffix_multilineString {joining : Bool}
    (h : multilineString joining input = some (s, rest)) : rest <:+ input := by
  fun_induction multilineString joining input generalizing s rest
  case case1 | case13 => cases h
  case case2 | case3 | case4 =>
    cases h
    simp [List.suffix_cons_iff]
  case case5 ih | case9 ih | case11 ih => simp only [List.suffix_cons_iff, ih h, or_true]
  case case7 ih | case8 ih | case10 ih =>
    obtain ⟨s', hs⟩ := of_escape h
    simp only [List.suffix_cons_iff, ih hs, or_true]
  case case6 ih | case12 ih =>
    obtain ⟨s', hs⟩ := of_before h
    simp only [List.suffix_cons_iff, ih hs, or_true]

theorem suffix_multilineLiteral (h : multilineLiteral input = some (s, rest)) : rest <:+ input := by
  fun_induction multilineLiteral input generalizing s rest
  case case1 | case7 => cases h
  case case2 | case3 | case4 =>
    cases h
    simp [List.suffix_cons_iff]
  case case5 ih | case6 ih =>
    obtain ⟨s', hs⟩ := of_before h
    simp only [List.suffix_cons_iff, ih hs, or_true]

/-- What follows the opening of a string. -/
theorem suffix_of_map (opening : List Char) {body : List Char}
    {f : List Char → Option (List Char × List Char)} {t : String}
    (hf : ∀ s rest, f body = some (s, rest) → rest <:+ body)
    (h : (f body).map (fun s => (String.ofList s.1, s.2)) = some (t, rest)) :
    rest <:+ opening ++ body := by
  obtain ⟨⟨s, rest'⟩, hbody, heq⟩ := Option.map_eq_some_iff.mp h
  cases heq
  exact (hf s _ hbody).trans (List.suffix_append opening body)

theorem gives_quoted : quoted.Gives fun _ => True := by
  intro input t rest h
  refine ⟨?_, trivial⟩
  unfold quoted at h
  rw [of] at h
  split at h
  case h_1 body => exact suffix_of_map ['"'] (fun _ _ => suffix_basicString) h
  case h_2 body => exact suffix_of_map ['\''] (fun _ _ => suffix_literalString) h
  case h_3 => cases h

theorem suffix_start {body : List Char → Option (List Char × List Char)}
    (hbody : ∀ input s rest, body input = some (s, rest) → rest <:+ input)
    (h : string.start body input = some (s, rest)) : rest <:+ input := by
  unfold string.start at h
  split at h
  case h_1 u after hnewline =>
    exact (hbody _ s rest h).trans (gives_newline input u after hnewline).1
  case h_2 => exact hbody input s rest h

theorem gives_string : string.Gives fun _ => True := by
  intro input t rest h
  unfold string at h
  rw [of] at h
  split at h
  case h_1 body =>
    exact ⟨suffix_of_map ['"', '"', '"']
      (fun _ _ => suffix_start fun _ _ _ => suffix_multilineString) h, trivial⟩
  case h_2 body =>
    exact ⟨suffix_of_map ['\'', '\'', '\'']
      (fun _ _ => suffix_start fun _ _ _ => suffix_multilineLiteral) h, trivial⟩
  case h_3 => exact gives_quoted input t rest h

end Strings

/-! ## Keys -/

theorem gives_bareKey : bareKey.Gives fun _ => True :=
  (gives_satisfy _).bind fun _ _ => (gives_span _).bind fun _ _ => gives_pure trivial

theorem gives_keyPart : keyPart.Gives fun _ => True :=
  gives_blanks.bind fun _ _ => (gives_quoted.orElse gives_bareKey).bind fun _ _ =>
    gives_blanks.bind fun _ _ => gives_pure trivial

/-- A key has parts, and fewer than 80. -/
theorem gives_dottedKey : dottedKey.Gives fun parts => parts ≠ [] ∧ parts.length < 80 := by
  refine ((gives_char '.').separated gives_keyPart).bind fun parts hparts => ?_
  split
  case isTrue hlen => exact gives_pure ⟨hparts.1, hlen⟩
  case isFalse => exact gives_failure

/-! ## Runs -/

theorem gives_run : run.Gives fun _ => True := by
  refine (gives_span _).bind fun first _ => ?_
  split
  case isTrue =>
    refine Gives.bind (P := fun _ => True) (Gives.imp (Gives.optional (P := fun _ => True) ?_)
      fun _ _ => trivial) fun _ _ => gives_pure trivial
    exact (gives_char ' ').bind fun _ _ => (gives_satisfy _).bind fun _ _ =>
      (gives_span _).bind fun _ _ => gives_pure trivial
  case isFalse => exact gives_pure trivial

theorem gives_scalar : scalar.Gives fun v => ∃ cs, scalar? cs = some v := by
  refine gives_run.bind fun cs _ => ?_
  split
  case h_1 v hv => exact gives_pure ⟨cs, hv⟩
  case h_2 => exact gives_failure

end ResponseFraming.Toml
