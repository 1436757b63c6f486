import Mathlib

/-!
# Where a text ends

A text that is made of pieces can be read in one way if each piece tells where it ends: it has not
the character that follows it, its length is known, or its first character tells all of it.

* `list_append_inj_of_head?`: a piece whose elements are of a kind that the next element is not of.
* `append_inj_of_size`: a piece whose length is known.
* `decimal_append_inj`: numbers, which end where no digit follows (`EndsNumber`).
-/

namespace ResponseFraming

/-! ## Lists -/

/-- A list ends where an element comes that is not of the kind of its own. -/
theorem list_append_inj_of_head? {α : Type} {p : α → Prop} {l m u v : List α}
    (hl : ∀ a ∈ l, p a) (hm : ∀ a ∈ m, p a) (hu : ∀ a ∈ u.head?, ¬ p a)
    (hv : ∀ a ∈ v.head?, ¬ p a) (h : l ++ u = m ++ v) : l = m ∧ u = v := by
  induction l generalizing m with
  | nil =>
    cases m with
    | nil => exact ⟨rfl, h⟩
    | cons d m => exact absurd (hm d List.mem_cons_self) (hu d (congrArg List.head? h))
  | cons c l ih =>
    cases m with
    | nil => exact absurd (hl c List.mem_cons_self) (hv c (congrArg List.head? h.symm))
    | cons d m =>
      obtain ⟨rfl, htail⟩ := List.cons.inj h
      obtain ⟨rfl, huv⟩ := ih (fun a ha => hl a (List.mem_cons_of_mem c ha))
        (fun a ha => hm a (List.mem_cons_of_mem c ha)) htail
      exact ⟨rfl, huv⟩

/-! ## Texts -/

variable {a b x y : String}

theorem append_inj_of_head? {p : Char → Prop} (ha : ∀ c ∈ a.toList, p c)
    (hb : ∀ c ∈ b.toList, p c) (hx : ∀ c ∈ x.toList.head?, ¬ p c)
    (hy : ∀ c ∈ y.toList.head?, ¬ p c) (h : a ++ x = b ++ y) : a = b ∧ x = y := by
  rw [← String.toList_inj, String.toList_append, String.toList_append] at h
  obtain ⟨hab, hxy⟩ := list_append_inj_of_head? ha hb hx hy h
  exact ⟨String.toList_inj.mp hab, String.toList_inj.mp hxy⟩

theorem head?_append {c : Char} (ha : a.toList.head? = some c) (x : String) :
    (a ++ x).toList.head? = some c := by
  rw [String.toList_append, List.head?_append, ha]
  rfl

/-- A text without a certain character ends where that character is. -/
theorem append_inj_of_stop {stop : Char} {s : String} (hs : s.toList.head? = some stop)
    (ha : stop ∉ a.toList) (hb : stop ∉ b.toList) (h : a ++ (s ++ x) = b ++ (s ++ y)) :
    a = b ∧ x = y := by
  have hstop : ∀ z, ∀ c ∈ (s ++ z).toList.head?, ¬ c ≠ stop := by
    intro z c hc
    rw [head?_append hs z, Option.mem_some_iff] at hc
    exact not_not.mpr hc.symm
  obtain ⟨hab, hxy⟩ := append_inj_of_head? (p := (· ≠ stop)) (fun c hc hcs => ha (hcs ▸ hc))
    (fun c hc hcs => hb (hcs ▸ hc)) (hstop x) (hstop y) h
  exact ⟨hab, (String.append_right_inj s).mp hxy⟩

theorem append_inj_of_size (hs : a.utf8ByteSize = b.utf8ByteSize) (h : a ++ x = b ++ y) :
    a = b ∧ x = y := by
  have hbytes : a.toByteArray ++ x.toByteArray = b.toByteArray ++ y.toByteArray := by
    rw [← String.toByteArray_append, ← String.toByteArray_append, h]
  obtain rfl := String.toByteArray_inj.mp (ByteArray.append_inj_left hbytes hs)
  exact ⟨rfl, (String.append_right_inj a).mp h⟩

theorem append_ne_of_getElem? {c d : Char} (i : Nat) (ha : a.toList[i]? = some c)
    (hb : b.toList[i]? = some d) (hcd : c ≠ d) : a ++ x ≠ b ++ y := by
  intro h
  have hi := congrArg (·.toList[i]?) h
  have hla := (List.getElem?_eq_some_iff.mp ha).1
  have hlb := (List.getElem?_eq_some_iff.mp hb).1
  simp only [String.toList_append, List.getElem?_append_left hla, List.getElem?_append_left hlb, ha,
    hb, Option.some.injEq] at hi
  exact hcd hi

/-! ## Numbers -/

/-- No digit stands in front. -/
def EndsNumber (x : String) : Prop := ∀ c ∈ x.toList.head?, ¬ c.isDigit

theorem EndsNumber.of_append {s x : String} {c : Char} (hs : s.toList.head? = some c)
    (hc : c.isDigit = false) : EndsNumber (s ++ x) := by
  intro d hd
  rw [head?_append hs x, Option.mem_some_iff] at hd
  rw [← hd, hc]
  exact Bool.false_ne_true

theorem isDigit_of_mem_decimal {n : Nat} {c : Char} (h : c ∈ (toString n).toList) : c.isDigit := by
  rw [Nat.toString_eq_repr, Nat.toList_repr] at h
  exact Nat.isDigit_of_mem_toDigits (by decide) (by decide) h

theorem not_mem_decimal {c : Char} (hc : c.isDigit = false) (n : Nat) :
    c ∉ (toString n).toList :=
  fun h => absurd (isDigit_of_mem_decimal h) (Bool.not_eq_true _ ▸ hc)

theorem decimal_append_inj {m n : Nat} (hx : EndsNumber x) (hy : EndsNumber y)
    (h : toString m ++ x = toString n ++ y) : m = n ∧ x = y := by
  obtain ⟨hmn, hxy⟩ := append_inj_of_head? (p := (·.isDigit = true))
    (fun _ => isDigit_of_mem_decimal) (fun _ => isDigit_of_mem_decimal) hx hy h
  exact ⟨Nat.repr_inj.mp hmn, hxy⟩

/-! ## Labels -/

/-- Labels that differ in their first character tell what they stand for. -/
theorem label_append_inj {α : Type} {label : α → String} (hne : ∀ a, label a ≠ "")
    (hinj : Function.Injective fun a => (label a).toList.head?) {a b : α} {x y : String}
    (h : label a ++ x = label b ++ y) : a = b ∧ x = y := by
  have hhead : ∀ a x, (label a ++ x).toList.head? = (label a).toList.head? := by
    intro a x
    have ha : (label a).toList ≠ [] := fun he => hne a (String.toList_eq_nil_iff.mp he)
    rw [String.toList_append, List.head?_append_of_ne_nil _ ha]
  obtain rfl : a = b := hinj (by simp only [← hhead a x, h, hhead])
  exact ⟨rfl, (String.append_right_inj _).mp h⟩

end ResponseFraming
