import ResponseFraming.Proofs.Endings
import ResponseFraming.Proofs.Quoting
import ResponseFraming.Proofs.ReportJson

/-!
# The text of JSON can be read in one way

The text of a value tells the value and where it ends, if no digit follows (`Json.legible_layout`).
Its first character tells which kind of value it is; strings are read by their escapes, and an array
or object goes on while its lines end in a comma.

* `Json.block_append_inj`: lines between brackets.
* `Json.pretty_injective`: values with equal texts are equal.
* `Report.json_injective`: reports with equal JSON texts are equal.
-/

namespace ResponseFraming

namespace Json

/-- Induction over values, where what holds of all elements or fields is given. -/
@[induction_eliminator]
theorem induction {motive : Json → Prop} (null : motive null)
    (boolean : ∀ b, motive (boolean b)) (number : ∀ n, motive (number n))
    (string : ∀ s, motive (string s))
    (array : ∀ elements, (∀ e ∈ elements, motive e) → motive (array elements))
    (object : ∀ fields, (∀ f ∈ fields, motive f.2) → motive (object fields)) (j : Json) :
    motive j :=
  @Json.rec motive (fun elements => ∀ e ∈ elements, motive e)
    (fun fields => ∀ f ∈ fields, motive f.2) (fun field => motive field.2)
    null boolean number string array object nofun
    (fun _ _ he hrest => List.forall_mem_cons.mpr ⟨he, hrest⟩) nofun
    (fun _ _ hf hrest => List.forall_mem_cons.mpr ⟨hf, hrest⟩) (fun _ _ h => h) j

/-- The text tells what it is the text of, and where it ends, if no digit follows. -/
def Legible {α : Type} (text : α → String) (a : α) : Prop :=
  ∀ b x y, EndsNumber x → EndsNumber y → text a ++ x = text b ++ y → a = b ∧ x = y

/-! ## Lines between brackets -/

def others (closing : String) (level : Nat) : List String → String
  | [] => lineBreak level ++ closing
  | line :: lines => "," ++ lineBreak (level + 1) ++ line ++ others closing level lines

theorem block_cons (opening closing : String) (level : Nat) (line : String) (lines : List String) :
    block opening closing level (line :: lines) =
      opening ++ lineBreak (level + 1) ++ line ++ others closing level lines := by
  rw [block, if_neg (List.cons_ne_nil _ _)]
  induction lines generalizing line with
  | nil => simp only [String.intercalate_singleton, others, String.append_assoc]
  | cons next lines ih =>
    have hnext := ih next
    simp only [String.append_assoc, String.append_right_inj] at hnext
    simp only [String.intercalate_cons_cons, others, String.append_assoc, hnext]

theorem head?_lineBreak (level : Nat) : (lineBreak level).toList.head? = some '\n' := by
  rw [lineBreak, String.toList_append]
  rfl

theorem head?_others (closing : String) (level : Nat) (lines : List String) :
    (others closing level lines).toList.head? = some (if lines = [] then '\n' else ',') := by
  cases lines with
  | nil => exact head?_append (head?_lineBreak level) closing
  | cons line lines =>
    rw [others, String.append_assoc, String.append_assoc, if_neg (List.cons_ne_nil _ _)]
    exact head?_append rfl _

theorem endsNumber_others (closing : String) (level : Nat) (lines : List String) (x : String) :
    EndsNumber (others closing level lines ++ x) :=
  .of_append (head?_others closing level lines) (by split <;> rfl)

section Blocks

variable {α : Type} {text : α → String} {as bs : List α} {opening closing x y : String}
  {level : Nat}

/-- The lines go on after a comma, and end where a new line begins without one. -/
theorem others_append_inj (has : ∀ a ∈ as, Legible text a)
    (h : others closing level (as.map text) ++ x = others closing level (bs.map text) ++ y) :
    as = bs ∧ x = y := by
  have hhead := congrArg (·.toList.head?) h
  simp only [head?_append (head?_others closing level _)] at hhead
  induction as generalizing bs with
  | nil =>
    cases bs with
    | nil => exact ⟨rfl, (String.append_right_inj _).mp h⟩
    | cons b bs => simp at hhead
  | cons a as ih =>
    cases bs with
    | nil => simp at hhead
    | cons b bs =>
      simp only [List.map_cons, others, String.append_assoc, String.append_right_inj] at h
      obtain ⟨rfl, hrest⟩ := has a List.mem_cons_self b _ _ (endsNumber_others closing level _ x)
        (endsNumber_others closing level _ y) h
      have hhead := congrArg (·.toList.head?) hrest
      simp only [head?_append (head?_others closing level _)] at hhead
      obtain ⟨rfl, hxy⟩ := ih (fun a ha => has a (List.mem_cons_of_mem _ ha)) hrest hhead
      exact ⟨rfl, hxy⟩

theorem block_append_inj {c : Char} (hclosing : closing.toList.head? = some c) (hc : c ≠ '\n')
    (has : ∀ a ∈ as, Legible text a)
    (h : block opening closing level (as.map text) ++ x =
      block opening closing level (bs.map text) ++ y) : as = bs ∧ x = y := by
  have hnil : block opening closing level [] = opening ++ closing := if_pos rfl
  -- nothing between the brackets is no new line
  have hne : ∀ s t, closing ++ s ≠ lineBreak (level + 1) ++ t := by
    intro s t h
    have hhead := congrArg (·.toList.head?) h
    rw [head?_append hclosing, head?_append (head?_lineBreak _), Option.some.injEq] at hhead
    exact hc hhead
  cases as with
  | nil =>
    cases bs with
    | nil => exact ⟨rfl, (String.append_right_inj _).mp h⟩
    | cons b bs =>
      rw [List.map_nil, List.map_cons, hnil, block_cons] at h
      simp only [String.append_assoc, String.append_right_inj] at h
      exact absurd h (hne x _)
  | cons a as =>
    cases bs with
    | nil =>
      rw [List.map_nil, List.map_cons, hnil, block_cons] at h
      simp only [String.append_assoc, String.append_right_inj] at h
      exact absurd h.symm (hne y _)
    | cons b bs =>
      rw [List.map_cons, List.map_cons, block_cons, block_cons] at h
      simp only [String.append_assoc, String.append_right_inj] at h
      obtain ⟨rfl, hrest⟩ := has a List.mem_cons_self b _ _ (endsNumber_others closing level _ x)
        (endsNumber_others closing level _ y) h
      obtain ⟨rfl, hxy⟩ := others_append_inj (fun a ha => has a (List.mem_cons_of_mem _ ha)) hrest
      exact ⟨rfl, hxy⟩

end Blocks

/-! ## Values -/

def fieldText (level : Nat) (field : String × Json) : String :=
  quote field.1 ++ ": " ++ layout level field.2

theorem layoutElements_eq (level : Nat) (elements : List Json) :
    layoutElements level elements = elements.map (layout level) := by
  induction elements with
  | nil => rw [layoutElements, List.map_nil]
  | cons j elements ih => rw [layoutElements, List.map_cons, ih]

theorem layoutFields_eq (level : Nat) (fields : List (String × Json)) :
    layoutFields level fields = fields.map (fieldText level) := by
  induction fields with
  | nil => rw [layoutFields, List.map_nil]
  | cons field fields ih => rw [layoutFields, List.map_cons, ih, fieldText]

theorem legible_field {level : Nat} {field : String × Json}
    (h : Legible (layout level) field.2) : Legible (fieldText level) field := by
  intro other x y hx hy heq
  simp only [fieldText, String.append_assoc] at heq
  obtain ⟨hname, heq⟩ := quote_append_inj heq
  obtain ⟨hvalue, hxy⟩ := h _ _ _ hx hy ((String.append_right_inj _).mp heq)
  exact ⟨Prod.ext hname hvalue, hxy⟩

/-- Whether a character can stand first in the text of a value. -/
def opens : Json → Char → Bool
  | null, c => c == 'n'
  | boolean _, c => c == 't' || c == 'f'
  | number _, c => c.isDigit
  | string _, c => c == '"'
  | array _, c => c == '['
  | object _, c => c == '\x7b'

theorem head?_block (opening closing : String) (level : Nat) (lines : List String) {c : Char}
    (h : opening.toList.head? = some c) :
    (block opening closing level lines).toList.head? = some c := by
  cases lines with
  | nil => exact head?_append h closing
  | cons line lines =>
    rw [block_cons, String.append_assoc, String.append_assoc]
    exact head?_append h _

theorem opens_layout (level : Nat) (j : Json) :
    ∃ c, (layout level j).toList.head? = some c ∧ j.opens c := by
  cases j with
  | null => exact ⟨'n', by rw [layout]; rfl, rfl⟩
  | boolean b =>
    cases b with
    | false => exact ⟨'f', by rw [layout]; rfl, rfl⟩
    | true => exact ⟨'t', by rw [layout]; rfl, rfl⟩
  | number n =>
    obtain ⟨c, rest, hcs⟩ := List.exists_cons_of_ne_nil (Nat.toDigits_ne_nil (n := n) (b := 10))
    have htext : (toString n).toList = c :: rest := by
      rw [Nat.toString_eq_repr, Nat.toList_repr, hcs]
    refine ⟨c, by rw [layout, htext]; rfl, isDigit_of_mem_decimal (n := n) ?_⟩
    rw [htext]
    exact List.mem_cons_self
  | string s => exact ⟨'"', by rw [layout, quote, String.toList_ofList]; rfl, rfl⟩
  | array elements => exact ⟨'[', by rw [layout]; exact head?_block _ _ _ _ rfl, rfl⟩
  | object fields => exact ⟨'\x7b', by rw [layout]; exact head?_block _ _ _ _ rfl, rfl⟩

/-- Texts that begin alike are of values that begin alike. -/
theorem exists_opens {level : Nat} {j k : Json} {x y : String}
    (h : layout level j ++ x = layout level k ++ y) : ∃ c, j.opens c ∧ k.opens c := by
  obtain ⟨c, hc, hj⟩ := opens_layout level j
  obtain ⟨d, hd, hk⟩ := opens_layout level k
  have hcd := head?_append hc x
  rw [h, head?_append hd y, Option.some.injEq] at hcd
  exact ⟨c, hj, hcd ▸ hk⟩

theorem boolean_append_inj {b c : Bool} {x y : String}
    (h : (if b then "true" else "false") ++ x = (if c then "true" else "false") ++ y) :
    b = c ∧ x = y := by
  cases b <;> cases c
  case false.false | true.true => exact ⟨rfl, (String.append_right_inj _).mp h⟩
  all_goals exact absurd h (append_ne_of_getElem? 0 rfl rfl (by decide))

/-- **The text of a value tells the value**, and where it ends. -/
theorem legible_layout (level : Nat) (j : Json) : Legible (layout level) j := by
  induction j generalizing level with (intro k x y hx hy h; have hopens := exists_opens h)
  | null =>
    cases k with
    | null => exact ⟨rfl, (String.append_right_inj _).mp h⟩
    | _ => simp [opens] at hopens
  | boolean b =>
    cases k with
    | boolean c =>
      rw [layout, layout] at h
      obtain ⟨rfl, hxy⟩ := boolean_append_inj h
      exact ⟨rfl, hxy⟩
    | _ => simp [opens] at hopens
  | number m =>
    cases k with
    | number n =>
      obtain ⟨rfl, hxy⟩ := decimal_append_inj hx hy h
      exact ⟨rfl, hxy⟩
    | _ => simp [opens, and_or_left, exists_or] at hopens
  | string s =>
    cases k with
    | string t =>
      obtain ⟨rfl, hxy⟩ := quote_append_inj h
      exact ⟨rfl, hxy⟩
    | _ => simp [opens] at hopens
  | array elements ih =>
    cases k with
    | array others =>
      rw [layout, layout, layoutElements_eq, layoutElements_eq] at h
      obtain ⟨rfl, hxy⟩ := block_append_inj (c := ']') rfl (by decide)
        (fun e he => ih e he (level + 1)) h
      exact ⟨rfl, hxy⟩
    | _ => simp [opens] at hopens
  | object fields ih =>
    cases k with
    | object others =>
      rw [layout, layout, layoutFields_eq, layoutFields_eq] at h
      obtain ⟨rfl, hxy⟩ := block_append_inj (c := '\x7d') rfl (by decide)
        (fun f hf => legible_field (ih f hf (level + 1))) h
      exact ⟨rfl, hxy⟩
    | _ => simp [opens] at hopens

theorem pretty_injective : Function.Injective pretty := by
  intro j k h
  have hends : EndsNumber "" := nofun
  exact (legible_layout 0 j k "" "" hends hends (congrArg (· ++ "") h)).1

end Json

namespace Report

/-- **The JSON text of a report tells the whole of it.** -/
theorem json_injective : Function.Injective fun r : Report => r.toJson.pretty := by
  intro r s h
  have hjson : r.toJson = s.toJson := Json.pretty_injective h
  exact ToldBy.inj (toldBy_toJson r) (hjson ▸ toldBy_toJson s)

end Report

end ResponseFraming
