import ResponseFraming.Field
import Mathlib.Data.List.Forall2
import Mathlib.Logic.Function.Basic

/-!
# Fields as a multimap

A look-up in `Fields` takes two names for one if they differ in nothing but the case of the
letters A to Z (`SameName`).  So what look-ups can see of fields is a `Multimap`: under the
key of each name the values that came with it, in order.  The fields themselves are the pairs
that they were made of, with every letter as it came.

* `foldCase_eq_iff`, `key_eq_iff`: a look-up compares names up to the case of those letters.
* `view_change`: a change of fields is the same change of the multimap; `view_changed` is
  this for any number of changes, and `toPairs_changed` says what the pairs are then.
* `lookups_refine_multimap`: the look-ups after any changes, and what the pairs keep.
-/

namespace ResponseFraming

/-! ## Names -/

/-- The same character, or the two cases of a letter from A to Z. -/
def SameLetter (c d : Char) : Prop :=
  c = d ∨ (('A' ≤ c ∧ c ≤ 'Z') ∧ d.toNat = c.toNat + 32) ∨
    (('A' ≤ d ∧ d ≤ 'Z') ∧ c.toNat = d.toNat + 32)

/-- The same name, up to the case of those letters. -/
def SameName (m n : String) : Prop := List.Forall₂ SameLetter m.toList n.toList

/-- The code point of a character, for a letter from A to Z that of the small letter. -/
def foldedCode (c : Char) : Nat := if 'A' ≤ c ∧ c ≤ 'Z' then c.toNat + 32 else c.toNat

/-- The key of a name. -/
def key (name : String) : List Nat := name.toList.map foldedCode

theorem capital_iff (c : Char) : ('A' ≤ c ∧ c ≤ 'Z') ↔ 65 ≤ c.toNat ∧ c.toNat ≤ 90 := by
  simp only [Char.le_def, UInt32.le_iff_toNat_le]
  rfl

theorem toNat_toLower (c : Char) : c.toLower.toNat = foldedCode c := by
  have hc : (c.val ≥ 'A'.val ∧ c.val ≤ 'Z'.val) ↔ ('A' ≤ c ∧ c ≤ 'Z') := by
    simp only [Char.le_def, ge_iff_le]
  unfold Char.toLower foldedCode
  by_cases h : 'A' ≤ c ∧ c ≤ 'Z'
  · have hlt := (capital_iff c).mp h
    rw [dif_pos (hc.mpr h), if_pos h]
    show (c.val + 32).toNat = c.val.toNat + 32
    rw [UInt32.toNat_add]
    exact Nat.mod_eq_of_lt (show c.toNat + 32 < 2 ^ 32 by omega)
  · rw [dif_neg (mt hc.mp h), if_neg h]

theorem foldedCode_eq_iff (c d : Char) : foldedCode c = foldedCode d ↔ SameLetter c d := by
  have heq : c = d ↔ c.toNat = d.toNat := Char.toNat_inj.symm
  simp only [foldedCode, SameLetter, heq, capital_iff]
  split <;> split <;> omega

/-- Names have one key if they are the same up to the case of the letters A to Z. -/
theorem key_eq_iff (m n : String) : key m = key n ↔ SameName m n := by
  rw [key, key, ← List.forall₂_eq_eq_eq, List.forall₂_map_left_iff, List.forall₂_map_right_iff]
  simp only [foldedCode_eq_iff]
  exact Iff.rfl

/-- A look-up compares keys. -/
theorem foldCase_eq_iff (m n : String) : foldCase m = foldCase n ↔ key m = key n := by
  have hkey : ∀ name, key name = (foldCase name).map Char.toNat := by
    intro name
    rw [key, foldCase, List.map_map]
    exact List.map_congr_left fun c _ => (toNat_toLower c).symm
  have hinj : Function.Injective Char.toNat := fun c d h => Char.toNat_inj.mp h
  rw [hkey, hkey, (List.map_injective_iff.mpr hinj).eq_iff]

theorem Field.isNamed_eq (f : Field) (name : String) :
    f.isNamed name = decide (key f.name = key name) := by
  rw [isNamed, beq_eq_decide]
  exact decide_eq_decide.mpr (foldCase_eq_iff f.name name)

/-! ## Multimaps -/

/-- Values under keys, in the order in which they were added. -/
abbrev Multimap := List Nat → List String

namespace Multimap

def empty : Multimap := fun _ => []

/-- Adds a value at the end of those under the key of the name. -/
def add (m : Multimap) (name value : String) : Multimap :=
  Function.update m (key name) (m (key name) ++ [value])

def addAll (m : Multimap) (pairs : List (String × String)) : Multimap :=
  pairs.foldl (fun m p => m.add p.1 p.2) m

theorem add_apply (m : Multimap) (name value : String) (k : List Nat) :
    m.add name value k = if k = key name then m k ++ [value] else m k := by
  rw [add, Function.update_apply]
  by_cases h : k = key name
  · rw [if_pos h, if_pos h, h]
  · rw [if_neg h, if_neg h]

end Multimap

/-! ## Changes -/

namespace Fields

/-- What can be done to fields: one is added at the end, or they are made anew. -/
inductive Change
  | insert (name value : String)
  | ofPairs (pairs : List (String × String))
  | ofList (fields : List Field)

def change (fs : Fields) : Change → Fields
  | .insert name value => fs.insert name value
  | .ofPairs pairs => ofPairs pairs
  | .ofList fields => ofList fields

def changed (changes : List Change) : Fields := changes.foldl change empty

end Fields

def Multimap.change (m : Multimap) : Fields.Change → Multimap
  | .insert name value => m.add name value
  | .ofPairs pairs => empty.addAll pairs
  | .ofList fields => empty.addAll (fields.map Field.toPair)

def Multimap.changed (changes : List Fields.Change) : Multimap :=
  changes.foldl Multimap.change Multimap.empty

/-- The pairs that stand after a change. -/
def Fields.Change.write (pairs : List (String × String)) : Fields.Change → List (String × String)
  | .insert name value => pairs ++ [(name, value)]
  | .ofPairs pairs => pairs
  | .ofList fields => fields.map Field.toPair

/-- The pairs that came with the last new start and after it. -/
def Fields.written (changes : List Fields.Change) : List (String × String) :=
  changes.foldl Fields.Change.write []

namespace Fields

variable (fs : Fields)

theorem ofList_eq (fields : List Field) : ofList fields = ofPairs (fields.map Field.toPair) :=
  (ofPairs_toPairs ⟨fields⟩).symm

theorem foldl_insert (pairs : List (String × String)) :
    pairs.foldl (fun fs p => fs.insert p.1 p.2) fs = ofPairs (fs.toPairs ++ pairs) := by
  induction pairs generalizing fs with
  | nil => rw [List.foldl_nil, List.append_nil, ofPairs_toPairs]
  | cons p pairs ih =>
    rw [List.foldl_cons, ih, toPairs_insert, List.append_assoc]
    rfl

/-- Fields made of pairs are those into which the pairs are inserted one by one. -/
theorem ofPairs_eq_foldl (pairs : List (String × String)) :
    ofPairs pairs = pairs.foldl (fun fs p => fs.insert p.1 p.2) empty :=
  (foldl_insert empty pairs).symm

theorem toPairs_change (c : Change) : (fs.change c).toPairs = c.write fs.toPairs := by
  cases c with
  | insert name value => exact toPairs_insert fs name value
  | ofPairs pairs => exact toPairs_ofPairs pairs
  | ofList fields => rfl

theorem toPairs_changed (changes : List Change) : (changed changes).toPairs = written changes :=
  (List.foldl_hom toPairs fun fs c => (toPairs_change fs c).symm).symm

/-! ## Look-ups -/

/-- What look-ups can see of fields. -/
def view : Multimap := fun k => (fs.toPairs.filter fun p => key p.1 = k).map Prod.snd

theorem getAll_eq_view (name : String) : fs.getAll name = fs.view (key name) := by
  rw [getAll, view, toPairs, List.filter_map, List.map_map]
  congr 1
  exact List.filter_congr fun f _ => f.isNamed_eq name

theorem get?_eq_head? (name : String) : fs.get? name = (fs.getAll name).head? := by
  rw [get?, getAll, List.head?_map, List.head?_filter]

theorem view_insert (name value : String) :
    (fs.insert name value).view = fs.view.add name value := by
  funext k
  rw [view, toPairs_insert, List.filter_append, List.map_append, Multimap.add_apply]
  by_cases h : k = key name
  · rw [if_pos h, List.filter_cons_of_pos (by simp [h])]
    rfl
  · have hne : key name ≠ k := fun hk => h hk.symm
    rw [if_neg h, List.filter_cons_of_neg (by simpa using hne)]
    exact List.append_nil _

theorem view_foldl_insert (pairs : List (String × String)) :
    (pairs.foldl (fun fs p => fs.insert p.1 p.2) fs).view = fs.view.addAll pairs :=
  (List.foldl_hom view fun fs p => (view_insert fs p.1 p.2).symm).symm

theorem view_ofPairs (pairs : List (String × String)) :
    (ofPairs pairs).view = Multimap.empty.addAll pairs := by
  rw [ofPairs_eq_foldl, view_foldl_insert]
  rfl

/-- **A change of fields is the same change of what look-ups can see.** -/
theorem view_change (c : Change) : (fs.change c).view = fs.view.change c := by
  cases c with
  | insert name value => exact view_insert fs name value
  | ofPairs pairs => exact view_ofPairs pairs
  | ofList fields =>
    show (ofList fields).view = _
    rw [ofList_eq, view_ofPairs]
    rfl

theorem view_changed (changes : List Change) :
    (changed changes).view = Multimap.changed changes :=
  (List.foldl_hom view fun fs c => (view_change fs c).symm).symm

/-- An insertion adds to the values of its name and to no others. -/
theorem getAll_insert (m name value : String) :
    (fs.insert m value).getAll name =
      if key name = key m then fs.getAll name ++ [value] else fs.getAll name := by
  rw [getAll_eq_view, view_insert, Multimap.add_apply, ← getAll_eq_view]

/-- Fields that keep some pairs, and whose look-ups are those of a multimap. -/
structure Realizes (fs : Fields) (m : Multimap) (pairs : List (String × String)) : Prop where
  toPairs_eq : fs.toPairs = pairs
  getAll_eq : ∀ name, fs.getAll name = m (key name)
  /-- All values of a name are those of the pairs with that name, in order. -/
  getAll_pairs : ∀ name,
    fs.getAll name = (pairs.filter fun p => key p.1 = key name).map Prod.snd
  get?_eq : ∀ name, fs.get? name = (fs.getAll name).head?
  /-- The case of the letters A to Z makes no difference to a look-up. -/
  anyCase : ∀ name name', SameName name name' →
    fs.getAll name = fs.getAll name' ∧ fs.get? name = fs.get? name'
  inserted : ∀ name value name', SameName name' name →
    (fs.insert name value).getAll name' = fs.getAll name' ++ [value]
  untouched : ∀ name value name', ¬ SameName name' name →
    (fs.insert name value).getAll name' = fs.getAll name' ∧
      (fs.insert name value).get? name' = fs.get? name'
  remade : ofPairs fs.toPairs = fs
  eq_iff : ∀ gs : Fields, fs = gs ↔ fs.toPairs = gs.toPairs
  size_eq : fs.size = fs.toPairs.length

/-- **Look-ups refine a multimap** after any changes, and the pairs are kept as they came: fields
made of pairs have these pairs, and are those into which they are inserted one by one. -/
theorem lookups_refine_multimap (changes : List Change) :
    (changed changes).Realizes (Multimap.changed changes) (written changes) ∧
      ∀ pairs, ofPairs pairs = pairs.foldl (fun fs p => fs.insert p.1 p.2) empty ∧
        (ofPairs pairs).toPairs = pairs := by
  refine ⟨?_, fun pairs => ⟨ofPairs_eq_foldl pairs, toPairs_ofPairs pairs⟩⟩
  have hget := get?_eq_head? (changed changes)
  have hall : ∀ name name', SameName name name' →
      (changed changes).getAll name = (changed changes).getAll name' := by
    intro name name' h
    rw [getAll_eq_view, (key_eq_iff name name').mpr h, ← getAll_eq_view]
  have hother : ∀ name value name', ¬ SameName name' name →
      ((changed changes).insert name value).getAll name' = (changed changes).getAll name' := by
    intro name value name' h
    rw [getAll_insert, if_neg (mt (key_eq_iff name' name).mp h)]
  exact
    { toPairs_eq := toPairs_changed changes
      getAll_eq := fun name => by rw [getAll_eq_view, view_changed]
      getAll_pairs := fun name => by rw [getAll_eq_view, view, toPairs_changed]
      get?_eq := hget
      anyCase := fun name name' h => by
        rw [hget, hget, hall name name' h]
        exact ⟨rfl, rfl⟩
      inserted := fun name value name' h => by
        rw [getAll_insert, if_pos ((key_eq_iff name' name).mpr h)]
      untouched := fun name value name' h => by
        rw [get?_eq_head?, hget, hother name value name' h]
        exact ⟨rfl, rfl⟩
      remade := ofPairs_toPairs _
      eq_iff := fun gs => toPairs_inj.symm
      size_eq := (List.length_map Field.toPair).symm }

/-- Letters beyond A to Z are not folded. -/
example :
    let fs := (ofPairs [("x-É", "1"), ("X-é", "2")]).insert "X-É" "3"
    fs.getAll "x-É" = ["1", "3"] ∧ fs.get? "x-é" = some "2" := by decide +kernel

end Fields

end ResponseFraming
