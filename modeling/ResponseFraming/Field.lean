/-!
# Fields

A `Field` is a name with a value, and `Fields` is the list of them that a head or a trailer block
carries: an ordered multimap.  Order, repeats and the case of the letters are kept; a look-up
takes no notice of ASCII case.
-/

namespace ResponseFraming

structure Field where
  name : String
  value : String
deriving DecidableEq, Repr

/-- A name as look-ups see it: the letters A to Z in lower case, all else as it is. -/
def foldCase (name : String) : List Char := name.toList.map Char.toLower

namespace Field

def isNamed (f : Field) (name : String) : Bool := foldCase f.name == foldCase name

def ofPair (p : String × String) : Field := ⟨p.1, p.2⟩

def toPair (f : Field) : String × String := (f.name, f.value)

end Field

structure Fields where
  toList : List Field
deriving DecidableEq, Repr

namespace Fields

def empty : Fields := ⟨[]⟩

def ofList (fs : List Field) : Fields := ⟨fs⟩

def ofPairs (ps : List (String × String)) : Fields := ⟨ps.map Field.ofPair⟩

def toPairs (fs : Fields) : List (String × String) := fs.toList.map Field.toPair

/-- Adds a field at the end; one of the same name stays. -/
def insert (fs : Fields) (name value : String) : Fields := ⟨fs.toList ++ [⟨name, value⟩]⟩

def get? (fs : Fields) (name : String) : Option String :=
  (fs.toList.find? (·.isNamed name)).map (·.value)

def getAll (fs : Fields) (name : String) : List String :=
  (fs.toList.filter (·.isNamed name)).map (·.value)

def size (fs : Fields) : Nat := fs.toList.length

def isEmpty (fs : Fields) : Bool := fs.toList.isEmpty

/-! ## Pairs -/

/-- Pairs are kept as they are, in their order and with their repeats and letter case. -/
theorem toPairs_ofPairs (ps : List (String × String)) : (ofPairs ps).toPairs = ps := by
  rw [toPairs, ofPairs, List.map_map]
  exact List.map_id ps

theorem ofPairs_toPairs (fs : Fields) : ofPairs fs.toPairs = fs := by
  rw [ofPairs, toPairs, List.map_map]
  exact congrArg Fields.mk (List.map_id fs.toList)

theorem toPairs_insert (fs : Fields) (name value : String) :
    (fs.insert name value).toPairs = fs.toPairs ++ [(name, value)] := by
  rw [toPairs, insert, List.map_append]
  rfl

theorem toPairs_inj {fs gs : Fields} : fs.toPairs = gs.toPairs ↔ fs = gs := by
  constructor
  · intro h
    rw [← ofPairs_toPairs fs, h, ofPairs_toPairs]
  · rintro rfl
    rfl

end Fields

end ResponseFraming
