import ResponseFraming.Proofs.Decoding

/-!
# Reading a tree of files

A path is read part by part: `LeadsTo` says where the parts lead, and a read succeeds exactly if
they lead to a file (`read_eq_ok`).

A file can be added where its way is `Free`.  It is then read under its name (`read_insert`), and
what could be read before is read as before (`read_insert_of_eq_ok`).
-/

namespace ResponseFraming.FileTree

variable {t : FileTree} {place target : List String} {parts : List String} {path name : String}
  {content : Bytes}

/-- A part of a path that is the name of what it leads to. -/
def Plain (part : String) : Prop := part ≠ "" ∧ part ≠ "." ∧ part ≠ ".."

/-- A path goes on from a directory only. -/
structure Open (t : FileTree) (place : List String) : Prop where
  vacant : t.file? place = none
  isDirectory : t.isDirectory place

/-! ## Paths -/

/-- The parts of a path lead from one place to another. -/
inductive LeadsTo (t : FileTree) : List String → List String → List String → Prop
  | arrive (place : List String) : LeadsTo t place [] place
  | stay {place rest target : List String} {part : String} (here : t.Open place)
      (hp : part = "" ∨ part = ".") (h : LeadsTo t place rest target) :
      LeadsTo t place (part :: rest) target
  | back {place rest target : List String} (here : t.Open place)
      (h : LeadsTo t place.dropLast rest target) : LeadsTo t place (".." :: rest) target
  | down {place rest target : List String} {part : String} (here : t.Open place)
      (hp : Plain part) (h : LeadsTo t (place ++ [part]) rest target) :
      LeadsTo t place (part :: rest) target

theorem walk_cons_of_open (h : t.Open place) (part : String) (rest : List String) :
    t.walk place (part :: rest) =
      if part = "" ∨ part = "." then t.walk place rest
      else if part = ".." then t.walk place.dropLast rest
      else t.walk (place ++ [part]) rest := by
  rw [walk, h.vacant, h.isDirectory]
  simp

/-- A walk that goes on has come to a directory. -/
theorem open_of_walk_cons {part : String} {rest : List String}
    (h : t.walk place (part :: rest) = .ok target) : t.Open place := by
  rw [walk] at h
  split at h
  · cases h
  · rename_i hf
    split at h
    · cases h
    · rename_i hd
      exact ⟨Option.not_isSome_iff_eq_none.mp hf, by simpa using hd⟩

theorem walk_eq_ok : t.walk place parts = .ok target ↔ t.LeadsTo place parts target := by
  constructor
  · intro h
    induction parts generalizing place with
    | nil =>
      obtain rfl := Except.ok.inj h
      exact .arrive place
    | cons part rest ih =>
      have ho := open_of_walk_cons h
      rw [walk_cons_of_open ho] at h
      split at h
      · rename_i hp
        exact .stay ho hp (ih h)
      · rename_i hp
        rw [not_or] at hp
        split at h
        · rename_i hb
          subst hb
          exact .back ho (ih h)
        · rename_i hb
          exact .down ho ⟨hp.1, hp.2, hb⟩ (ih h)
  · intro h
    induction h with
    | arrive => rfl
    | stay ho hp _ ih => rw [walk_cons_of_open ho, if_pos hp, ih]
    | back ho _ ih => rw [walk_cons_of_open ho, if_neg (by decide), if_pos rfl, ih]
    | down ho hp _ ih =>
      rw [walk_cons_of_open ho, if_neg (not_or.mpr ⟨hp.1, hp.2.1⟩), if_neg hp.2.2, ih]

/-- **What can be read**: a path that is neither empty nor too long and leads to a file. -/
theorem read_eq_ok : t.read path = .ok content ↔
    path ≠ "" ∧ path.utf8ByteSize < 4096 ∧
      ∃ place, t.LeadsTo (if path.startsWith "/" then [] else t.start) (path.splitOn "/") place ∧
        t.file? place = some content := by
  by_cases he : path = ""
  · rw [read, if_pos he]
    exact ⟨nofun, fun h => absurd he h.1⟩
  by_cases hl : 4096 ≤ path.utf8ByteSize
  · rw [read, if_neg he, if_pos hl]
    exact ⟨nofun, fun h => absurd h.2.1 (Nat.not_lt.mpr hl)⟩
  rw [read, if_neg he, if_neg hl]
  simp only [bind_eq_ok, walk_eq_ok]
  constructor
  · rintro ⟨place, hw, h⟩
    cases hf : t.file? place with
    | none =>
      rw [hf] at h
      cases h
    | some bytes =>
      rw [hf] at h
      obtain rfl := Except.ok.inj h
      exact ⟨he, Nat.lt_of_not_le hl, place, hw, hf⟩
  · rintro ⟨-, -, place, hw, hf⟩
    exact ⟨place, hw, by rw [hf]; rfl⟩

/-- Plain parts lead down, if the way is there. -/
theorem leadsTo_append (hp : ∀ part ∈ parts, Plain part)
    (ho : ∀ front back, parts = front ++ back → back ≠ [] → t.Open (place ++ front)) :
    t.LeadsTo place parts (place ++ parts) := by
  induction parts generalizing place with
  | nil =>
    rw [List.append_nil]
    exact .arrive place
  | cons part rest ih =>
    rw [List.forall_mem_cons] at hp
    have hhere : t.Open place := by simpa using ho [] (part :: rest) rfl (by simp)
    have hrest : t.LeadsTo (place ++ [part]) rest (place ++ [part] ++ rest) := by
      refine ih hp.2 fun front back h hb => ?_
      simpa using ho (part :: front) back (by rw [h]; rfl) hb
    rw [List.append_assoc] at hrest
    exact .down hhere hp.1 hrest

/-! ## Adding a file -/

def placeOf (t : FileTree) (name : String) : List String :=
  t.start ++ (name.splitOn "/").filter fun part => part ≠ "" ∧ part ≠ "."

/-- Nothing is at a place, and no file on the way to it. -/
structure Free (t : FileTree) (place : List String) : Prop where
  noDirectory : ¬ t.isDirectory place
  noFile : ∀ front, front <+: place → t.file? front = none

theorem file?_insert (t : FileTree) (name : String) (content : Bytes) (place : List String) :
    (t.insert name content).file? place =
      (t.file? place).or (if t.placeOf name = place then some content else none) := by
  simp only [file?, insert, placeOf, List.find?_append, List.find?_cons, List.find?_nil]
  cases t.files.find? (·.1 = place) with
  | some file => rfl
  | none => split <;> simp_all

/-- A file makes the way to it directories. -/
theorem isDirectory_insert (t : FileTree) (name : String) (content : Bytes) (place : List String) :
    (t.insert name content).isDirectory place ↔
      t.isDirectory place ∨ (place <+: t.placeOf name ∧ place ≠ t.placeOf name) := by
  simp only [isDirectory, insert, placeOf, List.any_append, List.any_cons, List.any_nil,
    Bool.or_false, Bool.or_eq_true, decide_eq_true_eq, List.isPrefixOf_iff_prefix]
  tauto

theorem Open.insert (h : t.Open place) (hn : ¬ t.isDirectory (t.placeOf name)) :
    (t.insert name content).Open place := by
  refine ⟨?_, (isDirectory_insert t name content place).mpr (.inl h.isDirectory)⟩
  have hne : t.placeOf name ≠ place := fun he => hn (he ▸ h.isDirectory)
  rw [file?_insert, h.vacant, if_neg hne]
  rfl

theorem LeadsTo.insert (h : t.LeadsTo place parts target)
    (hn : ¬ t.isDirectory (t.placeOf name)) :
    (t.insert name content).LeadsTo place parts target := by
  induction h with
  | arrive => exact .arrive _
  | stay ho hp _ ih => exact .stay (ho.insert hn) hp ih
  | back ho _ ih => exact .back (ho.insert hn) ih
  | down ho hp _ ih => exact .down (ho.insert hn) hp ih

/-- **One more file does not change what the others read.** -/
theorem read_insert_of_eq_ok {before : Bytes} (hn : ¬ t.isDirectory (t.placeOf name))
    (h : t.read path = .ok before) : (t.insert name content).read path = .ok before := by
  obtain ⟨he, hl, place, hw, hf⟩ := read_eq_ok.mp h
  refine read_eq_ok.mpr ⟨he, hl, place, hw.insert hn, ?_⟩
  rw [file?_insert, hf]
  rfl

theorem splitOn_empty : "".splitOn "/" = [""] := by
  rw [String.splitOn, if_neg (by decide), String.splitOnAux]
  rfl

/-- **A file is read under its name.** -/
theorem read_insert (hrel : ¬ name.startsWith "/") (hp : ∀ part ∈ name.splitOn "/", Plain part)
    (hl : name.utf8ByteSize < 4096) (hfree : t.Free (t.placeOf name)) :
    (t.insert name content).read name = .ok content := by
  have hplace : t.placeOf name = t.start ++ name.splitOn "/" := by
    rw [placeOf, List.filter_eq_self.mpr]
    intro part hpart
    exact decide_eq_true ⟨(hp part hpart).1, (hp part hpart).2.1⟩
  have hne : name ≠ "" := by
    rintro rfl
    exact (hp "" (by simp [splitOn_empty])).1 rfl
  have hway : (t.insert name content).LeadsTo t.start (name.splitOn "/") (t.placeOf name) := by
    rw [hplace]
    refine leadsTo_append hp fun front back h hb => ?_
    have hbefore : t.start ++ front <+: t.placeOf name ∧ t.start ++ front ≠ t.placeOf name := by
      rw [hplace, h]
      exact ⟨⟨back, List.append_assoc ..⟩, by simpa using hb⟩
    refine ⟨?_, (isDirectory_insert t name content _).mpr (.inr hbefore)⟩
    rw [file?_insert, hfree.noFile _ hbefore.1, if_neg (Ne.symm hbefore.2)]
    rfl
  refine read_eq_ok.mpr ⟨hne, hl, t.placeOf name, ?_, ?_⟩
  · rw [if_neg hrel]
    exact hway
  · rw [file?_insert, hfree.noFile _ (List.prefix_refl _), if_pos rfl]
    rfl

end ResponseFraming.FileTree
