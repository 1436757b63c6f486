import ResponseFraming.Proofs.Entries
import ResponseFraming.Proofs.Reader

/-!
# What documents give

Every table of a document has each of its keys once, and repeated tables are tables.  Readers give
such values, by induction on how deep they may be nested, and putting sections into such tables
leaves them so.

* `gives_value`: values.
* `exists_group`: lines into sections.
* `proper_parse?`: **documents**.
-/

namespace ResponseFraming.Toml

/-! ## Values -/

open Reader

theorem finished_scalar? {cs : List Char} {v : Value} (h : scalar? cs = some v) :
    v.Finished := by
  have hor : ∀ {x y : Option Value}, (x <|> y) = some v → x = some v ∨ y = some v := by
    intro x y hxy
    cases x with
    | none => exact .inr hxy
    | some w => exact .inl hxy
  unfold scalar? at h
  split at h
  case isTrue => cases h; exact ⟨.boolean true, trivial⟩
  case isFalse =>
    split at h
    case isTrue => cases h; exact ⟨.boolean false, trivial⟩
    case isFalse =>
      split at h
      case isTrue => cases h; exact ⟨.datetime, trivial⟩
      case isFalse =>
        rcases hor h with h | h
        · obtain ⟨n, -, rfl⟩ := Option.map_eq_some_iff.mp h
          exact ⟨.integer n, trivial⟩
        · obtain ⟨x, -, rfl⟩ := Option.map_eq_some_iff.mp h
          exact ⟨.float x, trivial⟩

theorem gives_pair {value : Reader Value} (h : value.Gives Value.Finished) :
    (pair value).Gives fun p => p.value.Finished := by
  refine gives_dottedKey.bind fun key _ => (gives_char '=').bind fun _ _ =>
    gives_blanks.bind fun _ _ => h.bind fun v hv => ?_
  split
  case h_1 p hp =>
    obtain ⟨last, -, rfl⟩ := Option.map_eq_some_iff.mp hp
    exact gives_pure hv
  case h_2 => exact gives_failure

theorem gives_array {value : Reader Value} (h : value.Gives Value.Finished) :
    (array value).Gives Value.Finished := by
  have helement : Gives (do gap; let v ← value; gap; return v) Value.Finished :=
    gives_gap.bind fun _ _ => h.bind fun v hv => gives_gap.bind fun _ _ => gives_pure hv
  have helements := ((gives_char ',').separated helement).bind fun elements hall =>
    (gives_char ',').optional.bind fun _ _ => gives_pure (a := elements) hall.2
  refine (gives_char '[').bind fun _ _ => helements.optional.bind fun elements hall =>
    gives_gap.bind fun _ _ => (gives_char ']').bind fun _ _ => gives_pure ⟨.array ?_, trivial⟩
  cases elements with
  | none => exact nofun
  | some elements => exact fun v hv => (hall elements rfl v hv).proper

theorem gives_inlineTable {value : Reader Value} (h : value.Gives Value.Finished) :
    (inlineTable value).Gives Value.Finished := by
  have hentry : Gives (do let p ← pair value; blanks; return p) fun p => p.value.Finished :=
    (gives_pair h).bind fun p hp => gives_blanks.bind fun _ _ => gives_pure hp
  refine (gives_char '\x7b').bind fun _ _ =>
    ((gives_char ',').separated hentry).optional.bind fun pairs hpairs =>
      gives_blanks.bind fun _ _ => (gives_char '\x7d').bind fun _ _ => ?_
  split
  case h_1 entries hentries =>
    have hall : ∀ p ∈ pairs.getD [], p.value.Finished := by
      cases pairs with
      | none => exact nofun
      | some pairs => exact (hpairs pairs rfl).2
    have hproper := proper_addPairs? (fun p hp => (hall p hp).proper) Entries.proper_nil hentries
    exact gives_pure ⟨Entries.proper_table_iff.mpr hproper, rfl⟩
  case h_2 => exact gives_failure

theorem gives_valueOver {inner : Option (Reader Value)}
    (h : ∀ r ∈ inner, r.Gives Value.Finished) : (valueOver inner).Gives Value.Finished := by
  refine gives_peek.bind fun c _ => ?_
  split
  case h_1 | h_2 => exact gives_string.bind fun s _ => gives_pure ⟨.string s, trivial⟩
  case h_3 r => exact gives_array (h r rfl)
  case h_4 r => exact gives_inlineTable (h r rfl)
  case h_5 => exact gives_scalar.imp fun v ⟨cs, hcs⟩ => finished_scalar? hcs

theorem gives_value (nesting : Nat) : (value nesting).Gives Value.Finished := by
  induction nesting with
  | zero => exact gives_valueOver nofun
  | succ nesting ih => exact gives_valueOver fun r hr => Option.some.inj hr ▸ ih

/-! ## Documents -/

/-- A header has a name, and a pair its value. -/
def Line.Finished : Line → Prop
  | .blank => True
  | .header _ name => name ≠ []
  | .pair p => p.value.Finished

theorem gives_header : header.Gives Line.Finished := by
  refine (gives_char '[').bind fun _ _ => (gives_char '[').optional.bind fun o _ =>
    gives_dottedKey.bind fun name hname => (gives_char ']').bind fun _ _ => ?_
  split
  case isTrue => exact (gives_char ']').bind fun _ _ => gives_pure hname.1
  case isFalse => exact gives_pure hname.1

theorem gives_line : line.Gives Line.Finished := by
  have hpair : Gives (Line.pair <$> pair (value deepestNesting)) Line.Finished :=
    (gives_pair (gives_value deepestNesting)).map fun _ hp => hp
  have hblank : Gives (pure .blank) Line.Finished := gives_pure (P := Line.Finished) trivial
  exact gives_blanks.bind fun _ _ => (gives_header.orElse (hpair.orElse hblank)).bind fun l hl =>
    gives_lineRest.bind fun _ _ => gives_pure hl

theorem finished_lines? {input : List Char} {lines : List Line} (h : lines? input = some lines) :
    ∀ l ∈ lines, l.Finished := by
  fun_induction lines? input generalizing lines
  case case1 hline =>
    cases h
    exact List.forall_mem_singleton.mpr (gives_line _ _ _ hline).2
  case case2 hline ih =>
    obtain ⟨⟨u, rest⟩, -, h⟩ := Option.bind_eq_some_iff.mp h
    dsimp only at h
    split at h
    case isTrue hlt =>
      obtain ⟨others, hothers, ⟨⟩⟩ := Option.bind_eq_some_iff.mp h
      exact List.forall_mem_cons.mpr ⟨(gives_line _ _ _ hline).2, ih rest hlt hothers⟩
    case isFalse => cases h
  case case3 => cases h

/-- Grouping keeps all pairs, and does not fail. -/
theorem exists_group {lines : List Line} (h : ∀ l ∈ lines, l.Finished) :
    ∃ pairs sections, group lines = some (pairs, sections) ∧
      (∀ p ∈ pairs, p.value.Finished) ∧ ∀ s ∈ sections, ∀ p ∈ s.pairs, p.value.Finished := by
  induction lines with
  | nil => exact ⟨[], [], rfl, nofun, nofun⟩
  | cons l lines ih =>
    obtain ⟨hl, hrest⟩ := List.forall_mem_cons.mp h
    obtain ⟨pairs, sections, hgroup, hpairs, hsections⟩ := ih hrest
    cases l with
    | blank => exact ⟨pairs, sections, hgroup, hpairs, hsections⟩
    | pair p =>
      refine ⟨p :: pairs, sections, ?_, List.forall_mem_cons.mpr ⟨hl, hpairs⟩, hsections⟩
      rw [group, hgroup]
      rfl
    | header repeated name =>
      refine ⟨[], ⟨repeated, name.dropLast, name.getLast hl, pairs⟩ :: sections, ?_, nofun,
        List.forall_mem_cons.mpr ⟨hpairs, hsections⟩⟩
      rw [group, hgroup, List.getLast?_eq_some_getLast hl]
      rfl

namespace Section

variable {s : Section} {entries entries' : Entries}

/-- **A section's table** has its pairs, and is under its key. -/
theorem of_place? (hs : ∀ p ∈ s.pairs, p.value.Finished) (h : s.place? entries = some entries') :
    ∃ v inner, entries'.get? s.key = some v ∧ v.inner? = some inner ∧
      (∀ p ∈ s.pairs, inner.at? p.path p.key = some p.value) ∧
      (entries.Proper → entries'.Proper) := by
  have hpairs : ∀ {es es'}, addPairs? es s.pairs = some es' →
      (∀ p ∈ s.pairs, es'.at? p.path p.key = some p.value) ∧ (es.Proper → es'.Proper) :=
    fun h => ⟨(at?_of_addPairs? (fun p hp => (hs p hp).closed) h).1,
      fun hes => proper_addPairs? (fun p hp => (hs p hp).proper) hes h⟩
  unfold place? at h
  split at h
  case h_1 hkey =>
    obtain ⟨own, hown, ⟨⟩⟩ := Option.bind_eq_some_iff.mp h
    refine ⟨.table .header own, own, ?_, rfl, (hpairs hown).1, fun hes => ?_⟩
    · rw [Entries.get?_push, hkey, if_pos rfl]
      rfl
    · exact hes.push hkey (Entries.proper_table_iff.mpr ((hpairs hown).2 Entries.proper_nil))
  case h_2 hkey =>
    obtain ⟨own, hown, ⟨⟩⟩ := Option.bind_eq_some_iff.mp h
    have hremoved := Entries.get?_remove entries s.key
    refine ⟨.table .header own, own, ?_, rfl, (hpairs hown).1, fun hes => ?_⟩
    · rw [Entries.get?_push, hremoved, if_pos rfl]
      rfl
    · have hinner := Entries.proper_table_iff.mp (hes.get? hkey)
      exact hes.remove.push hremoved (Entries.proper_table_iff.mpr ((hpairs hown).2 hinner))
  case h_3 hkey =>
    obtain ⟨own, hown, ⟨⟩⟩ := Option.bind_eq_some_iff.mp h
    refine ⟨.tables [.table .header own], own, ?_, rfl, (hpairs hown).1, fun hes => ?_⟩
    · rw [Entries.get?_push, hkey, if_pos rfl]
      rfl
    · have hone : (Value.tables ([] ++ [.table .header own])).Proper :=
        Entries.proper_tables nofun nofun ((hpairs hown).2 Entries.proper_nil)
      exact hes.push hkey hone
  case h_4 elements _ hkey =>
    obtain ⟨own, hown, ⟨⟩⟩ := Option.bind_eq_some_iff.mp h
    refine ⟨.tables (elements ++ [.table .header own]), own, ?_, ?_, (hpairs hown).1, fun hes => ?_⟩
    · rw [Entries.get?_set, hkey, Option.map_some, if_pos rfl]
    · rw [Value.inner?, List.getLast?_concat]
    · cases hes.get? hkey with
      | tables _ htable helements =>
        exact hes.set (Entries.proper_tables htable helements
          ((hpairs hown).2 Entries.proper_nil))
  case h_5 => cases h

theorem proper_addSection? (hs : ∀ p ∈ s.pairs, p.value.Finished) (h : entries.Proper)
    (hadd : addSection? entries s = some entries') : entries'.Proper := by
  refine h.within? (fun _ es es' hes hplace => ?_) hadd
  obtain ⟨-, -, -, -, -, hproper⟩ := of_place? hs hplace
  exact hproper hes

/-- **A section's pairs are under its name.** -/
theorem at?_of_addSection? (hs : ∀ p ∈ s.pairs, p.value.Finished)
    (hadd : addSection? entries s = some entries') {p : Pair} (hp : p ∈ s.pairs) :
    entries'.at? (s.path ++ s.key :: p.path) p.key = some p.value := by
  obtain ⟨-, before, after, hplace, hinside⟩ := Entries.exists_inside?_of_within? rfl hadd
  obtain ⟨v, inner, hkey, hinner, hpairs, -⟩ := of_place? hs hplace
  rw [Entries.at?, Entries.inside?_append, hinside, Option.bind_some, Entries.inside?, hkey,
    Option.bind_some, hinner, Option.bind_some]
  exact hpairs p hp

end Section

theorem proper_assemble? {lines : List Line} {entries : Entries} (hlines : ∀ l ∈ lines, l.Finished)
    (h : assemble? lines = some entries) : entries.Proper := by
  obtain ⟨pairs, sections, hgroup, hpairs, hsections⟩ := exists_group hlines
  rw [assemble?, hgroup, Option.bind_eq_bind, Option.bind_some] at h
  obtain ⟨top, htop, h⟩ := Option.bind_eq_some_iff.mp h
  have hproper := proper_addPairs? (fun p hp => (hpairs p hp).proper) Entries.proper_nil htop
  exact of_foldlM (P := Entries.Proper)
    (fun s hs _ _ hes hadd => s.proper_addSection? (hsections s hs) hes hadd) hproper h

/-- **Every document is a proper table.** -/
theorem proper_parse? {text : String} {entries : Entries} (h : parse? text = some entries) :
    entries.Proper := by
  unfold parse? at h
  split at h
  all_goals
    obtain ⟨lines, hlines, h⟩ := Option.bind_eq_some_iff.mp h
    exact proper_assemble? (finished_lines? hlines) h

end ResponseFraming.Toml
