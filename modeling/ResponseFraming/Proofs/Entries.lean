import ResponseFraming.Toml.Document
import Mathlib

/-!
# Tables under keys

What the operations on the entries of a table do: to the keys, which stay distinct, and to the
values under them.

* `Entries.Proper.within?`, `proper_addPairs?`: every table has each of its keys once.
* `exists_inside?_of_within?`: a change is made at the end of its path.
* `Entries.Keeps.within?`: values that cannot be extended stay where they are.
* `at?_of_addPairs?`: **every pair is in the table to which it was added.**
-/

namespace ResponseFraming.Toml

/-! ## Proper tables -/

/-- Every table inside has each of its keys once, and repeated tables are tables. -/
inductive Value.Proper : Value → Prop
  | string (s : String) : Proper (.string s)
  | integer (n : Int) : Proper (.integer n)
  | float (x : Binary64) : Proper (.float x)
  | boolean (b : Bool) : Proper (.boolean b)
  | datetime : Proper .datetime
  | array {elements : List Value} (h : ∀ v ∈ elements, v.Proper) : Proper (.array elements)
  | tables {elements : List Value} (hne : elements ≠ [])
    (htable : ∀ v ∈ elements, ∃ origin entries, v = .table origin entries)
    (h : ∀ v ∈ elements, v.Proper) : Proper (.tables elements)
  | table {origin : Origin} {entries : List (String × Value)} (hkeys : (entries.map (·.1)).Nodup)
    (h : ∀ e ∈ entries, e.2.Proper) : Proper (.table origin entries)

namespace Entries

/-- The entries of a proper table. -/
structure Proper (entries : Entries) : Prop where
  keys : (entries.map (·.1)).Nodup
  values : ∀ e ∈ entries, e.2.Proper

variable {entries : Entries} {key : String} {v : Value} {origin : Origin}

theorem proper_table_iff : (Value.table origin entries).Proper ↔ entries.Proper :=
  ⟨fun | .table hkeys h => ⟨hkeys, h⟩, fun h => .table h.keys h.values⟩

theorem proper_nil : Proper [] := ⟨List.nodup_nil, nofun⟩

theorem get?_eq_none_iff : entries.get? key = none ↔ key ∉ entries.map (·.1) := by
  rw [get?, Option.map_eq_none_iff, List.find?_eq_none]
  constructor
  · intro h hmem
    obtain ⟨e, he, hkey⟩ := List.mem_map.mp hmem
    exact h e he (beq_iff_eq.mpr hkey)
  · intro h e he hkey
    exact h (List.mem_map.mpr ⟨e, he, beq_iff_eq.mp hkey⟩)

theorem mem_of_get? (h : entries.get? key = some v) : (key, v) ∈ entries := by
  obtain ⟨⟨k, w⟩, hfind, rfl⟩ := Option.map_eq_some_iff.mp h
  have hk := List.find?_some hfind
  rw [beq_iff_eq] at hk
  exact hk ▸ List.mem_of_find?_eq_some hfind

theorem get?_remove (entries : Entries) (key : String) : (entries.remove key).get? key = none := by
  rw [get?_eq_none_iff]
  intro hmem
  obtain ⟨e, he, hkey⟩ := List.mem_map.mp hmem
  exact bne_iff_ne.mp (List.mem_filter.mp he).2 hkey

theorem map_fst_set : (entries.set key v).map (·.1) = entries.map (·.1) := by
  rw [set, List.map_map]
  refine List.map_congr_left fun e _ => ?_
  rw [Function.comp_apply]
  split
  case isTrue he => exact he.symm
  case isFalse => rfl

namespace Proper

theorem get? (h : entries.Proper) (hget : entries.get? key = some v) : v.Proper :=
  h.values _ (mem_of_get? hget)

theorem push (h : entries.Proper) (hkey : entries.get? key = none) (hv : v.Proper) :
    (entries.push key v).Proper where
  keys := by
    rw [Entries.push, List.map_append, List.map_singleton, List.nodup_append]
    refine ⟨h.keys, List.nodup_singleton key, fun k hk k' hk' heq => ?_⟩
    have hkk : k = key := heq.trans (List.mem_singleton.mp hk')
    exact get?_eq_none_iff.mp hkey (hkk ▸ hk)
  values e he := by
    rcases List.mem_append.mp he with he | he
    · exact h.values e he
    · rw [List.mem_singleton.mp he]
      exact hv

theorem set (h : entries.Proper) (hv : v.Proper) : (entries.set key v).Proper where
  keys := by
    rw [map_fst_set]
    exact h.keys
  values e he := by
    obtain ⟨e', he', rfl⟩ := List.mem_map.mp he
    split
    case isTrue => exact hv
    case isFalse => exact h.values e' he'

theorem remove (h : entries.Proper) : (entries.remove key).Proper where
  keys := h.keys.sublist (List.filter_sublist.map _)
  values e he := h.values e (List.mem_of_mem_filter he)

theorem add? {entries' : Entries} (h : entries.Proper) (hv : v.Proper)
    (hadd : entries.add? key v = some entries') : entries'.Proper := by
  unfold Entries.add? at hadd
  split at hadd
  case h_1 hkey =>
    cases hadd
    exact h.push hkey hv
  case h_2 => cases hadd

end Proper

theorem proper_tables {elements : List Value}
    (htable : ∀ v ∈ elements, ∃ origin entries, v = .table origin entries)
    (h : ∀ v ∈ elements, v.Proper) (hentries : entries.Proper) :
    (Value.tables (elements ++ [.table origin entries])).Proper := by
  refine .tables (by simp) (fun v hv => ?_) (fun v hv => ?_)
  · rcases List.mem_append.mp hv with hv | hv
    · exact htable v hv
    · exact ⟨origin, entries, List.mem_singleton.mp hv⟩
  · rcases List.mem_append.mp hv with hv | hv
    · exact h v hv
    · rw [List.mem_singleton.mp hv]
      exact proper_table_iff.mpr hentries

/-- **A change at the end of a path** keeps tables proper if it keeps the one at the end so. -/
theorem Proper.within? {made : Origin} {admits : Origin → Bool}
    {change : Origin → Entries → Option Entries}
    (hchange : ∀ origin es es', es.Proper → change origin es = some es' → es'.Proper)
    {path : List String} {entries' : Entries} (h : entries.Proper)
    (hw : Entries.within? made admits change path origin entries = some entries') :
    entries'.Proper := by
  fun_induction Entries.within? made admits change path origin entries generalizing entries'
  case case1 origin entries => exact hchange origin entries entries' h hw
  case case2 hkey ih =>
    obtain ⟨inner, hinner, ⟨⟩⟩ := Option.bind_eq_some_iff.mp hw
    exact h.push hkey (proper_table_iff.mpr (ih proper_nil hinner))
  case case3 hkey _ ih =>
    obtain ⟨inner, hinner, ⟨⟩⟩ := Option.bind_eq_some_iff.mp hw
    exact h.set (proper_table_iff.mpr (ih (proper_table_iff.mp (h.get? hkey)) hinner))
  case case5 hkey _ _ hlast ih =>
    obtain ⟨inner, hinner, ⟨⟩⟩ := Option.bind_eq_some_iff.mp hw
    cases h.get? hkey with
    | tables _ htable helements =>
      have hproper := helements _ (List.mem_of_getLast? hlast)
      refine h.set (proper_tables (fun v hv => htable v (List.mem_of_mem_dropLast hv))
        (fun v hv => helements v (List.mem_of_mem_dropLast hv)) ?_)
      exact ih (proper_table_iff.mp hproper) hinner
  all_goals cases hw

theorem Proper.addPair? {entries' : Entries} {pair : Pair} (h : entries.Proper)
    (hv : pair.value.Proper) (hadd : entries.addPair? pair = some entries') : entries'.Proper := by
  refine h.within? (fun origin es es' hes hchange => ?_) hadd
  split at hchange
  case isTrue => exact hes.add? hv hchange
  case isFalse => cases hchange

end Entries

theorem of_foldlM {α β : Type} {f : β → α → Option β} {P : β → Prop} {as : List α}
    (hstep : ∀ a ∈ as, ∀ b b', P b → f b a = some b' → P b') {b b' : β} (hb : P b)
    (h : as.foldlM f b = some b') : P b' := by
  induction as generalizing b with
  | nil =>
    cases h
    exact hb
  | cons a as ih =>
    obtain ⟨b₁, hf, h⟩ := Option.bind_eq_some_iff.mp h
    exact ih (fun a' ha' => hstep a' (List.mem_cons_of_mem a ha'))
      (hstep a List.mem_cons_self b b₁ hb hf) h

theorem proper_addPairs? {entries entries' : Entries} {pairs : List Pair}
    (hpairs : ∀ p ∈ pairs, p.value.Proper) (h : entries.Proper)
    (hadd : addPairs? entries pairs = some entries') : entries'.Proper :=
  of_foldlM (P := Entries.Proper) (fun p hp _ _ hes hes' => hes.addPair? (hpairs p hp) hes') h hadd

/-! ## Values at paths -/

/-- The entries in which a path through a value goes on.  Of repeated tables these are the last. -/
def Value.inner? : Value → Option Entries
  | .table _ inner => some inner
  | .tables elements =>
    match elements.getLast? with
    | some (.table _ inner) => some inner
    | _ => none
  | _ => none

/-- Nothing can be added inside the value. -/
def Value.Closed : Value → Prop
  | .table origin _ => origin = .inline
  | .tables _ => False
  | _ => True

/-- What a reader gives. -/
structure Value.Finished (v : Value) : Prop where
  proper : v.Proper
  closed : v.Closed

namespace Entries

theorem get?_push (entries : Entries) (key k : String) (v : Value) :
    (entries.push key v).get? k = (entries.get? k).or (if key = k then some v else none) := by
  rw [get?, get?, push, List.find?_append, Option.map_or]
  congr 1
  by_cases hk : key = k
  · simp [hk]
  · simp [hk]

theorem get?_set (entries : Entries) (key k : String) (v : Value) :
    (entries.set key v).get? k = (entries.get? k).map fun w => if key = k then v else w := by
  rw [get?, get?, set, List.find?_map, Option.map_map, Option.map_map]
  have hkey : ((fun e : String × Value => e.1 == k) ∘
      fun e => if e.1 = key then (key, v) else e) = fun e => e.1 == k := by
    funext e
    rw [Function.comp_apply]
    split
    case isTrue he => rw [he]
    case isFalse => rfl
  rw [hkey]
  refine Option.map_congr fun e he => ?_
  have hk := beq_iff_eq.mp (List.find?_some (p := fun e : String × Value => e.1 == k) he)
  simp only [Function.comp_apply, hk, eq_comm]
  split <;> rfl

/-- The entries of the table at the end of a path. -/
def inside? : List String → Entries → Option Entries
  | [], entries => some entries
  | key :: path, entries => ((entries.get? key).bind Value.inner?).bind (inside? path)

theorem inside?_append (path path' : List String) (entries : Entries) :
    entries.inside? (path ++ path') = (entries.inside? path).bind (inside? path') := by
  induction path generalizing entries with
  | nil => rfl
  | cons key path ih =>
    rw [List.cons_append, inside?, inside?]
    cases (entries.get? key).bind Value.inner? with
    | none => rfl
    | some inner => exact ih inner

def at? (entries : Entries) (path : List String) (key : String) : Option Value :=
  (entries.inside? path).bind (·.get? key)

variable {entries entries' : Entries} {made origin : Origin} {admits : Origin → Bool}
  {change : Origin → Entries → Option Entries} {key : String} {path : List String}

/-- **One step of a path**: a table is entered, or made where there is none, and nothing is done
under other keys. -/
theorem of_within?_cons (hadmits : admits .inline = false)
    (h : Entries.within? made admits change (key :: path) origin entries = some entries') :
    ∃ o inner inner' v', Entries.within? made admits change path o inner = some inner' ∧
      (entries.get? key = none ∨
        ∃ v, entries.get? key = some v ∧ v.inner? = some inner ∧ ¬ v.Closed) ∧
      entries'.get? key = some v' ∧ v'.inner? = some inner' ∧
      ∀ k ≠ key, entries'.get? k = entries.get? k := by
  rw [Entries.within?] at h
  split at h
  case h_1 hkey =>
    obtain ⟨inner', hinner, ⟨⟩⟩ := Option.bind_eq_some_iff.mp h
    refine ⟨made, [], inner', .table made inner', hinner, .inl hkey, ?_, rfl, fun k hk => ?_⟩
    · rw [get?_push, hkey, if_pos rfl]
      rfl
    · rw [get?_push, if_neg hk.symm, Option.or_none]
  case h_2 o inner hkey =>
    split at h
    case isTrue ho =>
      obtain ⟨inner', hinner, ⟨⟩⟩ := Option.bind_eq_some_iff.mp h
      refine ⟨o, inner, inner', .table o inner', hinner, .inr ⟨_, hkey, rfl, ?_⟩, ?_, rfl,
        fun k hk => ?_⟩
      · rintro rfl
        rw [hadmits] at ho
        cases ho
      · rw [get?_set, hkey, Option.map_some, if_pos rfl]
      · simp [get?_set, hk.symm]
    case isFalse => cases h
  case h_3 elements hkey =>
    split at h
    case h_1 o inner hlast =>
      obtain ⟨inner', hinner, ⟨⟩⟩ := Option.bind_eq_some_iff.mp h
      refine ⟨o, inner, inner', .tables (elements.dropLast ++ [.table o inner']), hinner,
        .inr ⟨_, hkey, ?_, id⟩, ?_, ?_, fun k hk => ?_⟩
      · rw [Value.inner?, hlast]
      · rw [get?_set, hkey, Option.map_some, if_pos rfl]
      · rw [Value.inner?, List.getLast?_concat]
      · simp [get?_set, hk.symm]
    case h_2 => cases h
  case h_4 => cases h

/-- **A change is made at the end of its path.** -/
theorem exists_inside?_of_within? (hadmits : admits .inline = false)
    (h : Entries.within? made admits change path origin entries = some entries') :
    ∃ o inner inner', change o inner = some inner' ∧ entries'.inside? path = some inner' := by
  induction path generalizing origin entries entries' with
  | nil => exact ⟨origin, entries, entries', h, rfl⟩
  | cons key path ih =>
    obtain ⟨o, inner, inner', v', hw, -, hkey, hinner, -⟩ := of_within?_cons hadmits h
    obtain ⟨o, before, after, hchange, hinside⟩ := ih hw
    refine ⟨o, before, after, hchange, ?_⟩
    rw [inside?, hkey, Option.bind_some, hinner, Option.bind_some, hinside]

/-- Closed values stay where they are. -/
def Keeps (entries entries' : Entries) : Prop :=
  ∀ path key v, v.Closed → entries.at? path key = some v → entries'.at? path key = some v

theorem Keeps.refl (entries : Entries) : entries.Keeps entries := fun _ _ _ _ h => h

theorem Keeps.trans {entries'' : Entries} (h : entries.Keeps entries')
    (h' : entries'.Keeps entries'') : entries.Keeps entries'' :=
  fun path key v hv hat => h' path key v hv (h path key v hv hat)

theorem keeps_of_get? (h : ∀ k v, entries.get? k = some v → entries'.get? k = some v) :
    entries.Keeps entries' := by
  intro path k v _ hat
  cases path with
  | nil => exact h k v hat
  | cons key path =>
    obtain ⟨inner, hinside, hk⟩ := Option.bind_eq_some_iff.mp hat
    obtain ⟨next, hnext, hpath⟩ := Option.bind_eq_some_iff.mp hinside
    obtain ⟨w, hw, hinner⟩ := Option.bind_eq_some_iff.mp hnext
    rw [at?, inside?, h key w hw, Option.bind_some, hinner, Option.bind_some, hpath]
    exact hk

theorem Keeps.within? (hadmits : admits .inline = false)
    (hchange : ∀ o es es', change o es = some es' → es.Keeps es')
    (h : Entries.within? made admits change path origin entries = some entries') :
    entries.Keeps entries' := by
  induction path generalizing origin entries entries' with
  | nil => exact hchange origin entries entries' h
  | cons key path ih =>
    obtain ⟨o, inner, inner', v', hw, hbefore, hkey, hinner, hothers⟩ := of_within?_cons hadmits h
    intro path' k v hv hat
    cases path' with
    | nil =>
      have hat : entries.get? k = some v := hat
      by_cases hk : k = key
      · rw [hk] at hat
        rcases hbefore with hnone | ⟨w, hsome, -, hopen⟩
        · rw [hnone] at hat
          cases hat
        · rw [hsome] at hat
          cases hat
          exact absurd hv hopen
      · exact (hothers k hk).trans hat
    | cons key' path' =>
      by_cases hk : key' = key
      · rw [hk] at hat ⊢
        rcases hbefore with hnone | ⟨w, hsome, hw', -⟩
        · rw [at?, inside?, hnone] at hat
          cases hat
        · rw [at?, inside?, hsome, Option.bind_some, hw', Option.bind_some] at hat
          rw [at?, inside?, hkey, Option.bind_some, hinner, Option.bind_some]
          exact ih hw path' k v hv hat
      · rw [at?, inside?, hothers key' hk]
        exact hat

/-- **A pair is where its key says**, and what was there before stays. -/
theorem of_addPair? {pair : Pair} (h : entries.addPair? pair = some entries') :
    entries'.at? pair.path pair.key = some pair.value ∧ entries.Keeps entries' := by
  have hadd : ∀ o es es', (if o = Origin.dotted ∨ pair.path = [] then
      Entries.add? es pair.key pair.value else none) = some es' →
      es'.get? pair.key = some pair.value ∧ es.Keeps es' := by
    intro o es es' h
    split at h
    case isTrue =>
      unfold Entries.add? at h
      split at h
      case h_1 hkey =>
        cases h
        refine ⟨by rw [get?_push, hkey, if_pos rfl]; rfl, keeps_of_get? fun k v hv => ?_⟩
        rw [get?_push, hv]
        rfl
      case h_2 => cases h
    case isFalse => cases h
  obtain ⟨o, inner, inner', hchange, hinside⟩ := exists_inside?_of_within? rfl h
  refine ⟨?_, .within? rfl (fun o es es' h => (hadd o es es' h).2) h⟩
  rw [at?, hinside]
  exact (hadd o inner inner' hchange).1

end Entries

/-- **Every pair is in the table to which it was added**, with what was there before. -/
theorem at?_of_addPairs? {entries entries' : Entries} {pairs : List Pair}
    (hclosed : ∀ p ∈ pairs, p.value.Closed) (h : addPairs? entries pairs = some entries') :
    (∀ p ∈ pairs, entries'.at? p.path p.key = some p.value) ∧ entries.Keeps entries' := by
  induction pairs generalizing entries with
  | nil =>
    cases h
    exact ⟨nofun, .refl _⟩
  | cons p pairs ih =>
    obtain ⟨hp, hpairs⟩ := List.forall_mem_cons.mp hclosed
    obtain ⟨middle, hadd, h⟩ := Option.bind_eq_some_iff.mp h
    obtain ⟨hat, hkeeps⟩ := Entries.of_addPair? hadd
    obtain ⟨hothers, hkeeps'⟩ := ih hpairs h
    exact ⟨List.forall_mem_cons.mpr ⟨hkeeps' _ _ _ hp hat, hothers⟩, hkeeps.trans hkeeps'⟩

end ResponseFraming.Toml
