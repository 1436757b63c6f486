import ResponseFraming.CommandLine.Arguments
import Mathlib

/-!
# What arguments ask for

`Writes` says how an option is written in one argument and `Spells` how it is written in one or
two, both without a reader.  `ReplayOptions.AskedBy` says what options ask for together, whatever
their order.

* `occurrence?_eq_some`: one argument is read as it is written.
* `Given.of_give?`, `Given.of_foldlM_give?`: what one option adds, and what all of them come to.
* `Spelled.unique`: arguments can be read in one way.
* `replay?_eq_some`, `invocation?_eq_replay`: **which arguments ask for a replay, and for which.**
* `replay?_perm`: the order of the options does not matter.
* `ReplayOptions.invocation?_settings`: every replay can be asked for.
-/

namespace ResponseFraming.CommandLine

/-! ## One argument -/

namespace OptionName

def long : OptionName → String
  | fixture => "fixture"
  | config => "config"
  | format => "format"
  | strict => "strict"
  | rejectLateHead => "reject-late-head"
  | version => "version"
  | help => "help"

/-- The letter that one dash stands before. -/
def letter? : OptionName → Option Char
  | fixture => some 'f'
  | config => some 'c'
  | version => some 'V'
  | help => some 'h'
  | _ => none

theorem equals_notMem_long (name : OptionName) : '=' ∉ name.long.toList := by
  cases name <;> decide +kernel

end OptionName

theorem longName?_eq_some {s : String} {name : OptionName} :
    longName? s = some name ↔ s = name.long := by
  constructor
  · intro h
    unfold longName? at h
    split at h <;> cases h <;> rfl
  · rintro rfl
    cases name <;> rfl

theorem shortName?_eq_some {c : Char} {name : OptionName} :
    shortName? c = some name ↔ name.letter? = some c := by
  constructor
  · intro h
    unfold shortName? at h
    split at h <;> cases h <;> rfl
  · intro h
    cases name <;> cases h <;> rfl

/-- How an option is written in one argument, with the value attached to it. -/
inductive Writes : OptionName → Option String → String → Prop
  | long (name : OptionName) : Writes name none ("--" ++ name.long)
  | longValue (name : OptionName) (value : String) :
    Writes name (some value) ("--" ++ name.long ++ "=" ++ value)
  | letter {name : OptionName} {c : Char} (h : name.letter? = some c) :
    Writes name none ("-" ++ String.singleton c)
  /-- Letters after an option without a value have no effect. -/
  | letters {name : OptionName} {c : Char} (h : name.letter? = some c) (hv : ¬ name.takesValue)
    (more : String) : Writes name none ("-" ++ String.singleton c ++ more)
  | letterValue {name : OptionName} {c : Char} (h : name.letter? = some c) (hv : name.takesValue)
    {value : String} (hne : value ≠ "") (heq : value.toList.head? ≠ some '=') :
    Writes name (some value) ("-" ++ String.singleton c ++ value)
  | letterEquals {name : OptionName} {c : Char} (h : name.letter? = some c) (hv : name.takesValue)
    (value : String) : Writes name (some value) ("-" ++ String.singleton c ++ "=" ++ value)

section Occurrences

variable {name : OptionName} {attached : Option String} {argument : String}

theorem occurrence?_dashes (text : List Char) (h : argument.toList = '-' :: '-' :: text) :
    occurrence? argument =
      (longName? (String.ofList (text.takeWhile (· != '=')))).map
        (⟨·, if text.dropWhile (· != '=') = [] then none
          else some (String.ofList (text.dropWhile (· != '=')).tail)⟩) := by
  rw [occurrence?, h]
  rfl

theorem occurrence?_dash {c : Char} (text : List Char) (h : argument.toList = '-' :: c :: text)
    (hc : c ≠ '-') :
    occurrence? argument = (shortName? c).map fun name =>
      if text = [] ∨ !name.takesValue then ⟨name, none⟩
      else ⟨name, some (String.ofList (if text.head? = some '=' then text.tail else text))⟩ := by
  rw [occurrence?, h]
  split
  case h_1 heq => exact absurd (List.cons.inj (List.cons.inj heq).2).1 hc
  case h_2 heq =>
    obtain ⟨rfl, rfl⟩ := List.cons.inj (List.cons.inj heq).2
    rfl
  case h_3 hne => exact absurd rfl (hne _ _)

theorem span_long (name : OptionName) (rest : List Char) (h : ∀ c ∈ rest.head?, c = '=') :
    (name.long.toList ++ rest).takeWhile (· != '=') = name.long.toList ∧
      (name.long.toList ++ rest).dropWhile (· != '=') = rest := by
  have hname : ∀ c ∈ name.long.toList, (c != '=') = true := by
    intro c hc
    exact bne_iff_ne.mpr fun heq => name.equals_notMem_long (heq ▸ hc)
  rw [List.takeWhile_append_of_pos hname, List.dropWhile_append_of_pos hname]
  cases rest with
  | nil => exact ⟨List.append_nil _, rfl⟩
  | cons c rest =>
    obtain rfl := h c rfl
    exact ⟨List.append_nil _, rfl⟩

theorem longName?_long (name : OptionName) :
    longName? (String.ofList name.long.toList) = some name := by
  rw [String.ofList_toList, longName?_eq_some]

theorem letter?_ne_dash {c : Char} (h : name.letter? = some c) : c ≠ '-' := by
  cases name <;> cases h <;> decide

theorem Writes.occurrence?_eq (h : Writes name attached argument) :
    occurrence? argument = some ⟨name, attached⟩ := by
  cases h with
  | long =>
    obtain ⟨htake, hdrop⟩ := span_long name [] nofun
    rw [occurrence?_dashes (name.long.toList ++ []) (by simp), htake, hdrop, longName?_long]
    rfl
  | longValue value =>
    obtain ⟨htake, hdrop⟩ := span_long name ('=' :: value.toList) (by simp)
    rw [occurrence?_dashes (name.long.toList ++ '=' :: value.toList) (by simp), htake, hdrop,
      longName?_long]
    simp
  | letter h =>
    rw [occurrence?_dash [] (by simp) (letter?_ne_dash h), shortName?_eq_some.mpr h]
    rfl
  | letters h hv more =>
    rw [occurrence?_dash more.toList (by simp) (letter?_ne_dash h), shortName?_eq_some.mpr h]
    simp [hv]
  | @letterValue c h hv value hne heq =>
    rw [occurrence?_dash value.toList (by simp) (letter?_ne_dash h), shortName?_eq_some.mpr h]
    simp [hv, hne, heq]
  | letterEquals h hv value =>
    rw [occurrence?_dash ('=' :: value.toList) (by simp) (letter?_ne_dash h),
      shortName?_eq_some.mpr h]
    simp [hv]

theorem writes_long {text : List Char} (htext : argument.toList = '-' :: '-' :: text)
    (hname : String.ofList (text.takeWhile (· != '=')) = name.long) :
    Writes name (if text.dropWhile (· != '=') = [] then none
      else some (String.ofList (text.dropWhile (· != '=')).tail)) argument := by
  have hsplit := List.takeWhile_append_dropWhile (p := (· != '=')) (l := text)
  rw [← String.toList_inj, String.toList_ofList] at hname
  rw [hname] at hsplit
  rcases hrest : text.dropWhile (· != '=') with _ | ⟨c, rest⟩
  · have hargument : argument = "--" ++ name.long := by
      rw [hrest, List.append_nil] at hsplit
      rw [← String.toList_inj, htext, ← hsplit, String.toList_append]
      rfl
    rw [hargument]
    exact .long name
  · have hc : c = '=' := by
      have hstop := List.head?_dropWhile_not (· != '=') text
      rw [hrest] at hstop
      simpa using hstop
    have hargument : argument = "--" ++ name.long ++ "=" ++ String.ofList rest := by
      rw [hrest, hc] at hsplit
      rw [← String.toList_inj, htext, ← hsplit]
      simp
    rw [hargument]
    exact .longValue name _

theorem writes_letter {c : Char} {text : List Char} (htext : argument.toList = '-' :: c :: text)
    (hname : name.letter? = some c)
    (h : (if text = [] ∨ !name.takesValue then ⟨name, none⟩
      else ⟨name, some (String.ofList (if text.head? = some '=' then text.tail else text))⟩) =
        Occurrence.mk name attached) : Writes name attached argument := by
  have hargument : argument = "-" ++ String.singleton c ++ String.ofList text := by
    rw [← String.toList_inj, htext]
    simp
  rw [hargument]
  split at h
  case isTrue hor =>
    obtain ⟨-, rfl⟩ := Occurrence.mk.inj h
    rcases hor with rfl | hv
    · rw [String.ofList_nil, String.append_empty]
      exact .letter hname
    · exact .letters hname (by simpa using hv) _
  case isFalse hnot =>
    obtain ⟨hne, hv⟩ := not_or.mp hnot
    have hv : name.takesValue := by simpa using hv
    obtain ⟨-, rfl⟩ := Occurrence.mk.inj h
    split
    case isTrue heq =>
      obtain ⟨rest, rfl⟩ := List.head?_eq_some_iff.mp heq
      have hequals := Writes.letterEquals hname hv (String.ofList rest)
      rw [String.append_assoc] at hequals
      rwa [List.tail_cons, String.ofList_cons]
    case isFalse heq =>
      exact .letterValue hname hv (by simpa using hne) (by rwa [String.toList_ofList])

theorem writes_of_occurrence? (h : occurrence? argument = some ⟨name, attached⟩) :
    Writes name attached argument := by
  unfold occurrence? at h
  split at h
  case h_1 text htext =>
    obtain ⟨n, hn, heq⟩ := Option.map_eq_some_iff.mp h
    obtain ⟨rfl, rfl⟩ := Occurrence.mk.inj heq
    exact writes_long htext (longName?_eq_some.mp hn)
  case h_2 htext =>
    obtain ⟨n, hn, heq⟩ := Option.map_eq_some_iff.mp h
    have hname : n = name := by
      split at heq
      · exact (Occurrence.mk.inj heq).1
      · exact (Occurrence.mk.inj heq).1
    rw [hname] at hn heq
    exact writes_letter htext (shortName?_eq_some.mp hn) heq
  case h_3 => cases h

/-- **One argument is read as it is written.** -/
theorem occurrence?_eq_some :
    occurrence? argument = some ⟨name, attached⟩ ↔ Writes name attached argument :=
  ⟨writes_of_occurrence?, Writes.occurrence?_eq⟩

end Occurrences

/-! ## Options and their values -/

abbrev Setting := OptionName × Option String

/-- How an option and its value are written in one argument, or in two. -/
inductive Spells : Setting → List String → Prop
  | flag {name : OptionName} {a : String} (hv : ¬ name.takesValue) (h : Writes name none a) :
    Spells (name, none) [a]
  | attached {name : OptionName} {a value : String} (h : Writes name (some value) a) :
    Spells (name, some value) [a]
  | apart {name : OptionName} {a value : String} (hv : name.takesValue) (h : Writes name none a)
    (hvalue : isValue value) : Spells (name, some value) [a, value]

/-- Options one after the other, and perhaps two dashes at the end. -/
inductive Spelled : List Setting → List String → Prop
  | nil : Spelled [] []
  | dashes : Spelled [] ["--"]
  | cons {s : Setting} {settings : List Setting} {args rest : List String} (h : Spells s args)
    (hrest : Spelled settings rest) : Spelled (s :: settings) (args ++ rest)

namespace Setting

/-- Whether a replay knows the option, and whether the value is one that it takes. -/
def Fits : Setting → Prop
  | (.fixture, some path) | (.config, some path) => path ≠ ""
  | (.format, some _) | (.strict, none) | (.rejectLateHead, none) => True
  | _ => False

end Setting

namespace Given

def value? (g : Given) : OptionName → Option (Option String)
  | .fixture => g.fixture.map some
  | .config => g.config.map some
  | .format => g.format.map some
  | .strict => if g.strict then some none else none
  | .rejectLateHead => if g.rejectLateHead then some none else none
  | .version | .help => none

def give? (g : Given) (s : Setting) : Option Given :=
  match s.2 with
  | some value => g.put? s.1 value
  | none => g.set? s.1

theorem of_give? {g g' : Given} {s : Setting} (h : g.give? s = some g') :
    s.Fits ∧ g.value? s.1 = none ∧
      ∀ n, g'.value? n = if n = s.1 then some s.2 else g.value? n := by
  obtain ⟨name, value⟩ := s
  cases name <;> cases value <;> simp only [give?, put?, set?] at h
  case fixture.some | config.some =>
    split at h
    case isTrue => cases h
    case isFalse hnot =>
      obtain ⟨hnew, hpath⟩ := not_or.mp hnot
      cases h
      refine ⟨hpath, by simpa [value?] using hnew, fun n => ?_⟩
      cases n <;> simp [value?]
  case format.some | strict.none | rejectLateHead.none =>
    split at h
    case isTrue => cases h
    case isFalse hnew =>
      cases h
      refine ⟨trivial, by simpa [value?] using hnew, fun n => ?_⟩
      cases n <;> simp [value?]
  all_goals cases h

theorem isSome_give? {g : Given} {s : Setting} (hs : s.Fits) (hnew : g.value? s.1 = none) :
    (g.give? s).isSome := by
  obtain ⟨name, value⟩ := s
  cases name <;> cases value <;> simp_all [give?, put?, set?, Setting.Fits, value?]

theorem value?_of_give? {g g' : Given} {s : Setting} (h : g.give? s = some g') (n : OptionName)
    (v : Option String) : g'.value? n = some v ↔ (n, v) = s ∨ g.value? n = some v := by
  obtain ⟨-, hnew, hvalue⟩ := of_give? h
  rw [hvalue n, Prod.ext_iff]
  split
  case isTrue hn => simp [hn, hnew, eq_comm]
  case isFalse hn => simp [hn]

theorem value?_eq_none_of_give? {g g' : Given} {s : Setting} (h : g.give? s = some g')
    (n : OptionName) : g'.value? n = none ↔ n ≠ s.1 ∧ g.value? n = none := by
  rw [(of_give? h).2.2 n]
  split
  case isTrue hn => simp [hn]
  case isFalse hn => simp [hn]

/-- **What all options come to**: a replay knows each, each is given once, and each has its
value. -/
theorem of_foldlM_give? {g g' : Given} {settings : List Setting}
    (h : settings.foldlM give? g = some g') :
    (∀ s ∈ settings, s.Fits ∧ g.value? s.1 = none) ∧ (settings.map (·.1)).Nodup ∧
      ∀ n v, g'.value? n = some v ↔ (n, v) ∈ settings ∨ g.value? n = some v := by
  induction settings generalizing g with
  | nil =>
    cases h
    simp
  | cons s settings ih =>
    obtain ⟨g₁, hgive, h⟩ := Option.bind_eq_some_iff.mp h
    obtain ⟨hrest, hnodup, hvalue⟩ := ih h
    obtain ⟨hs, hnew, -⟩ := of_give? hgive
    have hnone := value?_eq_none_of_give? hgive
    refine ⟨List.forall_mem_cons.mpr ⟨⟨hs, hnew⟩, fun t ht =>
      ⟨(hrest t ht).1, ((hnone t.1).mp (hrest t ht).2).2⟩⟩, ?_, fun n v => ?_⟩
    · refine List.nodup_cons.mpr ⟨fun hmem => ?_, hnodup⟩
      obtain ⟨t, ht, heq⟩ := List.mem_map.mp hmem
      exact ((hnone t.1).mp (hrest t ht).2).1 heq
    · rw [hvalue, value?_of_give? hgive, List.mem_cons]
      tauto

theorem isSome_foldlM_give? {g : Given} {settings : List Setting}
    (hall : ∀ s ∈ settings, s.Fits ∧ g.value? s.1 = none) (hnodup : (settings.map (·.1)).Nodup) :
    (settings.foldlM give? g).isSome := by
  induction settings generalizing g with
  | nil => rfl
  | cons s settings ih =>
    obtain ⟨⟨hs, hnew⟩, hrest⟩ := List.forall_mem_cons.mp hall
    obtain ⟨hnotMem, hnodup⟩ := List.nodup_cons.mp hnodup
    obtain ⟨g₁, hgive⟩ := Option.isSome_iff_exists.mp (isSome_give? hs hnew)
    rw [List.foldlM_cons, hgive]
    refine ih (fun t ht => ⟨(hrest t ht).1, (value?_eq_none_of_give? hgive t.1).mpr ?_⟩) hnodup
    exact ⟨fun heq => hnotMem (List.mem_map.mpr ⟨t, ht, heq⟩), (hrest t ht).2⟩

theorem value?_empty (n : OptionName) : ({} : Given).value? n = none := by
  cases n <;> rfl

theorem options?_eq_some {g : Given} {o : ReplayOptions} :
    g.options? = some o ↔
      g.fixture = some o.fixture ∧ g.config = o.config ∧ g.strict = o.strict ∧
        g.rejectLateHead = o.rejectLateHead ∧ g.format.getD "text" = o.format := by
  obtain ⟨fixture, config, strict, rejectLateHead, format⟩ := o
  rw [options?]
  cases g.fixture with
  | none => simp
  | some path => simp

end Given

/-! ## A replay -/

/-- The options ask for this together, whatever their order. -/
structure ReplayOptions.AskedBy (o : ReplayOptions) (settings : List Setting) : Prop where
  known : ∀ s ∈ settings, s.Fits
  once : (settings.map (·.1)).Nodup
  fixture : (.fixture, some o.fixture) ∈ settings
  config : ∀ path, o.config = some path ↔ (.config, some path) ∈ settings
  strict : o.strict ↔ (.strict, none) ∈ settings
  rejectLateHead : o.rejectLateHead ↔ (.rejectLateHead, none) ∈ settings
  format : (.format, some o.format) ∈ settings ∨ o.format = "text" ∧ .format ∉ settings.map (·.1)

/-- Options do not ask for two things. -/
theorem ReplayOptions.AskedBy.perm {o : ReplayOptions} {settings settings' : List Setting}
    (h : o.AskedBy settings) (hp : settings.Perm settings') : o.AskedBy settings' where
  known s hs := h.known s (hp.mem_iff.mpr hs)
  once := (hp.map _).nodup_iff.mp h.once
  fixture := hp.mem_iff.mp h.fixture
  config path := (h.config path).trans hp.mem_iff
  strict := h.strict.trans hp.mem_iff
  rejectLateHead := h.rejectLateHead.trans hp.mem_iff
  format := h.format.imp hp.mem_iff.mp
    (And.imp_right fun hnot hmem => hnot ((hp.map _).mem_iff.mpr hmem))

/-- **Options come to what they ask for.** -/
theorem askedBy_iff {o : ReplayOptions} {settings : List Setting} :
    (∃ g, settings.foldlM Given.give? {} = some g ∧ g.options? = some o) ↔ o.AskedBy settings := by
  constructor
  · rintro ⟨g, hgive, ho⟩
    obtain ⟨hall, honce, hvalue⟩ := Given.of_foldlM_give? hgive
    simp only [Given.value?_empty, reduceCtorEq, or_false] at hvalue
    obtain ⟨hfixture, hconfig, hstrict, hreject, hformat⟩ := Given.options?_eq_some.mp ho
    refine ⟨fun s hs => (hall s hs).1, honce, ?_, fun path => ?_, ?_, ?_, ?_⟩
    · rw [← hvalue]
      simp [Given.value?, hfixture]
    · rw [← hvalue, ← hconfig]
      simp [Given.value?]
    · rw [← hvalue, ← hstrict]
      simp [Given.value?]
    · rw [← hvalue, ← hreject]
      simp [Given.value?]
    · cases hg : g.format with
      | some format =>
        rw [hg] at hformat
        rw [← hvalue, ← hformat]
        simp [Given.value?, hg]
      | none =>
        rw [hg] at hformat
        refine .inr ⟨hformat.symm, fun hmem => ?_⟩
        obtain ⟨⟨n, v⟩, hs, rfl⟩ := List.mem_map.mp hmem
        have hv := (hvalue _ _).mpr hs
        simp [Given.value?, hg] at hv
  · intro h
    obtain ⟨g, hgive⟩ := Option.isSome_iff_exists.mp (Given.isSome_foldlM_give?
      (fun s hs => ⟨h.known s hs, Given.value?_empty s.1⟩) h.once)
    obtain ⟨-, -, hvalue⟩ := Given.of_foldlM_give? hgive
    simp only [Given.value?_empty, reduceCtorEq, or_false] at hvalue
    refine ⟨g, hgive, Given.options?_eq_some.mpr ⟨?_, ?_, ?_, ?_, ?_⟩⟩
    · simpa [Given.value?] using (hvalue _ _).mpr h.fixture
    · refine Option.ext fun path => ?_
      rw [h.config, ← hvalue]
      simp [Given.value?]
    · refine Bool.eq_iff_iff.mpr ?_
      rw [h.strict, ← hvalue]
      simp [Given.value?]
    · refine Bool.eq_iff_iff.mpr ?_
      rw [h.rejectLateHead, ← hvalue]
      simp [Given.value?]
    · rcases h.format with hmem | ⟨htext, hnot⟩
      · have hv := (hvalue _ _).mpr hmem
        simp only [Given.value?, Option.map_eq_some_iff, Option.some.injEq, exists_eq_right] at hv
        rw [hv, Option.getD_some]
      · cases hg : g.format with
        | none => rw [htext, Option.getD_none]
        | some format =>
          have hmem := (hvalue .format (some format)).mp (by simp [Given.value?, hg])
          exact absurd (List.mem_map_of_mem hmem) hnot

section Replays

variable {g : Given} {s : Setting} {settings : List Setting} {args rest : List String}
  {o : ReplayOptions}

theorem Writes.ne_dashes {name : OptionName} {attached : Option String} {a : String}
    (h : Writes name attached a) : a ≠ "--" := by
  rintro rfl
  have hnone : occurrence? "--" = none := by decide +kernel
  rw [h.occurrence?_eq] at hnone
  cases hnone

/-- **One option**: what follows it is read with what it adds. -/
theorem replay?_of_spells (h : Spells s args) (hs : s.Fits) (rest : List String) :
    replay? g (args ++ rest) = (g.give? s).bind (replay? · rest) := by
  cases h with
  | @flag name a hv h =>
    rw [List.singleton_append, replay?.eq_3 _ _ _ fun heq => absurd heq h.ne_dashes,
      h.occurrence?_eq]
    cases name <;> first | rfl | exact absurd rfl hv | exact hs.elim
  | @attached name a value h =>
    rw [List.singleton_append, replay?.eq_3 _ _ _ fun heq => absurd heq h.ne_dashes,
      h.occurrence?_eq]
    cases name <;> rfl
  | @apart name a value hv h hvalue =>
    rw [List.cons_append, List.singleton_append,
      replay?.eq_3 _ _ _ fun heq => absurd heq h.ne_dashes, h.occurrence?_eq]
    cases name
    case version | help => exact absurd hv Bool.false_ne_true
    all_goals simp only [hv, hvalue, if_true, Given.give?]

/-- **All options**, whatever was given before them. -/
theorem replay?_of_spelled (h : Spelled settings args) (hall : ∀ s ∈ settings, s.Fits) :
    replay? g args = (settings.foldlM Given.give? g).bind fun g' => g'.options?.map .replay := by
  induction h generalizing g with
  | nil => rw [replay?.eq_1]; rfl
  | dashes => rw [replay?.eq_2]; rfl
  | cons h _ ih =>
    obtain ⟨hs, hrest⟩ := List.forall_mem_cons.mp hall
    rw [replay?_of_spells h hs, List.foldlM_cons, Option.bind_eq_bind, Option.bind_assoc]
    simp only [ih hrest]

theorem exists_spelled_cons (hs : Spells s args)
    (h : (g.give? s).bind (replay? · rest) = some (.replay o))
    (ih : ∀ g₁, replay? g₁ rest = some (.replay o) → ∃ settings g', Spelled settings rest ∧
      settings.foldlM Given.give? g₁ = some g' ∧ g'.options? = some o) :
    ∃ settings g', Spelled settings (args ++ rest) ∧ settings.foldlM Given.give? g = some g' ∧
      g'.options? = some o := by
  obtain ⟨g₁, hgive, h⟩ := Option.bind_eq_some_iff.mp h
  obtain ⟨settings, g', hrest, hfold, ho⟩ := ih g₁ h
  exact ⟨s :: settings, g', .cons hs hrest, by rw [List.foldlM_cons, hgive]; exact hfold, ho⟩

/-- What is read is written so. -/
theorem exists_spelled (h : replay? g args = some (.replay o)) :
    ∃ settings g', Spelled settings args ∧ settings.foldlM Given.give? g = some g' ∧
      g'.options? = some o := by
  fun_induction replay? g args with
  | case1 g =>
    obtain ⟨o', ho, heq⟩ := Option.map_eq_some_iff.mp h
    exact ⟨[], g, .nil, rfl, Invocation.replay.inj heq ▸ ho⟩
  | case2 g =>
    obtain ⟨o', ho, heq⟩ := Option.map_eq_some_iff.mp h
    exact ⟨[], g, .dashes, rfl, Invocation.replay.inj heq ▸ ho⟩
  | case6 g a rest _ name value hocc ih =>
    exact exists_spelled_cons (.attached (occurrence?_eq_some.mp hocc)) h ih
  | case7 g a name _ _ hocc hv value rest hvalue _ ih =>
    exact exists_spelled_cons (.apart hv (occurrence?_eq_some.mp hocc) hvalue) h ih
  | case10 g a rest _ name _ _ hocc hv ih =>
    exact exists_spelled_cons (.flag hv (occurrence?_eq_some.mp hocc)) h ih
  | _ => cases h

/-- An option tells what it says, and where it ends. -/
theorem Spells.append_inj {s' : Setting} {args' rest' : List String} (h : Spells s args)
    (h' : Spells s' args') (heq : args ++ rest = args' ++ rest') : s = s' ∧ rest = rest' := by
  have hread : ∀ {name name' attached attached' a}, Writes name attached a →
      Writes name' attached' a → name = name' ∧ attached = attached' := by
    intro name name' attached attached' a hw hw'
    have hocc := hw.occurrence?_eq.symm.trans hw'.occurrence?_eq
    exact Occurrence.mk.inj (Option.some.inj hocc)
  cases h with
  | flag hv h =>
    cases h' with
    | flag hv' h' =>
      obtain ⟨rfl, hrest⟩ := List.cons.inj heq
      exact ⟨by rw [(hread h h').1], hrest⟩
    | attached h' =>
      obtain ⟨rfl, -⟩ := List.cons.inj heq
      cases (hread h h').2
    | apart hv' h' =>
      obtain ⟨rfl, -⟩ := List.cons.inj heq
      exact absurd hv' ((hread h h').1 ▸ hv)
  | attached h =>
    cases h' with
    | attached h' =>
      obtain ⟨rfl, hrest⟩ := List.cons.inj heq
      exact ⟨by rw [(hread h h').1, (hread h h').2], hrest⟩
    | flag _ h' | apart _ h' =>
      obtain ⟨rfl, -⟩ := List.cons.inj heq
      cases (hread h h').2
  | apart hv h =>
    cases h' with
    | apart hv' h' =>
      obtain ⟨rfl, htail⟩ := List.cons.inj heq
      obtain ⟨rfl, hrest⟩ := List.cons.inj htail
      exact ⟨by rw [(hread h h').1], hrest⟩
    | attached h' =>
      obtain ⟨rfl, -⟩ := List.cons.inj heq
      cases (hread h h').2
    | flag hv' h' =>
      obtain ⟨rfl, -⟩ := List.cons.inj heq
      exact absurd hv ((hread h h').1 ▸ hv')

theorem Spells.ne_dashes (h : Spells s args) : args ++ rest ≠ ["--"] := by
  cases h with
  | flag _ h | attached h | apart _ h => exact fun heq => h.ne_dashes (List.cons.inj heq).1

/-- **Arguments can be read in one way.** -/
theorem Spelled.unique {settings' : List Setting} (h : Spelled settings args)
    (h' : Spelled settings' args) : settings = settings' := by
  induction h generalizing settings' with
  | nil =>
    generalize hargs : ([] : List String) = args at h'
    cases h' with
    | nil => rfl
    | dashes => cases hargs
    | cons h' _ => cases h' <;> cases hargs
  | dashes =>
    generalize hargs : ["--"] = args at h'
    cases h' with
    | nil => cases hargs
    | dashes => rfl
    | cons h' _ => exact absurd hargs.symm h'.ne_dashes
  | cons h _ ih =>
    rename_i rest _
    generalize hargs : _ ++ rest = args at h'
    cases h' with
    | nil => cases h <;> cases hargs
    | dashes => exact absurd hargs h.ne_dashes
    | cons h' hrest' =>
      obtain ⟨rfl, rfl⟩ := h.append_inj h' hargs
      rw [ih hrest']

/-- **A replay does what its options ask for.** -/
theorem replay?_eq_some (h : Spelled settings args) :
    replay? {} args = some (.replay o) ↔ o.AskedBy settings := by
  constructor
  · intro hreplay
    obtain ⟨settings', g, hargs, hfold, ho⟩ := exists_spelled hreplay
    rw [h.unique hargs]
    exact askedBy_iff.mp ⟨g, hfold, ho⟩
  · intro ho
    obtain ⟨g, hfold, ho'⟩ := askedBy_iff.mpr ho
    rw [replay?_of_spelled h ho.known, hfold, Option.bind_some, ho']
    rfl

/-- **The order of the options does not matter**, nor how each is written. -/
theorem replay?_perm {settings' : List Setting} {args' : List String} (h : Spelled settings args)
    (h' : Spelled settings' args') (hp : settings.Perm settings') :
    replay? {} args = some (.replay o) ↔ replay? {} args' = some (.replay o) := by
  rw [replay?_eq_some h, replay?_eq_some h']
  exact ⟨fun ho => ho.perm hp, fun ho => ho.perm hp.symm⟩

end Replays

/-! ## The command line -/

theorem plain?_ne_replay {program : String} {other? : Option Invocation} {args : List String}
    {o : ReplayOptions} (h : other? ≠ some (.replay o)) :
    plain? program other? args ≠ some (.replay o) := by
  fun_cases plain? program other? args <;> simp_all

/-- **A replay is asked for by these arguments and no others.** -/
theorem invocation?_eq_replay {args : List String} {o : ReplayOptions} :
    invocation? args = some (.replay o) ↔
      ∃ rest settings, args = "replay" :: rest ∧ Spelled settings rest ∧ o.AskedBy settings := by
  constructor
  · intro h
    unfold invocation? at h
    split at h
    case h_1 rest =>
      obtain ⟨settings, g, hargs, -, -⟩ := exists_spelled h
      exact ⟨rest, settings, rfl, hargs, (replay?_eq_some hargs).mp h⟩
    case h_2 => exact absurd h (plain?_ne_replay nofun)
    case h_3 =>
      unfold help? at h
      split at h <;> cases h
    case h_4 => exact absurd h (plain?_ne_replay nofun)
  · rintro ⟨rest, settings, rfl, hargs, h⟩
    exact (replay?_eq_some hargs).mpr h

def Setting.long : Setting → String
  | (name, none) => "--" ++ name.long
  | (name, some value) => "--" ++ name.long ++ "=" ++ value

theorem Setting.Fits.spells {s : Setting} (h : s.Fits) : Spells s [s.long] := by
  obtain ⟨name, value⟩ := s
  cases value with
  | some value => exact .attached (.longValue name value)
  | none =>
    refine .flag ?_ (.long name)
    cases name <;> first | exact h.elim | exact Bool.false_ne_true

theorem spelled_long {settings : List Setting} (h : ∀ s ∈ settings, s.Fits) :
    Spelled settings (settings.map Setting.long) := by
  induction settings with
  | nil => exact .nil
  | cons s settings ih =>
    obtain ⟨hs, hrest⟩ := List.forall_mem_cons.mp h
    exact .cons hs.spells (ih hrest)

namespace ReplayOptions

/-- Options that ask for a replay. -/
def settings (o : ReplayOptions) : List Setting :=
  [(.fixture, some o.fixture)] ++ o.config.toList.map (.config, some ·) ++
    (if o.strict then [(.strict, none)] else []) ++
    (if o.rejectLateHead then [(.rejectLateHead, none)] else []) ++ [(.format, some o.format)]

theorem askedBy_settings {o : ReplayOptions} (hfixture : o.fixture ≠ "")
    (hconfig : o.config ≠ some "") : o.AskedBy o.settings := by
  obtain ⟨fixture, config, strict, rejectLateHead, format⟩ := o
  have hpath : ∀ path ∈ config, path ≠ "" := fun path hpath hempty => hconfig (hempty ▸ hpath)
  refine ⟨?_, ?_, ?_, fun path => ?_, ?_, ?_, ?_⟩
  · cases config <;> cases strict <;> cases rejectLateHead <;>
      simp_all [settings, Setting.Fits]
  · cases config <;> cases strict <;> cases rejectLateHead <;> simp [settings]
  all_goals simp [settings]

/-- **Every replay can be asked for**, if its paths are not empty. -/
theorem invocation?_settings {o : ReplayOptions} (hfixture : o.fixture ≠ "")
    (hconfig : o.config ≠ some "") :
    invocation? ("replay" :: o.settings.map Setting.long) = some (.replay o) := by
  have h := askedBy_settings hfixture hconfig
  exact invocation?_eq_replay.mpr ⟨_, _, rfl, spelled_long h.known, h⟩

end ReplayOptions

end ResponseFraming.CommandLine
