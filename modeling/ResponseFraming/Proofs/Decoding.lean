import ResponseFraming.Proofs.Lossy
import ResponseFraming.Recording
import ResponseFraming.Settings
import Mathlib.Data.List.Forall2

/-!
# What a file says

A configuration and a recording are TOML documents.  Here stands what the values in a document
mean, without regard to how they are decoded, and that the decoders find just this: a decoder
succeeds with a result exactly if the value says that result.

* `Entries.Field`: what the entries of a table say about one key.
* `Decode.list_eq_ok`, `Decode.word_eq_ok`, ...: the decoders that all keys are made of.
* `Policy.decode_eq_ok`, `Record.decode_eq_ok`: tables with a fixed set of keys, where the
  induction is on the entries and `Entries.field_cons_self` is what one of them adds.
* `Files.Document`, `Settings.ofFile_eq_ok`, `Recording.ofFile_eq_ok`: files.
* `Settings.ofFile_toToml`: printed settings.
-/

namespace ResponseFraming

/-! ## Results -/

section Except

variable {ε ε' α β : Type}

theorem bind_eq_ok {x : Except ε α} {f : α → Except ε β} {b : β} :
    (x >>= f) = .ok b ↔ ∃ a, x = .ok a ∧ f a = .ok b := by
  cases x with
  | error e => exact ⟨nofun, nofun⟩
  | ok a => exact ⟨fun h => ⟨a, rfl, h⟩, fun ⟨_, rfl, h⟩ => h⟩

theorem bind_pure_bind_eq_ok {γ : Type} {x : Except ε α} {put : α → β} {f : β → Except ε γ}
    {c : γ} : (do let b ← (do return put (← x)); f b) = .ok c ↔
      ∃ a, x = .ok a ∧ f (put a) = .ok c := by
  rw [bind_assoc, bind_eq_ok]
  simp only [pure_bind]

theorem ok_of_toOption {x : Except ε α} {a : α} (h : x.toOption = some a) : x = .ok a := by
  cases x with
  | error e => cases h
  | ok b => rw [Option.some.inj h]

theorem mapError_eq_ok {x : Except ε α} {f : ε → ε'} {a : α} :
    x.mapError f = .ok a ↔ x = .ok a := by
  cases x <;> simp [Except.mapError]

theorem mapM_eq_ok {f : α → Except ε β} {as : List α} {bs : List β} :
    as.mapM f = .ok bs ↔ List.Forall₂ (fun a b => f a = .ok b) as bs := by
  induction as generalizing bs with
  | nil =>
    rw [List.mapM_nil, List.forall₂_nil_left_iff]
    exact ⟨fun h => (Except.ok.inj h).symm, fun h => congrArg _ h.symm⟩
  | cons a as ih =>
    rw [List.mapM_cons, bind_eq_ok, List.forall₂_cons_left_iff]
    constructor
    · rintro ⟨b, hb, h⟩
      obtain ⟨bs', hbs, h⟩ := bind_eq_ok.mp h
      exact ⟨b, bs', hb, ih.mp hbs, (Except.ok.inj h).symm⟩
    · rintro ⟨b, bs', hb, hbs, rfl⟩
      exact ⟨b, hb, bind_eq_ok.mpr ⟨bs', ih.mpr hbs, rfl⟩⟩

end Except

namespace Toml

/-! ## Values -/

/-- A list of elements; repeated tables are one too. -/
inductive Value.Elements : Value → List Value → Prop
  | array (vs : List Value) : Elements (.array vs) vs
  | tables (vs : List Value) : Elements (.tables vs) vs

theorem Value.elements_array {vs ws : List Value} : Elements (.array vs) ws ↔ vs = ws :=
  ⟨fun | .array _ => rfl, fun h => h ▸ .array vs⟩

theorem Value.elements_tables {vs ws : List Value} : Elements (.tables vs) ws ↔ vs = ws :=
  ⟨fun | .tables _ => rfl, fun h => h ▸ .tables vs⟩

/-- A word: a string, or the only key of a table, over a value without elements. -/
inductive Value.Word : Value → String → Prop
  | string (w : String) : Word (.string w) w
  | table (o p : Origin) (w : String) : Word (.table o [(w, .table p [])]) w
  | array (o : Origin) (w : String) : Word (.table o [(w, .array [])]) w

/-- Two strings; what follows them has no effect. -/
def Value.Pair (v : Value) (p : String × String) : Prop :=
  ∃ rest, v.Elements (.string p.1 :: .string p.2 :: rest)

def Value.Pairs (v : Value) (ps : List (String × String)) : Prop :=
  ∃ vs, v.Elements vs ∧ List.Forall₂ Value.Pair vs ps

/-- The entries of a table that has some keys.  A list may stand in its place, with enough values
of the keys in order, and a date has no entry. -/
inductive Value.Entries (keys : List String) (enough : Nat) : Value → Toml.Entries → Prop
  | table (o : Origin) (es : Toml.Entries) : Entries keys enough (.table o es) es
  | datetime : Entries keys enough .datetime []
  | elements {v : Value} {vs : List Value} :
    v.Elements vs → enough ≤ vs.length → Entries keys enough v (keys.zip vs)

/-! ## Keys -/

section Field

variable {α : Type} {key k : String} {Says : Value → α → Prop} {omitted a : α} {v : Value}
  {es : Entries}

def Entries.under (es : Entries) (key : String) : List Value :=
  (es.filter (·.1 = key)).map (·.2)

/-- What entries say about a key: each value under it says something, and the last one counts.  If
there is none, the key is taken as `omitted`. -/
def Entries.Field (es : Entries) (key : String) (Says : Value → α → Prop) (omitted a : α) : Prop :=
  ∃ as, List.Forall₂ Says (es.under key) as ∧ a = as.getLast?.getD omitted

namespace Entries

@[simp] theorem field_nil : Field [] key Says omitted a ↔ a = omitted := by
  constructor
  · rintro ⟨as, has, rfl⟩
    rw [List.forall₂_nil_left_iff.mp has]
    rfl
  · rintro rfl
    exact ⟨[], .nil, rfl⟩

theorem getLast?_cons_getD (b omitted : α) (as : List α) :
    (b :: as).getLast?.getD omitted = as.getLast?.getD b := by
  rw [List.getLast?_cons]
  rfl

/-- A value under the key takes the place of `omitted`. -/
theorem field_cons_self :
    Field ((key, v) :: es) key Says omitted a ↔ ∃ b, Says v b ∧ es.Field key Says b a := by
  have hu : under ((key, v) :: es) key = v :: es.under key := by simp [under]
  rw [Field, hu]
  constructor
  · rintro ⟨bs, hbs, rfl⟩
    obtain ⟨b, as, hb, has, rfl⟩ := List.forall₂_cons_left_iff.mp hbs
    exact ⟨b, hb, as, has, getLast?_cons_getD b omitted as⟩
  · rintro ⟨b, hb, as, has, rfl⟩
    exact ⟨b :: as, .cons hb has, (getLast?_cons_getD b omitted as).symm⟩

/-- A value under another key has no effect. -/
theorem field_cons_of_ne (h : k ≠ key) :
    Field ((k, v) :: es) key Says omitted a ↔ es.Field key Says omitted a := by
  have hu : under ((k, v) :: es) key = es.under key := by simp [under, h]
  rw [Field, hu, Field]

end Entries

end Field

/-! ## Decoders -/

namespace Decode

variable {α : Type} {v : Value}

theorem string_eq_ok {s : String} : string v = .ok s ↔ v = .string s := by
  cases v <;> simp [string, wrongType]

theorem boolean_eq_ok {b : Bool} : boolean v = .ok b ↔ v = .boolean b := by
  cases v <;> simp [boolean, wrongType]

theorem status_eq_ok {s : UInt16} : status v = .ok s ↔ v = .integer s.toNat := by
  cases v with
  | integer n =>
    rw [status, Value.integer.injEq]
    have hs : s.toNat < 65536 := s.toNat_lt
    split
    · rename_i hn
      rw [Except.ok.injEq, ← UInt16.toNat_inj, UInt16.toNat_ofNat']
      omega
    · rename_i hn
      exact iff_of_false nofun (by omega)
  | _ => simp [status, wrongType]

theorem list_eq_ok {element : Decoder α} {as : List α} :
    list element v = .ok as ↔
      ∃ vs, v.Elements vs ∧ List.Forall₂ (fun v a => element v = .ok a) vs as := by
  cases v with
  | array vs => simp [list, mapM_eq_ok, Value.elements_array]
  | tables vs => simp [list, mapM_eq_ok, Value.elements_tables]
  | _ => exact iff_of_false nofun nofun

theorem pair_eq_ok {p : String × String} : pair v = .ok p ↔ v.Pair p := by
  have hlist : ∀ vs : List Value, pair (.array vs) = .ok p ↔
      ∃ rest, vs = .string p.1 :: .string p.2 :: rest := by
    rintro (_ | ⟨name, _ | ⟨value, rest⟩⟩)
    · simp [pair]
    · simp [pair, bind_eq_ok]
    · simp [pair, bind_eq_ok, string_eq_ok, Prod.ext_iff, pure, Except.pure]
  cases v with
  | array vs =>
    simp only [hlist, Value.Pair, Value.elements_array]
  | tables vs =>
    rw [show pair (.tables vs) = pair (.array vs) from rfl, hlist, Value.Pair]
    simp only [Value.elements_tables]
  | _ => exact iff_of_false nofun nofun

theorem pairs_eq_ok {ps : List (String × String)} : pairs v = .ok ps ↔ v.Pairs ps := by
  simp only [pairs, list_eq_ok, pair_eq_ok]
  rfl

theorem choose_eq_ok {first second : String × α} {w : String} {a : α} :
    word.choose first second w = .ok a ↔
      w = first.1 ∧ a = first.2 ∨ w ≠ first.1 ∧ w = second.1 ∧ a = second.2 := by
  rw [word.choose]
  by_cases h1 : w = first.1
  · simp [h1, eq_comm]
  rw [if_neg h1]
  by_cases h2 : w = second.1
  · rw [if_pos h2]
    simp [h2 ▸ h1, eq_comm, h2]
  · simp [h1, h2]

theorem word_eq_ok {first second : String × α} {a : α} :
    word first second v = .ok a ↔ ∃ w, v.Word w ∧ word.choose first second w = .ok a := by
  constructor
  · intro h
    unfold word at h
    split at h
    · exact ⟨_, .string _, h⟩
    · cases h
    · obtain ⟨b, hb, h⟩ := bind_eq_ok.mp h
      split at h
      · cases h
        exact ⟨_, .table .., hb⟩
      · cases h
        exact ⟨_, .array .., hb⟩
      · cases h
      · cases h
      · cases h
      · cases h
    · cases h
    · cases h
  · rintro ⟨w, hw, h⟩
    cases hw with
    | string => exact h
    | table o p => exact bind_eq_ok.mpr ⟨a, h, rfl⟩
    | array o => exact bind_eq_ok.mpr ⟨a, h, rfl⟩

theorem entries_cons (put : String → α → Value → Except Misfit α) (blank : α) (key : String)
    (v : Value) (es : Entries) :
    entries put blank ((key, v) :: es) = put key blank v >>= fun r => entries put r es := rfl

end Decode

end Toml

/-! ## Policies -/

def Truncation.OfValue (v : Toml.Value) : Truncation → Prop
  | lenient => v.Word "lenient"
  | strict => v.Word "strict"

def LateHead.OfValue (v : Toml.Value) : LateHead → Prop
  | ignore => v.Word "ignore"
  | reject => v.Word "reject"

/-- Other keys than the two have no effect, and each has its default. -/
structure Policy.OfEntries (es : Toml.Entries) (p : Policy) : Prop where
  truncation : es.Field "truncation" Truncation.OfValue .lenient p.truncation
  lateHead : es.Field "late_head" LateHead.OfValue .ignore p.lateHead

def Policy.OfValue (v : Toml.Value) (p : Policy) : Prop :=
  ∃ es, v.Entries ["truncation", "late_head"] 0 es ∧ OfEntries es p

namespace Policy

variable {v : Toml.Value} {es : Toml.Entries} {p q : Policy}

theorem decodeTruncation_eq_ok {t : Truncation} :
    decodeTruncation v = .ok t ↔ Truncation.OfValue v t := by
  simp only [decodeTruncation, Toml.Decode.word_eq_ok, Toml.Decode.choose_eq_ok]
  cases t <;> simp [Truncation.OfValue, Truncation.name]

theorem decodeLateHead_eq_ok {l : LateHead} :
    decodeLateHead v = .ok l ↔ LateHead.OfValue v l := by
  simp only [decodeLateHead, Toml.Decode.word_eq_ok, Toml.Decode.choose_eq_ok]
  cases l <;> simp [LateHead.OfValue, LateHead.name]

theorem entries_put_eq_ok :
    Toml.Decode.entries put p es = .ok q ↔
      es.Field "truncation" Truncation.OfValue p.truncation q.truncation ∧
        es.Field "late_head" LateHead.OfValue p.lateHead q.lateHead := by
  induction es generalizing p with
  | nil =>
    obtain ⟨t, l⟩ := p
    obtain ⟨t', l'⟩ := q
    simp [Toml.Decode.entries, pure, Except.pure, eq_comm]
  | cons e es ih =>
    obtain ⟨key, v⟩ := e
    rw [Toml.Decode.entries_cons, put]
    by_cases ht : key = "truncation"
    · subst ht
      rw [if_pos rfl, bind_pure_bind_eq_ok, Toml.Entries.field_cons_self,
        Toml.Entries.field_cons_of_ne (by decide)]
      simp only [decodeTruncation_eq_ok, ih]
      grind
    by_cases hl : key = "late_head"
    · subst hl
      rw [if_neg ht, if_pos rfl, bind_pure_bind_eq_ok, Toml.Entries.field_cons_of_ne ht,
        Toml.Entries.field_cons_self]
      simp only [decodeLateHead_eq_ok, ih]
      grind
    · rw [if_neg ht, if_neg hl, Toml.Entries.field_cons_of_ne ht, Toml.Entries.field_cons_of_ne hl]
      exact ih

theorem ofEntries_eq_ok : ofEntries es = .ok p ↔ OfEntries es p :=
  entries_put_eq_ok.trans ⟨fun ⟨ht, hl⟩ => ⟨ht, hl⟩, fun h => ⟨h.truncation, h.lateHead⟩⟩

theorem decode_eq_ok : decode v = .ok p ↔ OfValue v p := by
  simp only [OfValue, ← ofEntries_eq_ok]
  constructor
  · intro h
    unfold decode at h
    split at h
    · exact ⟨_, .table .., h⟩
    · exact ⟨_, .datetime, h⟩
    · exact ⟨_, .elements (.array _) (Nat.zero_le _), h⟩
    · exact ⟨_, .elements (.tables _) (Nat.zero_le _), h⟩
    · cases h
  · rintro ⟨es, he, h⟩
    cases he with
    | table => exact h
    | datetime => exact h
    | elements hv => cases hv <;> exact h

end Policy

/-! ## Settings -/

/-- The settings are the policy under one key. -/
def Settings.OfEntries (es : Toml.Entries) (s : Settings) : Prop :=
  es.Field "demux" Policy.OfValue ⟨.lenient, .ignore⟩ s.policy

theorem Settings.entries_put_eq_ok {es : Toml.Entries} {s s' : Settings} :
    Toml.Decode.entries put s es = .ok s' ↔
      es.Field "demux" Policy.OfValue s.policy s'.policy := by
  induction es generalizing s with
  | nil =>
    obtain ⟨p⟩ := s
    obtain ⟨p'⟩ := s'
    simp [Toml.Decode.entries, pure, Except.pure, eq_comm]
  | cons e es ih =>
    obtain ⟨key, v⟩ := e
    rw [Toml.Decode.entries_cons, put]
    by_cases h : key = "demux"
    · subst h
      rw [if_pos rfl, bind_pure_bind_eq_ok, Toml.Entries.field_cons_self]
      simp only [Policy.decode_eq_ok, ih]
    · rw [if_neg h, Toml.Entries.field_cons_of_ne h]
      exact ih

theorem Settings.ofEntries_eq_ok {es : Toml.Entries} {s : Settings} :
    ofEntries es = .ok s ↔ OfEntries es s := entries_put_eq_ok

/-! ## Recordings -/

namespace Record

variable {v : Toml.Value} {es : Toml.Entries} {r q : Record}

/-- Other keys than the five have no effect, and each can be left out. -/
structure OfEntries (es : Toml.Entries) (r : Record) : Prop where
  status : es.Field "status" (fun v s => ∃ n, s = some n ∧ v = .integer n.toNat) none r.status
  headers : es.Field "headers" Toml.Value.Pairs [] r.headers
  payload : es.Field "payload" (fun v s => ∃ t, s = some t ∧ v = .string t) none r.payload
  complete : es.Field "complete" (fun v b => v = .boolean b) false r.complete
  trailers : es.Field "trailers" (fun v t => ∃ ps, t = some ps ∧ v.Pairs ps) none r.trailers

def OfValue (v : Toml.Value) (r : Record) : Prop :=
  ∃ es, v.Entries ["status", "headers", "payload", "complete", "trailers"] 5 es ∧ OfEntries es r

theorem entries_put_eq_ok :
    Toml.Decode.entries put q es = .ok r ↔
      es.Field "status" (fun v s => ∃ n, s = some n ∧ v = .integer n.toNat) q.status r.status ∧
      es.Field "headers" Toml.Value.Pairs q.headers r.headers ∧
      es.Field "payload" (fun v s => ∃ t, s = some t ∧ v = .string t) q.payload r.payload ∧
      es.Field "complete" (fun v b => v = .boolean b) q.complete r.complete ∧
      es.Field "trailers" (fun v t => ∃ ps, t = some ps ∧ v.Pairs ps) q.trailers r.trailers := by
  induction es generalizing q with
  | nil =>
    obtain ⟨⟩ := q
    obtain ⟨⟩ := r
    simp [Toml.Decode.entries, pure, Except.pure, eq_comm]
  | cons e es ih =>
    obtain ⟨key, v⟩ := e
    rw [Toml.Decode.entries_cons, put.eq_def]
    split
    case h_6 =>
      simp (disch := assumption) only [Toml.Entries.field_cons_of_ne]
      exact ih
    -- The value of a known key takes the place of what was there.
    all_goals
      rw [bind_pure_bind_eq_ok]
      simp (disch := decide) only [Toml.Entries.field_cons_self, Toml.Entries.field_cons_of_ne,
        Toml.Decode.status_eq_ok, Toml.Decode.pairs_eq_ok, Toml.Decode.string_eq_ok,
        Toml.Decode.boolean_eq_ok, ih]
      grind

theorem entries_put_blank_eq_ok : Toml.Decode.entries put {} es = .ok r ↔ OfEntries es r :=
  entries_put_eq_ok.trans ⟨fun ⟨hs, hh, hp, hc, ht⟩ => ⟨hs, hh, hp, hc, ht⟩,
    fun h => ⟨h.status, h.headers, h.payload, h.complete, h.trailers⟩⟩

theorem missingElement?_eq_none {n : Nat} : missingElement? n = none ↔ 5 ≤ n := by
  simp [missingElement?]
  omega

theorem decode_eq_ok : decode v = .ok r ↔ OfValue v r := by
  have helements : ∀ vs : List Toml.Value, decode (.array vs) = .ok r ↔
      5 ≤ vs.length ∧
        OfEntries (["status", "headers", "payload", "complete", "trailers"].zip vs) r := by
    intro vs
    simp only [decode, bind_eq_ok, entries_put_blank_eq_ok, ← missingElement?_eq_none]
    cases missingElement? vs.length with
    | none => simp [pure, Except.pure]
    | some position => simp
  constructor
  · intro h
    unfold decode at h
    split at h
    · exact ⟨_, .table .., entries_put_blank_eq_ok.mp h⟩
    · exact ⟨_, .datetime, entries_put_blank_eq_ok.mp h⟩
    · obtain ⟨hl, h⟩ := (helements _).mp h
      exact ⟨_, .elements (.array _) hl, h⟩
    · obtain ⟨hl, h⟩ := (helements _).mp h
      exact ⟨_, .elements (.tables _) hl, h⟩
    · cases h
  · rintro ⟨es, he, h⟩
    cases he with
    | table => exact entries_put_blank_eq_ok.mpr h
    | datetime => exact entries_put_blank_eq_ok.mpr h
    | elements hv hl =>
      cases hv with
      | array => exact (helements _).mpr ⟨hl, h⟩
      | tables => exact (helements _).mpr ⟨hl, h⟩

end Record

/-- A recording is the list of records under one key. -/
def Recording.OfEntries (es : Toml.Entries) (rs : Recording) : Prop :=
  es.Field "chunk" (fun v rs => ∃ vs, v.Elements vs ∧ List.Forall₂ Record.OfValue vs rs) [] rs

theorem Recording.ofEntries_eq_ok {es : Toml.Entries} {rs : Recording} :
    ofEntries es = .ok rs ↔ OfEntries es rs := by
  rw [ofEntries, OfEntries]
  generalize ([] : Recording) = blank
  induction es generalizing blank with
  | nil => simp [Toml.Decode.entries, pure, Except.pure, eq_comm]
  | cons e es ih =>
    obtain ⟨key, v⟩ := e
    rw [Toml.Decode.entries_cons, put]
    by_cases h : key = "chunk"
    · subst h
      rw [if_pos rfl, bind_eq_ok, Toml.Entries.field_cons_self]
      simp only [Toml.Decode.list_eq_ok, Record.decode_eq_ok, ih]
    · rw [if_neg h, Toml.Entries.field_cons_of_ne h]
      exact ih blank

/-! ## Files -/

section Files

variable {files : Files} {parse : Toml.Parser} {path : String}

theorem readText_eq_ok {text : String} :
    readText files path = .ok text ↔ files path = .ok text.toUTF8.data.toList := by
  rw [readText, mapError_eq_ok, Files.text, bind_eq_ok]
  constructor
  · rintro ⟨bytes, hb, h⟩
    split at h
    · rename_i ht
      cases h
      rw [hb, Utf8.decode?_eq_some.mp ht]
    · cases h
  · intro h
    refine ⟨_, h, ?_⟩
    rw [Utf8.decode?_eq_some.mpr rfl]
    rfl

theorem Policy.ofToml_toToml (p : Policy) : Policy.ofToml p.toToml = .ok p := by
  obtain ⟨truncation, lateHead⟩ := p
  cases truncation <;> cases lateHead <;> exact ok_of_toOption (by decide +kernel)

theorem Settings.ofToml_toToml (s : Settings) : Settings.ofToml s.toToml = .ok s := by
  obtain ⟨truncation, lateHead⟩ := s
  cases truncation <;> cases lateHead <;> exact ok_of_toOption (by decide +kernel)

/-- **A file with printed settings** gives them back. -/
theorem Settings.ofFile_toToml {s : Settings} (h : files path = .ok s.toToml.toUTF8.data.toList) :
    Settings.ofFile files path = .ok s := by
  unfold ofFile
  rw [readText_eq_ok.mpr h]
  change inContext _ (ofToml s.toToml) = _
  rw [ofToml_toToml]
  rfl

end Files

end ResponseFraming
