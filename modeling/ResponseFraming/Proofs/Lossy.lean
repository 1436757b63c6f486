import ResponseFraming.Proofs.Utf8
import Mathlib.Algebra.GroupWithZero.Nat

/-!
# The length of a lossy reading

A text falls into parts: characters, each with the bytes that encode it, and
ill-formed parts of one to three bytes (`parts`).  In the lossy reading a character
stands for itself and U+FFFD, which takes three bytes, for an ill-formed part.  So the
reading is longer than the text by what its ill-formed parts are short of three bytes,
and as long as the text only if each of them has three.

While a character is unfinished, the bytes held are how the encoding of any character
begins that can still come of it (`Leads`).

* `Moves`, `moves_step`: what a byte can do to the bytes held.
* `map_char_parts`, `flatMap_bytes_parts`, `sound_of_mem_parts`: the parts are what a scan
  finds, they make up the text, and each has the bytes that it should have.
* `utf8ByteSize_decodeLossy`: the length, as a sum over the parts.
-/

namespace ResponseFraming.Utf8

/-! ## Encodings by value -/

/-- The last `n` tails of a value. -/
def tails (value : Nat) : Nat → Bytes
  | 0 => []
  | n + 1 => tail (value / 64 ^ n) :: tails value n

theorem toNat_ofNat_of_valid {v : Nat} (h : v.isValidChar) : (Char.ofNat v).val.toNat = v := by
  rw [Char.ofNat, dif_pos h]
  rfl

section Encode

variable {v : Nat}

theorem encode_one (h : v ≤ 0x7F) : String.utf8EncodeChar (Char.ofNat v) = [UInt8.ofNat v] := by
  unfold String.utf8EncodeChar
  rw [toNat_ofNat_of_valid (.inl (by omega))]
  exact if_pos h

theorem encode_two (hl : 0x7F < v) (hh : v ≤ 0x7FF) :
    String.utf8EncodeChar (Char.ofNat v) = UInt8.ofNat (v / 64 + 192) :: tails v 1 := by
  have h64 : v / 64 % 32 = v / 64 := Nat.mod_eq_of_lt (by omega)
  unfold String.utf8EncodeChar
  rw [toNat_ofNat_of_valid (.inl (by omega))]
  simp only [if_neg (Nat.not_le.mpr hl), if_pos hh, h64, tails, tail, Nat.pow_zero, Nat.div_one]

theorem encode_three (hl : 0x7FF < v) (hh : v ≤ 0xFFFF) (hv : v.isValidChar) :
    String.utf8EncodeChar (Char.ofNat v) = UInt8.ofNat (v / 4096 + 224) :: tails v 2 := by
  have h4096 : v / 4096 % 16 = v / 4096 := Nat.mod_eq_of_lt (by omega)
  unfold String.utf8EncodeChar
  rw [toNat_ofNat_of_valid hv]
  simp only [if_neg (show ¬ v ≤ 0x7F by omega), if_neg (Nat.not_le.mpr hl), if_pos hh, h4096,
    tails, tail, Nat.pow_zero, Nat.pow_one, Nat.div_one]

theorem encode_four (hl : 0xFFFF < v) (hh : v < 0x110000) :
    String.utf8EncodeChar (Char.ofNat v) = UInt8.ofNat (v / 262144 + 240) :: tails v 3 := by
  have h262144 : v / 262144 % 8 = v / 262144 := Nat.mod_eq_of_lt (by omega)
  unfold String.utf8EncodeChar
  rw [toNat_ofNat_of_valid (.inr ⟨by omega, hh⟩)]
  simp only [if_neg (show ¬ v ≤ 0x7F by omega), if_neg (show ¬ v ≤ 0x7FF by omega),
    if_neg (Nat.not_le.mpr hl), h262144, tails, tail, Nat.reducePow, Nat.div_one]

end Encode

/-! ## What an unfinished character leads to -/

/-- The bytes held are the beginning of every character whose next byte is in range. -/
structure Leads (u : Unfinished) (held : Bytes) : Prop where
  nonempty : held ≠ []
  short : held.length + u.more ≤ 3
  low : 128 ≤ u.low.toNat
  high : u.high.toNat ≤ 191
  range : u.low ≤ u.high
  encodes : ∀ v, v / 64 ^ (u.more + 1) = u.value → u.low.toNat ≤ v / 64 ^ u.more % 64 + 128 →
    v / 64 ^ u.more % 64 + 128 ≤ u.high.toNat →
      String.utf8EncodeChar (Char.ofNat v) = held ++ tails v (u.more + 1)

theorem leads_two {n : Nat} (hl : 2 ≤ n) (hh : n < 32) :
    Leads ⟨n, 0x80, 0xBF, 0⟩ [UInt8.ofNat (n + 192)] where
  nonempty := List.cons_ne_nil _ _
  short := by simp
  low := Nat.le_refl 128
  high := Nat.le_refl 191
  range := show (0x80 : UInt8) ≤ 0xBF by decide
  encodes v hv _ _ := by
    replace hv : v / 64 = n := by simpa using hv
    rw [← hv]
    exact encode_two (by omega) (by omega)

theorem leads_three {n : Nat} (h : n < 16) :
    Leads ⟨n, if n = 0 then 0xA0 else 0x80, if n = 13 then 0x9F else 0xBF, 1⟩
      [UInt8.ofNat (n + 224)] where
  nonempty := List.cons_ne_nil _ _
  short := by simp
  low := by dsimp only; split <;> decide
  high := by dsimp only; split <;> decide
  range := by decide +revert
  encodes v hv hl hh := by
    have h0 : n = 0 → 32 ≤ v / 64 % 64 := by
      rintro rfl
      simpa using hl
    have h13 : n = 13 → v / 64 % 64 < 32 := by
      rintro rfl
      have h9F : v / 64 % 64 + 128 ≤ 159 := by simpa using hh
      omega
    replace hv : v / 4096 = n := by simpa using hv
    have hvalid : v.isValidChar := by
      unfold Nat.isValidChar
      omega
    rw [← hv]
    exact encode_three (by omega) (by omega) hvalid

theorem leads_four {n : Nat} (h : n < 5) :
    Leads ⟨n, if n = 0 then 0x90 else 0x80, if n = 4 then 0x8F else 0xBF, 2⟩
      [UInt8.ofNat (n + 240)] where
  nonempty := List.cons_ne_nil _ _
  short := by simp
  low := by dsimp only; split <;> decide
  high := by dsimp only; split <;> decide
  range := by decide +revert
  encodes v hv hl hh := by
    have h0 : n = 0 → 16 ≤ v / 4096 % 64 := by
      rintro rfl
      simpa using hl
    have h4 : n = 4 → v / 4096 % 64 < 16 := by
      rintro rfl
      have h8F : v / 4096 % 64 + 128 ≤ 143 := by simpa using hh
      omega
    replace hv : v / 262144 = n := by simpa using hv
    rw [← hv]
    exact encode_four (by omega) (by omega)

section Resume

variable {value more : Nat} {low high b : UInt8} {held : Bytes}

theorem Leads.encode (h : Leads ⟨value, low, high, more⟩ held) (hl : low ≤ b) (hh : b ≤ high)
    {v : Nat} (hv : v / 64 ^ more = value * 64 + (b.toNat - 0x80)) :
    String.utf8EncodeChar (Char.ofNat v) = held ++ [b] ++ tails v more := by
  have hlow : 128 ≤ low.toNat := h.low
  have hhigh : high.toNat ≤ 191 := h.high
  rw [UInt8.le_iff_toNat_le] at hl hh
  have hb : v / 64 ^ more % 64 + 128 = b.toNat := by omega
  have htail : tail (v / 64 ^ more) = b := by rw [← UInt8.toNat_inj, toNat_tail, hb]
  have hvalue : v / 64 ^ (more + 1) = value := by
    rw [Nat.pow_succ, ← Nat.div_div_eq_div_mul, hv]
    omega
  rw [h.encodes v hvalue (by rw [hb]; exact hl) (by rw [hb]; exact hh), tails, htail,
    List.append_assoc]
  rfl

theorem Leads.append (h : Leads ⟨value, low, high, more + 1⟩ held) (hl : low ≤ b)
    (hh : b ≤ high) :
    Leads ⟨value * 64 + (b.toNat - 0x80), 0x80, 0xBF, more⟩ (held ++ [b]) where
  nonempty := List.append_ne_nil_of_left_ne_nil h.nonempty _
  short := by
    have hshort : held.length + (more + 1) ≤ 3 := h.short
    rw [List.length_append, List.length_singleton, Nat.add_assoc, Nat.add_comm 1]
    exact hshort
  low := Nat.le_refl 128
  high := Nat.le_refl 191
  range := show (0x80 : UInt8) ≤ 0xBF by decide
  encodes _ hv _ _ := h.encode hl hh hv

theorem Leads.last (h : Leads ⟨value, low, high, 0⟩ held) (hl : low ≤ b) (hh : b ≤ high) :
    String.utf8EncodeChar (Char.ofNat (value * 64 + (b.toNat - 0x80))) = held ++ [b] := by
  rw [h.encode hl hh (by rw [Nat.pow_zero, Nat.div_one]), tails, List.append_nil]

end Resume

/-! ## Parts -/

/-- A character or an ill-formed part of a text, with its bytes. -/
structure Part where
  char : Option Char
  bytes : Bytes
deriving DecidableEq, Repr

namespace Part

/-- A character has the bytes that encode it, an ill-formed part one to three. -/
def Sound (p : Part) : Prop :=
  match p.char with
  | some c => String.utf8EncodeChar c = p.bytes
  | none => p.bytes ≠ [] ∧ p.bytes.length ≤ 3

/-- The number of bytes that stand for the part in the lossy reading. -/
def shown (p : Part) : Nat := (p.char.getD '\uFFFD').utf8Size

end Part

/-- The parts that a byte ends and the bytes held after it. -/
def cut (held : Bytes) (b : UInt8) : Progress → List Part × Bytes
  | ⟨[], _⟩ => ([], held ++ [b])
  | ⟨[x], none⟩ => ([⟨x, held ++ [b]⟩], [])
  | ⟨[x], some _⟩ => ([⟨x, held⟩], [b])
  | ⟨x :: y :: _, _⟩ => ([⟨x, held⟩, ⟨y, [b]⟩], [])

/-- The parts of a text, of which some bytes are held already. -/
def partsFrom (unfinished : Option Unfinished) (held : Bytes) : Bytes → List Part
  | [] => if unfinished.isSome then [⟨none, held⟩] else []
  | b :: rest =>
    (cut held b (step unfinished b)).1 ++
      partsFrom (step unfinished b).unfinished (cut held b (step unfinished b)).2 rest

def parts (bytes : Bytes) : List Part := partsFrom none [] bytes

/-- What a byte does to the bytes held. -/
inductive Moves (held : Bytes) (b : UInt8) : Progress → Prop
  /-- It goes on with the character, or begins one. -/
  | continues {u : Unfinished} (h : Leads u (held ++ [b])) : Moves held b ⟨[], some u⟩
  /-- It is the last byte of a part. -/
  | ends {x : Option Char} (h : Part.Sound ⟨x, held ++ [b]⟩) : Moves held b ⟨[x], none⟩
  /-- It breaks the character off and begins the next. -/
  | breaks {u : Unfinished} (h : Part.Sound ⟨none, held⟩) (hb : Leads u [b]) :
      Moves held b ⟨[none], some u⟩
  /-- It breaks the character off and is a part by itself. -/
  | separates {x : Option Char} (h : Part.Sound ⟨none, held⟩) (hb : Part.Sound ⟨x, [b]⟩) :
      Moves held b ⟨[none, x], none⟩

/-- The bytes held belong to the character that is unfinished. -/
def Held : Option Unfinished → Bytes → Prop
  | none, held => held = []
  | some u, held => Leads u held

/-- No character begins with a continuation byte, nor with the first byte of an overlong form. -/
theorem start_continuation : ∀ n < 66, start (UInt8.ofNat (n + 128)) = ⟨[none], none⟩ := by decide

/-- No character begins with a byte above those of four bytes. -/
theorem start_beyond : ∀ n < 11, start (UInt8.ofNat (n + 245)) = ⟨[none], none⟩ := by decide

theorem Leads.broken {u : Unfinished} {held : Bytes} (h : Leads u held) :
    Part.Sound ⟨none, held⟩ :=
  ⟨h.nonempty, Nat.le_trans (Nat.le_add_right _ _) h.short⟩

theorem sound_byte (b : UInt8) : Part.Sound ⟨none, [b]⟩ :=
  ⟨List.cons_ne_nil _ _, by simp⟩

theorem moves_start (b : UInt8) : Moves [] b (start b) := by
  obtain ⟨n, hn, rfl⟩ : ∃ n < 256, b = UInt8.ofNat n :=
    ⟨b.toNat, b.toNat_lt, UInt8.ofNat_toNat.symm⟩
  by_cases h1 : n ≤ 0x7F
  · rw [start_one h1]
    exact .ends (encode_one h1)
  by_cases hc : n < 194
  · obtain ⟨a, rfl⟩ : ∃ a, n = a + 128 := ⟨n - 128, by omega⟩
    rw [start_continuation a (by omega)]
    exact .ends (sound_byte _)
  by_cases h2 : n < 224
  · obtain ⟨a, rfl⟩ : ∃ a, n = a + 192 := ⟨n - 192, by omega⟩
    rw [start_two a (by omega) (by omega)]
    exact .continues (leads_two (by omega) (by omega))
  by_cases h3 : n < 240
  · obtain ⟨a, rfl⟩ : ∃ a, n = a + 224 := ⟨n - 224, by omega⟩
    rw [start_three a (by omega)]
    exact .continues (leads_three (by omega))
  by_cases h4 : n < 245
  · obtain ⟨a, rfl⟩ : ∃ a, n = a + 240 := ⟨n - 240, by omega⟩
    rw [start_four a (by omega)]
    exact .continues (leads_four (by omega))
  · obtain ⟨a, rfl⟩ : ∃ a, n = a + 245 := ⟨n - 245, by omega⟩
    rw [start_beyond a (by omega)]
    exact .ends (sound_byte _)

theorem moves_resume {u : Unfinished} {held : Bytes} (h : Leads u held) (b : UInt8) :
    Moves held b (resume u b) := by
  obtain ⟨value, low, high, more⟩ := u
  unfold resume
  split
  · rename_i hb
    cases more with
    | zero => exact .ends (h.last hb.1 hb.2)
    | succ more => exact .continues (h.append hb.1 hb.2)
  · -- The byte is read again, with nothing held.
    have hb := moves_start b
    generalize start b = p at hb
    cases hb with
    | continues hb => exact .breaks h.broken hb
    | ends hb => exact .separates h.broken hb
    | breaks hnil => exact absurd rfl hnil.1
    | separates hnil => exact absurd rfl hnil.1

/-- **The step**: every byte makes one of the four moves. -/
theorem moves_step {u : Option Unfinished} {held : Bytes} (h : Held u held) (b : UInt8) :
    Moves held b (step u b) := by
  cases u with
  | none =>
    obtain rfl : held = [] := h
    exact moves_start b
  | some u => exact moves_resume h b

section Moves

variable {old : Bytes} {b : UInt8} {p : Progress} (h : Moves old b p)

include h

theorem Moves.held : Held p.unfinished (cut old b p).2 := by
  cases h with
  | continues h => exact h
  | ends => rfl
  | breaks _ hb => exact hb
  | separates => rfl

theorem Moves.char : (cut old b p).1.map (·.char) = p.ended := by
  cases h <;> rfl

theorem Moves.bytes : (cut old b p).1.flatMap (·.bytes) ++ (cut old b p).2 = old ++ [b] := by
  cases h <;> simp [cut]

theorem Moves.sound : ∀ part ∈ (cut old b p).1, part.Sound := by
  cases h with
  | continues => exact nofun
  | ends h => exact List.forall_mem_singleton.mpr h
  | breaks h => exact List.forall_mem_singleton.mpr h
  | separates h hb => exact List.forall_mem_cons.mpr ⟨h, List.forall_mem_singleton.mpr hb⟩

end Moves

/-! ## Whole texts -/

section PartsFrom

variable {u : Option Unfinished} {held : Bytes}

theorem map_char_partsFrom (h : Held u held) (bytes : Bytes) :
    (partsFrom u held bytes).map (·.char) = scan u bytes := by
  induction bytes generalizing u held with
  | nil => cases u <;> rfl
  | cons b rest ih =>
    have hm := moves_step h b
    rw [partsFrom, List.map_append, hm.char, ih hm.held, scan]

theorem flatMap_bytes_partsFrom (h : Held u held) (bytes : Bytes) :
    (partsFrom u held bytes).flatMap (·.bytes) = held ++ bytes := by
  induction bytes generalizing u held with
  | nil =>
    cases u with
    | none =>
      obtain rfl : held = [] := h
      rfl
    | some u => simp [partsFrom]
  | cons b rest ih =>
    have hm := moves_step h b
    rw [partsFrom, List.flatMap_append, ih hm.held, ← List.append_assoc, hm.bytes,
      List.append_assoc, List.singleton_append]

theorem sound_of_mem_partsFrom (h : Held u held) {bytes : Bytes} :
    ∀ part ∈ partsFrom u held bytes, part.Sound := by
  induction bytes generalizing u held with
  | nil =>
    cases u with
    | none => exact nofun
    | some u => exact List.forall_mem_singleton.mpr (Leads.broken h)
  | cons b rest ih =>
    have hm := moves_step h b
    exact List.forall_mem_append.mpr ⟨hm.sound, ih hm.held⟩

end PartsFrom

theorem held_nil : Held none [] := rfl

theorem map_char_parts (bytes : Bytes) : (parts bytes).map (·.char) = scan none bytes :=
  map_char_partsFrom held_nil bytes

/-- **The parts make up the text.** -/
theorem flatMap_bytes_parts (bytes : Bytes) : (parts bytes).flatMap (·.bytes) = bytes :=
  flatMap_bytes_partsFrom held_nil bytes

theorem sound_of_mem_parts {bytes : Bytes} : ∀ part ∈ parts bytes, part.Sound :=
  sound_of_mem_partsFrom held_nil

/-- A character of three bytes that is broken off after two, and one of two bytes. -/
example : parts [0xE2, 0x82, 0x41, 0xC3, 0xA9] =
    [⟨none, [0xE2, 0x82]⟩, ⟨some 'A', [0x41]⟩, ⟨some 'é', [0xC3, 0xA9]⟩] := by decide

/-! ## Well-formed texts -/

/-- Parts that are all characters have the bytes of these characters. -/
theorem flatMap_bytes_of_chars {ps : List Part} {cs : List Char} (hs : ∀ p ∈ ps, p.Sound)
    (h : ps.map (·.char) = cs.map some) :
    ps.flatMap (·.bytes) = cs.flatMap String.utf8EncodeChar := by
  induction ps generalizing cs with
  | nil =>
    obtain rfl : cs = [] := by simpa using h.symm
    rfl
  | cons p ps ih =>
    cases cs with
    | nil => cases h
    | cons c cs =>
      obtain ⟨hc, h⟩ := List.cons.inj h
      have hp : p.Sound := hs p List.mem_cons_self
      change p.char = some c at hc
      rw [Part.Sound, hc] at hp
      rw [List.flatMap_cons, List.flatMap_cons, hp,
        ih (fun q hq => hs q (List.mem_cons_of_mem p hq)) h]

/-- A scan without ill-formed parts is that of a string. -/
theorem scan_eq_map_some {bytes : Bytes} {s : String} :
    scan none bytes = s.toList.map some ↔ bytes = encode s := by
  constructor
  · intro h
    rw [← map_char_parts] at h
    rw [encode, ← flatMap_bytes_of_chars sound_of_mem_parts h, flatMap_bytes_parts]
  · rintro rfl
    exact scan_encode s

theorem mapM_id_eq_some {α : Type} {xs : List (Option α)} {ys : List α} :
    xs.mapM id = some ys ↔ xs = ys.map some := by
  induction xs generalizing ys with
  | nil => cases ys <;> simp
  | cons x xs ih =>
    cases x with
    | none => cases ys <;> simp
    | some y =>
      cases ys with
      | nil => simp [Option.bind_eq_some_iff]
      | cons z zs => simpa [Option.bind_eq_some_iff, ih] using and_comm

/-- **A text is read strictly exactly if it is some string's encoding**, and then as that string. -/
theorem decode?_eq_some {bytes : Bytes} {s : String} :
    decode? bytes = some s ↔ bytes = s.toUTF8.data.toList := by
  rw [← encode_eq_toUTF8, ← scan_eq_map_some, ← mapM_id_eq_some, decode?, Option.map_eq_some_iff]
  constructor
  · rintro ⟨cs, h, rfl⟩
    rwa [String.toList_ofList]
  · intro h
    exact ⟨s.toList, h, String.ofList_toList⟩

/-! ## Lengths -/

theorem utf8ByteSize_ofList (cs : List Char) :
    (String.ofList cs).utf8ByteSize = (cs.map Char.utf8Size).sum := by
  induction cs with
  | nil => rfl
  | cons c cs ih =>
    rw [String.ofList_cons, String.utf8ByteSize_append, String.utf8ByteSize_singleton, ih,
      List.map_cons, List.sum_cons]

/-- **The length of a lossy reading** is what its parts are shown in. -/
theorem utf8ByteSize_decodeLossy (bytes : Bytes) :
    (decodeLossy bytes).utf8ByteSize = ((parts bytes).map Part.shown).sum := by
  rw [decodeLossy, utf8ByteSize_ofList, ← map_char_parts, List.map_map, List.map_map]
  rfl

theorem length_eq_sum_parts (bytes : Bytes) :
    bytes.length = ((parts bytes).map (·.bytes.length)).sum := by
  conv => lhs; rw [← flatMap_bytes_parts bytes]
  exact List.length_flatMap

namespace Part

theorem Sound.shown_eq {p : Part} (h : p.Sound) {c : Char} (hc : p.char = some c) :
    p.shown = p.bytes.length := by
  obtain ⟨char, bytes⟩ := p
  obtain rfl : char = some c := hc
  rw [shown, ← show String.utf8EncodeChar c = bytes from h, String.length_utf8EncodeChar]
  rfl

theorem Sound.length_le_shown {p : Part} (h : p.Sound) : p.bytes.length ≤ p.shown := by
  obtain ⟨_ | c, bytes⟩ := p
  · exact h.2
  · exact Nat.le_of_eq (h.shown_eq rfl).symm

theorem Sound.shown_eq_iff {p : Part} (h : p.Sound) :
    p.shown = p.bytes.length ↔ (p.char = none → p.bytes.length = 3) := by
  obtain ⟨_ | c, bytes⟩ := p
  · exact ⟨fun he _ => he.symm, fun he => (he rfl).symm⟩
  · exact ⟨fun _ => nofun, fun _ => h.shown_eq rfl⟩

theorem sum_length_le_sum_shown {ps : List Part} (h : ∀ p ∈ ps, p.Sound) :
    (ps.map (·.bytes.length)).sum ≤ (ps.map shown).sum := by
  induction ps with
  | nil => exact Nat.le_refl 0
  | cons p ps ih =>
    obtain ⟨hp, hps⟩ := List.forall_mem_cons.mp h
    exact Nat.add_le_add hp.length_le_shown (ih hps)

theorem sum_shown_eq_iff {ps : List Part} (h : ∀ p ∈ ps, p.Sound) :
    (ps.map shown).sum = (ps.map (·.bytes.length)).sum ↔
      ∀ p ∈ ps, p.char = none → p.bytes.length = 3 := by
  induction ps with
  | nil => exact ⟨fun _ => nofun, fun _ => rfl⟩
  | cons p ps ih =>
    obtain ⟨hp, hps⟩ := List.forall_mem_cons.mp h
    have hle := sum_length_le_sum_shown hps
    have hple := hp.length_le_shown
    rw [List.forall_mem_cons, ← ih hps, ← hp.shown_eq_iff]
    simp only [List.map_cons, List.sum_cons]
    omega

end Part

end ResponseFraming.Utf8
