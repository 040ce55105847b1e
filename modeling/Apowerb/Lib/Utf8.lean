/-
# Decoding UTF-8 in pieces

An incremental decoder takes the bytes of a text in chunks of any size: it keeps the bytes of an
unfinished character for the next chunk, and what cannot be decoded becomes the replacement
character.  The decoder is a machine over single bytes, so that a chunk is a fold and how the bytes
are cut does not matter.

* `decodeChunks_flatten`: the texts of the chunks, put together, are the text of all the bytes.

A strict decoder refuses the bytes instead, and tells where the character begins that it refuses.
One that is only unfinished begins after the characters that are whole (`track_unfinished`), so that
the bytes before it are a text (`strict_take_line`).

A byte that cannot continue the character before it ends that character with one replacement, and is
read again as a first byte; this is the practice of replacing each maximal part of a character.
-/
import Mathlib.Data.List.Basic

namespace Utf8

/-! ## 1. Decoding in pieces -/

/-- What is known of an unfinished character: the number of bytes it still needs, the bounds of the
next one, and the bits so far. -/
structure Decoder where
  needed : Nat
  lower : Nat
  upper : Nat
  code : Nat
deriving DecidableEq, Repr

/-- Between two characters. -/
def Decoder.start : Decoder := ⟨0, 0x80, 0xbf, 0⟩

/-- U+FFFD. -/
def replacement : Char := Char.ofNat 0xfffd

/-- A byte at the beginning of a character. -/
def first (b : Nat) : Decoder × List Char :=
  if b ≤ 0x7f then (.start, [Char.ofNat b])
  else if 0xc2 ≤ b ∧ b ≤ 0xdf then (⟨1, 0x80, 0xbf, b - 0xc0⟩, [])
  else if 0xe0 ≤ b ∧ b ≤ 0xef then
    (⟨2, if b = 0xe0 then 0xa0 else 0x80, if b = 0xed then 0x9f else 0xbf, b - 0xe0⟩, [])
  else if 0xf0 ≤ b ∧ b ≤ 0xf4 then
    (⟨3, if b = 0xf0 then 0x90 else 0x80, if b = 0xf4 then 0x8f else 0xbf, b - 0xf0⟩, [])
  else (.start, [replacement])

/-- One byte. -/
def Decoder.byte (d : Decoder) (b : Nat) : Decoder × List Char :=
  if d.needed = 0 then first b
  else if d.lower ≤ b ∧ b ≤ d.upper then
    let code := d.code * 64 + (b - 0x80)
    if d.needed = 1 then (.start, [Char.ofNat code])
    else (⟨d.needed - 1, 0x80, 0xbf, code⟩, [])
  else ((first b).1, replacement :: (first b).2)

/-- The bytes of a chunk. -/
def Decoder.feed (d : Decoder) : List UInt8 → Decoder × List Char
  | [] => (d, [])
  | b :: bytes =>
    let (d, cs) := d.byte b.toNat
    let (d, more) := d.feed bytes
    (d, cs ++ more)

/-- The end of the bytes. -/
def Decoder.finish (d : Decoder) : List Char := if d.needed = 0 then [] else [replacement]

/-- The text of each chunk, and what is left at the end. -/
def Decoder.chunks (d : Decoder) : List (List UInt8) → List (List Char) × List Char
  | [] => ([], d.finish)
  | chunk :: rest =>
    let (d, cs) := d.feed chunk
    let (texts, tail) := d.chunks rest
    (cs :: texts, tail)

/-- `bytes.decode("utf-8", errors="replace")`. -/
def decode (bytes : List UInt8) : List Char :=
  let (d, cs) := Decoder.start.feed bytes
  cs ++ d.finish

/-- Two chunks read one after the other are one chunk. -/
theorem feed_append (d : Decoder) (bytes more : List UInt8) :
    d.feed (bytes ++ more) =
      (((d.feed bytes).1.feed more).1, (d.feed bytes).2 ++ ((d.feed bytes).1.feed more).2) := by
  induction bytes generalizing d with
  | nil => simp [Decoder.feed]
  | cons b bytes ih => simp [Decoder.feed, ih]

theorem chunks_flatten (d : Decoder) (chunks : List (List UInt8)) :
    (d.chunks chunks).1.flatten ++ (d.chunks chunks).2 =
      (d.feed chunks.flatten).2 ++ (d.feed chunks.flatten).1.finish := by
  induction chunks generalizing d with
  | nil => simp [Decoder.chunks, Decoder.feed]
  | cons chunk rest ih => simp [Decoder.chunks, feed_append, ih]

/-- **How the bytes are cut does not matter.** -/
theorem decodeChunks_flatten (chunks : List (List UInt8)) :
    (Decoder.start.chunks chunks).1.flatten ++ (Decoder.start.chunks chunks).2 =
      decode chunks.flatten :=
  chunks_flatten .start chunks

/-! ## 2. Strict decoding -/

/-- Why bytes are refused. -/
inductive Reason
  | startByte
  | continuation
  | unexpectedEnd
deriving DecidableEq, Repr

/-- `UnicodeDecodeError`: `start` is where the character begins that is refused. -/
structure DecodeError where
  reason : Reason
  start : Nat
deriving DecidableEq, Repr

/-- Whether a byte can come next. -/
def Decoder.accepts (d : Decoder) (b : Nat) : Bool :=
  if d.needed = 0 then b ≤ 0x7f || (0xc2 ≤ b && b ≤ 0xf4) else d.lower ≤ b && b ≤ d.upper

/-- Where a decoder stands: what it needs, where its character begins, and the text so far. -/
structure Progress where
  decoder : Decoder
  start : Nat
  text : List Char
deriving DecidableEq, Repr

/-- Bytes from `pos` on, the character before them from `start` on. -/
def Decoder.track (d : Decoder) (start pos : Nat) : List UInt8 → Except DecodeError Progress
  | [] => .ok ⟨d, start, []⟩
  | b :: bytes =>
    let start := if d.needed = 0 then pos else start
    if d.accepts b.toNat then
      match (d.byte b.toNat).1.track start (pos + 1) bytes with
      | .error e => .error e
      | .ok r => .ok { r with text := (d.byte b.toNat).2 ++ r.text }
    else .error ⟨if d.needed = 0 then .startByte else .continuation, start⟩

/-- `bytes.decode("utf-8")`. -/
def strict (bytes : List UInt8) : Except DecodeError (List Char) :=
  match Decoder.start.track 0 0 bytes with
  | .error e => .error e
  | .ok r => if r.decoder.needed = 0 then .ok r.text else .error ⟨.unexpectedEnd, r.start⟩

attribute [local grind =] Decoder.byte Decoder.accepts Decoder.track strict

variable {d : Decoder} {start pos : Nat} {bytes more : List UInt8} {r : Progress}

/-- What a decoder can be: it asks for no byte of ASCII, and between characters it is as at first. -/
structure Decoder.Lawful (d : Decoder) : Prop where
  lower : 0x80 ≤ d.lower
  between : d.needed = 0 → d = .start

theorem lawful_start : Decoder.start.Lawful := ⟨Nat.le_refl _, fun _ => rfl⟩

theorem lawful_byte (d : Decoder) (b : Nat) (h : d.accepts b = true) : (d.byte b).1.Lawful := by
  unfold Decoder.byte
  split
  · unfold first
    split
    · exact lawful_start
    split
    · exact ⟨Nat.le_refl _, by simp⟩
    split
    · exact ⟨by dsimp only; split <;> omega, by simp⟩
    split
    · exact ⟨by dsimp only; split <;> omega, by simp⟩
    · exact lawful_start
  · rename_i hneeded
    simp only [Decoder.accepts, hneeded, if_false, Bool.and_eq_true, decide_eq_true_eq] at h
    rw [if_pos h]
    dsimp only
    split
    · exact lawful_start
    · rename_i hmore
      exact ⟨Nat.le_refl _, fun hzero => absurd hzero (by dsimp only; omega)⟩

/-- A byte of ASCII ends between characters. -/
theorem byte_ascii (hd : d.Lawful) {b : Nat} (hb : b ≤ 0x7f) (h : d.accepts b = true) :
    d = .start ∧ d.byte b = (.start, [Char.ofNat b]) := by
  have hneeded : d.needed = 0 := by
    by_contra hneeded
    have hlower := hd.lower
    simp only [Decoder.accepts, hneeded, if_false, Bool.and_eq_true, decide_eq_true_eq] at h
    omega
  refine ⟨hd.between hneeded, ?_⟩
  rw [Decoder.byte, if_pos hneeded, first, if_pos hb]

/-- The first byte is accepted, and then the others are. -/
theorem track_cons_eq_ok {b : UInt8} :
    d.track start pos (b :: bytes) = .ok r ↔ d.accepts b.toNat = true ∧
      ∃ r', (d.byte b.toNat).1.track (if d.needed = 0 then pos else start) (pos + 1) bytes = .ok r' ∧
        r = { r' with text := (d.byte b.toNat).2 ++ r'.text } := by
  rw [Decoder.track]
  cases d.accepts b.toNat with
  | false => simp
  | true =>
    cases (d.byte b.toNat).1.track (if d.needed = 0 then pos else start) (pos + 1) bytes with
    | error e => simp
    | ok r' => simp [eq_comm]

theorem track_append_eq_ok :
    d.track start pos (bytes ++ more) = .ok r ↔ ∃ r₁ r₂, d.track start pos bytes = .ok r₁ ∧
      r₁.decoder.track r₁.start (pos + bytes.length) more = .ok r₂ ∧
        r = { r₂ with text := r₁.text ++ r₂.text } := by
  induction bytes generalizing d start pos r with
  | nil => simp [Decoder.track, eq_comm]
  | cons b bytes ih =>
    have hlength : pos + (b :: bytes).length = pos + 1 + bytes.length := by
      rw [List.length_cons]
      omega
    rw [List.cons_append, track_cons_eq_ok, hlength]
    constructor
    · rintro ⟨haccepts, r', htrack, rfl⟩
      obtain ⟨r₁, r₂, hfirst, hsecond, rfl⟩ := ih.mp htrack
      exact ⟨_, r₂, track_cons_eq_ok.mpr ⟨haccepts, r₁, hfirst, rfl⟩, hsecond, by simp⟩
    · rintro ⟨r₁, r₂, hfirst, hsecond, rfl⟩
      obtain ⟨haccepts, r', htrack, rfl⟩ := track_cons_eq_ok.mp hfirst
      exact ⟨haccepts, _, ih.mpr ⟨r', r₂, htrack, hsecond, rfl⟩, by simp⟩

theorem lawful_track (hd : d.Lawful) (h : d.track start pos bytes = .ok r) : r.decoder.Lawful := by
  induction bytes generalizing d start pos r with
  | nil =>
    cases h
    exact hd
  | cons b bytes ih =>
    obtain ⟨haccepts, r', htrack, rfl⟩ := track_cons_eq_ok.mp h
    have hr' : r'.decoder.Lawful := ih (lawful_byte d b.toNat haccepts) htrack
    exact hr'

/-- Bytes that end with one of ASCII end between characters. -/
theorem track_ascii {b : UInt8} (hb : b.toNat ≤ 0x7f)
    (h : Decoder.start.track 0 0 (bytes ++ [b]) = .ok r) : r.decoder = .start := by
  obtain ⟨r₁, r₂, hbytes, hlast, rfl⟩ := track_append_eq_ok.mp h
  obtain ⟨haccepts, r', hnil, rfl⟩ := track_cons_eq_ok.mp hlast
  obtain ⟨-, hbyte⟩ := byte_ascii (lawful_track lawful_start hbytes) hb haccepts
  rw [hbyte] at hnil
  cases hnil
  rfl

/-- **Where an unfinished character begins.**  The bytes before it end between characters; from
between characters on, it begins no sooner than the bytes. -/
theorem track_unfinished (h : d.track start pos bytes = .ok r) (hneeded : r.decoder.needed ≠ 0) :
    (d.needed ≠ 0 ∧ r.start = start) ∨
      ∃ k ≤ bytes.length, r.start = pos + k ∧
        ∃ r', d.track start pos (bytes.take k) = .ok r' ∧ r'.decoder.needed = 0 := by
  induction bytes generalizing d start pos r with
  | nil =>
    cases h
    exact .inl ⟨hneeded, rfl⟩
  | cons b bytes ih =>
    obtain ⟨haccepts, r', htrack, rfl⟩ := track_cons_eq_ok.mp h
    rcases ih htrack hneeded with ⟨-, hstart⟩ | ⟨k, hk, hstart, r'', htake, hzero⟩
    · by_cases hbetween : d.needed = 0
      · -- The character begins with this byte.
        rw [if_pos hbetween] at hstart
        exact .inr ⟨0, Nat.zero_le _, hstart, ⟨d, start, []⟩, rfl, hbetween⟩
      · rw [if_neg hbetween] at hstart
        exact .inl ⟨hbetween, hstart⟩
    · refine .inr ⟨k + 1, by simpa using hk, by dsimp only; omega,
        { r'' with text := (d.byte b.toNat).2 ++ r''.text }, ?_, hzero⟩
      rw [List.take_succ_cons]
      exact track_cons_eq_ok.mpr ⟨haccepts, r'', htake, rfl⟩

theorem track_all_ascii (h : ∀ b ∈ bytes, b.toNat ≤ 0x7f) (start pos : Nat) :
    ∃ r, Decoder.start.track start pos bytes = .ok r ∧ r.decoder = .start ∧
      r.text = bytes.map fun b => Char.ofNat b.toNat := by
  induction bytes generalizing start pos with
  | nil => exact ⟨_, rfl, rfl, rfl⟩
  | cons b bytes ih =>
    have hb : b.toNat ≤ 0x7f := h b List.mem_cons_self
    have haccepts : Decoder.start.accepts b.toNat = true := by simp [Decoder.accepts, Decoder.start, hb]
    obtain ⟨-, hbyte⟩ := byte_ascii lawful_start hb haccepts
    obtain ⟨r, htrack, hr, htext⟩ :=
      ih (fun c hc => h c (List.mem_cons_of_mem b hc)) pos (pos + 1)
    refine ⟨{ r with text := Char.ofNat b.toNat :: r.text }, ?_, hr, by simp [htext]⟩
    exact track_cons_eq_ok.mpr ⟨haccepts, r, by rw [hbyte]; exact htrack, by rw [hbyte]; rfl⟩

/-! ## 3. Bytes that end a line -/

theorem strict_eq_ok {text : List Char} :
    strict bytes = .ok text ↔
      ∃ r, Decoder.start.track 0 0 bytes = .ok r ∧ r.decoder.needed = 0 ∧ r.text = text := by
  unfold strict
  cases Decoder.start.track 0 0 bytes with
  | error e => simp
  | ok r =>
    by_cases hneeded : r.decoder.needed = 0
    · simp [hneeded]
    · simp [hneeded]

/-- Bytes of ASCII are their characters. -/
theorem strict_ascii (h : ∀ b ∈ bytes, b.toNat ≤ 0x7f) :
    strict bytes = .ok (bytes.map fun b => Char.ofNat b.toNat) := by
  obtain ⟨r, htrack, hr, htext⟩ := track_all_ascii h 0 0
  exact strict_eq_ok.mpr ⟨r, htrack, by rw [hr]; rfl, htext⟩

/-- Bytes that break off within a character. -/
theorem strict_eq_unfinished {p : Nat} :
    strict bytes = .error ⟨.unexpectedEnd, p⟩ ↔
      ∃ r, Decoder.start.track 0 0 bytes = .ok r ∧ r.decoder.needed ≠ 0 ∧ r.start = p := by
  have hreason : ∀ {d : Decoder} {start pos : Nat} {bytes : List UInt8},
      d.track start pos bytes ≠ .error ⟨.unexpectedEnd, p⟩ := by
    intro d start pos bytes
    induction bytes generalizing d start pos with
    | nil => simp [Decoder.track]
    | cons b bytes ih =>
      rw [Decoder.track]
      split
      · split
        · rename_i e htrack
          intro h
          cases h
          exact ih htrack
        · nofun
      · intro h
        have hr := congrArg DecodeError.reason (Except.error.inj h)
        dsimp only at hr
        split at hr <;> cases hr
  unfold strict
  cases htrack : Decoder.start.track 0 0 bytes with
  | error e =>
    simp only [reduceCtorEq, false_and, exists_false, iff_false]
    intro h
    rw [Except.error.inj h] at htrack
    exact hreason htrack
  | ok r =>
    by_cases hneeded : r.decoder.needed = 0
    · simp [hneeded]
    · simp [hneeded]

/-- The bytes before the unfinished character are a text. -/
theorem strict_take_unfinished {p : Nat} (h : strict bytes = .error ⟨.unexpectedEnd, p⟩) :
    ∃ text, strict (bytes.take p) = .ok text := by
  obtain ⟨r, htrack, hneeded, rfl⟩ := strict_eq_unfinished.mp h
  rcases track_unfinished htrack hneeded with ⟨hnot, -⟩ | ⟨k, -, hk, r', htake, hend⟩
  · exact absurd rfl hnot
  · rw [hk, Nat.zero_add]
    exact ⟨r'.text, strict_eq_ok.mpr ⟨r', htake, hend, rfl⟩⟩

section Line

variable {b : UInt8} (hb : b.toNat ≤ 0x7f) {text : List Char}

include hb

/-- The character of the last byte ends the text. -/
theorem strict_line (h : strict (bytes ++ [b]) = .ok text) :
    ∃ before, text = before ++ [Char.ofNat b.toNat] := by
  obtain ⟨r, htrack, -, rfl⟩ := strict_eq_ok.mp h
  obtain ⟨r₁, r₂, hbytes, hlast, rfl⟩ := track_append_eq_ok.mp htrack
  obtain ⟨haccepts, r', hnil, rfl⟩ := track_cons_eq_ok.mp hlast
  obtain ⟨-, hbyte⟩ := byte_ascii (lawful_track lawful_start hbytes) hb haccepts
  rw [hbyte] at hnil
  cases hnil
  exact ⟨r₁.text, by simp [hbyte]⟩

/-- The text of more bytes begins with the text of the line. -/
theorem strict_append_line (h : strict (bytes ++ [b] ++ more) = .ok text) :
    ∃ line rest, strict (bytes ++ [b]) = .ok line ∧ text = line ++ rest := by
  obtain ⟨r, htrack, -, rfl⟩ := strict_eq_ok.mp h
  obtain ⟨r₁, r₂, hline, -, rfl⟩ := track_append_eq_ok.mp htrack
  refine ⟨r₁.text, r₂.text, strict_eq_ok.mpr ⟨r₁, hline, ?_, rfl⟩, rfl⟩
  rw [track_ascii hb hline]
  rfl

/-- So does the text of the whole characters, where more bytes break off within one. -/
theorem strict_take_line {p : Nat}
    (h : strict (bytes ++ [b] ++ more) = .error ⟨.unexpectedEnd, p⟩) :
    ∃ line rest, strict (bytes ++ [b]) = .ok line ∧
      strict ((bytes ++ [b] ++ more).take p) = .ok (line ++ rest) := by
  obtain ⟨r, htrack, hneeded, rfl⟩ := strict_eq_unfinished.mp h
  obtain ⟨r₁, r₂, hline, hmore, rfl⟩ := track_append_eq_ok.mp htrack
  have hstart := track_ascii hb hline
  have hzero : r₁.decoder.needed = 0 := by
    rw [hstart]
    rfl
  rcases track_unfinished hmore hneeded with ⟨hnot, -⟩ | ⟨k, -, hk, r', htake, hend⟩
  · exact absurd hzero hnot
  · refine ⟨r₁.text, r'.text, strict_eq_ok.mpr ⟨r₁, hline, hzero, rfl⟩, ?_⟩
    have hsplit : (bytes ++ [b] ++ more).take r₂.start = bytes ++ [b] ++ more.take k := by
      rw [hk, Nat.zero_add, List.take_length_add_append]
    rw [hsplit]
    refine strict_eq_ok.mpr ⟨{ r' with text := r₁.text ++ r'.text }, ?_, hend, rfl⟩
    exact track_append_eq_ok.mpr ⟨r₁, r', hline, htake, rfl⟩

/-- A line that is refused is refused with more bytes after it. -/
theorem strict_append_refused {e : DecodeError} (h : strict (bytes ++ [b]) = .error e) :
    e.reason ≠ .unexpectedEnd ∧ ∃ e', strict (bytes ++ [b] ++ more) = .error e' ∧
      e'.reason ≠ .unexpectedEnd := by
  have hrefused : ∀ more, ∀ r, Decoder.start.track 0 0 (bytes ++ [b] ++ more) ≠ .ok r := by
    intro more r htrack
    obtain ⟨r₁, r₂, hline, -, rfl⟩ := track_append_eq_ok.mp htrack
    rw [strict_eq_ok.mpr ⟨r₁, hline, by rw [track_ascii hb hline]; rfl, rfl⟩] at h
    cases h
  have hreason : ∀ more e, strict (bytes ++ [b] ++ more) = .error e →
      e.reason ≠ .unexpectedEnd := by
    rintro more ⟨reason, start⟩ herror (rfl : reason = _)
    obtain ⟨r, htrack, -⟩ := strict_eq_unfinished.mp herror
    exact hrefused more r htrack
  refine ⟨hreason [] e (by rwa [List.append_nil]), ?_⟩
  cases hmore : strict (bytes ++ [b] ++ more) with
  | error e' => exact ⟨e', rfl, hreason more e' hmore⟩
  | ok text =>
    obtain ⟨r, htrack, -⟩ := strict_eq_ok.mp hmore
    exact absurd htrack (hrefused more r)

end Line

end Utf8
