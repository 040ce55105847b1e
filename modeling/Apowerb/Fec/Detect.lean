/-
# Detecting a FEC

`is_fec` looks at the first bytes of a file, which may break off within a character: it decodes those
before the place where the decoder stopped.  `utf-8-sig` counts that place from the end of the BOM,
and the code cuts the file there from its beginning.

* `isFec_steady`: the answer depends on the first line that is not blank alone, whatever bytes
  follow it, as long as there is no NUL among them and they are UTF-8 where the line is.  Without a
  BOM they may break off anywhere.
* `isFec_raises_iff`: after a BOM the cut is three bytes short.  `is_fec` raises exactly where it
  falls within the BOM or within a character.
-/
import Apowerb.Fec.Header
import Apowerb.Raised

namespace Apowerb.Fec

open Text Utf8

/-! ## 1. The detection -/

/-- `bytes.decode("utf-8-sig")`: the place of an error is counted after the BOM. -/
def decodeSig (bytes : List UInt8) : Except DecodeError (List Char) := strict (withoutBom bytes)

/-- `_decode_sample`. -/
def decodeSample (head : List UInt8) : Except Raised (List Char) :=
  match decodeSig head with
  | .ok text => .ok text
  | .error ⟨.unexpectedEnd, start⟩ =>
    match decodeSig (head.take start) with
    | .ok text => .ok text
    | .error _ => .error (.other "UnicodeDecodeError")
  | .error _ => .ok (head.map latin9)

/-- `_DETECT_MIN_MATCHES`. -/
def detectMinMatches : Nat := 5

/-- The first line that is not blank; an empty one where there is none. -/
def firstLine (text : List Char) : List Char :=
  ((text.splitOn '\n').find? fun line => !isBlank line).getD []

/-- Whether a line is the header of a FEC. -/
def isHeader (U : Unicode) (line : List Char) : Bool :=
  if line.contains '\t' || line.contains '|' then
    let names := (splitHeader U (withoutReturns line)).2
    detectMinMatches ≤ (fecColumns.filter (names.contains ·)).length
  else false

/-- `is_fec`. -/
def isFec (U : Unicode) (content : List UInt8) : Except Raised Bool :=
  let head := content.take sniffBytes
  if head = [] || head.contains 0 then .ok false
  else match decodeSample head with
    | .error e => .error e
    | .ok text => .ok (isHeader U (firstLine text))

/-! ## 2. What follows a line -/

theorem mem_intercalate {c sep : Char} {parts : List (List Char)}
    (h : c ∈ [sep].intercalate parts) : c = sep ∨ ∃ part ∈ parts, c ∈ part := by
  match parts with
  | [] => simp at h
  | [part] => exact .inr ⟨part, by simp, by simpa using h⟩
  | part :: next :: parts =>
    rw [List.intercalate_cons_cons, List.mem_append, List.mem_append, List.mem_singleton] at h
    rcases h with (hpart | hsep) | hrest
    · exact .inr ⟨part, List.mem_cons_self, hpart⟩
    · exact .inl hsep
    · rcases mem_intercalate hrest with hsep | ⟨other, hother, hc⟩
      · exact .inl hsep
      · exact .inr ⟨other, List.mem_cons_of_mem part hother, hc⟩

/-- A text with a character that is no space has a line that is not blank. -/
theorem find_line {before : List Char} (h : ∃ c ∈ before, isSpace c = false) :
    ∃ line, (before.splitOn '\n').find? (fun line => !isBlank line) = some line := by
  obtain ⟨c, hc, hspace⟩ := h
  have hjoined : ['\n'].intercalate (before.splitOn '\n') = before := List.intercalate_splitOn '\n'
  rw [← hjoined] at hc
  rcases mem_intercalate hc with rfl | ⟨line, hline, hc⟩
  · exact absurd hspace (by decide)
  · rw [← Option.isSome_iff_exists, List.find?_isSome]
    refine ⟨line, hline, ?_⟩
    rw [Bool.not_eq_true', isBlank, List.all_eq_false]
    exact ⟨c, hc, by simp [hspace]⟩

/-- Where a text is ended by its first line that is not blank, more text does not matter. -/
theorem firstLine_append {before : List Char} (h : ∃ c ∈ before, isSpace c = false)
    (more : List Char) : firstLine (before ++ '\n' :: more) = firstLine before := by
  obtain ⟨line, hline⟩ := find_line h
  unfold firstLine
  rw [List.splitOn_append_cons_self, List.find?_append, hline]
  rfl

/-! ## 3. The text of a sample -/

variable {before more head : List UInt8}

/-- No part of a BOM ends a line. -/
theorem withoutBom_line (before : List UInt8) :
    ∃ rest, ∀ more, withoutBom (before ++ [10] ++ more) = rest ++ [10] ++ more := by
  match before with
  | [] => exact ⟨[], fun more => by simp [withoutBom, bom, List.isPrefixOf]⟩
  | [a] => exact ⟨[a], fun more => by simp [withoutBom, bom, List.isPrefixOf]⟩
  | [a, b] => exact ⟨[a, b], fun more => by simp [withoutBom, bom, List.isPrefixOf]⟩
  | a :: b :: c :: before =>
    by_cases hbom : bom.isPrefixOf [a, b, c] = true
    · exact ⟨before, fun more => by simp_all [withoutBom, bom, List.isPrefixOf]⟩
    · exact ⟨a :: b :: c :: before, fun more => by simp_all [withoutBom, bom, List.isPrefixOf]⟩

theorem withoutBom_eq_self (h : ¬ bom <+: head) : withoutBom head = head := by
  rw [withoutBom, if_neg (fun hbegins => h (List.isPrefixOf_iff_prefix.mp hbegins))]

theorem decodeSample_eq_ok {text : List Char} (h : decodeSig head = .ok text) :
    decodeSample head = .ok text := by
  rw [decodeSample, h]

/-- A sample that is not UTF-8 is read as ISO 8859-15. -/
theorem decodeSample_refused {e : DecodeError} (h : decodeSig head = .error e)
    (hreason : e.reason ≠ .unexpectedEnd) : decodeSample head = .ok (head.map latin9) := by
  unfold decodeSample
  rw [h]
  cases e with
  | mk reason start =>
    cases reason with
    | unexpectedEnd => exact absurd rfl hreason
    | startByte => rfl
    | continuation => rfl

/-- A line is read, and its text ends with the end of the line. -/
theorem decodeSample_line (before : List UInt8) :
    ∃ text, decodeSample (before ++ [10]) = .ok (text ++ ['\n']) := by
  obtain ⟨rest, hrest⟩ := withoutBom_line before
  have hline : decodeSig (before ++ [10]) = strict (rest ++ [10]) := by
    have h := hrest []
    rw [List.append_nil, List.append_nil] at h
    rw [decodeSig, h]
  cases hstrict : strict (rest ++ [10]) with
  | ok text =>
    obtain ⟨line, rfl⟩ := @strict_line rest 10 (by decide) text hstrict
    exact ⟨line, decodeSample_eq_ok (hline.trans hstrict)⟩
  | error e =>
    obtain ⟨hreason, -⟩ := @strict_append_refused rest [] 10 (by decide) e hstrict
    refine ⟨before.map latin9, ?_⟩
    rw [decodeSample_refused (hline.trans hstrict) hreason]
    simp [latin9]

/-- The bytes after a line do not change how the line is read: the line is not UTF-8, or all of the
sample is; without a BOM, it may also break off within a character, or the line be ASCII. -/
def ReadAlike (line more : List UInt8) : Prop :=
  (∃ e, decodeSig line = .error e) ∨ (∃ text, decodeSig (line ++ more) = .ok text) ∨
    ¬ bom <+: line ∧ ((∃ p, decodeSig (line ++ more) = .error ⟨.unexpectedEnd, p⟩) ∨
      ∀ b ∈ line, b.toNat ≤ 0x7f)

theorem latin9_ascii {b : UInt8} (h : b.toNat ≤ 0x7f) : latin9 b = Char.ofNat b.toNat := by
  unfold latin9
  split <;> first | omega | rfl

/-- No BOM begins in a line and ends after it. -/
theorem not_bom_append (h : ¬ bom <+: before ++ [10]) (more : List UInt8) :
    ¬ bom <+: before ++ [10] ++ more := by
  intro hbom
  rcases Nat.le_total bom.length (before ++ [10]).length with hle | hle
  · exact h (List.prefix_of_prefix_length_le hbom (List.prefix_append _ more) hle)
  · have hline : before ++ [10] <+: bom :=
      List.prefix_of_prefix_length_le (List.prefix_append _ more) hbom hle
    exact absurd (hline.mem (List.mem_append_right before List.mem_cons_self)) (by decide)

/-- Without a BOM, the bytes before an unfinished character are the text. -/
theorem decodeSample_unfinished {p : Nat} {text : List Char} (hbom : ¬ bom <+: head)
    (h : strict head = .error ⟨.unexpectedEnd, p⟩) (htake : strict (head.take p) = .ok text) :
    decodeSample head = .ok text := by
  have hcut : ¬ bom <+: head.take p := fun hbegins => hbom (hbegins.trans (List.take_prefix p head))
  unfold decodeSample
  rw [decodeSig, withoutBom_eq_self hbom, h]
  dsimp only
  rw [decodeSig, withoutBom_eq_self hcut, htake]

/-- **The text of a sample begins with the text of its line.** -/
theorem decodeSample_append (h : ReadAlike (before ++ [10]) more) :
    ∃ text rest, decodeSample (before ++ [10]) = .ok (text ++ ['\n']) ∧
      decodeSample (before ++ [10] ++ more) = .ok (text ++ '\n' :: rest) := by
  obtain ⟨text, htext⟩ := decodeSample_line before
  suffices hmore : ∃ line rest, decodeSample (before ++ [10]) = .ok line ∧
      decodeSample (before ++ [10] ++ more) = .ok (line ++ rest) by
    obtain ⟨line, rest, hline, hrest⟩ := hmore
    obtain rfl : line = text ++ ['\n'] := Except.ok.inj (hline.symm.trans htext)
    exact ⟨text, rest, htext, by simpa using hrest⟩
  obtain ⟨body, hbody⟩ := withoutBom_line before
  have hline : decodeSig (before ++ [10]) = strict (body ++ [10]) := by
    simpa [decodeSig] using congrArg strict (hbody [])
  have hsample : decodeSig (before ++ [10] ++ more) = strict (body ++ [10] ++ more) := by
    rw [decodeSig, hbody more]
  have hwhole : ∀ {whole}, decodeSig (before ++ [10] ++ more) = .ok whole →
      ∃ line rest, decodeSample (before ++ [10]) = .ok line ∧
        decodeSample (before ++ [10] ++ more) = .ok (line ++ rest) := by
    intro whole hok
    obtain ⟨line, rest, hstrict, rfl⟩ :=
      @strict_append_line body more 10 (by decide) whole (hsample.symm.trans hok)
    exact ⟨line, rest, decodeSample_eq_ok (hline.trans hstrict), decodeSample_eq_ok hok⟩
  have hunfinished : ∀ {p}, ¬ bom <+: before ++ [10] →
      decodeSig (before ++ [10] ++ more) = .error ⟨.unexpectedEnd, p⟩ →
      ∃ line rest, decodeSample (before ++ [10]) = .ok line ∧
        decodeSample (before ++ [10] ++ more) = .ok (line ++ rest) := by
    intro p hbom hend
    have hbom' := not_bom_append hbom more
    rw [decodeSig, withoutBom_eq_self hbom'] at hend
    obtain ⟨line, rest, hstrict, htake⟩ := @strict_take_line before more 10 (by decide) p hend
    refine ⟨line, rest, decodeSample_eq_ok ?_, decodeSample_unfinished hbom' hend htake⟩
    rw [decodeSig, withoutBom_eq_self hbom, hstrict]
  rcases h with ⟨e, herror⟩ | ⟨whole, hok⟩ | ⟨hbom, ⟨p, hend⟩ | hascii⟩
  · obtain ⟨hreason, e', he', hreason'⟩ :=
      @strict_append_refused body more 10 (by decide) e (hline.symm.trans herror)
    refine ⟨_, more.map latin9, decodeSample_refused herror hreason, ?_⟩
    rw [decodeSample_refused (hsample.trans he') hreason', List.map_append]
  · exact hwhole hok
  · exact hunfinished hbom hend
  · cases hstrict : decodeSig (before ++ [10] ++ more) with
    | ok whole => exact hwhole hstrict
    | error e =>
      by_cases hreason : e.reason = .unexpectedEnd
      · obtain ⟨_, p⟩ := e
        exact hunfinished hbom (by rw [hstrict, ← hreason])
      · -- The bytes of the line are their characters in either encoding.
        refine ⟨(before ++ [10]).map fun b : UInt8 => Char.ofNat b.toNat, more.map latin9,
          decodeSample_eq_ok ?_, ?_⟩
        · rw [decodeSig, withoutBom_eq_self hbom, strict_ascii hascii]
        · rw [decodeSample_refused hstrict hreason, List.map_append,
            List.map_congr_left fun b hb => latin9_ascii (hascii b hb)]

/-! ## 4. The answer -/

/-- A sample that breaks off within a character, after a BOM. -/
def CutAfterBom (head : List UInt8) : Prop :=
  bom <+: head ∧ ∃ p, decodeSig head = .error ⟨.unexpectedEnd, p⟩

/-- Where the text of a sample cannot be read. -/
theorem decodeSample_eq_error :
    (∃ e, decodeSample head = .error e) ↔
      ∃ p, decodeSig head = .error ⟨.unexpectedEnd, p⟩ ∧ ∃ e, decodeSig (head.take p) = .error e := by
  cases hstrict : decodeSig head with
  | ok text => simp [decodeSample_eq_ok hstrict]
  | error e =>
    by_cases hreason : e.reason = .unexpectedEnd
    · obtain ⟨_, p⟩ := e
      subst hreason
      unfold decodeSample
      rw [hstrict]
      dsimp only
      cases hcut : decodeSig (head.take p) with
      | ok text => simp [hcut]
      | error e => simp [hcut]
    · rw [decodeSample_refused hstrict hreason]
      constructor
      · rintro ⟨e', he'⟩
        cases he'
      · rintro ⟨p, hp, -⟩
        exact absurd (congrArg DecodeError.reason (Except.error.inj hp)) hreason

theorem cutAfterBom_of_error {p : Nat} {e : DecodeError}
    (h : decodeSig head = .error ⟨.unexpectedEnd, p⟩) (hcut : decodeSig (head.take p) = .error e) :
    bom <+: head := by
  by_contra hbom
  have hbegins : ¬ bom <+: head.take p := fun hp => hbom (hp.trans (List.take_prefix p head))
  rw [decodeSig, withoutBom_eq_self hbom] at h
  obtain ⟨text, htext⟩ := strict_take_unfinished h
  rw [decodeSig, withoutBom_eq_self hbegins, htext] at hcut
  cases hcut

/-- **Where `is_fec` raises**: the sample breaks off within a character after a BOM, and its bytes up
to the place counted after the BOM do so too. -/
theorem isFec_raises_iff (U : Unicode) (content : List UInt8) :
    (∃ e, isFec U content = .error e) ↔
      0 ∉ content.take sniffBytes ∧ bom <+: content.take sniffBytes ∧
        ∃ p, decodeSig (content.take sniffBytes) = .error ⟨.unexpectedEnd, p⟩ ∧
          ∃ e, decodeSig ((content.take sniffBytes).take p) = .error e := by
  unfold isFec
  generalize content.take sniffBytes = head
  dsimp only
  by_cases hnul : head.contains 0 = true
  · have hmem : 0 ∈ head := List.contains_iff_mem.mp hnul
    simp [hmem]
  by_cases hempty : head = []
  · subst hempty
    simp [bom]
  have hmem : 0 ∉ head := fun h => hnul (List.contains_iff_mem.mpr h)
  have hguard : (decide (head = []) || head.contains 0) = false := by simp [hempty, hmem]
  simp only [hguard, hmem]
  have hread : (∃ e, decodeSample head = .error e) ↔ bom <+: head ∧
      ∃ p, decodeSig head = .error ⟨.unexpectedEnd, p⟩ ∧
        ∃ e, decodeSig (head.take p) = .error e := by
    rw [decodeSample_eq_error]
    constructor
    · rintro ⟨p, hp, e, he⟩
      exact ⟨cutAfterBom_of_error hp he, p, hp, e, he⟩
    · rintro ⟨-, h⟩
      exact h
  rw [not_false_eq_true, true_and, ← hread]
  cases decodeSample head with
  | ok text => simp
  | error e => simp

/-- A sample is read unless it breaks off within a character after a BOM. -/
theorem isFec_answers (U : Unicode) (content : List UInt8)
    (h : ¬ CutAfterBom (content.take sniffBytes)) : ∃ answer, isFec U content = .ok answer := by
  cases hanswer : isFec U content with
  | ok answer => exact ⟨answer, rfl⟩
  | error e =>
    obtain ⟨-, hbom, p, hp, -⟩ := (isFec_raises_iff U content).mp ⟨e, hanswer⟩
    exact absurd ⟨hbom, p, hp⟩ h

/-- What comes after a line that is not blank does not matter. -/
theorem isFec_append (U : Unicode) {before rest : List UInt8} {text : List Char}
    (hlength : (before ++ [10]).length ≤ sniffBytes) (htext : decodeSample (before ++ [10]) = .ok text)
    (hnonblank : ∃ c ∈ text, isSpace c = false)
    (hnul : 0 ∉ rest.take (sniffBytes - (before ++ [10]).length))
    (hread : ReadAlike (before ++ [10]) (rest.take (sniffBytes - (before ++ [10]).length))) :
    isFec U (before ++ [10] ++ rest) = isFec U (before ++ [10]) := by
  have hhead : (before ++ [10] ++ rest).take sniffBytes =
      before ++ [10] ++ rest.take (sniffBytes - (before ++ [10]).length) := by
    rw [List.take_append, List.take_of_length_le hlength]
  obtain ⟨line, more, hline, hmore⟩ := decodeSample_append hread
  obtain rfl : text = line ++ ['\n'] := Except.ok.inj (htext.symm.trans hline)
  -- The character that is no space stands before the end of the line.
  have hbefore : ∃ c ∈ line, isSpace c = false := by
    obtain ⟨c, hc, hspace⟩ := hnonblank
    rcases List.mem_append.mp hc with hc | hc
    · exact ⟨c, hc, hspace⟩
    · rw [List.mem_singleton.mp hc] at hspace
      exact absurd hspace (by decide)
  have hsame : firstLine (line ++ '\n' :: more) = firstLine (line ++ ['\n']) := by
    rw [firstLine_append hbefore more, firstLine_append hbefore []]
  unfold isFec
  rw [hhead, List.take_of_length_le hlength]
  dsimp only
  rw [hline, hmore]
  have hcontains : ∀ after : List UInt8, 0 ∉ after →
      (before ++ [10] ++ after).contains 0 = (before ++ [10]).contains 0 := by
    intro after hafter
    have hnot : after.contains 0 = false := by simpa using hafter
    rw [List.contains_append, hnot, Bool.or_false]
  rw [hcontains _ hnul]
  simp [hsame]

/-- **Detection answers, and by the first line alone.** -/
theorem isFec_steady (U : Unicode) :
    (∀ content, ¬ CutAfterBom (content.take sniffBytes) → ∃ answer, isFec U content = .ok answer) ∧
      ∀ (before rest : List UInt8) text, (before ++ [10]).length ≤ sniffBytes →
        decodeSample (before ++ [10]) = .ok text → (∃ c ∈ text, isSpace c = false) →
        0 ∉ rest.take (sniffBytes - (before ++ [10]).length) →
        ReadAlike (before ++ [10]) (rest.take (sniffBytes - (before ++ [10]).length)) →
        isFec U (before ++ [10] ++ rest) = isFec U (before ++ [10]) :=
  ⟨isFec_answers U, fun _ _ _ hlength htext hnonblank hnul hread =>
    isFec_append U hlength htext hnonblank hnul hread⟩

/-- A Unicode that knows ASCII alone. -/
def Unicode.ascii : Unicode where
  nfkd := id
  combining _ := false
  lower := List.map Char.toLower
  nfkd_ascii _ _ := rfl
  combining_ascii _ _ := rfl
  lower_ascii _ _ := rfl

def sampleHeader : List UInt8 :=
  "JournalCode|JournalLib|EcritureNum|EcritureDate|CompteNum".toList.map fun c => c.toNat.toUInt8

theorem isFec_steady_header :
    (∃ answer, isFec .ascii (sampleHeader ++ [10]) = .ok answer) ∧
      isFec .ascii (sampleHeader ++ [10] ++ [65, 124, 66]) = isFec .ascii (sampleHeader ++ [10]) := by
  refine ⟨(isFec_steady .ascii).1 _ ?_, (isFec_steady .ascii).2 sampleHeader [65, 124, 66]
    ((sampleHeader ++ [10]).map fun b : UInt8 => Char.ofNat b.toNat) ?_ ?_ ?_ ?_ ?_⟩
  · rintro ⟨hbom, -⟩
    revert hbom
    decide
  · decide
  · decide +kernel
  · exact ⟨'J', by decide, by decide⟩
  · decide
  · exact .inr (.inr ⟨by decide, .inr (by decide +kernel)⟩)

/-- A NUL after the header changes the answer. -/
theorem not_steady_nul :
    ¬ ((∀ content, ∃ answer, isFec .ascii content = .ok answer) ∧
      ∀ (before rest : List UInt8) text, (before ++ [10]).length ≤ sniffBytes →
        decodeSample (before ++ [10]) = .ok text → (∃ c ∈ text, isSpace c = false) →
        isFec .ascii (before ++ [10] ++ rest) = isFec .ascii (before ++ [10])) := by
  rintro ⟨-, h⟩
  have hsame := h sampleHeader [0] ((sampleHeader ++ [10]).map fun b : UInt8 => Char.ofNat b.toNat)
    (by decide) (by decide +kernel) ⟨'J', by decide, by decide⟩
  have htrue : isFec .ascii (sampleHeader ++ [10]) = .ok true := by decide +kernel
  have hfalse : isFec .ascii (sampleHeader ++ [10] ++ [0]) = .ok false := by decide +kernel
  rw [htrue, hfalse] at hsame
  cases hsame

end Apowerb.Fec
