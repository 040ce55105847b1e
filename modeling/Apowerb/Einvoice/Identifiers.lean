/-
# The identifiers of an invoice

`_identifier_checks` of `tools_store/portfolio/einvoice.py` and the keys that it computes: Luhn's of a
SIREN, modulo 97 of a French VAT number and of an IBAN.

Every key catches an error in one place, at every length.

* `luhnOk_single`: doubling a digit, less nine where that is above nine, permutes the ten digits.
* `ibanOk_single`: moving the country to the end does not part two texts that differ in one place;
  97 has no factor in common with 10, and two digits or two letters are less than 97 apart.
* `vat_reported`: of a VAT number with an error in its key or in its SIREN, either the SIREN is not
  the one of the party, or the key is not the one of the SIREN.
-/
import Apowerb.Lib.CheckDigits
import Apowerb.Text
import Mathlib.Tactic.NormNum

namespace Apowerb.Einvoice

open Text

/-! ## 1. Keys -/

/-- `str.upper`, of which the code needs what it makes of ASCII. -/
structure Upper where
  /-- the upper case of a character: more than one for some -/
  char : Char → List Char
  ascii : ∀ c : Char, c.toNat < 128 → char c = [c.toUpper]

/-- `re.sub(r"\s+", "", text).upper()`. -/
def Upper.bare (U : Upper) (text : List Char) : List Char :=
  (text.filter fun c => !isSpace c).flatMap U.char

/-- `[0-9]` -/
def isDigit (c : Char) : Bool := '0' ≤ c && c ≤ '9'

/-- `[A-Z]` -/
def isCapital (c : Char) : Bool := 'A' ≤ c && c ≤ 'Z'

/-- What a digit adds to the sum; the places are counted from the right. -/
def luhnTerm (i n : Nat) : Nat :=
  if i % 2 = 1 then if 2 * n > 9 then 2 * n - 9 else 2 * n else n

/-- `_luhn_ok`; `none` where a character is no digit and `int` raises. -/
def luhnOk (digits : List Char) : Option Bool :=
  (digits.mapM digitValue).map fun ns => CheckDigits.total luhnTerm 0 ns.reverse % 10 = 0

/-- `_valid_siren`. -/
def validSiren (value : Option String) : Option (List Char) :=
  let text := stripChars (value.getD "").toList
  if text.all isDigit ∧ (text.length = 9 ∨ text.length = 14) ∧
      luhnOk (text.take 9) = some true then some (text.take 9)
  else none

/-- `int(c, 36)` of a digit or a capital letter. -/
def value36 (c : Char) : Nat := if isDigit c then c.toNat - 48 else c.toNat - 55

/-- `int` of a text of digits. -/
def numberOf (digits : List Char) : Nat :=
  CheckDigits.numeral 10 (fun _ => 1) value36 digits

/-- `"".join(str(int(c, 36)) for c in text)`. -/
def inDigits (text : List Char) : List Char := text.flatMap fun c => Nat.toDigits 10 (value36 c)

/-- `_vat_key`: two digits. -/
def vatKey (siren : List Char) : List Char :=
  let key := (12 + 3 * (numberOf siren % 97)) % 97
  [Nat.digitChar (key / 10), Nat.digitChar (key % 10)]

/-- `[A-Z]{2}[0-9]{2}[A-Z0-9]{11,30}` -/
def ibanShape (iban : List Char) : Bool :=
  (iban.take 2).all isCapital && ((iban.drop 2).take 2).all isDigit &&
    (iban.drop 4).all (fun c => isCapital c || isDigit c) &&
    15 ≤ iban.length && iban.length ≤ 34

/-- `_iban_ok`. -/
def ibanOk (U : Upper) (raw : List Char) : Bool :=
  let iban := U.bare raw
  if !ibanShape iban then false
  else if ['F', 'R'].isPrefixOf iban && iban.length != 27 then false
  else numberOf (inDigits (iban.drop 4 ++ iban.take 4)) % 97 = 1

/-! ## 2. The checks -/

/-- A party of an invoice. -/
structure Party where
  name : Option String
  siren : Option String
  vatId : Option String

/-- An error of a check on an identifier: the value read, and what is expected. -/
structure IdentifierError where
  rule : String
  field : String
  read : String
  expected : String
  explanation : String
  fix : String
deriving DecidableEq, Repr

/-- `value is not None and str(value).strip()`. -/
def given (value : Option String) : Option String :=
  value.filter fun text => !text.toList.all isSpace

/-- The check of the SIREN of a party. -/
def sirenError (key label : String) (party : Party) : Option IdentifierError :=
  (given party.siren).bind fun siren =>
    if validSiren (some siren) = none then
      some ⟨"FR-SIREN", s!"{key}.siren ({label})", siren,
        "9 chiffres (ou SIRET à 14 chiffres) avec une clé de Luhn juste",
        s!"Le SIREN du {label} doit comporter 9 chiffres (14 pour un SIRET) " ++
          "et respecter la clé de Luhn.",
        s!"Vérifier le SIREN du {label} auprès de son extrait Kbis " ++
          "ou de l'annuaire des entreprises."⟩
    else none

/-- `FR([0-9A-Z]{2})([0-9]{9})`: the key and the SIREN. -/
def frenchVat (value : List Char) : Option (List Char × List Char) :=
  let number := value.drop 2
  if ['F', 'R'].isPrefixOf value ∧ number.length = 11 ∧
      (number.take 2).all (fun c => isDigit c || isCapital c) ∧ (number.drop 2).all isDigit then
    some (number.take 2, number.drop 2)
  else none

/-- The VAT number of a SIREN. -/
def rightVat (siren : List Char) : String :=
  String.ofList (['F', 'R'] ++ vatKey siren ++ siren)

/-- The check of the VAT number of a party. -/
def vatError (U : Upper) (key label : String) (party : Party) : Option IdentifierError :=
  (given party.vatId).bind fun vat =>
    let value := U.bare vat.toList
    let own := validSiren party.siren
    let field := s!"{key}.vat_id ({label})"
    if !(['F', 'R'].isPrefixOf value) then none
    else match frenchVat value with
      | none =>
        let malformed := s!"Le numéro de TVA français du {label} est mal formé : il doit comporter " ++
          "FR, une clé à 2 caractères et un SIREN à 9 chiffres."
        match own with
        | some siren =>
          some ⟨"FR-TVA", field, vat, rightVat siren, malformed,
            s!"Utiliser le numéro de TVA {rightVat siren}."⟩
        | none =>
          some ⟨"FR-TVA", field, vat, "FR + clé à 2 caractères + SIREN à 9 chiffres", malformed,
            s!"Saisir le numéro de TVA du {label} au format FR, clé, SIREN à 9 chiffres."⟩
      | some (vatKeyRead, vatSiren) =>
        match own.filter (· ≠ vatSiren) with
        | some siren =>
          some ⟨"FR-TVA", field, vat, rightVat siren,
            s!"Le SIREN contenu dans le numéro de TVA du {label} ({String.ofList vatSiren}) " ++
              s!"n'est pas celui du {label} ({String.ofList siren}).",
            s!"Utiliser le numéro de TVA {rightVat siren}, ou corriger le SIREN du {label}."⟩
        | none =>
          -- A key with a letter is of the former kind, and is not compared.
          if vatKeyRead.all isDigit ∧ vatKeyRead ≠ vatKey vatSiren then
            some ⟨"FR-TVA", field, vat, rightVat vatSiren,
              s!"La clé du numéro de TVA français du {label} ne correspond pas à son SIREN.",
              s!"Utiliser le numéro de TVA {rightVat vatSiren}."⟩
          else none

/-- The check of the IBAN. -/
def ibanError (U : Upper) (iban : Option String) : Option IdentifierError :=
  (given iban).bind fun iban =>
    if ibanOk U iban.toList then none
    else some ⟨"IBAN", "iban", iban, "IBAN valide (longueur et clé modulo 97)",
      "L'IBAN indiqué est invalide : sa longueur ou sa clé de contrôle modulo 97 est fausse.",
      "Recopier l'IBAN depuis le relevé d'identité bancaire de l'entreprise."⟩

/-- `_identifier_checks`. -/
def identifierChecks (U : Upper) (seller buyer : Party) (iban : Option String) :
    List IdentifierError :=
  (sirenError "seller" "vendeur" seller).toList ++ (sirenError "buyer" "acheteur" buyer).toList ++
    (vatError U "seller" "vendeur" seller).toList ++
    (vatError U "buyer" "acheteur" buyer).toList ++ (ibanError U iban).toList


/-! ## 3. Luhn's key -/

/-- Two texts that differ in one place. -/
def OneChange (R : Char → Char → Prop) (a b : List Char) : Prop :=
  ∃ before c c' after, a = before ++ c :: after ∧ b = before ++ c' :: after ∧ R c c'

theorem luhnTerm_injective (i : Nat) :
    ∀ a < 10, ∀ b < 10, luhnTerm i a ≡ luhnTerm i b [MOD 10] → a = b := by
  unfold Nat.ModEq luhnTerm
  rcases Nat.mod_two_eq_zero_or_one i with heven | hodd
  · simp only [heven, Nat.zero_ne_one, if_false]
    decide
  · simp only [hodd, if_true]
    decide

theorem digitValue_lt {c : Char} {d : Nat} (h : digitValue c = some d) : d < 10 := by
  obtain ⟨zero, hzero, rfl⟩ := Option.map_eq_some_iff.mp h
  have hrange := List.find?_some hzero
  simp only [Bool.and_eq_true, decide_eq_true_eq] at hrange
  omega

/-- Two digits of different values. -/
def OtherDigitValue (c c' : Char) : Prop :=
  ∃ d d', digitValue c = some d ∧ digitValue c' = some d' ∧ d ≠ d'

/-- **A text with Luhn's key is refused once a digit is changed.** -/
theorem luhnOk_single {a b : List Char} (h : OneChange OtherDigitValue a b)
    (hok : luhnOk a = some true) : luhnOk b = some false := by
  obtain ⟨before, c, c', after, rfl, rfl, d, d', hc, hc', hne⟩ := h
  unfold luhnOk at hok ⊢
  simp only [List.mapM_append, List.mapM_cons, hc, hc', Option.bind_eq_bind, Option.bind_some,
    Option.pure_def] at hok ⊢
  cases hbefore : before.mapM digitValue with
  | none => simp [hbefore] at hok
  | some ns =>
    cases hafter : after.mapM digitValue with
    | none => simp [hbefore, hafter] at hok
    | some ms =>
      simp only [hbefore, hafter, Option.bind_some, Option.map_some, Option.some.injEq,
        decide_eq_true_eq, decide_eq_false_iff_not, List.reverse_append, List.reverse_cons,
        List.append_assoc, List.singleton_append] at hok ⊢
      intro hzero
      have hsame : CheckDigits.total luhnTerm 0 (ms.reverse ++ d :: ns.reverse) ≡
          CheckDigits.total luhnTerm 0 (ms.reverse ++ d' :: ns.reverse) [MOD 10] :=
        hok.trans hzero.symm
      rw [CheckDigits.total_modEq_iff] at hsame
      exact hne (luhnTerm_injective _ d (digitValue_lt hc) d' (digitValue_lt hc') hsame)

/-! ## 4. Numbers modulo 97 -/

theorem code_of_isDigit {c : Char} : isDigit c = true ↔ 48 ≤ c.toNat ∧ c.toNat ≤ 57 := by
  simp only [isDigit, Bool.and_eq_true, decide_eq_true_eq, Char.le_def, UInt32.le_iff_toNat_le]
  rfl

theorem code_of_isCapital {c : Char} : isCapital c = true ↔ 65 ≤ c.toNat ∧ c.toNat ≤ 90 := by
  simp only [isCapital, Bool.and_eq_true, decide_eq_true_eq, Char.le_def, UInt32.le_iff_toNat_le]
  rfl

/-- The places that `value36` takes. -/
def width36 (c : Char) : Nat := if isDigit c then 1 else 2

theorem value36_digitChar : ∀ d < 10, value36 (Nat.digitChar d) = d := by decide

/-- The digits of a number of one place or two. -/
theorem foldl_toDigits {v : Nat} (hv : v < 36) (n : Nat) :
    (Nat.toDigits 10 v).foldl (fun n c => n * 10 ^ 1 + value36 c) n =
      n * 10 ^ (if v < 10 then 1 else 2) + v := by
  by_cases hone : v < 10
  · rw [Nat.toDigits_of_lt_base hone, if_pos hone]
    simp [value36_digitChar v hone]
  · rw [Nat.toDigits_of_base_le (by decide) (by omega), Nat.toDigits_of_lt_base (by omega),
      if_neg hone]
    simp only [List.singleton_append, List.foldl_cons, List.foldl_nil,
      value36_digitChar (v / 10) (by omega), value36_digitChar (v % 10) (by omega)]
    omega

theorem value36_lt {c : Char} (h : (isCapital c || isDigit c) = true) :
    value36 c < 36 ∧ (if value36 c < 10 then 1 else 2) = width36 c := by
  have hcode : (65 ≤ c.toNat ∧ c.toNat ≤ 90) ∨ (48 ≤ c.toNat ∧ c.toNat ≤ 57) := by
    rcases Bool.or_eq_true _ _ |>.mp h with hcapital | hdigit
    · exact .inl (code_of_isCapital.mp hcapital)
    · exact .inr (code_of_isDigit.mp hdigit)
  unfold value36 width36
  by_cases hdigit : isDigit c = true
  · have hrange := code_of_isDigit.mp hdigit
    rw [if_pos hdigit, if_pos hdigit]
    exact ⟨by omega, if_pos (by omega)⟩
  · have hrange : ¬ (48 ≤ c.toNat ∧ c.toNat ≤ 57) := fun hr => hdigit (code_of_isDigit.mpr hr)
    rw [if_neg hdigit, if_neg hdigit]
    exact ⟨by omega, if_neg (by omega)⟩

/-- The number that is read from the digits. -/
theorem numberOf_inDigits {text : List Char}
    (h : text.all (fun c => isCapital c || isDigit c) = true) :
    numberOf (inDigits text) = CheckDigits.numeral 10 width36 value36 text := by
  unfold numberOf inDigits CheckDigits.numeral
  rw [List.foldl_flatMap]
  refine List.foldl_ext _ _ _ fun n c hc => ?_
  obtain ⟨hlt, hwidth⟩ := value36_lt (List.all_eq_true.mp h c hc)
  rw [foldl_toDigits hlt, hwidth]

/-- Digits and capital letters of one kind are told apart by their values. -/
theorem value36_injective {c c' : Char} (hc : (isCapital c || isDigit c) = true)
    (hc' : (isCapital c' || isDigit c') = true) (hwidth : width36 c = width36 c')
    (h : value36 c ≡ value36 c' [MOD 97]) : c = c' := by
  obtain ⟨hlt, hone⟩ := value36_lt hc
  obtain ⟨hlt', hone'⟩ := value36_lt hc'
  have hvalue : value36 c = value36 c' := by
    rwa [Nat.ModEq, Nat.mod_eq_of_lt (by omega), Nat.mod_eq_of_lt (by omega)] at h
  have hcode : ∀ d, (isCapital d || isDigit d) = true →
      (isDigit d = true ∧ 48 ≤ d.toNat) ∨ (isDigit d = false ∧ 65 ≤ d.toNat) := by
    intro d hd
    cases hdigit : isDigit d with
    | true => exact .inl ⟨rfl, (code_of_isDigit.mp hdigit).1⟩
    | false =>
      rw [hdigit, Bool.or_false] at hd
      exact .inr ⟨rfl, (code_of_isCapital.mp hd).1⟩
  unfold value36 width36 at *
  refine Char.toNat_inj.mp ?_
  rcases hcode c hc with ⟨hdigit, hlow⟩ | ⟨hdigit, hlow⟩ <;>
    rcases hcode c' hc' with ⟨hdigit', hlow'⟩ | ⟨hdigit', hlow'⟩ <;>
    simp only [hdigit, hdigit', if_true, Bool.false_eq_true, if_false] at hvalue hwidth <;> omega

/-! ## 5. The IBAN -/

/-- A letter of ASCII. -/
def isLetter (c : Char) : Bool := isCapital c || ('a' ≤ c && c ≤ 'z')

/-- A digit and another one, or a letter and another one in either case. -/
def OtherIbanChar (c c' : Char) : Prop :=
  (isDigit c = true ∧ isDigit c' = true ∧ c ≠ c') ∨
    (isLetter c = true ∧ isLetter c' = true ∧ c.toUpper ≠ c'.toUpper)

theorem code_of_isLetter {c : Char} (h : isLetter c = true) : c.toNat < 128 := by
  rcases Bool.or_eq_true _ _ |>.mp h with hcapital | hsmall
  · have hrange := code_of_isCapital.mp hcapital
    omega
  · simp only [Bool.and_eq_true, decide_eq_true_eq, Char.le_def, UInt32.le_iff_toNat_le] at hsmall
    have hz : 'z'.val.toNat = 122 := rfl
    have hval : c.toNat = c.val.toNat := rfl
    omega

/-- What a digit or a letter becomes. -/
theorem kind_toUpper {c : Char} (h : isDigit c = true ∨ isLetter c = true) :
    c.toNat < 128 ∧ isSpace c = false ∧ (isCapital c.toUpper || isDigit c.toUpper) = true ∧
      (isDigit c = true → c.toUpper = c) ∧ (isLetter c = true → width36 c.toUpper = 2) := by
  have hcode : c.toNat < 128 := by
    rcases h with hdigit | hletter
    · have hrange := code_of_isDigit.mp hdigit
      omega
    · exact code_of_isLetter hletter
  have hall : ∀ n < 128, isDigit (Char.ofNat n) = true ∨ isLetter (Char.ofNat n) = true →
      isSpace (Char.ofNat n) = false ∧
        (isCapital (Char.ofNat n).toUpper || isDigit (Char.ofNat n).toUpper) = true ∧
        (isDigit (Char.ofNat n) = true → (Char.ofNat n).toUpper = Char.ofNat n) ∧
        (isLetter (Char.ofNat n) = true → width36 (Char.ofNat n).toUpper = 2) := by
    decide +kernel
  have hc := hall c.toNat hcode
  rw [Char.ofNat_toNat] at hc
  exact ⟨hcode, hc h⟩

theorem bare_append (U : Upper) (a b : List Char) : U.bare (a ++ b) = U.bare a ++ U.bare b := by
  simp [Upper.bare]

theorem bare_cons (U : Upper) {c : Char} (h : isDigit c = true ∨ isLetter c = true)
    (cs : List Char) : U.bare (c :: cs) = c.toUpper :: U.bare cs := by
  obtain ⟨hcode, hspace, -⟩ := kind_toUpper h
  simp [Upper.bare, hspace, U.ascii c hcode]

/-- The country is put at the end, around a character as without it. -/
theorem moved_eq (before after : List Char) : ∃ as bs, ∀ u : Char,
    (before ++ u :: after).drop 4 ++ (before ++ u :: after).take 4 = as ++ u :: bs := by
  rcases Nat.lt_or_ge before.length 4 with hshort | hlong
  · refine ⟨after.drop (3 - before.length) ++ before, after.take (3 - before.length), fun u => ?_⟩
    have hleft : 4 - before.length = 3 - before.length + 1 := by omega
    rw [List.drop_append, List.take_append, List.drop_eq_nil_of_le (by omega),
      List.take_of_length_le (by omega), hleft, List.drop_succ_cons, List.take_succ_cons]
    simp
  · refine ⟨before.drop 4, after ++ before.take 4, fun u => ?_⟩
    have hzero : 4 - before.length = 0 := by omega
    rw [List.drop_append, List.take_append, hzero]
    simp

/-- An IBAN is of capital letters and digits, wherever its country is put. -/
theorem all_moved {iban : List Char} (h : ibanShape iban = true) :
    (iban.drop 4 ++ iban.take 4).all (fun c => isCapital c || isDigit c) = true := by
  simp only [ibanShape, Bool.and_eq_true, List.all_eq_true] at h
  obtain ⟨⟨⟨⟨hcountry, hkey⟩, hrest⟩, -⟩, -⟩ := h
  rw [List.all_eq_true]
  intro c hc
  rcases List.mem_append.mp hc with hc | hc
  · exact hrest c hc
  · have hsplit : iban.take 4 = iban.take 2 ++ (iban.drop 2).take 2 := by
      rw [← List.take_add]
    rw [hsplit] at hc
    rcases List.mem_append.mp hc with hc | hc
    · rw [hcountry c hc, Bool.true_or]
    · rw [hkey c hc, Bool.or_true]

theorem ibanOk_eq_true {U : Upper} {raw : List Char} (h : ibanOk U raw = true) :
    ibanShape (U.bare raw) = true ∧
      CheckDigits.numeral 10 width36 value36 ((U.bare raw).drop 4 ++ (U.bare raw).take 4) % 97 =
        1 := by
  unfold ibanOk at h
  dsimp only at h
  cases hshape : ibanShape (U.bare raw) with
  | false => simp [hshape] at h
  | true =>
    simp only [hshape, Bool.not_true, Bool.false_eq_true, if_false] at h
    split at h
    · cases h
    · rw [← numberOf_inDigits (all_moved hshape)]
      exact ⟨rfl, of_decide_eq_true h⟩

/-- **An IBAN that is accepted is refused once a digit or a letter is changed.** -/
theorem ibanOk_single (U : Upper) {a b : List Char} (h : OneChange OtherIbanChar a b)
    (hok : ibanOk U a = true) : ibanOk U b = false := by
  obtain ⟨before, c, c', after, rfl, rfl, hother⟩ := h
  have hkind : (isDigit c = true ∨ isLetter c = true) ∧
      (isDigit c' = true ∨ isLetter c' = true) := by
    rcases hother with ⟨hc, hc', -⟩ | ⟨hc, hc', -⟩
    · exact ⟨.inl hc, .inl hc'⟩
    · exact ⟨.inr hc, .inr hc'⟩
  obtain ⟨-, -, hchar, hsame, hwidth⟩ := kind_toUpper hkind.1
  obtain ⟨-, -, hchar', hsame', hwidth'⟩ := kind_toUpper hkind.2
  have hsize : width36 c.toUpper = width36 c'.toUpper ∧ c.toUpper ≠ c'.toUpper := by
    rcases hother with ⟨hc, hc', hne⟩ | ⟨hc, hc', hne⟩
    · rw [hsame hc, hsame' hc']
      exact ⟨by simp [width36, hc, hc'], hne⟩
    · exact ⟨(hwidth hc).trans (hwidth' hc').symm, hne⟩
  cases hbad : ibanOk U (before ++ c' :: after) with
  | false => rfl
  | true =>
    exfalso
    obtain ⟨-, hnumber⟩ := ibanOk_eq_true hok
    obtain ⟨-, hnumber'⟩ := ibanOk_eq_true hbad
    rw [bare_append, bare_cons U hkind.1] at hnumber
    rw [bare_append, bare_cons U hkind.2] at hnumber'
    obtain ⟨as, bs, hmoved⟩ := moved_eq (U.bare before) (U.bare after)
    rw [hmoved] at hnumber hnumber'
    have hmod := (@CheckDigits.numeral_modEq_iff _ 10 97 width36 value36 (by decide) c.toUpper
      c'.toUpper hsize.1 as bs).mp (hnumber.trans hnumber'.symm)
    exact hsize.2 (value36_injective hchar hchar' hsize.1 hmod)

/-! ## 6. The VAT number -/

/-- A digit and another one. -/
def OtherDigit (c c' : Char) : Prop := isDigit c = true ∧ isDigit c' = true ∧ c ≠ c'

theorem digitChar_injective : ∀ a < 10, ∀ b < 10, Nat.digitChar a = Nat.digitChar b → a = b := by
  decide

/-- Numbers with one key are equal modulo 97, for 3 has an inverse. -/
theorem modEq_of_vatKey {a b : List Char} (h : vatKey a = vatKey b) :
    numberOf a ≡ numberOf b [MOD 97] := by
  simp only [vatKey, List.cons.injEq, and_true] at h
  have htens := digitChar_injective _ (by omega) _ (by omega) h.1
  have hunits := digitChar_injective _ (by omega) _ (by omega) h.2
  unfold Nat.ModEq
  omega

/-- The key of a SIREN is not the key of one that differs in one digit. -/
theorem vatKey_single {a b : List Char} (h : OneChange OtherDigit a b) : vatKey a ≠ vatKey b := by
  obtain ⟨before, c, c', after, rfl, rfl, hc, hc', hne⟩ := h
  intro hkey
  have hmod := (@CheckDigits.numeral_modEq_iff _ 10 97 (fun _ => 1) value36 (by decide) c c' rfl
    before after).mp (modEq_of_vatKey hkey)
  have hwidth : width36 c = width36 c' := by simp [width36, hc, hc']
  exact hne (value36_injective (by simp [hc]) (by simp [hc']) hwidth hmod)

theorem OneChange.ne {a b : List Char} (h : OneChange OtherDigit a b) : a ≠ b := by
  obtain ⟨before, c, c', after, rfl, rfl, -, -, hne⟩ := h
  simpa using hne

theorem OneChange.length_eq {a b : List Char} (h : OneChange OtherDigit a b) :
    a.length = b.length := by
  obtain ⟨before, c, c', after, rfl, rfl, -⟩ := h
  simp

theorem OneChange.all_isDigit {a b : List Char} (h : OneChange OtherDigit a b)
    (hb : b.all isDigit = true) : a.all isDigit = true := by
  obtain ⟨before, c, c', after, rfl, rfl, hc, -⟩ := h
  simp only [List.all_append, List.all_cons, Bool.and_eq_true] at hb ⊢
  exact ⟨hb.1, hc, hb.2.2⟩

theorem all_vatKey (siren : List Char) :
    (vatKey siren).all isDigit = true ∧ (vatKey siren).length = 2 := by
  have hdigit : ∀ d < 10, isDigit (Nat.digitChar d) = true := by decide
  refine ⟨?_, rfl⟩
  simp only [vatKey, List.all_cons, List.all_nil, Bool.and_true, Bool.and_eq_true]
  exact ⟨hdigit _ (by omega), hdigit _ (by omega)⟩

/-- The parties, as the checks name them. -/
def parties (seller buyer : Party) : List (String × String × Party) :=
  [("seller", "vendeur", seller), ("buyer", "acheteur", buyer)]

/-- A VAT number of the French form is reported where its key is not the one of its SIREN. -/
theorem vatError_of_key {U : Upper} (key label : String) {party : Party} {vat : String}
    (hvat : party.vatId = some vat) {k s : List Char}
    (hbare : U.bare vat.toList = ['F', 'R'] ++ k ++ s)
    (hk : k.length = 2 ∧ k.all isDigit = true) (hs : s.length = 9 ∧ s.all isDigit = true)
    (hkey : k ≠ vatKey s) :
    ∃ e, vatError U key label party = some e ∧ e.rule = "FR-TVA" ∧
      e.field = s!"{key}.vat_id ({label})" := by
  have hgiven : given party.vatId = some vat := by
    rw [hvat, given, Option.filter_some, if_pos]
    cases hspace : vat.toList.all isSpace with
    | false => rfl
    | true =>
      -- Nothing would be left of it.
      have hnone : vat.toList.filter (fun c => !isSpace c) = [] := by
        simpa using hspace
      rw [Upper.bare, hnone] at hbare
      cases hbare
  have hfrench : frenchVat (['F', 'R'] ++ k ++ s) = some (k, s) := by
    have hall : k.all (fun c => isDigit c || isCapital c) = true := by
      rw [List.all_eq_true] at hk ⊢
      intro c hc
      rw [hk.2 c hc, Bool.true_or]
    simp [frenchVat, hk.1, hs.1, hs.2, hall]
  unfold vatError
  simp only [hgiven, Option.bind_some, hbare, hfrench]
  rw [if_neg (by simp)]
  split
  · exact ⟨_, rfl, rfl, rfl⟩
  · rw [if_pos ⟨hk.2, hkey⟩]
    exact ⟨_, rfl, rfl, rfl⟩

/-- **A French VAT number with an error in one digit is reported.** -/
theorem vat_reported (U : Upper) (seller buyer : Party) (iban : Option String)
    {key label : String} {party : Party} (hparty : (key, label, party) ∈ parties seller buyer)
    {vat : String} (hvat : party.vatId = some vat) {siren k s : List Char}
    (hsiren : siren.length = 9 ∧ siren.all isDigit = true)
    (hbare : U.bare vat.toList = ['F', 'R'] ++ k ++ s)
    (hwrong : (OneChange OtherDigit k (vatKey siren) ∧ s = siren) ∨
      (k = vatKey siren ∧ OneChange OtherDigit s siren)) :
    ∃ e ∈ identifierChecks U seller buyer iban, e.rule = "FR-TVA" ∧
      e.field = s!"{key}.vat_id ({label})" := by
  have hform : (k.length = 2 ∧ k.all isDigit = true) ∧ (s.length = 9 ∧ s.all isDigit = true) ∧
      k ≠ vatKey s := by
    rcases hwrong with ⟨hk, rfl⟩ | ⟨rfl, hs⟩
    · exact ⟨⟨hk.length_eq, hk.all_isDigit (all_vatKey s).1⟩, hsiren, hk.ne⟩
    · refine ⟨⟨rfl, (all_vatKey siren).1⟩,
        ⟨hs.length_eq.trans hsiren.1, hs.all_isDigit hsiren.2⟩, ?_⟩
      exact fun heq => vatKey_single hs heq.symm
  obtain ⟨e, herror, hreported⟩ := vatError_of_key key label hvat hbare hform.1 hform.2.1 hform.2.2
  refine ⟨e, ?_, hreported⟩
  unfold identifierChecks
  simp only [parties, List.mem_cons, Prod.mk.injEq, List.not_mem_nil, or_false] at hparty
  rcases hparty with ⟨rfl, rfl, rfl⟩ | ⟨rfl, rfl, rfl⟩ <;> simp [herror]

/-! ## 7. The result -/

/-- **The keys catch every error in one character**: in a number with Luhn's key, in an IBAN, and in
the VAT number of a party. -/
theorem identifiers_catch (U : Upper) :
    (∀ a b, OneChange OtherDigitValue a b → luhnOk a = some true → luhnOk b = some false) ∧
    (∀ a b, OneChange OtherIbanChar a b → ibanOk U a = true → ibanOk U b = false) ∧
    ∀ seller buyer iban key label party, (key, label, party) ∈ parties seller buyer →
      ∀ vat siren k s, party.vatId = some vat → siren.length = 9 ∧ siren.all isDigit = true →
        U.bare vat.toList = ['F', 'R'] ++ k ++ s →
        (OneChange OtherDigit k (vatKey siren) ∧ s = siren) ∨
          (k = vatKey siren ∧ OneChange OtherDigit s siren) →
        ∃ e ∈ identifierChecks U seller buyer iban, e.rule = "FR-TVA" ∧
          e.field = s!"{key}.vat_id ({label})" := by
  refine ⟨fun a b h => luhnOk_single h, fun a b h => ibanOk_single U h, ?_⟩
  intro seller buyer iban key label party hparty vat siren k s hvat hsiren hbare hwrong
  exact vat_reported U seller buyer iban hparty hvat hsiren hbare hwrong

/-- The upper case of the letters of ASCII. -/
def asciiUpper : Upper := ⟨fun c => [c.toUpper], fun _ _ => rfl⟩

example : luhnOk "732829320".toList = some true := by decide +kernel

example : ibanOk asciiUpper "fr76 3000 6000 0112 3456 7890 189".toList = true := by decide +kernel

example : vatKey "732829320".toList = "44".toList := by decide +kernel

end Apowerb.Einvoice
