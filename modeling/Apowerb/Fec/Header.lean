/-
# The header of a FEC

What `bi/data/fec_import.py` reads of the bytes of a file and of its header: the two decodings, the
names of the columns without accents and signs, and the delimiter, which is the one that the header
has more of.

The tables of Unicode are a parameter (`Unicode`); of them the code needs only that ASCII is left as
it is, and that a capital letter of ASCII has its small one.
-/
import Apowerb.Lib.Utf8
import Apowerb.Text

namespace Apowerb.Fec

open Text

/-! ## 1. Decoding -/

/-- `\xef\xbb\xbf` -/
def bom : List UInt8 := [0xef, 0xbb, 0xbf]

/-- A byte of ISO 8859-15: eight characters are not those of Latin-1. -/
def latin9 (b : UInt8) : Char :=
  match b.toNat with
  | 0xa4 => Char.ofNat 0x20ac
  | 0xa6 => Char.ofNat 0x160
  | 0xa8 => Char.ofNat 0x161
  | 0xb4 => Char.ofNat 0x17d
  | 0xb8 => Char.ofNat 0x17e
  | 0xbc => Char.ofNat 0x152
  | 0xbd => Char.ofNat 0x153
  | 0xbe => Char.ofNat 0x178
  | n => Char.ofNat n

/-- The bytes after the BOM, if there is one. -/
def withoutBom (bytes : List UInt8) : List UInt8 :=
  if bom.isPrefixOf bytes then bytes.drop 3 else bytes

/-- `_decode`. -/
def decode (content : List UInt8) : List Char :=
  match Utf8.strict (withoutBom content) with
  | .ok text => text
  | .error _ => (withoutBom content).map latin9

/-! ## 2. The names of the columns -/

/-- What `_norm_name` asks of Unicode. -/
structure Unicode where
  /-- `unicodedata.normalize("NFKD", text)` -/
  nfkd : List Char → List Char
  /-- `unicodedata.combining(c)` is not zero -/
  combining : Char → Bool
  /-- `str.lower` -/
  lower : List Char → List Char
  nfkd_ascii : ∀ cs, (∀ c ∈ cs, c.toNat < 128) → nfkd cs = cs
  combining_ascii : ∀ c : Char, c.toNat < 128 → combining c = false
  lower_ascii : ∀ cs, (∀ c ∈ cs, c.toNat < 128) → lower cs = cs.map Char.toLower

/-- `[a-z0-9]` -/
def isNameChar (c : Char) : Bool := ('a' ≤ c && c ≤ 'z') || ('0' ≤ c && c ≤ '9')

/-- `_norm_name`. -/
def normName (U : Unicode) (name : List Char) : String :=
  let stripped := (U.nfkd name).filter fun c => !U.combining c
  String.ofList ((U.lower stripped).filter isNameChar)

/-- The delimiter of `_split_header`: a tabulation, unless there are more vertical bars. -/
def delimiterOf (line : List Char) : Char :=
  if line.count '\t' < line.count '|' then '|' else '\t'

/-- `_split_header`. -/
def splitHeader (U : Unicode) (line : List Char) : Char × List String :=
  (delimiterOf line, (line.splitOn (delimiterOf line)).map (normName U))

/-- `FEC_COLUMNS`. -/
def fecColumns : List String :=
  ["journalcode", "journallib", "ecriturenum", "ecrituredate", "comptenum", "comptelib",
    "compauxnum", "compauxlib", "pieceref", "piecedate", "ecriturelib", "debit", "credit",
    "ecriturelet", "datelet", "validdate", "montantdevise", "idevise"]

/-- `_SNIFF_BYTES`. -/
def sniffBytes : Nat := 8192

/-- `line.rstrip("\r")`. -/
def withoutReturns (line : List Char) : List Char := line.rdropWhile (· == '\r')

/-- `not line.strip()`. -/
def isBlank (line : List Char) : Bool := line.all isSpace

end Apowerb.Fec
