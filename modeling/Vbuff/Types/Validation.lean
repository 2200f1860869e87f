import Vbuff.Lib.ByteString
import Vbuff.Lib.Text

/-!
# Identifiers and labels

The shared predicates on names: an identifier is a short non-empty string over
`[A-Za-z0-9._-]`, a label a short non-empty string without control characters.
Lengths are in bytes.
-/

namespace Vbuff.Types

open ByteString

/-- `u8::is_ascii_alphanumeric`. -/
def isAsciiAlphanumeric (byte : UInt8) : Bool :=
  (0x30 ≤ byte && byte ≤ 0x39) || (0x41 ≤ byte && byte ≤ 0x5A) || (0x61 ≤ byte && byte ≤ 0x7A)

/-- `is_valid_identifier` with additional allowed punctuation bytes. -/
def isValidIdentifierWithExtra (value : String) (maxLen : ℕ) (extra : Bytes) : Bool :=
  !value.isEmpty && decide ((asBytes value).length ≤ maxLen) &&
    (asBytes value).all fun byte =>
      isAsciiAlphanumeric byte || byte == 0x2D || byte == 0x5F || byte == 0x2E ||
        extra.contains byte

def isValidIdentifier (value : String) (maxLen : ℕ) : Bool :=
  isValidIdentifierWithExtra value maxLen []

/-- `char::is_control`, the Unicode category `Cc`. -/
def isControl (c : Char) : Bool := c.val ≤ 0x1F || (0x7F ≤ c.val && c.val ≤ 0x9F)

def isValidLabel (value : String) (maxLen : ℕ) : Bool :=
  !value.isEmpty && decide ((asBytes value).length ≤ maxLen) && !value.toList.any isControl

/-- A label that is not blank. -/
def isValidTrimmedLabel (value : String) (maxLen : ℕ) : Bool :=
  isValidLabel value maxLen && !(Text.trim value.toList).isEmpty

/-- `MAJOR.MINOR.PATCH`, digits each. -/
def validVersion (value : String) : Bool :=
  let parts := Text.split (· == '.') value.toList
  parts.length == 3 && parts.all fun part => !part.isEmpty && part.all Text.isAsciiDigit

/-- True for the empty byte string too. -/
def allZero (bytes : List UInt8) : Bool := bytes.all (· == 0)

end Vbuff.Types
