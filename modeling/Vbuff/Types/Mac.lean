import Vbuff.Lib.ByteString

/-!
# Domain-separated HMAC

Every MAC of the workspace covers a domain label, a separator, and the parts of its
message, in this order.  HMAC-SHA256 itself is a parameter: a key and a preimage
give a tag.
-/

namespace Vbuff.Types

open ByteString

/-- HMAC-SHA256. -/
abbrev Hmac := Bytes → Bytes → Vector UInt8 32

/-- What separates a domain label from the first part of the preimage. -/
inductive DomainSeparator where
  | Nul
  | None
  | Ascii (byte : UInt8)
  deriving DecidableEq, Repr

structure MacDomain where
  label : String
  separator : DomainSeparator
  deriving DecidableEq, Repr

/-- The convention: `label ‖ 0x00 ‖ parts`. -/
def MacDomain.new (label : String) : MacDomain := { label, separator := .Nul }

def DomainSeparator.bytes : DomainSeparator → Bytes
  | .Nul => [0]
  | .Ascii byte => [byte]
  | .None => []

/-- `hmac_proof(domain, key, parts).finish()`. -/
def hmacProof (hmac : Hmac) (domain : MacDomain) (key : Bytes) (parts : List Bytes) :
    Vector UInt8 32 :=
  hmac key (asBytes domain.label ++ domain.separator.bytes ++ parts.flatten)

/-- `MacProof::verify`: a tag of another length never passes. -/
def verifyProof (proof : Vector UInt8 32) (tag : Bytes) : Bool := proof.toList == tag

end Vbuff.Types
