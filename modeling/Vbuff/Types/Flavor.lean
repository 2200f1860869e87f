import Vbuff.Lib.ByteString
import Vbuff.Lib.Text

/-!
# Flavors and capture evidence

A flavor is one MIME representation of a clip.  The evidence types say what a
clipboard backend observed about one read; each has an `Unknown` value, and none of
them lets "nobody could look" pass for an observation.
-/

namespace Vbuff.Types

open ByteString Text

/-- `ProvenanceConfidence`. -/
inductive ProvenanceConfidence where
  | Proven
  | Unknown
  deriving DecidableEq, Repr

/-- `ConcealmentSignal`. -/
inductive ConcealmentSignal where
  | Concealed
  | Clear
  | Unknown
  deriving DecidableEq, Repr

/-- `GenerationCoherence`. -/
inductive GenerationCoherence where
  | Coherent
  | Torn
  | Unknown
  deriving DecidableEq, Repr

/-- `SelectionIntent`. -/
inductive SelectionIntent where
  | Intended
  | Incidental
  | Unknown
  deriving DecidableEq, Repr

/-- `SelectionSource`. -/
inductive SelectionSource where
  | Clipboard
  | Primary
  deriving DecidableEq, Repr

/-- `SensitivityReason`: why a clip is masked and restricted. -/
inductive SensitivityReason where
  | SourceApplication
  | CaptureRule
  | Entropy
  | OperatingSystemHint
  | PrivateKey
  | CloudCredential
  | AccessToken
  | JsonWebToken
  | PaymentCard
  | OneTimePassword
  | RecoveryCode
  | PossibleSecret
  deriving DecidableEq, Repr

/-- Source context of a capture; the fields rules can match. -/
structure CaptureProvenance where
  appId : Option String
  windowTitle : Option String
  documentPath : Option String
  sourceUrl : Option String
  deriving DecidableEq, Repr

/-- `CaptureProvenance::default()`. -/
def CaptureProvenance.default : CaptureProvenance :=
  { appId := none, windowTitle := none, documentPath := none, sourceUrl := none }

/-- `FlavorOrigin`. -/
inductive FlavorOrigin where
  | Source
  | OsSynthesized
  | VbuffDerived
  deriving DecidableEq, Repr

/-- `FlavorRealization`. -/
inductive FlavorRealization where
  | Realized
  | Deferred
  | Failed
  | Truncated
  deriving DecidableEq, Repr

/-- The payload of a flavor: inline bytes, or the digest of a spilled blob. -/
inductive Body where
  | Inline (bytes : Bytes)
  | Spilled (blobRef : String) (byteSize : UInt64)
  deriving DecidableEq, Repr

/-- One MIME representation of a clip. -/
structure Flavor where
  mime : String
  body : Body
  origin : FlavorOrigin
  realization : FlavorRealization
  deriving DecidableEq, Repr

/-- `Body::inline_bytes`. -/
def Body.inlineBytes : Body → Option Bytes
  | .Inline bytes => some bytes
  | .Spilled _ _ => none

/-- `Body::byte_size`. -/
def Body.byteSize : Body → UInt64
  | .Inline bytes => bytes.length.toUInt64
  | .Spilled _ byteSize => byteSize

namespace Flavor

/-- A flavor with an inline body. -/
def inline (mime : String) (bytes : Bytes) : Flavor :=
  { mime, body := .Inline bytes, origin := .Source, realization := .Realized }

/-- A representation derived from other bytes. -/
def derived (mime : String) (bytes : Bytes) : Flavor :=
  { inline mime bytes with origin := .VbuffDerived }

def isRealized (self : Flavor) : Bool := self.realization == .Realized

/-- The MIME type without its parameters. -/
def mimeEssence (self : Flavor) : Chars :=
  trim ((split (· == ';') self.mime.toList).headD self.mime.toList)

def isText (self : Flavor) : Bool :=
  let mime := self.mimeEssence
  eqIgnoreAsciiCase mime "text".toList || eqIgnoreAsciiCase (mime.take 5) "text/".toList

def isPlainText (self : Flavor) : Bool :=
  let mime := self.mimeEssence
  eqIgnoreAsciiCase mime "text/plain".toList || eqIgnoreAsciiCase mime "text".toList

def isImage (self : Flavor) : Bool :=
  eqIgnoreAsciiCase (self.mimeEssence.take 6) "image/".toList

/-- The inline bytes as UTF-8, when they are. -/
def asText (self : Flavor) : Option String :=
  self.body.inlineBytes.bind fun bytes => String.fromUTF8? ⟨bytes.toArray⟩

end Flavor

end Vbuff.Types
