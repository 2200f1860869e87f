import Vbuff.Types.Flavor

/-!
# Clips

A clip is one logical copy: its flavors, the hash of their bytes, and what was known when
it was captured.  Instants are nanoseconds since the epoch, in UTC.
-/

namespace Vbuff.Types

open ByteString Text

/-- `DateTime<Utc>`, in nanoseconds since the epoch. -/
abbrev DateTime := ℤ

/-- The digest of a clip's flavors. -/
abbrev ContentHash := Vector UInt8 32

/-- The 128 bits of a ULID. -/
abbrev ClipId := BitVec 128

/-- The alphabet of Crockford's base 32. -/
def CROCKFORD : Chars := "0123456789ABCDEFGHJKMNPQRSTVWXYZ".toList

/-- `ClipId::to_string_repr`: the 26 digits of a ULID, the highest first. -/
def ClipId.toStringRepr (id : ClipId) : String :=
  String.ofList ((List.range 26).map fun place =>
    CROCKFORD.getD ((id.toNat >>> (5 * (25 - place))) % 32) '0')

inductive ContentKind where
  | Text
  | Url
  | Color
  | Code
  | Image
  | File
  | Rtf
  | Html
  | Other
  deriving DecidableEq, Repr

namespace ContentKind

def label : ContentKind → String
  | .Text => "Text"
  | .Url => "URL"
  | .Color => "Color"
  | .Code => "Code"
  | .Image => "Image"
  | .File => "File"
  | .Rtf => "RTF"
  | .Html => "HTML"
  | .Other => "Other"

/-- Every kind, in the order of the stored discriminants. -/
def ALL : List ContentKind := [.Text, .Rtf, .Html, .Image, .File, .Color, .Url, .Code, .Other]

def slug : ContentKind → String
  | .Text => "text"
  | .Url => "url"
  | .Color => "color"
  | .Code => "code"
  | .Image => "image"
  | .File => "file"
  | .Rtf => "rtf"
  | .Html => "html"
  | .Other => "other"

/-- The number a stored kind has. -/
def storedDiscriminant : ContentKind → ℕ
  | .Text => 0
  | .Rtf => 1
  | .Html => 2
  | .Image => 3
  | .File => 4
  | .Color => 5
  | .Url => 6
  | .Code => 7
  | .Other => 8

theorem storedDiscriminant_injective : Function.Injective storedDiscriminant := by
  intro a b h
  cases a <;> cases b <;> first | rfl | cases h

/-- `str::parse::<ContentKind>`: a slug, spelled exactly. -/
def fromStr (s : Chars) : Option ContentKind := ALL.find? fun kind => kind.slug.toList == s

end ContentKind

/-- Identity of one clipboard generation, from a native backend. -/
structure CaptureGeneration where
  epoch : UInt64
  sequence : UInt64
  deriving DecidableEq, Repr

/-- Where a clipboard write came from. -/
structure CaptureLineage where
  originDevice : Option String
  writeNonce : Option String
  deriving DecidableEq, Repr

structure ClipMeta where
  createdAt : DateTime
  updatedAt : DateTime
  byteSize : UInt64
  sourceApp : Option String
  kind : ContentKind
  provenance : CaptureProvenance
  provenanceConfidence : ProvenanceConfidence
  generation : Option CaptureGeneration
  lineage : CaptureLineage
  expiresAt : Option DateTime
  sensitive : Bool
  sensitivityReason : Option SensitivityReason
  syncEligible : Bool
  aiAllowed : Bool
  deriving DecidableEq, Repr

/-- `ClipMeta::now`: what is known of a clip of this kind and size before its evidence. -/
def ClipMeta.now (now : DateTime) (kind : ContentKind) (byteSize : UInt64)
    (sourceApp : Option String) : ClipMeta :=
  { createdAt := now
    updatedAt := now
    byteSize
    sourceApp
    kind
    provenance := { CaptureProvenance.default with appId := sourceApp }
    provenanceConfidence := .Unknown
    generation := none
    lineage := { originDevice := none, writeNonce := none }
    expiresAt := none
    sensitive := false
    sensitivityReason := none
    syncEligible := true
    aiAllowed := false }

structure Clip where
  id : ClipId
  flavors : List Flavor
  contentHash : ContentHash
  metadata : ClipMeta
  pinned : Bool
  favorite : Bool
  deriving DecidableEq

/-- The text of the first text flavor that is inline UTF-8. -/
def Clip.primaryText (self : Clip) : Option String :=
  self.flavors.findSome? fun flavor => if flavor.isText then flavor.asText else none

def Clip.primaryImage (self : Clip) : Option Flavor := self.flavors.find? Flavor.isImage

def truncateChars (s : Chars) (maxChars : ℕ) : Chars :=
  if s.length ≤ maxChars then s else s.take (maxChars - 1) ++ ['…']

/-- One line that stands for the clip in a list. -/
def Clip.preview (self : Clip) (maxChars : ℕ) : String :=
  match self.primaryText, self.primaryImage, self.flavors.head? with
  | some text, _, _ =>
      String.ofList (truncateChars ([' '].intercalate (splitWhitespace text.toList)) maxChars)
  | none, some _, _ => s!"[image, {self.metadata.byteSize} bytes]"
  | none, none, some flavor => s!"[{flavor.mime}]"
  | none, none, none => "[empty]"

end Vbuff.Types

/-! ## Tags

What the tag tables hold, as the rest of the program sees it, and the commands that edit them.
-/

namespace Vbuff.Types

structure TagRecord where
  id : String
  name : String
  color : UInt8 × UInt8 × UInt8
  clips : Finset ClipId
  deriving DecidableEq

structure TagSnapshot where
  tags : List TagRecord
  deriving DecidableEq

inductive TagCommand where
  | Save (id : Option String) (name : String) (color : UInt8 × UInt8 × UInt8)
  | Delete (id : String)
  | Merge (source target : String)
  | Assign (clips : List ClipId) (tag : String) (assigned : Bool)

end Vbuff.Types
