import Vbuff.Types.Clip

/-!
# The paste guard

Before a keystroke is injected the clipboard is read back and compared with what was
written.  The fingerprint is a digest over the flavors in an order of its own, with line
ends normalized, and the structural identity of the first text.  The host of a URL is kept
only to tell which kind of substitution was seen.
-/

namespace Vbuff.Core

open ByteString Text Vbuff.Types

inductive StructuralIdentity where
  | Text
  | Url
  | CryptoAddress
  | Image
  deriving DecidableEq, Repr

inductive PasteGuardDecision where
  | Allow
  | BlockUnreadable
  | BlockContentChanged
  | BlockAddressSubstitution
  | BlockDomainSubstitution
  deriving DecidableEq, Repr

/-- `{decision:?}`. -/
def PasteGuardDecision.debug : PasteGuardDecision → String
  | .Allow => "Allow"
  | .BlockUnreadable => "BlockUnreadable"
  | .BlockContentChanged => "BlockContentChanged"
  | .BlockAddressSubstitution => "BlockAddressSubstitution"
  | .BlockDomainSubstitution => "BlockDomainSubstitution"

structure PasteGuardFingerprint where
  digest : ContentHash
  identity : StructuralIdentity
  hostHash : Option ContentHash
  deriving DecidableEq

/-- The crates behind a fingerprint. -/
structure GuardPrimitives where
  blake3 : Bytes → ContentHash
  /-- `Url::parse`, and `Url::host_str` of its result. -/
  parseUrl : Chars → Option (Option Chars)

/-- `text.replace("\r\n", "\n")`. -/
def replaceCrLf : Chars → Chars
  | '\r' :: '\n' :: rest => '\n' :: replaceCrLf rest
  | c :: rest => c :: replaceCrLf rest
  | [] => []

/-- `guard_mime`. -/
def guardMime (flavor : Flavor) : String :=
  if flavor.isPlainText then "text/plain" else flavor.mime

/-- `looks_like_crypto_address`. -/
def looksLikeCryptoAddress (text : Chars) : Bool :=
  (utf8Len text == 42 && startsWith text "0x".toList && (text.drop 2).all isAsciiHexdigit) ||
    (26 ≤ utf8Len text && utf8Len text ≤ 62 && text.all isAsciiAlphanumeric &&
      !text.any fun c => c == 'I' || c == 'O' || c == 'l')

namespace PasteGuardFingerprint

/-- The order in which flavors are hashed. -/
def hashedBefore (left right : Flavor) : Prop :=
  guardMime left < guardMime right ∨ (guardMime left = guardMime right ∧ left.mime ≤ right.mime)

instance : DecidableRel hashedBefore := fun left right =>
  inferInstanceAs (Decidable (guardMime left < guardMime right ∨
    (guardMime left = guardMime right ∧ left.mime ≤ right.mime)))

/-- The content of a flavor as it is hashed. -/
def guardBytes (flavor : Flavor) : Bytes :=
  match if flavor.isText then flavor.asText else none with
  | some text => asBytes (String.ofList (replaceCrLf text.toList))
  | none =>
      match flavor.body with
      | .Inline bytes => bytes
      | .Spilled blobRef _ => asBytes blobRef

/-- What is hashed for one flavor. -/
def guardEntry (flavor : Flavor) : Bytes :=
  let mime := asBytes (guardMime flavor)
  leBytes 8 mime.length ++ mime ++ leBytes 8 (guardBytes flavor).length ++ guardBytes flavor

/-- What is hashed for a clipboard. -/
def guardPreimage (flavors : List Flavor) : Bytes :=
  leBytes 8 flavors.length ++ (flavors.insertionSort hashedBefore).flatMap guardEntry

variable (prim : GuardPrimitives)

def fromFlavors (flavors : List Flavor) : Option PasteGuardFingerprint :=
  if flavors.isEmpty then none
  else
    let digest := prim.blake3 (guardPreimage flavors)
    match (flavors.find? Flavor.isText).bind Flavor.asText with
    | some text =>
        let trimmed := trim (replaceCrLf text.toList)
        let parsedUrl := prim.parseUrl trimmed
        let identity :=
          if looksLikeCryptoAddress trimmed then .CryptoAddress
          else if parsedUrl.isSome then .Url
          else .Text
        let host := (parsedUrl.bind id).map (·.map toAsciiLowercase)
        some
          { digest, identity
            hostHash := host.map fun host => prim.blake3 (asBytes (String.ofList host)) }
    | none =>
        if flavors.any Flavor.isImage then some { digest, identity := .Image, hostHash := none }
        else none

def compare (self : PasteGuardFingerprint) (observed : Option PasteGuardFingerprint) :
    PasteGuardDecision :=
  match observed with
  | none => .BlockUnreadable
  | some observed =>
      if self.digest = observed.digest ∧ self.identity = observed.identity then .Allow
      else if self.identity = .CryptoAddress ∧ observed.identity = .CryptoAddress then
        .BlockAddressSubstitution
      else if self.identity = .Url ∧ observed.identity = .Url ∧
          self.hostHash ≠ observed.hostHash then .BlockDomainSubstitution
      else .BlockContentChanged

/-- The two fingerprints have one digest and one identity. -/
def Agrees (self observed : PasteGuardFingerprint) : Prop :=
  self.digest = observed.digest ∧ self.identity = observed.identity

/-- A comparison allows exactly the fingerprints that agree; the host has no part in it. -/
theorem compare_eq_allow {self : PasteGuardFingerprint}
    {observed : Option PasteGuardFingerprint} :
    self.compare observed = .Allow ↔ ∃ other, observed = some other ∧ self.Agrees other := by
  cases observed with
  | none => simp [compare]
  | some other =>
      unfold compare Agrees
      simp only [Option.some.injEq, exists_eq_left']
      split <;> rename_i hsame
      · exact ⟨fun _ => hsame, fun _ => rfl⟩
      · refine ⟨fun hallow => ?_, fun h => absurd h hsame⟩
        split at hallow
        · cases hallow
        · split at hallow <;> cases hallow

end PasteGuardFingerprint

end Vbuff.Core
