import Vbuff.Types.Clip
import Vbuff.Types.Validation

/-!
# What recall remembers beside the clips

Bounded side indices that a search consults: aliases of pinned clips, how often a clip was
pasted into an application, a scope the user has locked, tags and collections, and clips
pinned to a query.  All of them know a clip by its identifier or its content hash.
-/

namespace Vbuff.Core.Recall

open ByteString Text Vbuff.Types
open Std (ExtTreeMap ExtTreeSet)

def MAX_SCOPE_BYTES : ℕ := 512

def normalizeLabel (value : Chars) : Chars := (trim value).map toAsciiLowercase

def identityHash (blake3 : Bytes → ContentHash) (value : String) (maximumBytes : ℕ) :
    Option ContentHash :=
  if isValidTrimmedLabel value maximumBytes then some (blake3 (asBytes value)) else none

/-- `Option<&str>` compared with `eq_ignore_ascii_case`. -/
def namesIgnoringCase (source : Option String) (name : Chars) : Bool :=
  source.any fun source => eqIgnoreAsciiCase source.toList name

structure PinnedAliases where
  byAlias : ExtTreeMap String ClipId

/-- The score of the first alias of the clip, in alphabetical order, that the query begins. -/
def PinnedAliases.matchScore (self : PinnedAliases) (clipId : ClipId) (query : Chars) :
    Option ℤ :=
  let query := normalizeLabel query
  if query.isEmpty then none
  else
    self.byAlias.toList.findSome? fun entry =>
      if entry.2 = clipId ∧ startsWith entry.1.toList query = true then
        some (if entry.1.toList = query then 220 else 180)
      else none

structure PasteAffinity where
  counts : ExtTreeMap (ContentHash ×ₗ ContentHash) UInt16

def PasteAffinity.boost (self : PasteAffinity) (blake3 : Bytes → ContentHash)
    (destinationApp : String) (contentHash : ContentHash) : ℤ :=
  match identityHash blake3 destinationApp MAX_SCOPE_BYTES with
  | none => 0
  | some appHash => (min ((self.counts[toLex (appHash, contentHash)]?).getD 0).toNat 20 : ℕ) * 4

structure ClipTags where
  tags : ExtTreeMap ClipId (ExtTreeSet String)
  collections : ExtTreeMap ClipId (ExtTreeSet String)

namespace ClipTags

def hasTag (self : ClipTags) (clipId : ClipId) (tag : Chars) : Bool :=
  (self.tags[clipId]?).any (·.contains (String.ofList (normalizeLabel tag)))

def hasCollection (self : ClipTags) (clipId : ClipId) (collection : Chars) : Bool :=
  (self.collections[clipId]?).any (·.contains (String.ofList (normalizeLabel collection)))

end ClipTags

inductive SearchScope where
  | All
  | App (app : String)
  | Device (device : String)
  | Collection (collection : String)
  deriving DecidableEq, Repr

structure SearchScopeLock where
  scope : Option SearchScope
  deriving DecidableEq, Repr

/-- `SearchScopeLock::matches`. -/
def SearchScopeLock.matchesClip (self : SearchScopeLock) (clip : Clip) (tags : Option ClipTags) :
    Bool :=
  match self.scope with
  | none | some .All => true
  | some (.App app) => namesIgnoringCase clip.metadata.sourceApp app.toList
  | some (.Device device) => namesIgnoringCase clip.metadata.lineage.originDevice device.toList
  | some (.Collection collection) =>
      tags.any fun tags => tags.hasCollection clip.id collection.toList

structure QueryPinSet where
  pins : ExtTreeMap ContentHash (ExtTreeSet ClipId)

def QueryPinSet.contains (self : QueryPinSet) (query : ContentHash) (clipId : ClipId) : Bool :=
  (self.pins[query]?).any (·.contains clipId)

end Vbuff.Core.Recall
