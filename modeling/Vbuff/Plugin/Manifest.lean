import Vbuff.Lib.Result
import Vbuff.Sync.Chain
import Vbuff.Types.Validation

/-!
# Plugin manifests

What a native plugin is and may ask for, and what one of its actions asks for within that.  How
JSON and TOML write, and what `url` takes for a host, is left to `Codec`, beside the hash and the
signatures.
-/

namespace Vbuff.Plugin

open ByteString Result Vbuff.Types
open Vbuff.Sync (Bytes32 Primitives)
open Std (ExtTreeMap ExtTreeSet)

inductive PluginError where
  | InvalidManifest (detail : String)
  | CapabilityDenied (detail : String)
  | TypeMismatch (detail : String)
  | InvalidInput (detail : String)
  | InvalidBundle (detail : String)
  | InvalidSignature
  | Serialization (detail : String)
  deriving DecidableEq, Repr

/-- `protocol::PROTOCOL_VERSION`. -/
def PROTOCOL_VERSION : UInt16 := 1

inductive PluginCapability where
  | ReadClipContent
  | WriteDerivedClip
  | SubscribeEvents
  | Network
  | FileRead
  | FileWrite
  | ProcessSpawn
  deriving DecidableEq, Repr

structure PluginManifest where
  id : String
  name : String
  version : String
  protocolVersion : UInt16
  executablePath : String
  requestedCapabilities : ExtTreeSet PluginCapability (compareOn PluginCapability.ctorIdx)
  networkHosts : ExtTreeSet String
  filePaths : ExtTreeSet String
  processCommands : ExtTreeSet String

/-! ## Names and paths -/

/-- A separator of path components, on any platform. -/
def isSeparator (c : Char) : Bool := c == '/' || c == '\\'

def validateRelativePath (path : String) : Except PluginError Unit :=
  ensure (!path.isEmpty && !path.toList.head?.any isSeparator && !path.toList.contains ':' &&
      !path.toList.contains '\x00' &&
      !(Text.split isSeparator path.toList).any fun component =>
        component.isEmpty || component == ['.'] || component == ['.', '.'])
    (.InvalidBundle s!"unsafe relative path: {path}")

/-- `parses` is `url::Host::parse`. -/
def validHost (parses : String → Bool) (host : String) : Bool :=
  !host.isEmpty && decide ((asBytes host).length ≤ 253) &&
    host.toList == Text.trim host.toList && !host.toList.any isControl && parses host

def validScopePath (path : String) : Bool :=
  !path.isEmpty && decide ((asBytes path).length ≤ 1024) && !path.toList.contains '\x00' &&
    !path.toList.any isControl &&
    !(Text.split isSeparator path.toList).any (· == ['.', '.'])

def validCommandId (command : String) : Bool := isValidIdentifier command 128

/-- The ids of plugins and of snippet packs. -/
def validLowercaseId (value : String) : Bool :=
  !value.isEmpty && decide ((asBytes value).length ≤ 128) &&
    (asBytes value).all fun byte =>
      (0x61 ≤ byte && byte ≤ 0x7A) || (0x30 ≤ byte && byte ≤ 0x39) || byte == 0x2E ||
        byte == 0x2D || byte == 0x5F

/-! ## Manifests -/

structure SnippetDefinition where
  trigger : String
  expansion : String
  description : Option String
  deriving DecidableEq, Repr

structure SnippetPack where
  schema : UInt16
  id : String
  version : String
  snippets : ExtTreeMap String SnippetDefinition

structure ActionPermissionRequest where
  actionId : String
  required : ExtTreeSet PluginCapability (compareOn PluginCapability.ctorIdx)
  networkHosts : ExtTreeSet String
  filePaths : ExtTreeSet String
  processCommands : ExtTreeSet String

structure ActionBundle where
  schema : UInt16
  bundleId : String
  pluginId : String
  pluginVersion : String
  manifestHash : Bytes32
  actions : ExtTreeMap String ActionPermissionRequest

structure OfflineRunEvidence where
  schema : UInt16
  manifestHash : Bytes32
  modelHash : Bytes32
  startedAtMs : UInt64
  finishedAtMs : UInt64
  attemptedNetworkCalls : UInt64
  deriving DecidableEq

/-- What the crate uses of others. -/
structure Codec where
  prim : Primitives
  /-- `url::Host::parse(..).is_ok()`. -/
  hostParses : String → Bool
  /-- `serde_json::to_vec`. -/
  manifestToVec : PluginManifest → Except String Bytes
  actionsToVec : ActionBundle → Except String Bytes
  evidenceToVec : OfflineRunEvidence → Except String Bytes
  /-- `toml::to_string_pretty`. -/
  packToString : SnippetPack → Except String String

variable (codec : Codec)

/-- A serialized value, with the error as one of the crate. -/
def serialized {α : Type} (x : Except String α) : Except PluginError α :=
  match x with
  | .ok a => .ok a
  | .error error => .error (.Serialization error)

theorem serialized_eq_ok {α : Type} {x : Except String α} {a : α} :
    serialized x = .ok a ↔ x = .ok a := by
  cases x <;> simp [serialized]

namespace PluginManifest

def validate (self : PluginManifest) : Except PluginError Unit := do
  ensure (validLowercaseId self.id) (.InvalidManifest "invalid plugin id")
  ensure (¬ (Text.trim self.name.toList).isEmpty ∧ (asBytes self.name).length ≤ 128 ∧
    ¬ self.name.toList.any isControl) (.InvalidManifest "invalid display name")
  ensure (validVersion self.version) (.InvalidManifest "version must be x.y.z")
  ensure (self.protocolVersion = PROTOCOL_VERSION)
    (.InvalidManifest "unsupported native plugin protocol")
  ensure ((asBytes self.version).length ≤ 64) (.InvalidManifest "version is too long")
  ensure ((asBytes self.executablePath).length ≤ 512)
    (.InvalidManifest "executable path is too long")
  validateRelativePath self.executablePath
  ensure (Text.startsWith self.executablePath.toList "bin/".toList)
    (.InvalidManifest "native plugin executable must be stored under bin/")
  let requestsNetwork := self.requestedCapabilities.contains .Network
  ensure (requestsNetwork = !self.networkHosts.isEmpty ∧ self.networkHosts.size ≤ 64 ∧
      self.networkHosts.toList.all (validHost codec.hostParses))
    (.InvalidManifest "network capability requires 1-64 valid explicit hosts")
  let requestsFiles := self.requestedCapabilities.contains .FileRead ||
    self.requestedCapabilities.contains .FileWrite
  ensure (requestsFiles = !self.filePaths.isEmpty ∧ self.filePaths.size ≤ 64 ∧
      self.filePaths.toList.all validScopePath)
    (.InvalidManifest "file capability requires 1-64 valid explicit paths")
  let requestsProcess := self.requestedCapabilities.contains .ProcessSpawn
  ensure (requestsProcess = !self.processCommands.isEmpty ∧ self.processCommands.size ≤ 32 ∧
      self.processCommands.toList.all validCommandId)
    (.InvalidManifest "process capability requires 1-32 explicit host command ids")

def canonicalBytes (self : PluginManifest) : Except PluginError Bytes := do
  self.validate codec
  serialized (codec.manifestToVec self)

def hash (self : PluginManifest) : Except PluginError Bytes32 := do
  let bytes ← self.canonicalBytes codec
  .ok (codec.prim.hash bytes)

end PluginManifest

/-! ## What an action asks for -/

def validateActionScope (required : Bool) (requested manifestScope : ExtTreeSet String)
    (maxItems : ℕ) (validator : String → Bool) (label : String) : Except PluginError Unit :=
  ensure (required = !requested.isEmpty ∧ requested.size ≤ maxItems ∧
      requested.toList.all manifestScope.contains ∧ requested.toList.all validator)
    (.CapabilityDenied s!"invalid per-action {label} scope")

def ActionPermissionRequest.validate (self : ActionPermissionRequest) (manifest : PluginManifest) :
    Except PluginError Unit := do
  manifest.validate codec
  ensure (validCommandId self.actionId) (.InvalidManifest "invalid action id")
  ensure (self.required.toList.all manifest.requestedCapabilities.contains)
    (.CapabilityDenied "action requests a capability outside its manifest")
  validateActionScope (self.required.contains .Network) self.networkHosts manifest.networkHosts 64
    (validHost codec.hostParses) "network"
  validateActionScope (self.required.contains .FileRead || self.required.contains .FileWrite)
    self.filePaths manifest.filePaths 64 validScopePath "file"
  validateActionScope (self.required.contains .ProcessSpawn) self.processCommands
    manifest.processCommands 32 validCommandId "process"

end Vbuff.Plugin
