import Vbuff.App.CaptureBalance
import Vbuff.App.HistoryConvergence
import Vbuff.App.HistoryLanes
import Vbuff.App.HistorySearch
import Vbuff.App.HistoryUndo
import Vbuff.App.PasteSafety
import Vbuff.App.SingleInstance
import Vbuff.App.StoreOwner
import Vbuff.App.TagFacet
import Vbuff.Core.CapturePolicy
import Vbuff.Core.CleanLink
import Vbuff.Core.Coalesce
import Vbuff.Core.ComposeOutput
import Vbuff.Core.Fidelity
import Vbuff.Core.Fingerprint
import Vbuff.Core.FlavorPruning
import Vbuff.Core.Generations
import Vbuff.Core.Hash
import Vbuff.Core.PasteGuardSet
import Vbuff.Core.PrivacyLedger
import Vbuff.Core.Recall.Agreement
import Vbuff.Core.Recall.Fingerprints
import Vbuff.Core.Recall.Graph
import Vbuff.Core.Recall.Macros
import Vbuff.Core.Recall.Search
import Vbuff.Core.Recall.Typo
import Vbuff.Core.SelfWrites
import Vbuff.Core.SmartPaste
import Vbuff.Core.SnippetForm
import Vbuff.Core.Supervisor
import Vbuff.Core.Tagger
import Vbuff.Core.Timeline
import Vbuff.Core.Transform
import Vbuff.Core.TrustRules
import Vbuff.Gui.ProjectionCache
import Vbuff.Ipc.ApiToken
import Vbuff.Ipc.EditorReindent
import Vbuff.Ipc.MirrorRuns
import Vbuff.Ipc.MirrorSettles
import Vbuff.Ipc.RateLimit
import Vbuff.Ipc.Webhook
import Vbuff.Lib.Cull
import Vbuff.Lib.Parties
import Vbuff.Lib.Tokens
import Vbuff.Platform.CfHtmlDocument
import Vbuff.Plugin.Migration
import Vbuff.Plugin.Network
import Vbuff.Plugin.Pipeline
import Vbuff.Plugin.Protocol
import Vbuff.Plugin.Recipes
import Vbuff.Plugin.Signing
import Vbuff.Store.Cap
import Vbuff.Store.CollectionRetention
import Vbuff.Store.Expiry
import Vbuff.Store.Hold
import Vbuff.Store.Near
import Vbuff.Store.NormalizedText
import Vbuff.Store.Paging
import Vbuff.Store.Ratchet
import Vbuff.Store.Scans
import Vbuff.Store.SensitiveTags
import Vbuff.Store.Sweep
import Vbuff.Store.Visibility
import Vbuff.Sync.Burn
import Vbuff.Sync.Capability
import Vbuff.Sync.Crdt
import Vbuff.Sync.DevicePolicy
import Vbuff.Sync.DomainSeparation
import Vbuff.Sync.Merkle
import Vbuff.Sync.Outbox
import Vbuff.Sync.Policy
import Vbuff.Sync.Rekey
import Vbuff.Sync.SharedSnippet
import Vbuff.Sync.Sharing
import Vbuff.Sync.TransferPlan
import Vbuff.Sync.VaultExport
import Vbuff.Sync.Wire
import Vbuff.Update.Attestation
import Vbuff.Update.State
import Vbuff.Core.Everyday
import Vbuff.Plugin.Supervision
import Vbuff.Store.SqliteImport
import Vbuff.Sync.Team
