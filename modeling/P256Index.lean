import P256Index.Checked
import P256Index.Table
import P256Index.Codec.Bytes
import P256Index.Codec.Abi
import P256Index.Codec.Text
import P256Index.Codec.Base64Url
import P256Index.Codec.Hex
import P256Index.Interaction.Program
import P256Index.Interaction.Concurrent
import P256Index.Contract.Types
import P256Index.Contract.Calldata
import P256Index.Contract.Challenge
import P256Index.Contract.Verify
import P256Index.Contract.Registry
import P256Index.Contract.Acceptance
import P256Index.Contract.Invariant
import P256Index.Contract.Record
import P256Index.Contract.Views
import P256Index.Contract.Sample
import P256Index.Contract.Audit
import P256Index.Contract.Replay
import P256Index.Contract.Substitution
import P256Index.Registrar.Task
import P256Index.Registrar.Protocol
import P256Index.Registrar.Submission
import P256Index.Registrar.Batch
import P256Index.Registrar.Verify
import P256Index.Registrar.Validate
import P256Index.Registrar.Admission
import P256Index.Registrar.Fields
import P256Index.Registrar.Agreement
import P256Index.Server.Store
import P256Index.Server.Shell
import P256Index.Server.World
import P256Index.Server.Delivery
import P256Index.Interaction.Guard
import P256Index.Registrar.Evidence
import P256Index.Interaction.Alone
import P256Index.Server.Healthy
import P256Index.Server.Progress
import P256Index.Contract.Growth
import P256Index.Contract.Purpose
import P256Index.Registrar.Reconcile
import P256Index.Contract.Confluence
import P256Index.Interaction.Rely
import P256Index.Registrar.Conduct
import P256Index.Server.Lifecycle
import P256Index.Server.Flag
import P256Index.Server.Gate
import P256Index.Registrar.Marks
import P256Index.Registrar.Uncertain
import P256Index.Registrar.Gas
import P256Index.Registrar.Gates
import P256Index.Registrar.Rescue
import P256Index.Server.Unstick
import P256Index.Contract.Presence
import P256Index.Registrar.Spelling
import P256Index.Keyed
import P256Index.Server.Clock
import P256Index.Cloudflare.Store
import P256Index.Cloudflare.Equivalence
import P256Index.Codec.Json
import P256Index.Endpoint.Challenge
import P256Index.Endpoint.Agreement
import P256Index.Server.Window
import P256Index.Registrar.Coalesce
import P256Index.Registrar.Compose
import P256Index.Registrar.Roster
import P256Index.Registrar.Lookup
import P256Index.Server.Paging
import P256Index.Server.RpcPool
import P256Index.Legacy.Consistency
import P256Index.Legacy.History
import P256Index.Cloudflare.Submitter
import P256Index.Cloudflare.Wakeup
import P256Index.Contract.Pages
import P256Index.Endpoint.CacheKey
import P256Index.Registrar.ErrorText
import P256Index.Archive.Export
import P256Index.Contract.Repeated
import P256Index.Nonces
import P256Index.Archive.Replay
import P256Index.Interaction.Rounds
import P256Index.Server.Accepted
import P256Index.Archive.Recovery
