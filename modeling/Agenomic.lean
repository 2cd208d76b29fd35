import Agenomic.Atep.Append
import Agenomic.Atep.Clock
import Agenomic.Atep.Consistent
import Agenomic.Atep.Event
import Agenomic.Atep.Layout
import Agenomic.Atep.Replay
import Agenomic.Atep.RoundTrip
import Agenomic.Atep.Segment
import Agenomic.Atep.Store
import Agenomic.Bundle.Archive
import Agenomic.Bundle.Compile
import Agenomic.Bundle.Escape
import Agenomic.Bundle.Excluded
import Agenomic.Bundle.Extract
import Agenomic.Bundle.Ignored
import Agenomic.Bundle.Preserve
import Agenomic.Cli.LedgerVerify
import Agenomic.Connector.Admitted
import Agenomic.Connector.ClaudeSettings
import Agenomic.Connector.Closing
import Agenomic.Connector.CodexConfig
import Agenomic.Connector.Conservation
import Agenomic.Connector.Context
import Agenomic.Connector.EventSink
import Agenomic.Connector.Events
import Agenomic.Connector.FirstReport
import Agenomic.Connector.Hook
import Agenomic.Connector.HooksInstall
import Agenomic.Connector.JsJson
import Agenomic.Connector.LocalHooks
import Agenomic.Connector.OneProcess
import Agenomic.Connector.Order
import Agenomic.Connector.Outcomes
import Agenomic.Connector.Processes
import Agenomic.Connector.RealPath
import Agenomic.Connector.Redact
import Agenomic.Connector.Reports
import Agenomic.Connector.Settlement
import Agenomic.Connector.SinkBooks
import Agenomic.Connector.SinkLosses
import Agenomic.Contract.Checks
import Agenomic.Contract.Decode
import Agenomic.Contract.Replay
import Agenomic.Contract.Sources
import Agenomic.Core
import Agenomic.Detect.Highest
import Agenomic.Detect.Merge
import Agenomic.Detect.Model
import Agenomic.Detect.Orchestration
import Agenomic.Detect.Precedence
import Agenomic.Detect.Settled
import Agenomic.Detect.Slugs
import Agenomic.Detect.Sources
import Agenomic.Diff.Changes
import Agenomic.Diff.Complete
import Agenomic.Diff.Replay
import Agenomic.Diff.Yaml
import Agenomic.Fs.Walk
import Agenomic.Gate.Approval
import Agenomic.Gate.Context
import Agenomic.Gate.Decision
import Agenomic.Gate.Detect
import Agenomic.Gate.Egress
import Agenomic.Gate.Gate
import Agenomic.Gate.PathGuard
import Agenomic.Governance.Diagnostic
import Agenomic.Governance.Order
import Agenomic.Hash.Manifest
import Agenomic.Ledger.AppendFaults
import Agenomic.Ledger.Block
import Agenomic.Ledger.BlockRoot
import Agenomic.Ledger.Canonical
import Agenomic.Ledger.CanonicalIdentity
import Agenomic.Ledger.Covered
import Agenomic.Ledger.DrainBacklog
import Agenomic.Ledger.Entry
import Agenomic.Ledger.Excerpt
import Agenomic.Ledger.History
import Agenomic.Ledger.KeyLifecycle
import Agenomic.Ledger.Keystore
import Agenomic.Ledger.Ledger
import Agenomic.Ledger.OwnLedger
import Agenomic.Ledger.Pipeline
import Agenomic.Ledger.PipelineAge
import Agenomic.Ledger.PipelineAlive
import Agenomic.Ledger.PipelineOrder
import Agenomic.Ledger.PipelinePayloads
import Agenomic.Ledger.PipelineRun
import Agenomic.Ledger.PipelineSeal
import Agenomic.Ledger.Proof
import Agenomic.Ledger.ProofRoundTrip
import Agenomic.Ledger.SealFaults
import Agenomic.Ledger.Store
import Agenomic.Ledger.Verify
import Agenomic.Ledger.VerifyTotal
import Agenomic.Ledger.Wal
import Agenomic.Ledger.WalAppend
import Agenomic.Ledger.WalBytes
import Agenomic.Ledger.WalCut
import Agenomic.Ledger.WalEvidence
import Agenomic.Ledger.WalFaults
import Agenomic.Ledger.WalLayout
import Agenomic.Ledger.WalReadable
import Agenomic.Ledger.WalRecord
import Agenomic.Ledger.WalRecovery
import Agenomic.Ledger.WalRefine
import Agenomic.Ledger.WalRestart
import Agenomic.Ledger.WalSegments
import Agenomic.Lib.Blend
import Agenomic.Lib.Bytes
import Agenomic.Lib.Causality
import Agenomic.Lib.Directory
import Agenomic.Lib.Effects
import Agenomic.Lib.Frames
import Agenomic.Lib.Groups
import Agenomic.Lib.HashChain
import Agenomic.Lib.InOrder
import Agenomic.Lib.InsertionMap
import Agenomic.Lib.Json
import Agenomic.Lib.JsonObject
import Agenomic.Lib.JsonPretty
import Agenomic.Lib.Keyed
import Agenomic.Lib.Led
import Agenomic.Lib.Lines
import Agenomic.Lib.LinkTree
import Agenomic.Lib.Merkle
import Agenomic.Lib.Numbered
import Agenomic.Lib.Path
import Agenomic.Lib.Pattern
import Agenomic.Lib.PlainLog
import Agenomic.Lib.Quoted
import Agenomic.Lib.Regex
import Agenomic.Lib.Run
import Agenomic.Lib.Sorted
import Agenomic.Lib.Split
import Agenomic.Lib.Text
import Agenomic.Lib.Worklist
import Agenomic.Os.Block
import Agenomic.Os.Cache
import Agenomic.Os.Contract
import Agenomic.Os.Launcher
import Agenomic.Os.Policy
import Agenomic.Os.Port
import Agenomic.Os.PortLaunch
import Agenomic.Os.PortReads
import Agenomic.Os.Uri
import Agenomic.Policy.Evaluate
import Agenomic.Prompt.Binding
import Agenomic.Prompt.Bundle
import Agenomic.Prompt.Canonical
import Agenomic.Prompt.CanonicalText
import Agenomic.Prompt.Closure
import Agenomic.Prompt.Content
import Agenomic.Prompt.Expand
import Agenomic.Prompt.Expansion
import Agenomic.Prompt.Flat
import Agenomic.Prompt.References
import Agenomic.Prompt.Refs
import Agenomic.Prompt.Render
import Agenomic.Prompt.RenderFlat
import Agenomic.Prompt.RenderTotal
import Agenomic.Prompt.Resolve
import Agenomic.Prompt.Scrub
import Agenomic.Prompt.Subset
import Agenomic.Prompt.Template
import Agenomic.Prompt.TemplateInverse
import Agenomic.Prompt.Valid
import Agenomic.Prompt.Validate
import Agenomic.Prompt.Value
import Agenomic.Rmp.Alerts
import Agenomic.Rmp.Monitor
import Agenomic.Rmp.MonitorLoss
import Agenomic.Rmp.MonitorRetry
import Agenomic.Rmp.Plans
import Agenomic.Rmp.Protect
import Agenomic.Rmp.Report
import Agenomic.Rmp.Review
import Agenomic.Rmp.ReviewOrder
import Agenomic.Rmp.ReviewRuns
import Agenomic.Rmp.RiskMatrix
import Agenomic.Rmp.Store
import Agenomic.Track.Detectors
import Agenomic.Track.Engine
import Agenomic.Track.Event
import Agenomic.Track.Evidence
import Agenomic.Track.FailureLoops
import Agenomic.Track.Harness
import Agenomic.Track.IntentRuns
import Agenomic.Track.Intents
import Agenomic.Track.Loops
import Agenomic.Track.PermissionDrift
import Agenomic.Track.Retry
import Agenomic.Track.Run
import Agenomic.Track.ToolLoops
