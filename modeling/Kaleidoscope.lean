import Kaleidoscope.Lib.Pool
import Kaleidoscope.Account.Oidc
import Kaleidoscope.Account.Chain
import Kaleidoscope.Account.Replay
import Kaleidoscope.Account.Linear
import Kaleidoscope.Account.Usable
import Kaleidoscope.Lib.Split
import Kaleidoscope.Account.IdToken
import Kaleidoscope.Account.Route
import Kaleidoscope.Account.DeviceLogin
import Kaleidoscope.Lib.BTree
import Kaleidoscope.Lib.Disk
import Kaleidoscope.FsSafe
import Kaleidoscope.Config
import Kaleidoscope.Lib.Utf8
import Kaleidoscope.Sdk.Refusal
import Kaleidoscope.Lib.Scan
import Kaleidoscope.Sdk.Diagnostic
import Kaleidoscope.Sdk.Redaction
import Kaleidoscope.Lib.Encoding
import Kaleidoscope.Lib.JsonReader
import Kaleidoscope.Sdk.Native
import Kaleidoscope.Sdk.Payload
import Kaleidoscope.Engine
import Kaleidoscope.Lib.Links
import Kaleidoscope.Discovery
import Kaleidoscope.Manager
import Kaleidoscope.Apply
import Kaleidoscope.ConcurrentEdit
import Kaleidoscope.JsonSpan
import Kaleidoscope.ConfigLoad
import Kaleidoscope.Lib.Toml
import Kaleidoscope.Sdk.Descriptor
import Kaleidoscope.Sdk.HostConfigs
import Kaleidoscope.Sdk.Uuid
import Kaleidoscope.Sdk.Answers
import Kaleidoscope.Sdk.Agreement
import Kaleidoscope.HostEntry
import Kaleidoscope.Sdk.Launch
import Kaleidoscope.Sdk.Retry
import Kaleidoscope.HookInstall
import Kaleidoscope.Hosts
import Kaleidoscope.HostCodex
import Kaleidoscope.CodexBlock
import Kaleidoscope.Instructions
import Kaleidoscope.InstructionForce
import Kaleidoscope.InstructionBlock
import Kaleidoscope.HostPaths
import Kaleidoscope.OpenCode
import Kaleidoscope.HookCommand
import Kaleidoscope.HookRemove
import Kaleidoscope.JsonLine
import Kaleidoscope.SessionStart
import Kaleidoscope.HookLine
import Kaleidoscope.Account.Logout
import Kaleidoscope.Account.LogoutDevices
import Kaleidoscope.Lib.Utf8Cut
import Kaleidoscope.Sdk.Tail
import Kaleidoscope.Sdk.Session
import Kaleidoscope.ReceiptPlans
import Kaleidoscope.Receipts
import Kaleidoscope.Lib.Block
import Kaleidoscope.Repeat.Json
import Kaleidoscope.Repeat.Codex
import Kaleidoscope.Repeat.Instructions
import Kaleidoscope.Repeat.Hooks
import Kaleidoscope.Repeat.Idempotence
import Kaleidoscope.HookMemories
import Kaleidoscope.Lib.Regex
import Kaleidoscope.Sdk.ProfileName
import Kaleidoscope.Sdk.PartialBatch
import Kaleidoscope.Lib.Memo
import Kaleidoscope.Sdk.Environment
import Kaleidoscope.Sdk.GateMemo
import Kaleidoscope.Sdk.Preflight
import Kaleidoscope.Sdk.ToolDiscovery
import Kaleidoscope.Candidates
import Kaleidoscope.InitChoice
import Kaleidoscope.Doctor
import Kaleidoscope.Sdk.GateProbe
import Kaleidoscope.Sdk.NullPruning
import Kaleidoscope.Sdk.Opening
import Kaleidoscope.Lib.Runs
import Kaleidoscope.Scripts.PoisonScan
import Kaleidoscope.Prune
import Kaleidoscope.DryRun
