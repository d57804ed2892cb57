import Codex.ApplyPatch.ErrorLines
import Codex.ApplyPatch.Streaming
import Codex.ApplyPatch.RoundTrip
import Codex.ApplyPatch.Preview
import Codex.StreamParser.AssistantText
import Codex.Session.TurnMetadata
import Codex.ExecPolicy.ApprovalOrder
import Codex.ExecPolicy.PrefixAmend
import Codex.Sandbox.Intersection
import Codex.NetworkProxy.Telemetry
import Codex.Session.UserTruncation
import Codex.RemoteControl.Delivery
import Codex.ExecServer.EventDelivery
import Codex.ExecServer.SessionFailure
import Codex.ExecServer.PagedReads
import Codex.ExecServer.HttpBodyDelivery
import Codex.ExecServer.SessionAttachment
import Codex.Desktop.TurnAttribution
import Codex.AppServer.StatusPublication
import Codex.Agent.SpawnAccounting
import Codex.AgentBackend.Completion
import Codex.RolloutTrace.DeltaReplay
import Codex.NetworkApproval.Agreement
import Codex.NetworkApproval.Attribution
import Codex.RolloutTrace.AgentDeliveries
import Codex.LinuxSandbox.ViewWithinPolicy
import Codex.ApplyPatch.Replacements
import Codex.StreamParser.HiddenTagScan
import Codex.AgentJobs.Cancellation
import Codex.ThreadGoals.Accounting
import Codex.MemoryJobs.Lawful
import Codex.RolloutTrace.TurnEnds
import Codex.StreamParser.TaggedLineScan
import Codex.StreamParser.Utf8Stream
import Codex.Config.OverrideReport
import Codex.RemoteControl.Inbound
import Codex.AppServer.ThreadState
import Codex.ExecServer.EventLog
import Codex.Agent.Nicknames
import Codex.TurnDiff.Baselines
import Codex.Config.DocumentEdits
import Codex.Session.RollbackComposition
import Codex.Session.ItemRemoval
import Codex.Session.TruncatedOutput
import Codex.Template.RoundTrip
import Codex.ThreadHistory.RollbackAgreement
import Codex.ThreadList.Ties
import Codex.ExecPolicy.RuleHosts
import Codex.Sandbox.LegacyPolicy
import Codex.NetworkProxy.HostBlocked
import Codex.Desktop.LspFrames
import Codex.ContentSearch.Session
import Codex.Desktop.LspRouting
import Codex.Desktop.WalGc
import Codex.AgentJobs.ExportCsv
import Codex.AgentJobs.Instruction
import Codex.UnifiedExec.OutputDeltas
import Codex.Sandbox.AdditionalRoots
