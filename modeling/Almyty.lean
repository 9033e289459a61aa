import Almyty.Access.CustomRoles
import Almyty.Access.Policy
import Almyty.Access.ScimGroups
import Almyty.Access.ScimProfiles
import Almyty.Agents.ConditionNode
import Almyty.Agents.ContextCompactor
import Almyty.Agents.InputSchema
import Almyty.Agents.RunLimits
import Almyty.Agents.ScheduleJobs
import Almyty.AlwaysOn.Capacity
import Almyty.AlwaysOn.LiveRun
import Almyty.AlwaysOn.Wakes
import Almyty.Approvals.Governing
import Almyty.Approvals.Retry
import Almyty.Approvals.Scoring
import Almyty.Approvals.Wakeup
import Almyty.Audit.StreamTargets
import Almyty.Billing.Delivery
import Almyty.Billing.Dunning
import Almyty.Budgets.SpendByAgent
import Almyty.Channels.AnswerStream
import Almyty.Channels.EditorStream
import Almyty.CodeMode.ChangeSets
import Almyty.CodeMode.CodeBroker
import Almyty.Common.ConditionReaders
import Almyty.Connections.Grants
import Almyty.Connections.Rotation
import Almyty.Kms.Readable
import Almyty.Lib.Utf8
import Almyty.Mcp.Isolation
import Almyty.Mcp.LineReader
import Almyty.Mcp.Supervisor
import Almyty.Memory.ChunkSizes
import Almyty.Memory.History
import Almyty.Memory.MoveEnds
import Almyty.Memory.StoredItems
import Almyty.Routing.EscalationLoop
import Almyty.Routing.Selection
import Almyty.Runner.CodingRelay
import Almyty.Runner.CwdRoots
import Almyty.Runner.ProcessManager
import Almyty.Runner.SessionFeed
import Almyty.Runner.WorkerStream
import Almyty.Runs.Folding
import Almyty.Runs.LeaseRuns
import Almyty.Runs.ProjectionCache
import Almyty.Runs.Reply
import Almyty.Runs.StepMetadata
import Almyty.Security.IpClassification
import Almyty.Security.SanitizedParameters
import Almyty.Security.Scanners
import Almyty.Strategies.Cascade
import Almyty.Strategies.Runnable
import Almyty.Tools.AmountRules
import Almyty.Tools.BodyTemplate
import Almyty.Tools.Fingerprints
import Almyty.Tools.FormBodies
import Almyty.Tools.HoldRequests
import Almyty.Tools.KeyMappings
import Almyty.Tools.PaginationSafety
import Almyty.Tools.SuccessCondition
import Almyty.Workflow.Accounting
import Almyty.Workflow.Layers
import Almyty.Workflow.ToolCalls
import Almyty.Workflow.Transparency
