import ShaderNet.Changes
import ShaderNet.CommandLine
import ShaderNet.Describe
import ShaderNet.Document.Basic
import ShaderNet.Expression
import ShaderNet.FileTree
import ShaderNet.Fragment.Exports
import ShaderNet.Identifier
import ShaderNet.Main
import ShaderNet.Net.Edit
import ShaderNet.Net.Plan
import ShaderNet.NodeKind.Recipes
import ShaderNet.Template.Builtin
import ShaderNet.ValueType.Conversion
import ShaderNet.ValueType.Name
import ShaderNet.ValueType.Zero
import ShaderNet.Workspace.Compile
import ShaderNet.Workspace.Edit
import ShaderNet.Proofs.Net.Indexes
import ShaderNet.Proofs.Net.Sound
import ShaderNet.Proofs.Net.Edits
import ShaderNet.Proofs.Evaluate.Reference
import ShaderNet.Proofs.Evaluate.Cached
import ShaderNet.Proofs.Net.Reach
import ShaderNet.Proofs.Changes
import ShaderNet.Proofs.NodeKind.Reads
import ShaderNet.Proofs.Evaluate.Dependence
import ShaderNet.Proofs.Evaluate.Invalidated
import ShaderNet.Proofs.Net.Unambiguous
import ShaderNet.Proofs.Workspace.Covered
import ShaderNet.Proofs.Evaluate.Queries
import ShaderNet.Proofs.Workspace.Coherent
import ShaderNet.Proofs.Workspace.Edits
import ShaderNet.Proofs.Session.Coherent
import ShaderNet.Proofs.Session.Sound
import ShaderNet.Proofs.Document.WellFormed
import ShaderNet.Proofs.Net.Converge
import ShaderNet.Proofs.Net.Plan
import ShaderNet.Proofs.Workspace.Load
import ShaderNet.Proofs.Session.Load
import ShaderNet.Proofs.Template.Exact
import ShaderNet.Proofs.Net.UpstreamOrder
import ShaderNet.Proofs.Evaluate.CacheGrowth
import ShaderNet.Proofs.Workspace.Shader
import ShaderNet.Proofs.Session.Questions
import ShaderNet.Proofs.Evaluate.Follow
import ShaderNet.Proofs.Template.Calls
import ShaderNet.Proofs.Evaluate.Rewire
import ShaderNet.Proofs.Workspace.Connectable
import ShaderNet.Proofs.Session.Connectable
import ShaderNet.Proofs.Net.Order
import ShaderNet.Proofs.Identifier
import ShaderNet.Proofs.Fragment.Words
import ShaderNet.Proofs.NodeKind.Mentions
import ShaderNet.Proofs.Evaluate.SelfContained
import ShaderNet.Proofs.Workspace.Asked
import ShaderNet.Proofs.Session.Steps
import ShaderNet.Proofs.Net.UpstreamKept
import ShaderNet.Proofs.Session.Proper
import ShaderNet.Proofs.Workspace.Declared
import ShaderNet.Proofs.Session.Declared
import ShaderNet.Proofs.Fragment.Layout
import ShaderNet.Proofs.Text
import ShaderNet.Proofs.Fragment.Declarations
import ShaderNet.Proofs.Fragment.Exported
import ShaderNet.Proofs.Net.Accounts
import ShaderNet.Proofs.Workspace.Accounts
import ShaderNet.Proofs.Session.Accounts
import ShaderNet.Proofs.Session.Refused
import ShaderNet.Proofs.Evaluate.Renewal
import ShaderNet.Proofs.Workspace.Readers
import ShaderNet.Proofs.Session.Readers
import ShaderNet.Proofs.Sameness
import ShaderNet.Proofs.Net.Reload
import ShaderNet.Proofs.Workspace.Reload
import ShaderNet.Proofs.Session.Reload
import ShaderNet.Proofs.Net.UniqueId
import ShaderNet.Proofs.Workspace.Paste
import ShaderNet.Proofs.NodeKind.Failures
import ShaderNet.Proofs.Net.Rank
import ShaderNet.Proofs.Evaluate.Acyclic
import ShaderNet.Proofs.Session.Guarded
import ShaderNet.Proofs.Workspace.Duplicate
import ShaderNet.Proofs.Session.Duplicate
import ShaderNet.Proofs.Evaluate.Kept
import ShaderNet.Proofs.Net.Traced
import ShaderNet.Proofs.Workspace.Traced
import ShaderNet.Proofs.Session.Overlooked
import ShaderNet.Proofs.Net.Untouched
import ShaderNet.Proofs.Session.Untouched
import ShaderNet.Proofs.Evaluate.Cycles
import ShaderNet.Proofs.Evaluate.Upstream
import ShaderNet.Proofs.Workspace.Upstream
import ShaderNet.Proofs.NodeKind.Renamed
import ShaderNet.Proofs.Evaluate.Renamed
import ShaderNet.Proofs.Session.Renamed
import ShaderNet.Proofs.ValueType.Regular
import ShaderNet.Proofs.Template.Collapsed
import ShaderNet.Proofs.NodeKind.Offered
import ShaderNet.Proofs.Evaluate.Offered
import ShaderNet.Proofs.Session.Offered
import ShaderNet.Proofs.ValueType.Canonical
import ShaderNet.Proofs.Document.Resaved
import ShaderNet.Proofs.Session.Names
import ShaderNet.Proofs.Session.Noted
import ShaderNet.Proofs.Session.Selectable
import ShaderNet.Proofs.Session.Minus
import ShaderNet.Proofs.Session.Typed
import ShaderNet.Proofs.Session.Approved
import ShaderNet.Proofs.Connection
import ShaderNet.Proofs.Template.Unordered
import ShaderNet.Proofs.Template.Accepted
import ShaderNet.Proofs.Fragment.Faults
import ShaderNet.Proofs.Fragment.Precision
import ShaderNet.Proofs.Net.UpstreamLoop
import ShaderNet.Proofs.Net.DownstreamLoop
import ShaderNet.Proofs.Net.Invalidated
import ShaderNet.Proofs.Template.Variants
import ShaderNet.Proofs.Net.Matched
import ShaderNet.Proofs.ValueType.Order
import ShaderNet.Proofs.ValueType.Normal
import ShaderNet.Proofs.NodeKind.Outlets
import ShaderNet.Proofs.NodeKind.Finite
import ShaderNet.Proofs.Session.Shown
import ShaderNet.Proofs.Session.Finite
