import ScriptHost.Host.Trial
import ScriptHost.Json.Access
import ScriptHost.Main
import ScriptHost.Proofs.Bridge.Generations
import ScriptHost.Proofs.Bridge.Outstanding
import ScriptHost.Proofs.CommandLine.Atomicity
import ScriptHost.Proofs.Engine.Copies
import ScriptHost.Proofs.Engine.Joining
import ScriptHost.Proofs.Engine.MemberSlots
import ScriptHost.Proofs.Engine.Natives
import ScriptHost.Proofs.Engine.RoundTrip
import ScriptHost.Proofs.Engine.SharedKeys
import ScriptHost.Proofs.Engine.Statics
import ScriptHost.Proofs.Engine.Tracebacks
import ScriptHost.Proofs.Handles.Accounts
import ScriptHost.Proofs.Handles.Sessions
import ScriptHost.Proofs.Host.Budgets
import ScriptHost.Proofs.Host.Counting
import ScriptHost.Proofs.Host.Definitions
import ScriptHost.Proofs.Host.Indices
import ScriptHost.Proofs.Host.Layout
import ScriptHost.Proofs.Image.CallGraph
import ScriptHost.Proofs.Image.Codec
import ScriptHost.Proofs.Image.Embedding
import ScriptHost.Proofs.Image.Preservation
import ScriptHost.Proofs.Image.Reinjection
import ScriptHost.Proofs.Image.Relocation
import ScriptHost.Proofs.Image.Types
import ScriptHost.Proofs.Script.Chunks
import ScriptHost.Proofs.Session.Collecting
import ScriptHost.Proofs.Session.Fallback
import ScriptHost.Proofs.Session.MethodCalls
import ScriptHost.Proofs.Session.Override
import ScriptHost.Proofs.Session.Tasks
import ScriptHost.Session.Basic
import ScriptHost.Session.Conversion
