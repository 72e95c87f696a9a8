import PipeWireAO.Node.RowTransport
import PipeWireAO.Node.Dataflow.Contract
import PipeWireAO.Node.Leave
import PipeWireAO.Node.Retry.Contract
import PipeWireAO.Parameter.Handoff
import PipeWireAO.Parameter.Filter.Contract
import PipeWireAO.RunControl.Agreement
import PipeWireAO.Executor.WorkerGroup.Contract
import PipeWireAO.FilterGraph.Storage
import PipeWireAO.FilterGraph.Meaning
import PipeWireAO.FilterGraph.Transaction.Run
import PipeWireAO.Pod.Confined
import PipeWireAO.Pod.Roundtrip
import PipeWireAO.Pod.Lookup
import PipeWireAO.Ndarray.Size
import PipeWireAO.NdarrayFilter.Regions
import PipeWireAO.Access.OwnUpdates
import PipeWireAO.Scheduler.Components
import PipeWireAO.Scheduler.Restart
import PipeWireAO.Json.Walk
import PipeWireAO.Native.Reenter
import PipeWireAO.Native.Link
import PipeWireAO.Pod.Intersect
import PipeWireAO.FilterChain.Startup
import PipeWireAO.FilterGraph.Names
import PipeWireAO.NdarrayFilter.Latest
import PipeWireAO.Node.Transport
import PipeWireAO.FilterGraph.Lifecycle
import PipeWireAO.Node.PollDriver
import PipeWireAO.Node.SignalTime
import PipeWireAO.Mem.Mapping
import PipeWireAO.Link.FindFormat
import PipeWireAO.Loop.Invoke
