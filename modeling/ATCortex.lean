import ATCortex.Lib.CString
import ATCortex.Lib.EState
import ATCortex.Lib.Transition
import ATCortex.Lib.Lockstep
import ATCortex.Lib.Rank
import ATCortex.Lib.Ghost
import ATCortex.Lib.Simulation
import ATCortex.Lib.Relational
import ATCortex.Lib.Ledger
import ATCortex.Lib.Cyclic
import ATCortex.Lib.NextFree
import ATCortex.Lib.LinkedList
import ATCortex.Lib.Refinement
import ATCortex.Lib.Serial
import ATCortex.Lib.Lines
import ATCortex.Lib.Trace
import ATCortex.Lib.Window
import ATCortex.Lib.Tick
import ATCortex.Impl.RingBuffer
import ATCortex.Impl.RingHandle
import ATCortex.Impl.RingThreads
import ATCortex.Impl.Stack
import ATCortex.Impl.Basic
import ATCortex.Impl.Interface
import ATCortex.Impl.Slist
import ATCortex.Impl.UrcHeap
import ATCortex.Impl.UrcHandle
import ATCortex.Impl.RecvDataHandle
import ATCortex.Impl.SendMsgHandle
import ATCortex.Impl.ExternMsgHandle
import ATCortex.Impl.Process
import ATCortex.Impl.Init
import ATCortex.Impl.System
import ATCortex.Impl.FineSystem
import ATCortex.Lemmas.RingBuffer
import ATCortex.Lemmas.RingLog
import ATCortex.Lemmas.RingThreads
import ATCortex.Lemmas.Stack
import ATCortex.Lemmas.Slist
import ATCortex.Lemmas.Interface
import ATCortex.Lemmas.CommandEnd
import ATCortex.Lemmas.Line
import ATCortex.Lemmas.ByteLine
import ATCortex.Lemmas.BytePrompt
import ATCortex.Lemmas.Byte
import ATCortex.Lemmas.WF
import ATCortex.Lemmas.Ownership
import ATCortex.Lemmas.Entry
import ATCortex.Lemmas.Submit
import ATCortex.Lemmas.Extern
import ATCortex.Lemmas.Stage
import ATCortex.Lemmas.Alike
import ATCortex.Lemmas.Step
import ATCortex.Lemmas.Reach
import ATCortex.Lemmas.Record
import ATCortex.Lemmas.Feed
import ATCortex.Lemmas.Trace
import ATCortex.Lemmas.Resources
import ATCortex.Lemmas.Answer
import ATCortex.Lemmas.Progress
import ATCortex.Lemmas.Calls
import ATCortex.Lemmas.Outcome
import ATCortex.Lemmas.Registry
import ATCortex.Lemmas.UrcIds
import ATCortex.Lemmas.UrcCalls
import ATCortex.Lemmas.UrcHeap
import ATCortex.Lemmas.Service
import ATCortex.Lemmas.Account
import ATCortex.Lemmas.Init
import ATCortex.Properties.Routing
import ATCortex.Properties.WakeUp
import ATCortex.Properties.Reception
import ATCortex.Properties.Progress
import ATCortex.Properties.NullTask
import ATCortex.Properties.Lines
import ATCortex.Properties.Completion
import ATCortex.Properties.Prompt
import ATCortex.Properties.Binary
import ATCortex.Properties.Independence
import ATCortex.Properties.Response
import ATCortex.Properties.Bounds
import ATCortex.Properties.Dispatch
import ATCortex.Properties.Holes
import ATCortex.Properties.Cleanup
import ATCortex.Properties.Dangling
import ATCortex.Properties.NoTimeout
import ATCortex.Properties.Deadline
import ATCortex.Properties.SyncSend
import ATCortex.Properties.Registration
import ATCortex.Properties.Answerable
import ATCortex.Properties.Account
import ATCortex.Properties.DataCount
import ATCortex.Properties.RingHandle
import ATCortex.Properties.Init
import ATCortex.Properties.RingThreads
import ATCortex.Properties.FineSystem
import ATCortex.Properties.UrcIds
import ATCortex.Properties.Stack
import ATCortex.Properties.Slist
import ATCortex.Properties.UrcHeap
