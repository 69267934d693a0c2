import ActiveHarmony.CString
import ActiveHarmony.Config.Hcfg
import ActiveHarmony.Config.Refinement
import ActiveHarmony.Data
import ActiveHarmony.Config.Parse
import ActiveHarmony.Config.SaveFile
import ActiveHarmony.Config.Escape
import ActiveHarmony.Lib.LinearProbe
import ActiveHarmony.Lib.RingBuffer
import ActiveHarmony.Lib.TextScan
import ActiveHarmony.Wire.Serialize
import ActiveHarmony.Wire.Deserialize
import ActiveHarmony.Config.Merge
import ActiveHarmony.Config.Capacity
import ActiveHarmony.Wire.RoundTrip
import ActiveHarmony.Wire.Framing
import ActiveHarmony.Wire.Reception
import ActiveHarmony.Lib.ArrayFill
import ActiveHarmony.Wire.FailedDecode
import ActiveHarmony.Session.Core
import ActiveHarmony.Session.Ledger
import ActiveHarmony.Session.Custody
import ActiveHarmony.Session.Conservation
import ActiveHarmony.Session.Queue
import ActiveHarmony.Session.Bracketing
import ActiveHarmony.Strategy.Common
import ActiveHarmony.Strategy.NelderMead
import ActiveHarmony.Strategy.Libvertex
import ActiveHarmony.Lib.ArgMin
import ActiveHarmony.Strategy.NelderMeadPivots
import ActiveHarmony.Strategy.NelderMeadBounds
import ActiveHarmony.Lib.Odometer
import ActiveHarmony.Strategy.Exhaustive
import ActiveHarmony.Strategy.ExhaustiveConvergence
import ActiveHarmony.Strategy.ExhaustiveGrid
import ActiveHarmony.Strategy.ExhaustiveRestart
import ActiveHarmony.Session.Workflow
import ActiveHarmony.Strategy.ExhaustiveReject
import ActiveHarmony.Strategy.Random
import ActiveHarmony.Session.Restart
import ActiveHarmony.Session.Extend
import ActiveHarmony.Session.Steps
import ActiveHarmony.Session.ReportFit
import ActiveHarmony.Session.CallbackError
import ActiveHarmony.Strategy.Pro
import ActiveHarmony.Strategy.ProRounds
import ActiveHarmony.Strategy.ProBounds
import ActiveHarmony.Lib.SendWindow
import ActiveHarmony.Strategy.ProAccount
import ActiveHarmony.Strategy.ProPivots
import ActiveHarmony.Strategy.BestKnown
import ActiveHarmony.Strategy.Bandit
import ActiveHarmony.Server.Core
import ActiveHarmony.Server.BestReport
import ActiveHarmony.Server.ClientLists
import ActiveHarmony.Server.Routing
import ActiveHarmony.Lib.PrefixArray
import ActiveHarmony.Server.TrialLog
import ActiveHarmony.Server.SlotReuse
import ActiveHarmony.Lib.SlotTable
import ActiveHarmony.Server.CodeGenerator
import ActiveHarmony.Lib.Delimited
import ActiveHarmony.Server.Http
import ActiveHarmony.Layer.Codegen
import ActiveHarmony.Layer.Cache
import ActiveHarmony.Session.Refill
import ActiveHarmony.Layer.CacheLog
import ActiveHarmony.Layer.CacheCalls
import ActiveHarmony.Layer.CacheTurns
import ActiveHarmony.Layer.Aggregate
import ActiveHarmony.Layer.AggregateValue
import ActiveHarmony.Client.Core
import ActiveHarmony.Client.BestPoint
import ActiveHarmony.Client.Alternation
import ActiveHarmony.Client.Descriptor
import ActiveHarmony.Lib.BoundedBuffer
import ActiveHarmony.Config.ParseBuffer
import ActiveHarmony.Config.LoadWindow
import ActiveHarmony.Client.Directives
import ActiveHarmony.Session.Setcfg
import ActiveHarmony.Lib.Heap
import ActiveHarmony.Layer.GroupHint
import ActiveHarmony.Layer.Group
import ActiveHarmony.Lib.XReal
import ActiveHarmony.Lib.ListModify
import ActiveHarmony.Strategy.BanditScores
import ActiveHarmony.Lib.NearestPoint
import ActiveHarmony.Signature.Range
import ActiveHarmony.Lib.FloatFormat
import ActiveHarmony.Signature.Declare
import ActiveHarmony.Signature.Arithmetic
import ActiveHarmony.Signature.Usable
import ActiveHarmony.Client.Binding
import ActiveHarmony.Strategy.Nemo
import ActiveHarmony.Strategy.NemoPhases
import ActiveHarmony.Strategy.VertexPoint
import ActiveHarmony.Lib.GrowArray
import ActiveHarmony.Server.Allocations
import ActiveHarmony.Session.Allocations
import ActiveHarmony.Lib.PrintBuffer
import ActiveHarmony.Wire.SerializeBuffer
import ActiveHarmony.Strategy.PointText
import ActiveHarmony.Layer.GroupArrays
import ActiveHarmony.Strategy.BanditList
import ActiveHarmony.Server.HttpSend
import ActiveHarmony.Server.UriDecode
import ActiveHarmony.Server.HttpRequest
import ActiveHarmony.Layer.Httpinfo
import ActiveHarmony.Client.Tuna
import ActiveHarmony.Server.CodeUrl
import ActiveHarmony.Config.Rehash
import ActiveHarmony.Strategy.SimplexFit
import ActiveHarmony.Server.SlaveList
import ActiveHarmony.Lib.StringBuffer
import ActiveHarmony.Layer.Constraint
import ActiveHarmony.Lib.EditScan
import ActiveHarmony.Wire.InPlace
import ActiveHarmony.Wire.Terminated
import ActiveHarmony.Layer.CodegenHelper
import ActiveHarmony.Lib.RegularSimplex
import ActiveHarmony.Strategy.UnitSimplex
import ActiveHarmony.Strategy.InitialSimplex
import ActiveHarmony.Strategy.SimplexCfg
import ActiveHarmony.Strategy.SimplexRun
import ActiveHarmony.Session.AskTell
import ActiveHarmony.Strategy.ExhaustiveOptimum
import ActiveHarmony.Strategy.SimplexSession
import ActiveHarmony.Wire.Channel
import ActiveHarmony.Client.Values
