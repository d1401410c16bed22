import Folksong.Conf.RoundTrip
import Folksong.Conf.Refill
import Folksong.Lib.Transition
import Folksong.Conf.Parse
import Folksong.Mod.Table
import Folksong.Mod.Contexts
import Folksong.Mod.Effects
import Folksong.Mod.TypedRun
import Folksong.Conf.Conduct
import Folksong.Conf.Nesting
import Folksong.Conf.Complete
import Folksong.Conf.CommandLine
import Folksong.Mod.Registry
import Folksong.Http.Connection
import Folksong.Lib.Pool
import Folksong.Lib.Search
import Folksong.Kafka.Child
import Folksong.Kafka.Topic
import Folksong.Conf.Rollback
import Folksong.Mod.Rivals
import Folksong.Mod.Dispatch
import Folksong.Conf.Depth
import Folksong.Mod.Parent
import Folksong.Http.Append
import Folksong.Http.Headers
import Folksong.Http.Answer
import Folksong.Mod.TimerLoop
import Folksong.Conf.Record
import Folksong.Mod.Order
import Folksong.Http.Route
import Folksong.Http.Configured
import Folksong.Http.Resolve
import Folksong.Kafka.Args
import Folksong.Kafka.Queue
import Folksong.Mod.Exec
import Folksong.Mod.Time
import Folksong.Conf.Tiling
import Folksong.Mod.Stale
import Folksong.Core.Storage
import Folksong.Core.Queue
import Folksong.Http.Template
import Folksong.Http.NextPath
import Folksong.Http.Substitution
import Folksong.Mod.Inited
import Folksong.Conf.Main
import Folksong.Conf.Decode
import Folksong.Mod.Closed
import Folksong.Mod.TimerWords
import Folksong.Mod.TimerBlock
import Folksong.Script.Read
import Folksong.Script.Start
import Folksong.Lib.Edge
import Folksong.Kafka.Wakeup
import Folksong.Http.Server
import Folksong.Mod.Schedule
import Folksong.Script.Reading
import Folksong.Http.Service
import Folksong.Conf.Errlog
import Folksong.Script.Schedule
import Folksong.Http.Resources
import Folksong.Script.Program
