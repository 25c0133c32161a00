import Windmill.Ai.Values
import Windmill.Ai.Stream
import Windmill.App.Locality
import Windmill.App.RateLimit
import Windmill.App.Secrets
import Windmill.App.Visitor
import Windmill.Auth.Routes
import Windmill.Cli.DependencyTree
import Windmill.Deps.Rebuild
import Windmill.Editor.NextId
import Windmill.Flow.Bookkeeping
import Windmill.Flow.Collapse
import Windmill.Flow.Interval
import Windmill.Flow.IterArgs
import Windmill.Flow.Order
import Windmill.Flow.Retry
import Windmill.Flow.Scope
import Windmill.Flow.Throttle
import Windmill.Jseval.FullRegex
import Windmill.Jseval.Property
import Windmill.Jseval.Semicolon
import Windmill.Mcp.Identity
import Windmill.Queue.Accumulate
import Windmill.Queue.Extract
import Windmill.Schedule.Chain
import Windmill.Schedule.Once
import Windmill.Sql.Declared
import Windmill.Sql.Interpolation
import Windmill.Sql.Placeholders
import Windmill.Store.Termination
import Windmill.Trash.Restore
import Windmill.Trigger.Bytea
import Windmill.Trigger.Credentials
import Windmill.Wac.Approvals
import Windmill.Wac.Cache
import Windmill.Wac.Join
import Windmill.Wac.Pinning
import Windmill.Wac.Rounds
import Windmill.Worker.MaskStore
import Windmill.Worker.ResultStream
import Windmill.Worker.UserFile
