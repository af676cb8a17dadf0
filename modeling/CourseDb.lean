import CourseDb.Auth.Passwords
import CourseDb.Cluster.Failover
import CourseDb.Execution.ExactStatements
import CourseDb.Index.PageCapacity
import CourseDb.Index.ParentRuns
import CourseDb.Index.ReadLoops
import CourseDb.Index.TreeRange
import CourseDb.Logging.Logger
import CourseDb.Parser.Productions
import CourseDb.Parser.Render
import CourseDb.Queue.CompletedResults
import CourseDb.Server.Authorisation
import CourseDb.Server.DataDirectory
import CourseDb.Server.SessionIsolation
import CourseDb.Storage.RowCounters
import CourseDb.Storage.TableFile
import CourseDb.Telemetry.Metrics
import CourseDb.Transaction.TransactionManager
import CourseDb.Versioning.LogFile
import CourseDb.Versioning.RevertRuns
import CourseDb.Storage.FlatPages
