import Pgaio.Go.ServeMux
import Pgaio.Transition.Run
import Pgaio.Concurrency.Mutex
import Pgaio.Concurrency.Solo
import Pgaio.Store.Recency
import Pgaio.Database.Rows
import Pgaio.Postgres.ConfFile
import Pgaio.Service.WalGRecovery
import Pgaio.Service.WalGRetention
import Pgaio.Service.WalGRetry
import Pgaio.Service.WalGServer
import Pgaio.Service.AlertAlternation
import Pgaio.Service.AlertEpisodes
import Pgaio.Service.Telegram
import Pgaio.Service.AlertCooldown
import Pgaio.Service.ProfileEnabling
import Pgaio.Service.WALStats
import Pgaio.Service.WeeklyRun
import Pgaio.Service.SettingsLimits
import Pgaio.Service.ConfigRange
import Pgaio.Service.ConfigLoading
import Pgaio.Handler.SettingsMask
import Pgaio.Service.PoolUse
import Pgaio.Service.ConnText
import Pgaio.Service.PoolFailures
import Pgaio.Service.PoolProfiles
import Pgaio.Service.AuthExpiry
import Pgaio.Service.RecencyStores
import Pgaio.Service.JobArtifacts
import Pgaio.Handler.PoolRequests
import Pgaio.Handler.RepackCancel
import Pgaio.Handler.RepackSlot
import Pgaio.Handler.RepackStatus
import Pgaio.Handler.Locks
import Pgaio.Handler.LockTree
import Pgaio.Handler.LockTreeSize
import Pgaio.Handler.LockDetails
import Pgaio.Handler.SchedulePace
import Pgaio.Handler.ScheduleStatus
import Pgaio.Handler.Logs
import Pgaio.Handler.SchemaDrift
import Pgaio.Handler.SchemaPatch
import Pgaio.Handler.SQL
import Pgaio.Handler.SQLFaithful
import Pgaio.Handler.ServerOverview
import Pgaio.Server.Access
import Pgaio.Server.Gate
import Pgaio.Container.EntrypointSafety
import Pgaio.Web.ApiProtected
import Pgaio.Go.Numbers
import Pgaio.Service.TunerConsistency
import Pgaio.Web.TunerPreview
import Pgaio.Service.TunerStability
import Pgaio.Handler.RecentLogs
import Pgaio.Service.ProcStats
import Pgaio.Postgres.Lexer
import Pgaio.Postgres.Tokens
import Pgaio.Postgres.Statements
import Pgaio.Handler.AlterSystem
import Pgaio.Go.Quote
import Pgaio.Handler.Maintenance
import Pgaio.Handler.MaintenanceSQL
import Pgaio.Handler.ObjectCommands
import Pgaio.Handler.ExplainQuery
import Pgaio.Handler.ParamReplacing
import Pgaio.Handler.ExplainParams
import Pgaio.Postgres.WithClause
import Pgaio.Handler.ExplainReadOnly
import Pgaio.Go.Split
import Pgaio.Service.PgBouncerConfig
import Pgaio.Service.S3
import Pgaio.Service.AdminAddress
import Pgaio.Text.Replace
import Pgaio.Text.Html
import Pgaio.Text.JavaScript
import Pgaio.Web.Escaping
import Pgaio.Web.SqlHistory
import Pgaio.Web.RowButtons
import Pgaio.Web.S3Browser
import Pgaio.Web.SettingsPages
import Pgaio.Go.TimeText
import Pgaio.Web.PitrDialog
import Pgaio.Go.RouteConflicts
import Pgaio.Server.Routing
import Pgaio.Web.Dashboard
import Pgaio.Browser.Timers
import Pgaio.Browser.WebSocket
import Pgaio.Web.DashboardSocket
import Pgaio.Web.LogStream
import Pgaio.Concurrency.Ledger
import Pgaio.Service.FileJobs
import Pgaio.Service.DashboardPassword
import Pgaio.Service.JobOffers
import Pgaio.Handler.DatabaseIO
import Pgaio.Handler.FileBooks
import Pgaio.Handler.TempFiles
import Pgaio.Handler.FileJobSafety
import Pgaio.Handler.FileJobTruth
import Pgaio.Handler.FileKeeping
