import HpServer.App.AccessLog
import HpServer.App.FileTransfer
import HpServer.App.HeadRequests
import HpServer.App.ManagementServer
import HpServer.App.ResponseLimits
import HpServer.Base.BufferQueue
import HpServer.Http.ParserBounds
import HpServer.Http.TaskRoutes
import HpServer.Http.Validators
import HpServer.Net.EventLoopTasks
import HpServer.Net.RegistryIntegrity
import HpServer.Timer.TimerQueue
