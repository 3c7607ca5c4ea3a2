import InfrixPlayground.Lib.Machine
import InfrixPlayground.Lib.AssocMap
import InfrixPlayground.Lib.Tally
import InfrixPlayground.Lib.Chan
import InfrixPlayground.Lib.AsyncQueue
import InfrixPlayground.Lib.Calls
import InfrixPlayground.Lib.Decimal
import InfrixPlayground.Lib.Json
import InfrixPlayground.Lib.JsonText
import InfrixPlayground.Lib.EventStream
import InfrixPlayground.Lib.JsValue
import InfrixPlayground.Lib.GoText
import InfrixPlayground.Lib.FilePath
import InfrixPlayground.Lib.PercentCoding
import InfrixPlayground.Lib.ServeMux
import InfrixPlayground.Externals
import InfrixPlayground.Worker.Flow
import InfrixPlayground.Worker.StepHashes
import InfrixPlayground.Worker.Runner
import InfrixPlayground.Worker.Narration
import InfrixPlayground.Worker.Artifacts
import InfrixPlayground.Worker.HashLines
import InfrixPlayground.Lib.TokenBucket
import InfrixPlayground.Api.RateLimit
import InfrixPlayground.Api.RateBound
import InfrixPlayground.Lib.KeyedService
import InfrixPlayground.Api.RateDecisions
import InfrixPlayground.Api.Receipts
import InfrixPlayground.Api.StoreSys
import InfrixPlayground.Api.ShareLinks
import InfrixPlayground.Api.StoreHistory
import InfrixPlayground.Api.FailedPut
import InfrixPlayground.Api.Reopen
import InfrixPlayground.Api.Run
import InfrixPlayground.Api.RunTask
import InfrixPlayground.Api.RunEvents
import InfrixPlayground.Api.Subscribers
import InfrixPlayground.Api.RunManager
import InfrixPlayground.Api.RunHistory
import InfrixPlayground.Api.Counters
import InfrixPlayground.Api.Snapshots
import InfrixPlayground.Api.Delivery
import InfrixPlayground.Api.Assurance
import InfrixPlayground.Api.Guard
import InfrixPlayground.Api.Server
import InfrixPlayground.Api.RunEndpoints
import InfrixPlayground.Api.RateHistory
import InfrixPlayground.Api.Admission
import InfrixPlayground.Api.Verify
import InfrixPlayground.Api.Visitors
import InfrixPlayground.Api.Site
import InfrixPlayground.Api.Routes
import InfrixPlayground.Web.ReceiptPage
import InfrixPlayground.Web.RunTheater
import InfrixPlayground.Web.Pacing
import InfrixPlayground.Web.Wire
import InfrixPlayground.Web.Visit
import InfrixPlayground.Web.Completion
import InfrixPlayground.Web.Truthful
import InfrixPlayground.Web.Spine
import InfrixPlayground.Web.Picker
import InfrixPlayground.Web.Router
import InfrixPlayground.Web.Links
import InfrixPlayground.Web.BundleScene
import InfrixPlayground.Web.Tamper
import InfrixPlayground.Web.TamperTargets
import InfrixPlayground.Web.VerifyPage
import InfrixPlayground.Web.TamperLab
