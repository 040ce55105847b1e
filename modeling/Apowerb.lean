import Apowerb.Store.Sync
import Apowerb.Trigger.Chain
import Apowerb.Trigger.Folder
import Apowerb.Run.Notice
import Apowerb.Run.Alert
import Apowerb.Run.Retry
import Apowerb.Engine.Partial
import Apowerb.Engine.Resume
import Apowerb.Store.Published
import Apowerb.Webhook.Attempts
import Apowerb.Webhook.Mail
import Apowerb.Webhook.Gmail
import Apowerb.Webhook.Fanout
import Apowerb.Agent.Fresh
import Apowerb.Agent.Runner
import Apowerb.Agent.Revisions
import Apowerb.Store.OauthStates
import Apowerb.Artifact.Saves
import Apowerb.Artifact.Stored
import Apowerb.Tools.SqlPool
import Apowerb.Webhook.Subscriptions
import Apowerb.Agent.Patch
import Apowerb.Bi.Options
import Apowerb.Bi.Slugs
import Apowerb.Bi.Overlaps
import Apowerb.Bugs.Reports
import Apowerb.Memory.CaseBank
import Apowerb.Bi.OneSelect
import Apowerb.Bi.Materialize
import Apowerb.Bi.Replenish
import Apowerb.Bi.Inventory
import Apowerb.Bi.NaiveForecast
import Apowerb.Bi.PreviousPeriod
import Apowerb.Bi.SqlGuard
import Apowerb.Bi.Patches
import Apowerb.Run.Trace
import Apowerb.Run.Heartbeat
import Apowerb.Agent.History
import Apowerb.Tools.Jsonable
import Apowerb.Agent.ExtractJson
import Apowerb.Agent.Guardrails
import Apowerb.Bi.Tracking
import Apowerb.Bi.UserTemplates
import Apowerb.Schedule.Frequency
import Apowerb.Shapes.Observed
import Apowerb.Engine.PickRoute
import Apowerb.Engine.OutputForm
import Apowerb.Digest.Transitions
import Apowerb.Engine.SendLimit
import Apowerb.Files.Tables
import Apowerb.Einvoice.Identifiers
import Apowerb.Fec.Detect
import Apowerb.Engine.Contained
import Apowerb.Forecast.Respects
import Apowerb.Suggest.Concludes
import Apowerb.Engine.ToolCalls
import Apowerb.Engine.Drive
import Apowerb.Sqlgen.SchemaPrompt
