import TangraTicket.Properties.ResolvedAt
import TangraTicket.Properties.HistoryChain
import TangraTicket.Properties.HistoryRaces
import TangraTicket.Properties.FailedChanges
import TangraTicket.Properties.Reopen
import TangraTicket.Properties.ExactlyOnce
import TangraTicket.Properties.TenantIsolation
import TangraTicket.Library.Machine
import TangraTicket.Properties.MailboxDelete
import TangraTicket.Properties.TagReplace
import TangraTicket.Properties.CommentCount
import TangraTicket.Properties.CascadeKeys
import TangraTicket.Stream.Hub
import TangraTicket.Properties.Replay
import TangraTicket.Properties.SingleAck
import TangraTicket.Properties.RecordedFirst
import TangraTicket.Properties.AckLoop
import TangraTicket.Properties.ReferenceToken
import TangraTicket.Properties.RuleDecision
import TangraTicket.Properties.RuleOrder
import TangraTicket.Properties.RuleLimit
import TangraTicket.Properties.LiveReplay
import TangraTicket.Properties.Reconnect
import TangraTicket.Properties.RefusedDelivery
import TangraTicket.Properties.AccountedAttachments
import TangraTicket.Properties.AttachmentSync
import TangraTicket.Properties.TagLinks
import TangraTicket.Properties.ImportFrame
import TangraTicket.Properties.SafeFilename
import TangraTicket.Properties.CompiledConditions
import TangraTicket.Properties.DryRun
import TangraTicket.Properties.AppliedDecision
import TangraTicket.Properties.Addressees
import TangraTicket.Properties.ReplySubject
import TangraTicket.Properties.LiteralSearch
import TangraTicket.Properties.SecretAge
import TangraTicket.Properties.AuditRedaction
import TangraTicket.Properties.RoutableAddress
import TangraTicket.Properties.SubjectLines
import TangraTicket.Properties.SubjectTrip
import TangraTicket.Properties.OwnImages
import TangraTicket.Properties.DashboardSums
import TangraTicket.Properties.AuditText
import TangraTicket.Properties.NewIds
import TangraTicket.Properties.Representation
import TangraTicket.Properties.AuditQueue
import TangraTicket.Properties.HubRuns
