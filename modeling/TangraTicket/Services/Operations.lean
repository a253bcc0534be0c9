import TangraTicket.Services.Backup
import TangraTicket.Services.Comments
import TangraTicket.Services.Inbound

/-!
The operations a caller can start, and sequential runs of them.
-/

namespace TangraTicket.Services

open GoText Store CallProgram

inductive Operation
  | create (subj : Subjects) (input : CreateInput)
  | update (subj : Subjects) (id : GoString) (input : UpdateInput)
  | delete (subj : Subjects) (id : GoString)
  | assignAs (subj : Subjects) (id assigneeID : GoString) (k : ActorKind)
  | setStatusAs (subj : Subjects) (id : GoString) (status : Status) (k : ActorKind)
  | setPriorityAs (subj : Subjects) (id : GoString) (priority : Priority) (k : ActorKind)
  | addNote (subj : Subjects) (ticketID body : GoString)
  | reply (subj : Subjects) (ticketID body : GoString)
  | deleteComment (subj : Subjects) (id : GoString)
  | ingest (route : MailboxRoute) (recipient : GoString) (msg : Message)
  | applyRules (subj : Subjects) (ticketID : GoString) (dec : Rules.Decision)
  | importBackup (subj : Subjects) (b : Backup.Document) (opts : Backup.Options)

def finish {ε α : Type} (x : Fallible Call Answer ε α) : Act Unit := x.run >>= fun _ => pure ()

variable [GoLibrary] (d : Deps)

def Operation.act : Operation → Act Unit
  | .create subj input => finish (Tickets.create d subj input)
  | .update subj id input => finish (Tickets.update d subj id input)
  | .delete subj id => finish (Tickets.delete d subj id)
  | .assignAs subj id assigneeID k => finish (Tickets.assignAs d subj id assigneeID k)
  | .setStatusAs subj id status k => finish (Tickets.setStatusAs d subj id status k)
  | .setPriorityAs subj id priority k => finish (Tickets.setPriorityAs d subj id priority k)
  | .addNote subj ticketID body => finish (Comments.addNote d subj ticketID body)
  | .reply subj ticketID body => finish (Comments.reply d subj ticketID body)
  | .deleteComment subj id => finish (Comments.delete d subj id)
  | .ingest route recipient msg => finish (Inbound.ingest d (systemFor route.tenantID) route recipient msg)
  | .applyRules subj ticketID dec => finish (Rules.apply d subj ticketID dec)
  | .importBackup subj b opts => finish (Backup.importDocument d subj b opts)

/-- One operation after the other. -/
def session (ops : List Operation) : Act Unit := ops.forM (Operation.act d)

end TangraTicket.Services
