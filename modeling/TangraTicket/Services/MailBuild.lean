import TangraTicket.Library.EncodedWord
import TangraTicket.Services.Mail

/-!
The text of an outbound message (`internal/mailer/mailer.go`): its header fields in order, the
subject encoded and folded, and the quoted-printable body.
-/

namespace TangraTicket.Services.Mailer

open GoText EncodedWord Store

/-- The characters that fit into `room` bytes, and the rest. -/
def chunk : ℕ → List Piece → List Piece × List Piece
  | _, [] => ([], [])
  | room, p :: ps =>
    if p.bytes.length > room then ([], p :: ps)
    else ((p :: (chunk (room - p.bytes.length) ps).1), (chunk (room - p.bytes.length) ps).2)

/-- Text for words of 45 bytes at most; a character always fits, so `rounds` of the number of
characters are enough. -/
def chunks : (rounds : ℕ) → List Piece → List (List Piece)
  | 0, _ => []
  | _ + 1, [] => []
  | rounds + 1, p :: ps => (chunk 45 (p :: ps)).1 :: chunks rounds (chunk 45 (p :: ps)).2

def subjectWords (subject : GoString) : List GoString :=
  (chunks (pieces subject).length (pieces subject)).map fun c => bWord (joinPieces c)

def encodeSubject (subject : GoString) : GoString :=
  if (qEncode subject).length ≤ 66 then qEncode subject else join (subjectWords subject) "\r\n "

/-- What the libraries write: `mail.Address.String`, a time in RFC 1123 with a numeric zone, and the
output of a closed `quotedprintable` writer. -/
class MailWriter where
  addressString : (name address : GoString) → GoString
  formatDate : Time → GoString
  quotedPrintable : GoString → GoString

def bracketed (id : GoString) : GoString := goString "<" ++ id ++ goString ">"

def field (name : String) (value : GoString) : GoString × GoString := (goString name, value)

def fieldText (f : GoString × GoString) : GoString := f.1 ++ goString ": " ++ f.2 ++ goString "\r\n"

variable [MailWriter]

def headerFields (m : OutMail) (now : Time) : List (GoString × GoString) :=
  [field "From" (MailWriter.addressString m.fromName m.fromAddress),
    field "To" (MailWriter.addressString m.toName m.toAddress),
    field "Subject" (encodeSubject m.subject), field "Date" (MailWriter.formatDate now),
    field "Message-ID" (bracketed m.messageID)] ++
  (if m.inReplyTo ≠ [] then [field "In-Reply-To" (bracketed m.inReplyTo)] else []) ++
  -- one id per line
  (if m.references ≠ [] then [field "References" (join (m.references.map bracketed) "\r\n ")] else []) ++
  (if m.autoReply then [field "Auto-Submitted" "auto-replied", field "Precedence" "auto_reply"] else []) ++
  [field "MIME-Version" "1.0", field "X-Mailer" "freya-ticket",
    field "Content-Type" "text/plain; charset=utf-8", field "Content-Transfer-Encoding" "quoted-printable"]

/-- Nothing when the mail is not valid. -/
def build [GoLibrary] (m : OutMail) (now : Time) : Option GoString :=
  if validate m then
    some ((headerFields m now).flatMap fieldText ++ goString "\r\n" ++
      MailWriter.quotedPrintable (toValidUTF8 m.text (encode [0xFFFD])) ++ goString "\r\n")
  else none

end TangraTicket.Services.Mailer
