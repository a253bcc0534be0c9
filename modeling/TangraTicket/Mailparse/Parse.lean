import TangraTicket.Mailparse.Html
import TangraTicket.Services.RuleEngine

/-!
The parser of raw messages (`internal/mailparse/mailparse.go`): headers, the walk through the parts
of a multipart body, and the cleaning of what it found.
-/

namespace TangraTicket.Mailparse

open GoText Services

/-- The limits of a parse. The byte limits are below 2 to the 60, so that no multiple of them overflows. -/
structure Limits where
  maxBodyBytes : ℤ := 0
  maxTextBytes : ℤ := 0
  maxAttachmentBytes : ℤ := 0
  maxParts : ℤ := 0
  maxDepth : ℤ := 0
  bytes_lt : maxBodyBytes < 2 ^ 60 ∧ maxTextBytes < 2 ^ 60 ∧ maxAttachmentBytes < 2 ^ 60 := by decide

def defaultLimits : Limits where
  maxBodyBytes := 10 * 2 ^ 20
  maxTextBytes := 2 ^ 20
  maxAttachmentBytes := 25 * 2 ^ 20
  maxParts := 100
  maxDepth := 10

def orDefault (limit default : ℤ) : ℤ := if limit ≤ 0 then default else limit

theorem orDefault_lt {limit default bound : ℤ} (h : limit < bound) (hd : default < bound) :
    orDefault limit default < bound := by
  unfold orDefault
  split_ifs
  · exact hd
  · exact h

def Limits.orDefaults (l : Limits) : Limits where
  maxBodyBytes := orDefault l.maxBodyBytes defaultLimits.maxBodyBytes
  maxTextBytes := orDefault l.maxTextBytes defaultLimits.maxTextBytes
  maxAttachmentBytes := orDefault l.maxAttachmentBytes defaultLimits.maxAttachmentBytes
  maxParts := orDefault l.maxParts defaultLimits.maxParts
  maxDepth := orDefault l.maxDepth defaultLimits.maxDepth
  bytes_lt := ⟨orDefault_lt l.bytes_lt.1 (by decide), orDefault_lt l.bytes_lt.2.1 (by decide),
    orDefault_lt l.bytes_lt.2.2 (by decide)⟩

section Headers

variable [GoLibrary] [MailLibrary]

def isAddressByte (b : UInt8) : Bool := !(b = 0x3C || b = 0x3E || b = 0x40 || isPatternSpace b)

/-- The address of a match of `<([^<>\s@]+@[^<>\s@]+)>` at the start of `s`. -/
def bracketAddressAt : GoString → Option GoString
  | 0x3C :: rest =>
    let user := rest.takeWhile isAddressByte
    match rest.dropWhile isAddressByte with
    | 0x40 :: rest' =>
      let domain := rest'.takeWhile isAddressByte
      if user ≠ [] ∧ domain ≠ [] ∧ (rest'.dropWhile isAddressByte).head? = some 0x3E then
        some (user ++ 0x40 :: domain)
      else none
    | _ => none
  | _ => none

def bracketAddress (v : GoString) : GoString := (v.tails.findSome? bracketAddressAt).getD []

def cleanAddress (v : GoString) : GoString :=
  let v := trimSpace v
  if v = [] ∨ v.length > maxAddressBytes ∨ containsAny v " <>\"" ∨ hasControl v then []
  else if (GoLibrary.parseAddress v).map Prod.snd = some v then v
  else []

/-- The recipient header value of a relay, reduced to a lower-case bare address. -/
def normalizeRecipient (v : GoString) : GoString :=
  let v := if bracketAddress v ≠ [] then bracketAddress v else v
  toLower (cleanAddress (trimSpace v))

/-- The addresses of one header value, after those in `out`. -/
def addAddresses (out : List GoString) (v : GoString) : List GoString :=
  match MailLibrary.parseAddressList wordReader v with
  | none =>
    if cleanAddress (bracketAddress v) ≠ [] then out ++ [cleanAddress (bracketAddress v)]
    else if cleanAddress v ≠ [] then out ++ [cleanAddress v]
    else out
  | some list =>
    list.foldl (fun out a =>
      if cleanAddress a.2 ≠ [] ∧ out.length < maxThreadIDs then out ++ [cleanAddress a.2] else out) out

def addressList (values : List GoString) : List GoString := values.foldl addAddresses []

omit [GoLibrary] [MailLibrary] in
/-- The ids of a header of `<id>` tokens. -/
def messageIDList (v : GoString) : List GoString :=
  (((fieldsFunc (fun r => isSpace r || r = 0x2C) v).map (trimBoth · "<>")).filter fun id =>
    !(id = [] || id.length > maxIDBytes || containsAny id "<>" || hasControl id ||
      !validString id)).take maxThreadIDs

def parseSpamScore (v : GoString) : UInt64 :=
  match MailLibrary.parseFloat (trimSpace v) with
  | none => 0
  | some f => if Rules.notFinite f then 0 else f

def orNoSubject (subject : GoString) : GoString := if subject = [] then noSubject else subject

def sender (v : GoString) : GoString × GoString :=
  match MailLibrary.parseAddress wordReader v with
  | some (name, address) => (truncRunes (oneLine name) maxNameRunes, cleanAddress address)
  | none => ([], cleanAddress (bracketAddress v))

def headers (h : Header) (out : Message) : Message :=
  let subject := (MailLibrary.decodeHeader wordReader (h.get "Subject")).getD (h.get "Subject")
  { out with
    subject := orNoSubject (truncRunes (oneLine subject) maxSubjectRunes)
    fromName := (sender (h.get "From")).1
    fromEmail := (sender (h.get "From")).2
    to_ := addressList (h "To")
    deliveredTo := addressList (h "Delivered-To")
    messageID := (messageIDList (h.get "Message-Id")).headD []
    inReplyTo := messageIDList (h.get "In-Reply-To")
    references := messageIDList (h.get "References")
    autoSubmitted := toLower (oneLine (h.get "Auto-Submitted"))
    precedence := toLower (oneLine (h.get "Precedence"))
    spamScore := parseSpamScore (h.get "X-Spam-Score") }

end Headers

structure Parser where
  lim : Limits
  out : Message := {}
  text : GoString := []
  html : GoString := []
  parts : ℕ := 0

namespace Parser

def truncate (p : Parser) : Parser := { p with out := { p.out with truncated := true } }

def readEncoded (lim : Limits) (body : GoString) : GoString × Bool :=
  let limit := 3 * lim.maxAttachmentBytes + 4096
  let content := body.take (limit + 1).toNat
  (content, (content.length : ℤ) > limit)

def skip (filename : GoString) (size : ℕ) (p : Parser) : Parser :=
  { p with out := { p.out with skipped := p.out.skipped ++ [⟨safeFilename filename, size⟩] } }

def storedType (mediaType : GoString) : GoString :=
  if mediaType = [] ∨ ¬ headerSafe mediaType ∨ mediaType.length > 127 then
    "application/octet-stream" else mediaType

variable [GoLibrary] [MailLibrary]

def attach (filename mediaType contentID : GoString) (inline : Bool) (enc content : GoString)
    (p : Parser) : Parser :=
  let data := decodeTransfer content enc
  if (data.length : ℤ) > p.lim.maxAttachmentBytes then p.skip filename data.length
  else
    let attachment := ⟨safeFilename filename, storedType mediaType, contentID, inline, data⟩
    { p with out := { p.out with attachments := p.out.attachments ++ [attachment] } }

def collect (mediaType enc charset parentType content : GoString) (p : Parser) : Parser :=
  let s := decodeCharset (decodeTransfer content enc) charset
  if mediaType = goString "text/plain" then
    if p.text = [] ∨ parentType = goString "multipart/alternative" then { p with text := s } else p
  else if mediaType = goString "text/html" then { p with html := s }
  else if p.text = [] ∧ p.html = [] then { p with text := s }
  else p

end Parser

def contentIDOf (v : GoString) : GoString :=
  let id := trimSpace (trimBoth (trimSpace v) "<>")
  if id = [] ∨ id.length > maxIDBytes ∨ hasControl id ∨ containsAny id "<> " then [] else id

structure Reading where
  mediaType : GoString
  params : GoString → GoString
  disposition : GoString
  filename : GoString
  contentID : GoString

namespace Reading

variable (r : Reading)

def isMultipart : Bool := hasPrefix r.mediaType "multipart/"

def isText : Bool := hasPrefix r.mediaType "text/"

def isAttachment : Bool := r.disposition = goString "attachment" || r.filename ≠ []

def isInline : Bool :=
  r.contentID ≠ [] && r.disposition ≠ goString "attachment" && !r.isMultipart && !r.isText

end Reading

def orPlain (contentType : GoString) : GoString := if contentType = [] then "text/plain" else contentType

section Walk

variable [GoLibrary] [MailLibrary]

/-- The reading of a part; none when its content type cannot be parsed. -/
def reading (part : Part) : Option Reading :=
  let contentType := MailLibrary.parseMediaType (orPlain (part.header.get "Content-Type"))
  let disposition := MailLibrary.parseMediaType (part.header.get "Content-Disposition")
  let filename := disposition.params "filename"
  if contentType.failed then none
  else some
    { mediaType := contentType.value
      params := contentType.params
      disposition := disposition.value
      filename := decodeHeaderWord (if filename = [] then contentType.params "name" else filename)
      contentID := contentIDOf (part.header.get "Content-ID") }

namespace Parser

/-- One part: multipart bodies are entered by `descend`, files attached or skipped, texts collected. -/
def visit (descend : List Part → GoString → ℕ → Parser → Parser) (parentType : GoString)
    (depth : ℕ) (part : Part) (p : Parser) : Parser :=
  match reading part with
  | none => p
  | some r =>
    let enc := part.header.get "Content-Transfer-Encoding"
    if r.isMultipart ∧ ¬ r.isAttachment then
      if (depth : ℤ) + 1 > p.lim.maxDepth then p.truncate
      else if r.params "boundary" ≠ [] then
        descend (MailLibrary.parts part.body (r.params "boundary")) r.mediaType (depth + 1) p
      else p
    else if r.isAttachment ∨ r.isInline then
      let (content, tooLarge) := readEncoded p.lim part.body
      if tooLarge then p.skip r.filename content.length
      else p.attach r.filename r.mediaType r.contentID r.isInline enc content
    else if r.isText then
      p.collect r.mediaType enc (r.params "charset") parentType (part.body.take p.lim.maxBodyBytes.toNat)
    else p

/-- The parts in turn, until the walk is cut short. -/
def loop (visit : Part → Parser → Parser) : List Part → Parser → Parser
  | [], p => p
  | part :: rest, p =>
    if p.out.truncated then p
    else
      let p := { p with parts := p.parts + 1 }
      if (p.parts : ℤ) > p.lim.maxParts then p.truncate else loop visit rest (visit part p)

/-- The walk through a multipart body; `levels` is more than it can descend (`walk_levels`). -/
def walk : (levels : ℕ) → List Part → GoString → ℕ → Parser → Parser
  | 0, _, _, _, p => p
  | levels + 1, parts, parentType, depth, p => loop (visit (walk levels) parentType depth) parts p

def levels (lim : Limits) : ℕ := lim.maxDepth.toNat + 1

def readBody (h : Header) (body : GoString) (p : Parser) : Parser :=
  let contentType := MailLibrary.parseMediaType (orPlain (h.get "Content-Type"))
  let enc := h.get "Content-Transfer-Encoding"
  if contentType.failed then { p with text := body }
  else if hasPrefix contentType.value "multipart/" then
    walk (levels p.lim) (MailLibrary.parts body (contentType.params "boundary")) contentType.value 0
      { p with parts := 1 }
  else if hasPrefix contentType.value "text/" then
    p.collect contentType.value enc (contentType.params "charset") contentType.value body
  else
    let disposition := MailLibrary.parseMediaType (h.get "Content-Disposition")
    let named := !disposition.failed && disposition.params "filename" ≠ []
    p.attach (if named then disposition.params "filename" else contentType.params "name")
      contentType.value [] false enc body

def clean (p : Parser) (v : GoString) : GoString := cleanBody p.lim.maxTextBytes.toNat v

def finish (p : Parser) : Message :=
  let html := p.clean p.html
  let text := p.clean p.text
  { p.out with html := html, text := if text ≠ [] then text else p.clean (htmlToText html) }

end Parser

inductive ParseErr
  | tooLarge
deriving DecidableEq

/-- `Parse`: only a message above the size limit is refused; one that cannot be read is its own text. -/
def parse (raw : GoString) (lim : Limits) : Except ParseErr Message :=
  let lim := lim.orDefaults
  if (raw.length : ℤ) > lim.maxBodyBytes then .error .tooLarge
  else
    let p : Parser := { lim := lim }
    match MailLibrary.readMessage raw with
    | none => .ok { p.out with subject := noSubject, text := p.clean raw }
    | some (h, body) => .ok (Parser.readBody h body { p with out := headers h p.out }).finish

end Walk

end TangraTicket.Mailparse
