import TangraTicket.Library.Markup
import TangraTicket.Mailparse.Html
import TangraTicket.Store.Models

/-!
The rendition of an HTML body (`internal/sanitize/sanitize.go`): the body goes through the
sanitiser's policy, and a second pass over its tokens binds the inline images to the ticket's
attachments.
-/

namespace TangraTicket.Services.Sanitize

open GoText Store Markup

/-- `shouldEscape` for a path segment. -/
def shouldEscape (c : UInt8) : Bool :=
  !(0x61 ≤ c && c ≤ 0x7A || 0x41 ≤ c && c ≤ 0x5A || 0x30 ≤ c && c ≤ 0x39 ||
    (goString "-_.~$&+:=@").contains c)

/-- `url.PathEscape`. -/
def pathEscape (s : GoString) : GoString :=
  s.flatMap fun c =>
    if shouldEscape c then [0x25, EncodedWord.hexDigit (c.toNat / 16),
      EncodedWord.hexDigit (c.toNat % 16)] else [c]

/-- `url.PathUnescape`; none is the error for a malformed escape. -/
def pathUnescape : GoString → Option GoString
  | [] => some []
  | 0x25 :: a :: b :: s =>
    match EncodedWord.hexValue a, EncodedWord.hexValue b with
    | some x, some y => (pathUnescape s).map ((x * 16 + y).toUInt8 :: ·)
    | _, _ => none
  | c :: s => if c = 0x25 then none else (pathUnescape s).map (c :: ·)

def attachmentPrefix : GoString := "/api/ticket/v1/tickets/"

def attachmentURL (ticketID attachmentID : GoString) : GoString :=
  attachmentPrefix ++ pathEscape ticketID ++ goString "/attachments/" ++ pathEscape attachmentID

structure Body where
  htmlSanitized : GoString
  text : GoString
deriving DecidableEq

structure Policy where
  allowsElement : GoString → Bool
  allowsAttr : (element key : GoString) → Bool

/-- The sanitiser with the policy of the module, the tokens the tokenizer yields before its error token, and
`Token.String`. -/
class HtmlLibrary where
  policy : Policy
  sanitize : GoString → GoString
  tokens : GoString → List Token
  tokenString : Token → GoString

section Bodies

variable [GoLibrary]

/-- A URL of the scheme `cid`. -/
def isCid (src : GoString) : Bool := 4 ≤ src.length && equalFold (src.take 4) "cid:"

/-- The content id of a reference, none when it is empty. -/
def cidOf (src : GoString) : Option GoString :=
  if isCid src then
    let id := trimBoth (trimSpace ((pathUnescape (src.drop 4)).getD (src.drop 4))) "<>"
    if id = [] then none else some id
  else none

def sourceID (attrs : List Attr) : Option GoString :=
  attrs.foldl (fun id a => if a.key = goString "src" then cidOf a.val else id) none

def rewritten (resolve : GoString → Option GoString) (tok : Token) : Option Token :=
  if tok.isTag then
    if tok.data = goString "img" then
      match (sourceID tok.attr).bind resolve with
      | none => none
      | some target =>
        if hasPrefix target attachmentPrefix then
          some { tok with
            attr := tok.attr.map fun a =>
              if a.key = goString "src" then { a with val := target } else a }
        else none
    else if tok.data = goString "a" then
      some { tok with attr := tok.attr.filter fun a => !(a.key = goString "href" && (cidOf a.val).isSome) }
    else some tok
  else some tok

variable [HtmlLibrary]

def images (clean : GoString) (resolve : GoString → Option GoString) : GoString :=
  ((HtmlLibrary.tokens clean).filterMap (rewritten resolve)).flatMap HtmlLibrary.tokenString

def html (raw : GoString) (resolve : GoString → Option GoString) : GoString :=
  if trimSpace raw = [] then [] else images (HtmlLibrary.sanitize raw) resolve

def normCID (v : GoString) : GoString := toLower (trimBoth (trimSpace v) "<>")

def byCID (ticketID : GoString) (atts : List Attachment) : GoString → Option GoString :=
  atts.foldl (fun m a =>
    if normCID a.contentID = [] then m else Function.update m (normCID a.contentID)
      (some (attachmentURL ticketID a.id)))
    fun _ => none

/-- `Message`: the sanitised HTML, and the stored text or else the text of the HTML. -/
def message [Mailparse.MailLibrary] (t : Ticket) (atts : List Attachment) : Body where
  htmlSanitized := html t.bodyHTML fun cid => byCID t.id atts (normCID cid)
  text := if trimSpace t.description = [] ∧ t.bodyHTML ≠ [] then Mailparse.htmlToText t.bodyHTML
    else t.description

end Bodies

end TangraTicket.Services.Sanitize
