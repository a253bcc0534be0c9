import TangraTicket.Library.Base64
import TangraTicket.Mailparse.Clean

/-!
What the parser (`internal/mailparse/mailparse.go`) sees of a message through the libraries, and the
decoding of transfer encodings and character sets. A multipart body is the finite list of parts its
reader yields.
-/

namespace TangraTicket.Mailparse

open GoText

abbrev Header := GoString → List GoString

def Header.get (h : Header) (name : GoString) : GoString := (h name).headD []

/-- What `mime.ParseMediaType` returns; a missing parameter is empty. -/
structure MediaType where
  value : GoString := []
  params : GoString → GoString := fun _ => []
  failed : Bool := false

structure Part where
  header : Header
  body : GoString

/-- The encodings `charsetDecoder` knows. -/
inductive Charset
  | koi8r | koi8u | windows1251 | windows1252 | windows1250 | iso88591 | iso88592 | iso88595
  | iso885915 | gbk | big5
  | shiftJIS | eucJP | iso2022JP | eucKR | utf16LE | utf16BE
deriving DecidableEq

abbrev CharsetReader := GoString → GoString → Option GoString

/-- What the libraries answer: `mail.ReadMessage` with all that can be read of the body,
`mime.ParseMediaType`, the parts `multipart.NewReader(body, boundary)` yields before its first error
(a quoted-printable part already decoded, its header hidden), `WordDecoder.DecodeHeader` and
`AddressParser` over a reader of character sets (display name and address), the decoders of
`x/text`, the `quotedprintable` reader, `html.UnescapeString` and `strconv.ParseFloat` (the bits of
the float). -/
class MailLibrary where
  readMessage : GoString → Option (Header × GoString)
  parseMediaType : GoString → MediaType
  parts : (body boundary : GoString) → List Part
  decodeHeader : CharsetReader → GoString → Option GoString
  parseAddress : CharsetReader → GoString → Option (GoString × GoString)
  parseAddressList : CharsetReader → GoString → Option (List (GoString × GoString))
  decodeText : Charset → GoString → Option GoString
  decodeQuotedPrintable : GoString → Option GoString
  unescapeString : GoString → GoString
  parseFloat : GoString → Option UInt64

section Decoding

variable [GoLibrary]

def charsetLabels : List (GoString × Charset) :=
  [("koi8-r", .koi8r), ("koi8r", .koi8r), ("koi8-u", .koi8u), ("koi8u", .koi8u),
    ("windows-1251", .windows1251), ("cp1251", .windows1251), ("windows-1252", .windows1252),
    ("cp1252", .windows1252), ("windows-1250", .windows1250), ("cp1250", .windows1250),
    ("iso-8859-1", .iso88591), ("latin1", .iso88591), ("iso-8859-2", .iso88592),
    ("iso-8859-5", .iso88595), ("iso-8859-15", .iso885915), ("gbk", .gbk), ("gb2312", .gbk),
    ("gb18030", .gbk), ("big5", .big5), ("shift_jis", .shiftJIS), ("shift-jis", .shiftJIS),
    ("sjis", .shiftJIS), ("euc-jp", .eucJP), ("iso-2022-jp", .iso2022JP), ("euc-kr", .eucKR),
    ("utf-16", .utf16LE), ("utf-16le", .utf16LE), ("utf-16be", .utf16BE)]

def charsetDecoder (label : GoString) : Option Charset := charsetLabels.lookup (toLower (trimSpace label))

variable [MailLibrary]

/-- The reader behind `wordDecoder`: an unknown character set passes through. -/
def wordReader : CharsetReader := fun charset input =>
  match charsetDecoder charset with
  | some cs => MailLibrary.decodeText cs input
  | none => some input

def decodeHeaderWord (s : GoString) : GoString :=
  if s = [] then s else (MailLibrary.decodeHeader wordReader (trimBoth s "\" ")).getD s

def base64Rune (r : ℕ) : Option ℕ := if r = 0x0D ∨ r = 0x0A ∨ r = 0x20 ∨ r = 0x09 then none else some r

def decodeTransfer (content enc : GoString) : GoString :=
  let enc := toLower (trimSpace enc)
  if enc = goString "base64" then (Base64.decode (mapRunes base64Rune content)).getD content
  else if enc = goString "quoted-printable" then (MailLibrary.decodeQuotedPrintable content).getD content
  else content

def decodeCharset (content charset : GoString) : GoString :=
  let cs := toLower (trimSpace charset)
  if cs = [] ∨ cs ∈ [goString "utf-8", goString "utf8", goString "us-ascii", goString "ascii"] then content
  else ((charsetDecoder cs).bind fun enc => MailLibrary.decodeText enc content).getD content

end Decoding

end TangraTicket.Mailparse
