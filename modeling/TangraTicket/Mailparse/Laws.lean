import TangraTicket.Library.HeaderBlock
import TangraTicket.Mailparse.Mime

/-!
What the parser takes from the mail libraries besides their types, and a library for plain messages
that has it.
-/

namespace TangraTicket.Mailparse

open GoText EncodedWord HeaderBlock

section Laws

variable [GoLibrary]

/-- `WordDecoder.convert`. -/
def convertWord (reader : CharsetReader) (charset content : GoString) : Option GoString :=
  if equalFold "utf-8" charset then some content
  else if equalFold "iso-8859-1" charset then some (encode (content.map UInt8.toNat))
  else if equalFold "us-ascii" charset then
    some (content.flatMap fun c => if c < 0x80 then [c] else encode [0xFFFD])
  else reader (toLower charset) content

/-- `DecodeHeader` is the decoder of the library module, and the decoders of `x/text` read any
bytes, as no more characters than there are bytes. -/
class WordLaws [MailLibrary] : Prop where
  decodeHeader : ∀ reader header, MailLibrary.decodeHeader reader header = EncodedWord.decodeHeader
    (convertWord reader) header
  decodeText : ∀ cs input, ∃ text, MailLibrary.decodeText cs input = some text ∧
    runeCount text ≤ input.length

/-- `mail.ReadMessage` finds the values of the fields by name. -/
class ReadLaws [MailLibrary] : Prop where
  readMessage : ∀ (fields : List HeaderField) (body : GoString), (∀ f ∈ fields, f.WellFormed) →
    ∃ h : Header, MailLibrary.readMessage (fields.flatMap HeaderField.text ++ goString "\r\n" ++
      body) = some (h, body) ∧
      ∀ name, h name = valuesOf fields name

end Laws

/-- A library for plain messages: header blocks and encoded words are read, a media type is what
stands before its parameters, and there are no parts. -/
@[reducible] def plainMail : MailLibrary :=
  letI := asciiLibrary
  { readMessage := fun raw => (HeaderBlock.read raw).map fun r => (valuesOf r.1, r.2)
    parseMediaType := fun v => { value := v.takeWhile (· ≠ 0x3B) }
    parts := fun _ _ => []
    decodeHeader := fun reader => EncodedWord.decodeHeader (convertWord reader)
    parseAddress := fun _ _ => none
    parseAddressList := fun _ _ => none
    decodeText := fun _ input => some (input.filter (· < 0x80))
    decodeQuotedPrintable := some
    unescapeString := id
    parseFloat := fun _ => none }

theorem plainMail_words : @WordLaws asciiLibrary plainMail := by
  let := asciiLibrary
  let := plainMail
  refine ⟨fun _ _ => rfl, fun _ input => ⟨_, rfl, ?_⟩⟩
  have hascii : ∀ b ∈ input.filter (· < 0x80), b < 0x80 := fun b hb => by
    simpa using (List.mem_filter.mp hb).2
  rw [runeCount, pieces_ascii hascii, List.length_map]
  exact List.length_filter_le _ _

theorem plainMail_reads : @ReadLaws plainMail := by
  let := plainMail
  refine ⟨fun fields body h => ⟨valuesOf fields, ?_, fun _ => rfl⟩⟩
  have hread := read_text h body
  show (HeaderBlock.read _).map _ = _
  rw [hread, Option.map_some]

end TangraTicket.Mailparse
