import TangraTicket.Mailparse.Mime

/-!
An HTML body as plain text (`HTMLToText` in `internal/mailparse/mailparse.go`). Each of its patterns
has at most one match at a position and never an empty one; a pattern is given by what follows its
match at the head of the text.
-/

namespace TangraTicket.Mailparse

open GoText

/-- `regexp.ReplaceAllString`; the count is of bytes that are still inside a match. -/
def replaceMatchesFrom (matchAt : GoString → Option GoString) (new : GoString) : ℕ → GoString → GoString
  | _, [] => []
  | k + 1, _ :: bs => replaceMatchesFrom matchAt new k bs
  | 0, b :: bs =>
    match matchAt (b :: bs) with
    | some rest => new ++ replaceMatchesFrom matchAt new (bs.length - rest.length) bs
    | none => b :: replaceMatchesFrom matchAt new 0 bs

def replaceMatches (matchAt : GoString → Option GoString) (s new : GoString) : GoString :=
  replaceMatchesFrom matchAt new 0 s

/-- What follows an ASCII word in any case; under `(?i)` the long s (U+017F) is an `s` as well. -/
def afterWord : GoString → GoString → Option GoString
  | [], s => some s
  | _ :: _, [] => none
  | c :: word, b :: bs =>
    if b = c ∨ 0x61 ≤ c ∧ b + 0x20 = c then afterWord word bs
    else if c = 0x73 ∧ b = 0xC5 ∧ bs.head? = some 0xBF then afterWord word bs.tail
    else none

def afterAny (words : List GoString) (s : GoString) : Option GoString :=
  words.findSome? fun word => afterWord word s

/-- What follows the first `>`. -/
def afterBracket (s : GoString) : Option GoString := afterWord ">" (s.dropWhile (· ≠ 0x3E))

def scriptOrStyle : List GoString := ["script", "style"]

/-- What follows the first `</script>` or `</style>`. -/
def afterClosing (s : GoString) : Option GoString :=
  s.tails.findSome? fun t => do
    let name ← afterWord "</" t
    let rest ← afterAny scriptOrStyle name
    afterWord ">" rest

/-- `(?is)<(script|style)[^>]*>.*?</(script|style)>` -/
def styleScriptAt (s : GoString) : Option GoString := do
  let name ← afterWord "<" s
  let attributes ← afterAny scriptOrStyle name
  let content ← afterBracket attributes
  afterClosing content

def blockEnds : List GoString :=
  ["br", "/p", "/div", "/tr", "/li", "/h1", "/h2", "/h3", "/h4", "/h5", "/h6"]

/-- `\s` of a pattern. -/
def isPatternSpace (b : UInt8) : Bool := b = 0x09 || b = 0x0A || b = 0x0C || b = 0x0D || b = 0x20

/-- `(?i)<(br|/p|/div|/tr|/li|/h[1-6])\s*/?>` -/
def breakAt (s : GoString) : Option GoString := do
  let name ← afterWord "<" s
  let rest ← afterAny blockEnds name
  let rest := rest.dropWhile isPatternSpace
  afterWord ">" ((afterWord "/" rest).getD rest)

/-- `(?s)<[^>]+>` -/
def tagAt (s : GoString) : Option GoString := do
  let inner ← afterWord "<" s
  if inner.head? = some 0x3E then none else afterBracket inner

/-- `\n{3,}` -/
def blankLinesAt (s : GoString) : Option GoString :=
  if 3 ≤ (s.takeWhile (· = 0x0A)).length then some (s.dropWhile (· = 0x0A)) else none

def htmlToText [MailLibrary] (s : GoString) : GoString :=
  if s = [] then []
  else
    let s := replaceMatches styleScriptAt s []
    let s := replaceMatches breakAt s "\n"
    let s := MailLibrary.unescapeString (replaceMatches tagAt s [])
    let s := replaceAll s "\r\n" "\n"
    trimSpace (replaceMatches blankLinesAt s "\n\n")

end TangraTicket.Mailparse
