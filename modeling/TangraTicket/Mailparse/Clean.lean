import TangraTicket.Library.GoScalars

/-!
The cleaning of values read from a message (`internal/mailparse/mailparse.go`): header values on one
line, storable bodies and safe file names.
-/

namespace TangraTicket.Mailparse

open GoText

def maxSubjectRunes : ℕ := 998
def maxNameRunes : ℕ := 200
def maxAddressBytes : ℕ := 320
def maxIDBytes : ℕ := 998
def maxFilename : ℕ := 200

def hasControl (v : GoString) : Bool := (runes v).any isControl

def headerSafe (v : GoString) : Bool := validString v && !hasControl v

def replacementChar : GoString := encode [0xFFFD]

def oneLine (v : GoString) : GoString :=
  join (fields (mapRunes (fun r => some (if isControl r then 0x20 else r))
    (toValidUTF8 v replacementChar))) " "

/-- The end of the longest start of `v` of at most `n` bytes that ends where a rune starts. -/
def runeBoundary (v : GoString) : ℕ → ℕ
  | 0 => 0
  | n + 1 => if (v.drop (n + 1)).head?.any isCont then runeBoundary v n else n + 1

/-- Cut to at most `n` bytes on a rune boundary. -/
def truncBytes (v : GoString) (n : ℕ) : GoString := if v.length ≤ n then v else v.take (runeBoundary v n)

def truncRunes (v : GoString) (n : ℕ) : GoString :=
  if runeCount v ≤ n then v else trimSpace (encode ((runes v).take n))

def bodyRune (r : ℕ) : Option ℕ :=
  if r = 0x0D then some 0x0A else if r = 0x0A ∨ r = 0x09 then some r else if isControl r then
    none else some r

/-- A decoded body made storable. -/
def cleanBody (maxTextBytes : ℕ) (v : GoString) : GoString :=
  if v = [] then []
  else
    let v := if v.length > 4 * maxTextBytes then truncBytes v (4 * maxTextBytes) else v
    let v := replaceAll (toValidUTF8 v replacementChar) "\r\n" "\n"
    trimSpace (truncBytes (trimSpace (mapRunes bodyRune v)) maxTextBytes)

/-- An attachment name reduced to a base name. -/
def safeFilename (name : GoString) : GoString :=
  let name := pathBase (replaceAll (toValidUTF8 name "_") "\\" "/")
  let name := mapRunes (fun r => some (if isControl r then 0x5F else r)) name
  let name := trimSpace (trimLeft name ". ")
  if name = [] ∨ name = goString "/" then "attachment" else truncRunes name maxFilename

end TangraTicket.Mailparse
