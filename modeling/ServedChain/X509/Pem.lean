/-
  ServedChain — certificates as text: base64 between lines that begin and end a
  block and name what it holds.

  Lines before a block, and whole blocks that hold something else, are passed
  over.  A block may have a part in front of a blank line, which certificates do
  not have.  A line is read as far as 254 bytes; longer ones come in several.
-/
import ServedChain.Text.Base64
import ServedChain.X509.Der

namespace ServedChain.X509.Pem

/-! ## Lines -/

/-- Bytes of a line that are read at once. -/
def lineLimit : Nat := 254

/-- The first line of a byte string, which is not empty, with the end of the line if it is
    within the limit. -/
def firstLine (bs : Bytes) : Bytes :=
  let front := bs.take lineLimit
  front.take ((front.takeWhile (· != 10)).length + 1)

theorem length_firstLine_pos (b : UInt8) (bs : Bytes) : 0 < (firstLine (b :: bs)).length := by
  simp [firstLine, lineLimit]

/-- The lines of a byte string. -/
def lines (bs : Bytes) : List Bytes :=
  match bs with
  | [] => []
  | b :: bs => firstLine (b :: bs) :: lines ((b :: bs).drop (firstLine (b :: bs)).length)
termination_by bs.length
decreasing_by
  have := length_firstLine_pos b bs
  simp only [List.length_drop]
  simp only [List.length_cons]
  omega

/-- Whether a line goes on beyond what is read at once. -/
def isCarried (line : Bytes) : Bool := line.length == lineLimit && line.getLast? != some 10

/-- A line without what stands at its end and is no visible character of ASCII. -/
def strip (line : Bytes) : Bytes :=
  (line.reverse.dropWhile fun b => b ≤ 0x20 || 0x80 ≤ b).reverse

/-- A line without the mark that a text in UTF-8 may start with. -/
def withoutMark (line : Bytes) : Bytes :=
  if line.length > 3 ∧ line.take 3 = [0xef, 0xbb, 0xbf] then line.drop 3 else line

/-- The bytes of a text in ASCII. -/
def ascii (text : String) : Bytes := text.toList.map fun c => UInt8.ofNat c.toNat

/-- What stands between two given texts in a line. -/
def between? (front back line : Bytes) : Option Bytes :=
  if front.isPrefixOf line && back.isSuffixOf line && front.length + back.length ≤ line.length then
    some ((line.drop front.length).take (line.length - front.length - back.length))
  else none

/-- The label of a line that begins a block. -/
def beginLabel? (line : Bytes) : Option Bytes :=
  between? (ascii "-----BEGIN ") (ascii "-----") line

/-! ## Blocks -/

/-- How far a block has been read. -/
structure Block where
  label : Bytes
  /-- The lines in front of the blank line, once that was read -/
  header : Option (List Bytes)
  /-- A line with a colon was read, so the lines are a header even without a blank line -/
  colon : Bool
  /-- The lines read since the beginning, or since the blank line -/
  body : List Bytes
  /-- A short line was read after the blank line, so only the end can follow -/
  short : Bool
  /-- The line before was longer than is read at once -/
  carried : Bool
  deriving DecidableEq, Repr

namespace Block

/-- A block of which only the first line was read. -/
def ofLabel (label : Bytes) : Block where
  label := label
  header := none
  colon := false
  body := []
  short := false
  carried := false

/-- The block with a note whether a line has a colon, as long as no blank line was read. -/
def noteColon (block : Block) (line : Bytes) : Block :=
  { block with colon := block.colon || (block.header.isNone && line.contains 58) }

/-- The block without its end line: its header and its bytes, of which there are some. -/
def close? (block : Block) : Option (List Bytes × Bytes) := do
  let (header, body) := match block.header with
    | some header => (header, block.body)
    | none => if block.colon then (block.body, []) else ([], block.body)
  let bytes ← Base64.decode? (body.flatMap fun line => line ++ [10])
  if bytes.isEmpty then none else some (header, bytes)

/-- The block with one more line, which does not end it.  Behind a blank line no line is longer
    than 64 characters, all but the last are just as long, and no other one is blank. -/
def add? (block : Block) (line : Bytes) : Option Block :=
  let text := strip line
  let block := { block.noteColon line with carried := isCarried line }
  match block.header with
  | none => some { block with body := block.body ++ [text] }
  | some _ =>
    if block.short || text.length > 64 then none
    else some { block with body := block.body ++ [text], short := text.length < 64 }

/-- The block with a blank line. -/
def blank? (block : Block) (line : Bytes) : Option Block :=
  let next := { block with carried := isCarried line }
  if block.carried then some next
  else match block.header with
    | some _ => none
    | none => some { next with header := some block.body, body := [] }

end Block

/-! ## Certificates -/

/-- The labels of blocks that hold a certificate. -/
def labels : List Bytes :=
  ["CERTIFICATE", "X509 CERTIFICATE", "TRUSTED CERTIFICATE"].map ascii

/-- Where reading stands between two lines. -/
inductive Position where
  /-- Before a block, at the start of the search for it or later -/
  | outside (start : Bool)
  | inside (block : Block)

/-- The bytes of the first certificate in some lines. -/
def certificateBytes? : Position → List Bytes → Option Bytes
  | _, [] => none
  | .outside start, line :: lines =>
    match beginLabel? (strip (if start then withoutMark line else line)) with
    | none => certificateBytes? (.outside false) lines
    | some label => certificateBytes? (.inside (.ofLabel label)) lines
  | .inside block, line :: lines =>
    let text := strip line
    if text.isEmpty then
      match block.blank? line with
      | none => none
      | some block => certificateBytes? (.inside block) lines
    else if (ascii "-----END ").isPrefixOf text then
      if text = ascii "-----END " ++ block.label ++ ascii "-----" then
        match (block.noteColon line).close? with
        | none => none
        | some (header, bytes) =>
          if labels.contains block.label then if header.isEmpty then some bytes else none
          else certificateBytes? (.outside true) lines
      else none
    else
      match block.add? line with
      | none => none
      | some block => certificateBytes? (.inside block) lines

end Pem

def Certificate.ofPem? (bs : Bytes) : Option Certificate := do
  Certificate.ofTrusted? (← Pem.certificateBytes? (.outside true) (Pem.lines bs))

/-- The certificate in a byte string, as text or in binary form. -/
def Certificate.parse? (bs : Bytes) : Option Certificate :=
  Certificate.ofPem? bs <|> Certificate.ofDer? bs

end ServedChain.X509
