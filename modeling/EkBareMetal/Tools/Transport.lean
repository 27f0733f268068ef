import EkBareMetal.Lib.Leaving
import EkBareMetal.Lib.Text
import Mathlib.Data.List.DropRight

/-!
# The control connection of the FTP client

`DeadlineFTP` as far as it reads replies: `getline` and `getmultiline` of
`ftp_transport.py`. The socket is the part of the stream that has not been
received; no deadline expires, so a `recv` either has a byte or is at the end of the
stream. The methods note what they hold when they have added to it.
-/

namespace EkBareMetal.Tools

open Leaving Leaving.Method Text

/-- The attributes of the class that a reply is read by. -/
structure ReplyReader where
  maxline : Nat
  maxReplyLines : Nat
  maxReplyBytes : Nat
  encoding : List UInt8 → Option (List Char)
  lines_pos : 0 < maxReplyLines

/-- `DeadlineFTP`, with what it has from `ftplib.FTP`. -/
def deadlineReader : ReplyReader where
  maxline := 8192
  maxReplyLines := 256
  maxReplyBytes := 65536
  encoding bytes := (String.fromUTF8? ⟨bytes.toArray⟩).map String.toList
  lines_pos := by decide

structure DeadlineFTP where
  sock : Option (List UInt8)
  replyBytes : Option Nat
  deriving DecidableEq

inductive FtpError where
  | errorProto (message : String)
  | eofError
  | unicodeError
  | attributeError
  deriving DecidableEq

/-- `ftplib.Error`, `OSError`, `EOFError` and `UnicodeError`. -/
def FtpError.handled : FtpError → Bool
  | attributeError => false
  | _ => true

/-- What a call has in its variables `line` and `lines`. -/
inductive Held where
  | line (line : List UInt8)
  | lines (lines : List (List Char))

abbrev Transport : Type → Type := Method FtpError DeadlineFTP Held

def DeadlineFTP.closed (ftp : DeadlineFTP) : DeadlineFTP := { ftp with sock := none }

/-- `rstrip("\r\n")` -/
def rstrip (line : List Char) : List Char := line.rdropWhile fun c => c = '\r' || c = '\n'

section Reader

variable (reader : ReplyReader)

def countByte : Transport Unit := do
  match (← object).replyBytes with
  | none => pure ()
  | some count => do
      change fun ftp => { ftp with replyBytes := some (count + 1) }
      if count + 1 > reader.maxReplyBytes then do
        change DeadlineFTP.closed
        throw (.errorProto "control reply too long")
      else pure ()

/-- The loop of `getline`, which has `line` and finds `unread` on the socket. -/
def getlineLoop : List UInt8 → List UInt8 → Transport (List Char)
  | [], _ => throw .eofError
  | byte :: unread, line => do
      change fun ftp => { ftp with sock := some unread }
      countByte reader
      if line.length + 1 > reader.maxline then do
        change DeadlineFTP.closed
        throw (.errorProto "control line too long")
      else do
        note (.line (line ++ [byte]))
        if byte = lineFeed then
          match reader.encoding (line ++ [byte]) with
          | none => throw .unicodeError
          | some text => pure (rstrip text)
        else getlineLoop unread (line ++ [byte])

def getline : Transport (List Char) := do
  match (← object).sock with
  | none => throw .attributeError
  | some unread => getlineLoop reader unread []

/-- `re.fullmatch(r'[0-9]{3}', code)` -/
def threeDigits (code : List Char) : Bool := code.length = 3 && code.all Char.isDigit

/-- The loop of `getmultiline`; `room` is `max_reply_lines` less the length of `lines`. -/
def replyLoop (code : List Char) : Nat → List (List Char) → Transport (List (List Char))
  | 0, _ => throw (.errorProto "too many control reply lines")
  | room + 1, lines => do
      let line ← getline reader
      note (.lines (lines ++ [line]))
      if line.take 3 = code then
        if (line)[3]? = some ' ' then pure (lines ++ [line])
        else if (line)[3]? ≠ some '-' then throw (.errorProto "invalid reply terminator")
        else replyLoop code room (lines ++ [line])
      else replyLoop code room (lines ++ [line])

def replyLines : Transport (List (List Char)) := do
  let line ← getline reader
  if line.length < 4 ∨ ¬ threeDigits (line.take 3) ∨
      ¬ ((line)[3]? = some ' ' ∨ (line)[3]? = some '-') then
    throw (.errorProto "invalid reply framing")
  else do
    note (.lines [line])
    if (line)[3]? = some '-' then replyLoop reader (line.take 3) (reader.maxReplyLines - 1) [line]
    else pure [line]

def getmultiline : Transport (List Char) := do
  change fun ftp => { ftp with replyBytes := some 0 }
  try
    let lines ← replyLines reader
    pure (['\n'].intercalate lines)
  catch e =>
    if e.handled then change DeadlineFTP.closed
    throw e
  finally
    change fun ftp => { ftp with replyBytes := none }

end Reader

end EkBareMetal.Tools
