import Vey.Http.RequestHead

/-! The lines of SMTP: commands of the client, replies of the server, and the replies that the proxy
    gives itself.

    A command is a word and, behind the first space, its parameter. A reply is one or more lines
    with the same code, of which the last has no `-` behind the code. -/

namespace Vey.Smtp
open Schemes Vey.Types

/-! ### Commands -/

inductive CommandLineError where
  | noTrailingSequence
  | invalidUtf8Command
  | invalidClientHost
  | invalidCommandParam (command reason : Bytes)

def CommandLineError.text : CommandLineError → Bytes
  | .noTrailingSequence => ascii "no trailing sequence"
  | .invalidUtf8Command => ascii "invalid utf-8 command"
  | .invalidClientHost => ascii "invalid client domain/address field"
  | .invalidCommandParam command reason =>
    ascii "invalid parameter for command " ++ command ++ ascii ": " ++ reason

/-- The grammar of client hosts is left open: `Host::parse_smtp_host_address` succeeds. -/
class SmtpHosts where
  isHostAddress : Bytes → Bool

instance (priority := low) : SmtpHosts where
  isHostAddress b := !b.isEmpty

export SmtpHosts (isHostAddress)

structure MailParam where
  reversePath : Bytes

structure RecipientParam where
  forwardPath : Bytes

/-- MAX_LINE_SIZE of a command -/
def commandMaxLineSize : Nat := 2048

inductive Command where
  | quit
  | extendHello (host : Bytes)
  | hello (host : Bytes)
  | startTls
  | auth
  | authenticatedTurn
  | reset
  | noOperation
  | mail (p : MailParam)
  | recipient (p : RecipientParam)
  | data
  | binaryData (size : Nat)
  | lastBinaryData (size : Nat)
  | dataByUrl (url : Bytes)
  | lastDataByUrl (url : Bytes)
  | knownForward (name : Bytes)
  | unknown (name : Bytes)

/-- `str::from_utf8` with its error mapped. -/
def textOf (b : Bytes) : Except CommandLineError Bytes :=
  if validUtf8 b then .ok b else .error .invalidUtf8Command

/-- `<` and `>` around printable characters. -/
def isValidPath (s : Bytes) : Bool :=
  s.head? == some 60 && s.length ≥ 2 && s.getLast? == some 62 &&
    (s.tail.dropLast).all fun c => 32 ≤ c && c < 127

/-- The parameter of MAIL and RCPT: a path behind `tag`, in lower case. -/
def parsePath [TextFunctions] (command tag missing invalid msg : Bytes) :
    Except CommandLineError Bytes := do
  let msg ← textOf msg
  let item := (msg.dropWhile isAsciiWhitespace).takeWhile fun b => !isAsciiWhitespace b
  if item = [] then .error (.invalidCommandParam command missing)
  else
    let s := toLowercase item
    if tag <+: s ∧ isValidPath (s.drop tag.length) = true then .ok (s.drop tag.length)
    else .error (.invalidCommandParam command invalid)

variable (msg : Bytes)

def MailParam.parse [TextFunctions] : Except CommandLineError MailParam :=
  .mk <$> parsePath (ascii "MAIL") (ascii "from:") (ascii "no reverse path present")
    (ascii "invalid reverse path prefix") msg

def RecipientParam.parse [TextFunctions] : Except CommandLineError RecipientParam :=
  .mk <$> parsePath (ascii "RCPT") (ascii "to:") (ascii "no forward path present")
    (ascii "invalid forward path prefix") msg

def parseHost [SmtpHosts] : Except CommandLineError Bytes :=
  let host := match memchr 32 msg with
    | some p => msg.take p
    | none => msg
  if isHostAddress host then .ok host else .error .invalidClientHost

/-- `usize::from_str` on the chunk size. -/
def chunkSize (number : Bytes) : Except CommandLineError Nat := do
  match parseU64 (← textOf number) with
  | some n => .ok n.toNat
  | none => .error (.invalidCommandParam (ascii "BDAT") (ascii "invalid chunk size"))

def binaryDataParseParam : Except CommandLineError Command :=
  match memchr 32 msg with
  | some p =>
    if msg.drop (p + 1) ≠ ascii "LAST" then
      .error (.invalidCommandParam (ascii "BDAT") (ascii "invalid end marker"))
    else .lastBinaryData <$> chunkSize (msg.take p)
  | none => .binaryData <$> chunkSize msg

def burlDataParseParam : Except CommandLineError Command :=
  match memchr 32 msg with
  | some p =>
    if msg.drop (p + 1) ≠ ascii "LAST" then
      .error (.invalidCommandParam (ascii "BURL") (ascii "invalid end marker"))
    else .lastDataByUrl <$> textOf (msg.take p)
  | none => .dataByUrl <$> textOf msg

/-- Commands with a parameter. -/
def parseWithParam [TextFunctions] [SmtpHosts] (cmd left : Bytes) :
    Except CommandLineError Command :=
  if cmd = ascii "EHLO" then .extendHello <$> parseHost left
  else if cmd = ascii "HELO" then .hello <$> parseHost left
  else if cmd = ascii "AUTH" then .ok .auth
  else if cmd = ascii "ATRN" then .ok .authenticatedTurn
  else if cmd = ascii "MAIL" then .mail <$> MailParam.parse left
  else if cmd = ascii "RCPT" then .recipient <$> RecipientParam.parse left
  else if cmd = ascii "BDAT" then binaryDataParseParam left
  else if cmd = ascii "BURL" then burlDataParseParam left
  else if cmd = ascii "VRFY" then .ok (.knownForward (ascii "VRFY"))
  else if cmd = ascii "EXPN" then .ok (.knownForward (ascii "EXPN"))
  else if cmd = ascii "HELP" then .ok (.knownForward (ascii "HELP"))
  else if cmd = ascii "NOOP" then .ok .noOperation
  else if cmd = ascii "ETRN" then .ok (.knownForward (ascii "ETRN"))
  else .ok (.unknown cmd)

/-- Commands without one. -/
def parseWithoutParam (cmd : Bytes) : Command :=
  if cmd = ascii "QUIT" then .quit
  else if cmd = ascii "ATRN" then .authenticatedTurn
  else if cmd = ascii "STARTTLS" then .startTls
  else if cmd = ascii "RSET" then .reset
  else if cmd = ascii "HELP" then .knownForward (ascii "HELP")
  else if cmd = ascii "NOOP" then .noOperation
  else if cmd = ascii "DATA" then .data
  else .unknown cmd

def Command.parseLine [TextFunctions] [SmtpHosts] (line : Bytes) :
    Except CommandLineError Command :=
  match stripSuffix [cr, lf] line with
  | none => .error .noTrailingSequence
  | some line =>
    match memchr 32 line with
    | some p => do
      let cmd ← textOf (line.take p)
      parseWithParam (toUppercase cmd) (line.drop (p + 1))
    | none => do
      let cmd ← textOf line
      return parseWithoutParam (toUppercase cmd)

example : Command.parseLine (ascii "bdat 86 LAST\r\n") = .ok (.lastBinaryData 86) := by rfl

/-! ### Replies of the server -/

inductive ResponseLineError where
  | noTrailingSequence
  | tooShort
  | invalidCode
  | invalidDelimiter
  | finished

def ResponseLineError.text : ResponseLineError → Bytes
  | .noTrailingSequence => ascii "no trailing sequence"
  | .tooShort => ascii "too short"
  | .invalidCode => ascii "invalid code"
  | .invalidDelimiter => ascii "invalid delimiter"
  | .finished => ascii "finished"

structure ReplyCode where
  a : UInt8 := 0
  b : UInt8 := 0
  c : UInt8 := 0
  deriving DecidableEq

namespace ReplyCode

def new (a b c : UInt8) : Option ReplyCode :=
  if 0x32 ≤ a ∧ a ≤ 0x35 ∧ 0x30 ≤ b ∧ b ≤ 0x35 ∧ 0x30 ≤ c ∧ c ≤ 0x39 then some ⟨a, b, c⟩ else none

/-- OK -/
def ok : ReplyCode := ⟨50, 53, 48⟩

/-- START_MAIL_INPUT -/
def startMailInput : ReplyCode := ⟨51, 53, 52⟩

/-- SERVICE_NOT_AVAILABLE -/
def serviceNotAvailable : ReplyCode := ⟨52, 50, 49⟩

def isSet (r : ReplyCode) : Bool := r.a != 0

def text (r : ReplyCode) : Bytes := [r.a, r.b, r.c]

end ReplyCode

/-- MAX_LINE_SIZE of a reply -/
def responseMaxLineSize : Nat := 512

/-- What the lines of a reply told so far. -/
structure ResponseParser where
  code : ReplyCode := {}
  multiline : Bool := false
  lineCount : Nat := 0

namespace ResponseParser

variable (p : ResponseParser)

/-- What follows the code of a line; `multiline` is kept by a `-`. -/
def feedDelimiter (line : Bytes) (lineCount : Nat) : Except ResponseLineError ResponseParser :=
  match line.drop 3 with
  | [] => .ok { p with multiline := false }
  | d :: _ =>
    if d = 32 then .ok { p with multiline := false, lineCount := lineCount }
    else if d = 45 then .ok { p with multiline := true, lineCount := lineCount }
    else .error .invalidDelimiter

/-- The code at the start of a line. -/
def codeOf : Bytes → Except ResponseLineError ReplyCode
  | a :: b :: c :: _ =>
    match ReplyCode.new a b c with
    | some code => .ok code
    | none => .error .invalidCode
  | _ => .error .tooShort

/-- All lines of a reply have one code. -/
def feedLine (line : Bytes) : Except ResponseLineError ResponseParser :=
  match stripSuffix [cr, lf] line with
  | none => .error .noTrailingSequence
  | some line =>
    if p.code.isSet then
      if p.multiline then do
        let code ← codeOf line
        if code = p.code then p.feedDelimiter line (p.lineCount + 1) else .error .invalidCode
      else .error .finished
    else do
      let code ← codeOf line
      { p with code := code }.feedDelimiter line 1

/-- What `feed_line` returns: the text behind the code and its delimiter. -/
def message (line : Bytes) : Bytes := ((stripSuffix [cr, lf] line).getD []).drop 4

def isFirstLine : Bool := p.lineCount == 1

def finished : Bool := p.code.isSet && !p.multiline

end ResponseParser

/-! ### Replies of the proxy -/

/-- COMMAND_NOT_IMPLEMENTED -/
def commandNotImplemented : Bytes := ascii "502 Command not implemented\r\n"

/-- BAD_SEQUENCE_OF_COMMANDS -/
def badSequenceOfCommands : Bytes := ascii "503 Bad sequence of commands\r\n"

end Vey.Smtp
