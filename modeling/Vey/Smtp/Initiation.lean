import Vey.IoExt.LineRecv
import Vey.IoExt.Upload
import Vey.Serve.TaskError
import Vey.Smtp.Proto

/-! The reply to EHLO: `Initiation::recv_relay_check_rsp`.

        250-mail.example     first line        sent on
        250-PIPELINING       extension         sent on
        250-XSECRET          extension         dropped
        250 HELP             last line         an extension like the others

    The reply of the server is relayed line by line, and an extension the proxy does not know or allow
    is left out. The mark that the reply ends travels with the last line of the server. -/

namespace Vey.Smtp
open Schemes Vey.Types IoExt Serve

/-- The fields of `SmtpInterceptionConfig` that the reply depends on. -/
structure SmtpInterceptionConfig where
  allowOnDemandMailRelay : Bool
  allowDataChunking : Bool
  allowBurlData : Bool

structure InitializedExtensions where
  odmr : Bool := false
  starttls : Bool := false
  chunking : Bool := false
  burl : Bool := false

/-! ### Extensions -/

/-- What is done with an extension. -/
inductive Extension where
  | always
  | never
  | burl
  | chunking
  | binaryMime
  | startTls
  | odmr

namespace Extension

/-- Extensions with a parameter. -/
def withParam : List (Bytes × Extension) := [
  (ascii "SIZE", .always), (ascii "DELIVERBY", .always), (ascii "NO-SOLICITING", .always),
  (ascii "AUTH", .always), (ascii "BURL", .burl), (ascii "FUTURERELEASE", .always),
  (ascii "MT-PRIORITY", .always), (ascii "LIMITS", .always)]

/-- Extensions without one. -/
def withoutParam : List (Bytes × Extension) := [
  (ascii "EXPN", .always), (ascii "HELP", .always), (ascii "8BITMIME", .always),
  (ascii "SIZE", .always), (ascii "VERB", .always), (ascii "ONEX", .always),
  (ascii "CHUNKING", .chunking), (ascii "BINARYMIME", .binaryMime), (ascii "DELIVERBY", .always),
  (ascii "PIPELINING", .always), (ascii "DSN", .always), (ascii "ETRN", .always),
  (ascii "ENHANCEDSTATUSCODES", .never), (ascii "STARTTLS", .startTls),
  (ascii "NO-SOLICITING", .always), (ascii "MTRK", .always), (ascii "BURL", .burl),
  (ascii "CONPERM", .always), (ascii "CONNEG", .always), (ascii "SMTPUTF8", .always),
  (ascii "MT-PRIORITY", .always), (ascii "RRVS", .always), (ascii "REQUIRETLS", .always),
  (ascii "LIMITS", .always), (ascii "ATRN", .odmr)]

/-- The extension that a line declares. -/
def ofMessage [TextFunctions] (msg : Bytes) : Extension :=
  match memchr 32 msg with
  | some p =>
    if validUtf8 (msg.take p) then (withParam.lookup (toUppercase (msg.take p))).getD .never
    else .never
  | none => if validUtf8 msg then (withoutParam.lookup (toUppercase msg)).getD .never else .never

/-- What is remembered of the server. -/
def note (ext : InitializedExtensions) : Extension → InitializedExtensions
  | .burl => { ext with burl := true }
  | .chunking => { ext with chunking := true }
  | .startTls => { ext with starttls := true }
  | .odmr => { ext with odmr := true }
  | _ => ext

def allowed (config : SmtpInterceptionConfig) (fromStarttls : Bool) : Extension → Bool
  | .always => true
  | .never => false
  | .burl => config.allowBurlData
  | .chunking | .binaryMime => config.allowDataChunking
  | .startTls => !fromStarttls
  | .odmr => config.allowOnDemandMailRelay

end Extension

/-! ### The loop -/

/-- Where `recv_relay_check_rsp` waits. -/
inductive InitiationAt (χ : Type) where
  | top
  | recvLine
  | writeLine (w : WriteAll χ)
  | flush

/-- `Initiation` with the arguments and the parser of `recv_relay_check_rsp`. -/
structure Initiation (χ : Type) where
  config : SmtpInterceptionConfig
  fromStarttls : Bool
  serverExt : InitializedExtensions := {}
  rspRecvBuf : LineRecvBuf responseMaxLineSize := .new
  upsR : Source
  cltW : χ
  rsp : ResponseParser := {}
  pc : InitiationAt χ := .top

namespace Initiation

variable {χ : Type}

abbrev Step (χ : Type) := Ctrl (Initiation χ) (Poll (Except ServerTaskError (Option Unit)))

/-- `read_rsp_line_with_feedback` -/
def rspLineError : RecvLineError → ServerTaskError
  | .ioError e => .upstreamReadFailed e
  | .ioClosed => .closedByUpstream
  | .lineTooLong => .upstreamAppError (ascii "SMTP response line too long")

section

variable [TextFunctions] (s : Initiation χ)

def allowExtension (msg : Bytes) : Bool × Initiation χ :=
  let e := Extension.ofMessage msg
  (e.allowed s.config s.fromStarttls, { s with serverExt := e.note s.serverExt })

def writeLine (line : Bytes) : Step χ :=
  .next { s with pc := .writeLine ⟨line, s.cltW⟩ }

/-- Behind a line. -/
def lineDone : Step χ :=
  if s.rsp.finished then .next { s with pc := .flush } else .next { s with pc := .top }

/-- A line that the parser has accepted. -/
def handleLine (line : Bytes) : Step χ :=
  if s.rsp.code = .ok then
    if s.rsp.isFirstLine then s.writeLine line
    else
      match s.allowExtension (ResponseParser.message line) with
      | (true, s) => s.writeLine line
      | (false, s) => s.lineDone
  else s.writeLine line

/-- Behind the last line. -/
def finish : Step χ :=
  if s.rsp.code = .ok then .ret (.ready (.ok (some ()))) s
  else if s.rsp.code = .serviceNotAvailable then .ret (.ready (.error .upstreamAppUnavailable)) s
  else .ret (.ready (.ok none)) s

end

section

variable [TextFunctions] [AsyncWrite χ]

def step (s : Initiation χ) : Step χ :=
  match s.pc with
  | .top => .next { s with rspRecvBuf := s.rspRecvBuf.consumeLine, pc := .recvLine }
  | .recvLine =>
    (LineRecvBuf.readLine (s.rspRecvBuf, s.upsR)).await
      (fun p => { s with rspRecvBuf := p.1, upsR := p.2 }) rspLineError fun line p =>
        let s := { s with rspRecvBuf := p.1, upsR := p.2 }
        match s.rsp.feedLine line with
        | .ok rsp => { s with rsp := rsp }.handleLine line
        | .error e =>
          .ret (.ready (.error
            (.upstreamAppError (ascii "invalid SMTP QUIT response line: " ++ e.text)))) s
  | .writeLine w =>
    w.poll.await (fun w => { s with cltW := w.writer, pc := .writeLine w }) .clientTcpWriteFailed
      fun _ w => { s with cltW := w.writer }.lineDone
  | .flush =>
    match pollFlush s.cltW with
    | (.pending, w) => .ret .pending { s with cltW := w }
    | (.ready (.error e), w) =>
      -- a client that is gone does not matter when the server is
      if s.rsp.code = .serviceNotAvailable then { s with cltW := w }.finish
      else .ret (.ready (.error (.clientTcpWriteFailed e))) { s with cltW := w }
    | (.ready (.ok _), w) => { s with cltW := w }.finish

/-- `recv_relay_check_rsp` as a future. -/
def recvRelayCheckRsp (χ : Type) [AsyncWrite χ] :
    Future (Initiation χ) (Except ServerTaskError (Option Unit)) := ⟨id, step⟩

end

end Initiation

end Vey.Smtp
