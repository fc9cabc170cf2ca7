import Vey.IoExt.CopyProgress
import Vey.Http.StreamToChunked

/-! `ImapMessageAdapter`: the literal of an IMAP APPEND on its way to the ICAP server.

    A literal of `literal_size` bytes, of which `cached` is already there, is sent as one chunk:

        icap header | http header | size CRLF | cached ... literal | CRLF 0 CRLF CRLF
        `--------------- write_all_vectored --------'    copy         write_all_flush

    The size is announced before the bytes are there. When all of them are cached, the whole request
    is one vectored write. -/

namespace Vey.Icap
open Schemes IoExt Http

inductive ImapAdaptationError where
  | icapServerWriteFailed (e : IoError)
  | imapClientReadFailed (e : IoError)
  deriving DecidableEq

def copyFailed : StreamCopyError → ImapAdaptationError
  | .readFailed e => .imapClientReadFailed e
  | .writeFailed e => .icapServerWriteFailed e

structure ImapMessageAdapter where
  partialRequestHeader : Bytes
  /-- the lines for the client's address and the user names -/
  clientHeaders : Bytes
  support204 : Bool
  copyConfig : StreamCopyConfig
  literalSize : Nat
  literalSize_lt : literalSize < 2 ^ 64

/-- The end of the only chunk, the last chunk and an empty trailer. -/
def bodyEnd : Bytes := ascii "\r\n0\r\n\r\n"

/-! ### The transfer of the body -/

/-- `StreamCopy` to the ICAP server, and behind it the `write_all_flush` of the body end. -/
structure AppendTransfer (ω : Type) where
  copy : StreamCopy Take ω
  /-- what `write_all_flush` has still to write, once the copy is ready -/
  last : Option Bytes := none

namespace AppendTransfer

variable {ω : Type}

def enter (t : AppendTransfer ω) : AppendTransfer ω :=
  match t.last with
  | none => { t with copy := t.copy.enter }
  | some _ => t

def putCopy (c : StreamCopy Take ω) : AppendTransfer ω := ⟨c, none⟩

def putLast (c : StreamCopy Take ω) (f : WriteAllFlush ω) : AppendTransfer ω :=
  ⟨{ c with writer := f.writer }, some f.buf⟩

variable [AsyncWrite ω]

/-- The `select!` branch of the transfer. -/
def poll (t : AppendTransfer ω) : Ctrl (AppendTransfer ω) (Poll (Except ImapAdaptationError Unit)) :=
  match t.last with
  | none => t.copy.pollCopy.await putCopy copyFailed fun _ c => .next ⟨c, some bodyEnd⟩
  | some buf =>
    (WriteAllFlush.poll ⟨buf, t.copy.writer⟩).await (putLast t.copy) .icapServerWriteFailed
      fun _ f => .ret (.ready (.ok ())) (putLast t.copy f)

def future (ω : Type) [AsyncWrite ω] :
    Future (AppendTransfer ω) (Except ImapAdaptationError Unit) := ⟨enter, poll⟩

end AppendTransfer

/-! ### The requests -/

namespace ImapMessageAdapter

variable (a : ImapMessageAdapter)

def buildHttpHeader : Bytes :=
  ascii "PUT / HTTP/1.1\r\n" ++ ascii "Content-Type: message/rfc822\r\n" ++
    ascii "Content-Length: " ++ decFmt a.literalSize ++ [cr, lf] ++ [cr, lf]

def pushExtendedHeaders : Bytes :=
  ascii "X-Transformed-From: IMAP\r\n" ++ a.clientHeaders

def buildForwardAllRequest (httpHeaderLen : Nat) (allCached : Bool) : Bytes :=
  a.partialRequestHeader ++ a.pushExtendedHeaders ++
    (if a.support204 && allCached then ascii "Allow: 204\r\n" else []) ++
    ascii "Encapsulated: req-hdr=0, req-body=" ++ decFmt httpHeaderLen ++ [cr, lf] ++ [cr, lf]

def buildChunkedHeader : Bytes := hexFmt a.literalSize ++ [cr, lf]

/-- The two headers of the request. -/
def headers (allCached : Bool) : Bytes :=
  a.buildForwardAllRequest a.buildHttpHeader.length allCached ++ a.buildHttpHeader

end ImapMessageAdapter

/-- `xfer_append` while no response arrives: with everything cached, or the headers first. -/
inductive XferAppend (ω : Type) where
  | once (w : WriteAllVectored ω) (cltR : Source)
  | flush (w : ω) (cltR : Source)
  | headers (w : WriteAllVectored ω) (cltR : Source) (readSize : Nat)
  | transfer (t : AppendTransfer ω)

namespace XferAppend

variable {ω : Type}

def writer : XferAppend ω → ω
  | .once w _ => w.writer
  | .flush w _ => w
  | .headers w _ _ => w.writer
  | .transfer t => t.copy.writer

def reader : XferAppend ω → Source
  | .once _ r => r
  | .flush _ r => r
  | .headers _ r _ => r
  | .transfer t => t.copy.reader.inner

def enter : XferAppend ω → XferAppend ω
  | .transfer t => .transfer t.enter
  | x => x

variable [AsyncWrite ω]

def poll (config : StreamCopyConfig) :
    XferAppend ω → Ctrl (XferAppend ω) (Poll (Except ImapAdaptationError Unit))
  | .once w r =>
    w.poll.await (.once · r) .icapServerWriteFailed fun _ w => .next (.flush w.writer r)
  | .flush w r => flushStep w .icapServerWriteFailed (.flush · r) ()
  | .headers w r readSize =>
    w.poll.await (.headers · r readSize) .icapServerWriteFailed fun _ w =>
      .next (.transfer ⟨.new ⟨r, readSize⟩ w.writer config, none⟩)
  | .transfer t => t.poll.await .transfer id fun _ t => .ret (.ready (.ok ())) (.transfer t)

end XferAppend

namespace ImapMessageAdapter

variable {ω : Type} (a : ImapMessageAdapter) (cached : Bytes)

/-- `xfer_append_once` -/
def xferAppendOnce (cltR : Source) (w : ω) : XferAppend ω :=
  .once { writer := w
          bufs := [a.buildForwardAllRequest a.buildHttpHeader.length true, a.buildHttpHeader,
            a.buildChunkedHeader, cached, bodyEnd] } cltR

/-- `xfer_append_without_preview` -/
def xferAppendWithoutPreview (readSize : Nat)
    (cltR : Source) (w : ω) : XferAppend ω :=
  .headers { writer := w
             bufs := [a.buildForwardAllRequest a.buildHttpHeader.length false, a.buildHttpHeader,
               a.buildChunkedHeader, cached] } cltR readSize

def xferAppend (cltR : Source) (w : ω) : XferAppend ω :=
  if a.literalSize > cached.length then
    a.xferAppendWithoutPreview cached (a.literalSize - cached.length) cltR w
  else a.xferAppendOnce cached cltR w

def future (ω : Type) [AsyncWrite ω] : Future (XferAppend ω) (Except ImapAdaptationError Unit) :=
  ⟨XferAppend.enter, XferAppend.poll a.copyConfig⟩

end ImapMessageAdapter

end Vey.Icap
