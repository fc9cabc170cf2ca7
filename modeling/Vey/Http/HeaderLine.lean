import Vey.Http.ChunkedLine
import Vey.Types.Header

/-! The lines of an HTTP/1 header: `HttpMethodLine` and `HttpHeaderLine`. -/

namespace Vey.Http
open Schemes

structure HttpMethodLine where
  version : Nat
  method : Bytes
  uri : Bytes

def HttpMethodLine.parse (buf : Bytes) : Except HttpLineParseError HttpMethodLine :=
  if validUtf8 buf = false then .error .invalidUtf8Encoding
  else
    match memchr 32 buf with
    | none => .error (.noDelimiterFound ' ')
    | some p1 =>
      let method := buf.take p1
      let left := buf.drop (p1 + 1)
      match memchr 32 left with
      | none => .error (.noDelimiterFound ' ')
      | some p2 =>
        let uri := trim (left.take p2)
        let version := trim (left.drop (p2 + 1))
        if version = ascii "HTTP/1.0" then .ok ⟨0, method, uri⟩
        else if version = ascii "HTTP/1.1" then .ok ⟨1, method, uri⟩
        else if version = ascii "HTTP/2.0" ∨ version = ascii "HTTP/2" then .ok ⟨2, method, uri⟩
        else .error .invalidVersion

structure HttpHeaderLine where
  name : Bytes
  value : Bytes

def HttpHeaderLine.parse (buf : Bytes) : Except HttpLineParseError HttpHeaderLine :=
  if validUtf8 buf = false then .error .invalidUtf8Encoding
  else
    match memchr 58 buf with
    | none => .error (.noDelimiterFound ':')
    | some p =>
      let name := trim (buf.take p)
      if name = [] then .error .invalidHeaderName
      else .ok ⟨name, trim (buf.drop (p + 1))⟩

end Vey.Http
