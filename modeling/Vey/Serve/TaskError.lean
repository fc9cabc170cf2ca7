import Vey.Schemes.Poll

/-! `ServerTaskError`: how a task of the proxy can end before its peers are done. -/

namespace Vey.Serve
open Schemes

/-- Why no connection to the upstream could be made; the causes are kept apart by their text. -/
structure TcpConnectError where
  text : String
  deriving DecidableEq

inductive ServerTaskError where
  | internalServerError (msg : Bytes)
  | internalAdapterError
  | invalidClientProtocol (msg : Bytes)
  | clientTcpReadFailed (e : IoError)
  | clientTcpWriteFailed (e : IoError)
  | clientAppError (msg : Bytes)
  | invalidUpstreamProtocol (msg : Bytes)
  | upstreamReadFailed (e : IoError)
  | upstreamWriteFailed (e : IoError)
  | upstreamAppUnavailable
  | upstreamAppError (msg : Bytes)
  | closedByUpstream
  | closedByClient
  | tcpConnect (e : TcpConnectError)
  | clientAppTimeout (msg : Bytes)
  | upstreamAppTimeout (msg : Bytes)
  | canceledAsUserBlocked
  | canceledAsServerQuit
  deriving DecidableEq

end Vey.Serve
