import Vey.Codec.HelloLimit
import Vey.Codec.QuicReassembly
import Vey.Escape.HeadStart
import Vey.Http.BodyEnd
import Vey.Http.BodySegments
import Vey.Http.ChunkedFlush
import Vey.Http.DecoderResume
import Vey.Http.FixedLength
import Vey.Http.ResponseFraming
import Vey.Http.WrittenSize
import Vey.HttpExpose.Relayed
import Vey.HttpForward.Reuse
import Vey.HttpProxy.Request
import Vey.Icap.AppendExact
import Vey.Icap.H2Preview
import Vey.Icap.Preview
import Vey.Imap.IdleLimit
import Vey.Imap.Responses
import Vey.Imap.Tags
import Vey.IoExt.AffordablePrefix
import Vey.IoExt.AllOrNothing
import Vey.IoExt.BatchLimit
import Vey.IoExt.EffectiveCache
import Vey.IoExt.LineRecvRuns
import Vey.IoExt.StreamBound
import Vey.IoExt.WindowQuota
import Vey.Keyless.Answers
import Vey.Limit.Rate
import Vey.Resolve.Redirect
import Vey.Resolver.Waiters
import Vey.Site.PickTable
import Vey.Smtp.EhloReply
import Vey.Smtp.TextBufRead
import Vey.Smtp.TextRoundTrip
import Vey.Smtp.Transaction
import Vey.SniProxy.Fragmentation
import Vey.Statsd.Aggregate
