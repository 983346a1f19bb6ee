import SpidoNG.Batch.Coalesce
import SpidoNG.Cache.EntityReach
import SpidoNG.Cache.EntitySurvival
import SpidoNG.Cache.LastPut
import SpidoNG.Db.BatchedReads
import SpidoNG.Db.DirtyMarks
import SpidoNG.Db.FlushNow
import SpidoNG.Http.Accepted
import SpidoNG.Http.ChunkedEncoding
import SpidoNG.Http.Rendering
import SpidoNG.Http.ResponseFraming
import SpidoNG.Http.Router
import SpidoNG.Jwt.Lru
import SpidoNG.Pg.Handshake
import SpidoNG.Pg.PoolAccounting
import SpidoNG.Pg.Replies
import SpidoNG.Pg.StatementCache
import SpidoNG.Service.Cells
import SpidoNG.Service.DurableAck
import SpidoNG.Service.Generation
import SpidoNG.Service.IdempotentReplay
import SpidoNG.Service.Relations
import SpidoNG.Service.Roles
import SpidoNG.Service.Rotation
import SpidoNG.Service.RowKeys
import SpidoNG.Service.SqlText
import SpidoNG.Uring.Limits
import SpidoNG.Uring.Undisturbed
import SpidoNG.Wal.AnyFile
import SpidoNG.Wal.Contiguous
import SpidoNG.Wal.Order
import SpidoNG.Cache.DirtyPins
import SpidoNG.Cache.EntityAdmission
import SpidoNG.Cache.EntityBytes
import SpidoNG.Cache.Latest
import SpidoNG.Service.EntityReads
import SpidoNG.Pg.TokenBucket
import SpidoNG.Service.UrlCoding
