import Supex.Tsdb.Race
import Supex.Tsdb.Acknowledge
import Supex.Tsdb.Mix
import Supex.Mfptp.Stream
import Supex.Pole.Restart
import Supex.Pole.Dump
import Supex.Mixmq.Isolation
import Supex.Mixmq.Order
import Supex.Mixmq.Producers
import Supex.Mixmq.Registry
import Supex.Imx.Slots
import Supex.Imx.Identity
import Supex.Timport.Owners
import Supex.Timport.Routing
import Supex.Timport.Backup
import Supex.Mapdata.SegmentServed
import Supex.Mapdata.Line
import Supex.Mapdata.Connect
import Supex.Mapdata.Poi
import Supex.Mapdata.Grid
import Supex.Memhook.TableRefines
import Supex.Memhook.Accounting
import Supex.Loghit.Watch
import Supex.RoadRank.Ordered
import Supex.RoadRank.Record
import Supex.Brm.Flight
import Supex.Lredis.Requests
import Supex.Linkup.Kept
import Supex.Xmq.Deletion
import Supex.Xmq.Placement
import Supex.Mixmq.Deadline
import Supex.Mixmq.Keys
import Supex.Mixmq.Locks
import Supex.Mfptp.Bounds
import Supex.TimportNew.Routes
import Supex.Cachekv.Coherence
import Supex.Jtt.EncodeBounds
import Supex.Mfptp.TwoPackers
import Supex.Jtt.DecodeBounds
import Supex.Jtt.Extra
import Supex.Tsdb.Range
import Supex.Tsdb.Message
import Supex.Tsdb.Buffers
import Supex.Tsdb.Sadd
import Supex.Timport.Stepping
import Supex.RoadRank.FirstStop
import Supex.Pmr.Match
import Supex.Brm.Merge
import Supex.RoadRank.Accepted
import Supex.Timport.Unique
import Supex.Timport.Decoder
import Supex.Imx.Gidmap
import Supex.Mapdata.Iterator
import Supex.Topo.RoadList
import Supex.Cutils.Url
import Supex.ProtoParse.Proto
import Supex.Utils.Url
import Supex.MttpSvp.QueryString
import Supex.Utils.HttpBody
import Supex.Utils.Sort
import Supex.Qpool.Pool
import Supex.Utils.Cmdstr
