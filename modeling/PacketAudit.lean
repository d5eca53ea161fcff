import PacketAudit.Tcp.Epochs
import PacketAudit.Tcp.Completeness
import PacketAudit.Fragments.Conflicts
import PacketAudit.Cleartext.RespEncoding
import PacketAudit.Http.Segmentation
import PacketAudit.Supervisor.SameContent
import PacketAudit.Supervisor.Affinity
import PacketAudit.Supervisor.ReservationRuns
import PacketAudit.Detector.Spans
import PacketAudit.Library.Loop
import PacketAudit.Detector.Ntlm
import PacketAudit.Detector.State
import PacketAudit.Detector.Stores
import PacketAudit.Detector.Caps
import PacketAudit.Detector.Merge
import PacketAudit.Detector.Correlation
import PacketAudit.Detector.Calls
import PacketAudit.Tcp.Settling
import PacketAudit.Tcp.Bounds
import PacketAudit.Tcp.Labels
import PacketAudit.Tcp.Overlaps
import PacketAudit.Tcp.Rebase
import PacketAudit.Tcp.Evictions
import PacketAudit.Tcp.Mirroring
import PacketAudit.Tcp.Isolation
import PacketAudit.Cleartext.Postgres
import PacketAudit.Cleartext.Resumption
import PacketAudit.Cleartext.Walk
import PacketAudit.Cleartext.Negotiation
import PacketAudit.Cleartext.PgEncoding
import PacketAudit.Dashboard.Pages
import PacketAudit.Packets.Safety
import PacketAudit.Forwarded.Checksums
import PacketAudit.Fragments.Accounting
import PacketAudit.Fragments.Strays
import PacketAudit.Tcp.Expiry
import PacketAudit.Tcp.Teardown
import PacketAudit.Http.Limits
import PacketAudit.Http.FormSpans
import PacketAudit.Json.Exact
import PacketAudit.Dashboard.Depth
import PacketAudit.Http.FormReference
import PacketAudit.Findings.Endpoints
import PacketAudit.Capture.Batches
import PacketAudit.Detector.Unwrapping
import PacketAudit.Detector.Bounded
import PacketAudit.Detector.Faithful
import PacketAudit.Detector.KerberosRuns
import PacketAudit.Dashboard.Delivery
import PacketAudit.Cleartext.Socks5
import PacketAudit.Detector.Mqtt
import PacketAudit.Writer.Ending
import PacketAudit.Writer.Evidence
