import Netops.Lib.Prog
import Netops.Lib.Trace
import Netops.Lib.Sha256
import Netops.Lib.Base64
import Netops.Lib.Json
import Netops.Lib.Utf8
import Netops.Lib.Regex
import Netops.Lib.Needles
import Netops.Lib.Worklist
import Netops.Lib.JsonTexts
import Netops.Lib.Shlex
import Netops.Admin.Data
import Netops.Admin.Machine
import Netops.Admin.Events
import Netops.Admin.Journal
import Netops.Admin.Execute
import Netops.Admin.Recover
import Netops.Admin.Apply
import Netops.Admin.Quiet
import Netops.Admin.Settled
import Netops.Admin.Protocol
import Netops.Admin.Budget
import Netops.Admin.Steps
import Netops.Admin.Work
import Netops.Admin.Reading
import Netops.Admin.Conform
import Netops.Admin.Recovery
import Netops.Admin.Admission
import Netops.Admin.Served
import Netops.Admin.Runs
import Netops.Admin.Requests
import Netops.Admin.Expiry
import Netops.Syslog.Parts
import Netops.Syslog.RoundTrip
import Netops.Syslog.Frozen
import Netops.Auditor.State
import Netops.Auditor.Cycles
import Netops.Auditor.Migrate
import Netops.Audit.Segments
import Netops.Audit.Torn
import Netops.Audit.Retention
import Netops.Audit.Redaction
import Netops.Audit.FastPath
import Netops.Audit.Component
import Netops.Gateway.Order
import Netops.Fortios.Exact
import Netops.Fortios.Print
import Netops.Exos.Membership
import Netops.Helper.Answers
import Netops.Helper.Sanitize
import Netops.Helper.Bridge
import Netops.Configuration.Chunks
import Netops.Configuration.Secrets
import Netops.Configuration.Filter
import Netops.Engine.Shipped
import Netops.Engine.Planned
import Netops.Fortios.Device
import Netops.Fortios.Closures
import Netops.Engine.Wording
import Netops.Exos.Device
import Netops.Fortios.Wording
import Netops.Configuration.Compare
import Netops.Configuration.Pager
import Netops.Configuration.Cache
import Netops.Configuration.Isolation
import Netops.Fortiadc.Listing
import Netops.Fortiadc.Pool
import Netops.Fortiadc.Settled
import Netops.Configuration.Buffers
import Netops.Lib.Patterns
import Netops.Reads.Dhcp
import Netops.Reads.Page
import Netops.Reads.Whole
import Netops.Helper.Labels
import Netops.Triage.Parse
import Netops.Triage.Sound
import Netops.Sftp.Confined
import Netops.Diagnostics.Fortiadc
import Netops.Diagnostics.Fortios
import Netops.Diagnostics.Restored
import Netops.Diagnostics.Verified
