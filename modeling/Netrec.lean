import Netrec.CLib.Blocks
import Netrec.CLib.CString
import Netrec.CLib.Chain
import Netrec.CLib.Chunks
import Netrec.CLib.Fields
import Netrec.CLib.Heap
import Netrec.CLib.Lifetime
import Netrec.CLib.Lines
import Netrec.CLib.Literals
import Netrec.CLib.Numeric
import Netrec.CLib.Records
import Netrec.CLib.Search
import Netrec.CLib.Sections
import Netrec.CLib.Store
import Netrec.CLib.Words
import Netrec.Cfg.Failure
import Netrec.Cfg.Grammar
import Netrec.Cfg.Heap
import Netrec.Cfg.Laws
import Netrec.Cfg.Lifecycle
import Netrec.Cfg.Meaning
import Netrec.Cfg.Memory
import Netrec.Cfg.Path
import Netrec.Cfg.Print
import Netrec.Cfg.Query
import Netrec.Cfg.RoundTrip
import Netrec.Cfg.Starved
import Netrec.Cfg.Text
import Netrec.Cfg.Tree
import Netrec.Cfg.Writes
import Netrec.Kernel
import Netrec.Live
import Netrec.Lock
import Netrec.Netlink.Attributes
import Netrec.Netlink.Closed
import Netrec.Netlink.Consistent
import Netrec.Netlink.Describe
import Netrec.Netlink.Dump
import Netrec.Netlink.Message
import Netrec.Resolv
import Netrec.Run
import Netrec.State
import Netrec.Uci.Build
import Netrec.Uci.Capture
import Netrec.Uci.Db
import Netrec.Uci.Entries
import Netrec.Uci.Exact
import Netrec.Uci.Members
import Netrec.Uci.Netmask
import Netrec.Uci.Order
import Netrec.Uci.RoundTrip
import Netrec.Uci.Serialize
import Netrec.Uci.Sources
import Netrec.Uci.Whole
import Netrec.Verify.Argv
import Netrec.Verify.Checks
import Netrec.Verify.Command
import Netrec.Verify.Counts
import Netrec.Verify.Creation
import Netrec.Verify.Devices
import Netrec.Verify.DumpOrder
import Netrec.Verify.Expand
import Netrec.Verify.Plan
import Netrec.Verify.Prefix
import Netrec.Verify.Repair
import Netrec.Verify.Spec
import Netrec.Watch
import Netrec.Watch.Daemon
import Netrec.Yaml
import Netrec.Yaml.Accept
import Netrec.Yaml.Fields
import Netrec.Yaml.Integers
