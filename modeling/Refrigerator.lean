import Refrigerator.Lib.Machine
import Refrigerator.Lib.Program
import Refrigerator.Lib.Compaction
import Refrigerator.Lib.Membership
import Refrigerator.Lib.Pending
import Refrigerator.Lib.Since
import Refrigerator.Lib.Register
import Refrigerator.Lib.FirstMax
import Refrigerator.Lib.Nearest
import Refrigerator.Lib.Binary32
import Refrigerator.Lib.Decimal
import Refrigerator.Lib.Checked
import Refrigerator.Lib.Reading
import Refrigerator.Lib.Fresh
import Refrigerator.Lib.Memo
import Refrigerator.Engine.Basic
import Refrigerator.Exception.Details
import Refrigerator.Bindings.Basic
import Refrigerator.Bindings.Merge
import Refrigerator.Bindings.Faults
import Refrigerator.Bindings.Actions
import Refrigerator.Bindings.Api
import Refrigerator.Lifecycle.Basic
import Refrigerator.Lifecycle.Calls
import Refrigerator.Lifecycle.History
import Refrigerator.Tracker.Basic
import Refrigerator.Tracker.Handlers
import Refrigerator.Tracker.Feed
import Refrigerator.Tracker.Session
import Refrigerator.Tracker.Hooks
import Refrigerator.Tracker.Sweep
import Refrigerator.Tracker.Batch
import Refrigerator.Butchering.Basic
import Refrigerator.Butchering.Gibs
import Refrigerator.Butchering.Freeze
import Refrigerator.Butchering.Thaw
import Refrigerator.Butchering.Capacity
import Refrigerator.Report.Basic
import Refrigerator.Report.Scan
import Refrigerator.Report.Position
import Refrigerator.Report.Coverage
import Refrigerator.Report.Nearest
import Refrigerator.Raw.Basic
import Refrigerator.Raw.Butchering
import Refrigerator.Raw.Report
import Refrigerator.Raw.Command
import Refrigerator.Raw.Entities
import Refrigerator.Attributes.Basic
import Refrigerator.Attributes.Guard
import Refrigerator.Plugin.Basic
import Refrigerator.Plugin.Core
import Refrigerator.Plugin.Hooks
import Refrigerator.Plugin.Wiring
import Refrigerator.Plugin.Refinement
import Refrigerator.Plugin.Cells
import Refrigerator.Plugin.Writes
import Refrigerator.Plugin.Hosts
import Refrigerator.Plugin.Members
import Refrigerator.Plugin.History
import Refrigerator.Plugin.Effects
import Refrigerator.Kconfiglib.Basic
import Refrigerator.Kconfiglib.Caching
import Refrigerator.Kconfiglib.Reads
import Refrigerator.Kconfiglib.Coherence
import Refrigerator.Kconfiglib.Values
import Refrigerator.Kconfiglib.Choices
import Refrigerator.Kconfiglib.Assignable
