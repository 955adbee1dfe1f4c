import VirtualList.Json.Storage
import VirtualList.Presenter.Frame
import VirtualList.Surface.Simulated
import VirtualList.Proofs.ExtTreeMap
import VirtualList.Proofs.SizeBook.Record
import VirtualList.Proofs.SizeBook.Tally
import VirtualList.Proofs.Layout.Run
import VirtualList.Proofs.Layout.Strip
import VirtualList.Proofs.Layout.Course
import VirtualList.Proofs.Layout.Consistency
import VirtualList.Proofs.Layout.Inputs
import VirtualList.Proofs.Layout.AnchorStability
import VirtualList.Proofs.Layout.ScrollTarget
import VirtualList.Proofs.Layout.Stability
import VirtualList.Proofs.Presenter.Bindings
import VirtualList.Proofs.Presenter.Measuring
import VirtualList.Proofs.Scalar
import VirtualList.Proofs.Scheduler
import VirtualList.Proofs.Presenter.Wakefulness
import VirtualList.Proofs.Layout.Coverage
import VirtualList.Proofs.Layout.Placement
import VirtualList.Proofs.SizeBook.History
import VirtualList.Proofs.Presenter.Recording
import VirtualList.Proofs.Presenter.CallLog
import VirtualList.Proofs.Presenter.Mirror
import VirtualList.Proofs.Layout.Host
import VirtualList.Proofs.Layout.Convergence
import VirtualList.Proofs.Presenter.ScrollOffset
import VirtualList.Proofs.Presenter.Convergence
import VirtualList.Proofs.Layout.ScrollBounds
import VirtualList.Proofs.Layout.PinnedCoverage
import VirtualList.Proofs.Layout.Regrowth
import VirtualList.Proofs.Layout.Rest
import VirtualList.Proofs.Presenter.Bookkeeping
import VirtualList.Proofs.Presenter.Ownership
import VirtualList.Proofs.Layout.Conduct
import VirtualList.Proofs.Layout.Remeasuring
import VirtualList.Proofs.Presenter.MeasuringOrder
import VirtualList.Proofs.Bisection
import VirtualList.Proofs.Layout.Scrolling
import VirtualList.Proofs.Scheduler.Coalescing
import VirtualList.Proofs.Layout.IndexSafety
import VirtualList.Proofs.Layout.SettledOrder
import VirtualList.Proofs.Presenter.Refusal
import VirtualList.Proofs.Layout.Publication
import VirtualList.Proofs.Presenter.Echo
import VirtualList.Proofs.Presenter.Provenance
import VirtualList.Proofs.Layout.VisibleRange
import VirtualList.Proofs.Layout.Speculation
import VirtualList.Proofs.SizeBook.Complete
import VirtualList.Proofs.Layout.WholeExtent
import VirtualList.Proofs.SizeBook.Refusal
import VirtualList.Proofs.Layout.Refusal
import VirtualList.Proofs.Tween
import VirtualList.Proofs.Layout.SettledAnchor
import VirtualList.Proofs.SizeBook.Restoring
import VirtualList.Proofs.Presenter.WalkOrder
