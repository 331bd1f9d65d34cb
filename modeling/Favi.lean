import Favi.Foundation.Bookkeeping
import Favi.Foundation.Custody
import Favi.Foundation.Program
import Favi.Foundation.Sizes
import Favi.Foundation.Table
import Favi.Foundation.Text
import Favi.Sys
import Favi.Libavif
import Favi.Reference
import Favi.Error
import Favi.Ffi
import Favi.Image
import Favi.Codec
import Favi.Session
import Favi.Layout
import Favi.Effects
import Favi.Transition
import Favi.Execution
import Favi.Ownership
import Favi.Leaks
import Favi.Views
import Favi.Agreement
import Favi.Xtask
import Favi.Bindings
import Favi.Patterns
import Favi.Rewriting
import Favi.Learning
import Favi.Tidying
import Favi.Renaming
import Favi.Typing
import Favi.Foundation.Frame
import Favi.Foundation.Refinement
import Favi.Confinement
import Favi.Meaning
import Favi.Footprint
import Favi.Simulation
import Favi.Lifetimes
import Favi.Closing
import Favi.Comparison
import Favi.Display
import Favi.Outcome
import Favi.Declarations
import Favi.Derives
import Favi.Reordering
