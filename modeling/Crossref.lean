import Crossref.Enumeration
import Crossref.Main
import Crossref.Proofs.Line.Cutting
import Crossref.Proofs.Line.Table
import Crossref.Proofs.Token.Tiling
import Crossref.Proofs.Mention
import Crossref.Proofs.Verbatim
import Crossref.Proofs.Key
import Crossref.Proofs.Descriptor
import Crossref.Proofs.Resolution.Qualified
import Crossref.Proofs.Disk
import Crossref.Proofs.Address.Unnamed
import Crossref.Proofs.Expansion.Budget
import Crossref.Proofs.Search
import Crossref.Proofs.Proximity
import Crossref.Proofs.Resolution.Closest
import Crossref.Proofs.Reference
import Crossref.Proofs.Workspace
import Crossref.Proofs.Declaration
import Crossref.Proofs.Declaration.Line
import Crossref.Proofs.Declaration.Index
import Crossref.Proofs.Declaration.Continuation
import Crossref.Proofs.Line.Returned
import Crossref.Proofs.Token.Boundary
import Crossref.Proofs.Search.Below
import Crossref.Proofs.Search.Exact
import Crossref.Proofs.Disk.Reordered
import Crossref.Proofs.Watch.Ignored
import Crossref.Proofs.Watch.Signal
import Crossref.Proofs.Expansion.Frame
import Crossref.Proofs.Expansion.Opening
import Crossref.Proofs.ModuleDir.Nearest
import Crossref.Proofs.ModuleDir.Relative
import Crossref.Proofs.Debounce.Timers
import Crossref.Proofs.Declaration.Union
import Crossref.Proofs.Component.Enclosing
import Crossref.Proofs.Attribute.Directory
import Crossref.Proofs.Path.Canonical
import Crossref.Proofs.Token.Reached
import Crossref.Proofs.Line.Lookup
import Crossref.Proofs.Ascent.Turns
