import Docroot.Calendar
import Docroot.Config
import Docroot.ContentCache
import Docroot.Cookie
import Docroot.Disk
import Docroot.Disk.Change
import Docroot.Disk.Walk
import Docroot.Errno
import Docroot.Event
import Docroot.ExtensionSet
import Docroot.Failure
import Docroot.Header
import Docroot.HeaderName
import Docroot.Key
import Docroot.MediaType
import Docroot.Policy
import Docroot.Proofs.Access
import Docroot.Proofs.Account
import Docroot.Proofs.Caching
import Docroot.Proofs.Call
import Docroot.Proofs.Canonical
import Docroot.Proofs.Classification
import Docroot.Proofs.Composition
import Docroot.Proofs.Containment
import Docroot.Proofs.CookieTexts
import Docroot.Proofs.Cookies
import Docroot.Proofs.Creation
import Docroot.Proofs.Dates
import Docroot.Proofs.Documents
import Docroot.Proofs.Effect
import Docroot.Proofs.Entries
import Docroot.Proofs.FolderContents
import Docroot.Proofs.Framing
import Docroot.Proofs.Growth
import Docroot.Proofs.History
import Docroot.Proofs.HttpDates
import Docroot.Proofs.Invalidation
import Docroot.Proofs.Issuance
import Docroot.Proofs.KeyShape
import Docroot.Proofs.Kinds
import Docroot.Proofs.Lifetime
import Docroot.Proofs.Listings
import Docroot.Proofs.Lockstep
import Docroot.Proofs.Marks
import Docroot.Proofs.Names
import Docroot.Proofs.Numbering
import Docroot.Proofs.Occupancy
import Docroot.Proofs.Policies
import Docroot.Proofs.Readers
import Docroot.Proofs.Reentrancy
import Docroot.Proofs.Refinement
import Docroot.Proofs.Registry
import Docroot.Proofs.Replay
import Docroot.Proofs.Resolution
import Docroot.Proofs.Scans
import Docroot.Proofs.Script
import Docroot.Proofs.Search
import Docroot.Proofs.Texts
import Docroot.Proofs.Tree
import Docroot.Proofs.Walks
import Docroot.Proofs.WarmContents
import Docroot.Proofs.WarmUp
import Docroot.Response
import Docroot.ResponseCache
import Docroot.Server
import Docroot.Server.Content
import Docroot.Server.Resolve
import Docroot.Server.Respond
import Docroot.Server.Warm
import Docroot.Snapshot
import Docroot.Status
import Docroot.Stream
import Docroot.Table
import Docroot.Text.Case
import Docroot.Text.Decimal
import Docroot.Text.Lines
import Docroot.Text.Quoted
import Docroot.Text.Utf8
import Docroot.Timestamp
import Docroot.Uuid
