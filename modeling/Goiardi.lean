import Goiardi.Cookbooks.Environment
import Goiardi.Search.Panics
import Goiardi.Search.Negation
import Goiardi.Actors.Races
import Goiardi.Cookbooks.LostUpdates
import Goiardi.Cookbooks.Collection
import Goiardi.Store.Persistence
import Goiardi.Nodes.Purge
import Goiardi.Push.Parties
import Goiardi.Store.SafeValues
import Goiardi.Dump.RoundTrip
import Goiardi.Authentication.Window
import Goiardi.Authentication.SignedHeader
import Goiardi.Authentication.Signature
import Goiardi.Search.Ranges
import Goiardi.Cookbooks.Listing
import Goiardi.Push.Streams
import Goiardi.Objects.Updates
import Goiardi.Search.Required
import Goiardi.Search.Juxtaposed
import Goiardi.Search.Quoted
import Goiardi.Search.Precedence
import Goiardi.Indexing.Stored
import Goiardi.Http.Head
import Goiardi.Search.Results
import Goiardi.Indexing.Readable
import Goiardi.Nodes.Order
import Goiardi.Objects.RunLists
import Goiardi.Events.Log
import Goiardi.Indexing.DocIds
import Goiardi.Objects.Sandboxes
import Goiardi.Reports.Runs
import Goiardi.Store.Files
import Goiardi.Push.Output
import Goiardi.Push.Quorum
