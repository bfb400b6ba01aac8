import TinyIoT.Lib.Assoc
import TinyIoT.Lib.Forest
import TinyIoT.Lib.Links
import TinyIoT.Lib.Prune
import TinyIoT.Lib.Ledger
import TinyIoT.Lib.Reach
import TinyIoT.Lib.Batching
import TinyIoT.Lib.Sliding
import TinyIoT.Lib.Paging
import TinyIoT.Lib.Decimal
import TinyIoT.Lib.Scan
import TinyIoT.Lib.Mutex
import TinyIoT.Lib.Trim
import TinyIoT.Lib.Cut
import TinyIoT.Lib.Tokens
import TinyIoT.Lib.JsonText
import TinyIoT.Lib.Listing
import TinyIoT.Base.Json
import TinyIoT.Base.Types
import TinyIoT.Server.State
import TinyIoT.Server.Tree
import TinyIoT.Server.Db
import TinyIoT.Server.Rows
import TinyIoT.Server.Lookup
import TinyIoT.Server.Address
import TinyIoT.Server.Resolve
import TinyIoT.Resource.Instances
import TinyIoT.Server.Delete
import TinyIoT.Resource.General
import TinyIoT.Resource.Container
import TinyIoT.Resource.TimeSeries
import TinyIoT.Resource.Subscription
import TinyIoT.Resource.Group
import TinyIoT.Resource.Sdt
import TinyIoT.Resource.Declared
import TinyIoT.Server.Boot
import TinyIoT.Server.Dispatch
import TinyIoT.Server.Spared
import TinyIoT.Resource.Built
import TinyIoT.Access.Policy
import TinyIoT.Access.Lookups
import TinyIoT.Access.Fanout
import TinyIoT.Access.Revocation
import TinyIoT.Access.Decision
import TinyIoT.Container.Accounting
import TinyIoT.Container.Eviction
import TinyIoT.Container.Requests
import TinyIoT.Container.Counting
import TinyIoT.Container.Handlers
import TinyIoT.Container.Run
import TinyIoT.Container.Mirror
import TinyIoT.Container.Stored
import TinyIoT.Container.InStep
import TinyIoT.TimeSeries.Creates
import TinyIoT.TimeSeries.Changes
import TinyIoT.Heap.Nodes
import TinyIoT.Heap.Order
import TinyIoT.Heap.Restruct
import TinyIoT.Heap.Restart
import TinyIoT.Monitor.Window
import TinyIoT.Monitor.Interleaving
import TinyIoT.Monitor.Series
import TinyIoT.Monitor.Missing
import TinyIoT.Monitor.Cursors
import TinyIoT.Monitor.Slots
import TinyIoT.Monitor.Counted
import TinyIoT.Monitor.Keyed
import TinyIoT.Monitor.Detection
import TinyIoT.Monitor.Reported
import TinyIoT.Monitor.Points
import TinyIoT.Monitor.Batches
import TinyIoT.Database.Tables
import TinyIoT.Database.Deletion
import TinyIoT.Database.Columns
import TinyIoT.Database.Transactions
import TinyIoT.Database.Creates
import TinyIoT.Container.Undo
import TinyIoT.Container.Suffix
import TinyIoT.Container.Age
import TinyIoT.Container.Latest
import TinyIoT.Container.Cached
import TinyIoT.Container.Newest
import TinyIoT.Resource.FlexContainer
import TinyIoT.FlexContainer.Handlers
import TinyIoT.FlexContainer.Columns
import TinyIoT.FlexContainer.Attributes
import TinyIoT.FlexContainer.Run
import TinyIoT.FlexContainer.Schema
import TinyIoT.FlexContainer.Refusals
import TinyIoT.Subscription.Contract
import TinyIoT.Addressing.Remote
import TinyIoT.Addressing.Target
import TinyIoT.Addressing.Announce
import TinyIoT.Addressing.Poa
import TinyIoT.Addressing.Withdrawn
import TinyIoT.Http.Message
import TinyIoT.Http.JsonReader
import TinyIoT.Http.JsonWriter
import TinyIoT.Http.Forwarding
import TinyIoT.Http.Answer
import TinyIoT.Http.Headers
import TinyIoT.Http.Query
import TinyIoT.Http.Payload
import TinyIoT.Http.Chunks
import TinyIoT.Discovery.Hidden
import TinyIoT.Discovery.Query
import TinyIoT.Discovery.Pages
import TinyIoT.Discovery.Retrieve
import TinyIoT.Lib.Hanging
import TinyIoT.Discovery.Nested
import TinyIoT.Discovery.Privacy
import TinyIoT.Subscription.Expiration
import TinyIoT.Lib.Shards
import TinyIoT.Lib.Quoted
import TinyIoT.Coap.Blocks
import TinyIoT.Http.Slots
import TinyIoT.Discovery.Criteria
import TinyIoT.Addressing.Projection
import TinyIoT.Maintained.Values
import TinyIoT.Maintained.Creates
import TinyIoT.Maintained.Groups
import TinyIoT.Maintained.Requests
import TinyIoT.Lib.Descent
import TinyIoT.Groups.Members
import TinyIoT.Groups.Validated
import TinyIoT.Groups.Nesting
import TinyIoT.Groups.Membership
import TinyIoT.Groups.Run
import TinyIoT.Resource.Registration
import TinyIoT.Resource.AccessControl
import TinyIoT.Resource.Announced
import TinyIoT.Resource.Denials
import TinyIoT.Requests.Handlers
import TinyIoT.Requests.Stamps
import TinyIoT.Requests.Edits
import TinyIoT.Requests.Deletes
import TinyIoT.Requests.Creates
import TinyIoT.FlexContainer.Registry
import TinyIoT.FlexContainer.Comments
import TinyIoT.FlexContainer.Content
import TinyIoT.Requests.Stores
import TinyIoT.Requests.Instances
import TinyIoT.Requests.Updates
import TinyIoT.Requests.Run
import TinyIoT.Requests.Identifiers
import TinyIoT.Access.Contexts
import TinyIoT.Access.Grants
import TinyIoT.TimeSeries.Constraints
import TinyIoT.TimeSeries.Timestamps
import TinyIoT.Monitor.Schedule
import TinyIoT.Monitor.Ranges
