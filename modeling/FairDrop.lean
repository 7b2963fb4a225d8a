import FairDrop.RowStore.Table
import FairDrop.RowStore.Guarantee
import FairDrop.RowStore.Interleave
import FairDrop.AuditLog
import FairDrop.Database
import FairDrop.Inventory.Internal
import FairDrop.Inventory.Service
import FairDrop.Inventory.Tasks
import FairDrop.Orders.Service
import FairDrop.Changes
import FairDrop.Coupling
import FairDrop.Inventory.Commits
import FairDrop.Orders.Commits
import FairDrop.Inventory.Sweep
import FairDrop.Commits
import FairDrop.Lifecycle
import FairDrop.Stock
import FairDrop.Moderation
import FairDrop.Actors
import FairDrop.Expiry
import FairDrop.Deadlock
import FairDrop.Outcomes
import FairDrop.ReservationKeys
import FairDrop.Routes
import FairDrop.Replays
import FairDrop.User.Models
import FairDrop.User.Service
import FairDrop.Redis.Keys
import FairDrop.ProductRows
import FairDrop.Assignments
import FairDrop.Media.Deciding
import FairDrop.Media.Sanitizing
import FairDrop.RowStore.Answers
import FairDrop.Shared.RateLimit
import FairDrop.User.Deactivation
import FairDrop.User.Rotation
import FairDrop.RowStore.Part
import FairDrop.Shop.Actors
import FairDrop.Shop.Ownership
import FairDrop.Inventory.SellerLimit
import FairDrop.RowStore.Serial
import FairDrop.Shop.Auditing
import FairDrop.Shop.Routes
import FairDrop.Shop.StaffAccess
import FairDrop.User.Elevation
import FairDrop.User.PendingRequests
import FairDrop.User.ApiKeys
import FairDrop.User.PartnerGuards
import FairDrop.ExpiryPass
import FairDrop.Bodies
import FairDrop.Text.Html
import FairDrop.Text.Segments
import FairDrop.Media.Normalizing
import FairDrop.Media.Enqueuing
import FairDrop.Json
import FairDrop.Diffs
import FairDrop.BuyerUser.Service
import FairDrop.Dashboards
import FairDrop.User.Refreshing
import FairDrop.User.Registration
import FairDrop.Inventory.Payloads
import FairDrop.Orders.Amounts
import FairDrop.Returns
import FairDrop.Inventory.InternalCalls
import FairDrop.Rejections
import FairDrop.Inventory.Paging
import FairDrop.Orders.Serializing
import FairDrop.Sensitive
import FairDrop.DocLinks
import FairDrop.Shop.Journal
import FairDrop.History
import FairDrop.Holds
import FairDrop.Completion
import FairDrop.Refusals
import FairDrop.ReservedOnce
import FairDrop.Statuses
import FairDrop.SerialOrder
import FairDrop.Admission
import FairDrop.Preconditions
import FairDrop.User.Pedigree
