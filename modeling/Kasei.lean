import Kasei.Lib.Runs
import Kasei.Lib.JsonTree
import Kasei.Lib.FanIn
import Kasei.Lib.Copies
import Kasei.Lib.Calendar
import Kasei.Models.DatabasePath
import Kasei.Models.Snapshot
import Kasei.Models.RequestItem
import Kasei.Models.ItemCategory
import Kasei.Models.Language
import Kasei.Models.PostRequest
import Kasei.Models.Counters
import Kasei.Models.Posting
import Kasei.Models.Overselling
import Kasei.Models.GetRequest
import Kasei.Models.RoundTrip
import Kasei.Basket.Session
import Kasei.Basket.Structure
import Kasei.Basket.Refinement
import Kasei.Basket.Resync
import Kasei.Basket.Rows
import Kasei.Basket.Cells
import Kasei.Basket.Loading
import Kasei.CoreData.Store
import Kasei.CoreData.Sync
import Kasei.CoreData.Loops
import Kasei.CoreData.Freshness
import Kasei.CoreData.Repeats
import Kasei.CoreData.Interrupted
import Kasei.Landing.Fetch
import Kasei.Landing.Delivery
import Kasei.Landing.Refresh
import Kasei.Landing.ReplyOrder
import Kasei.Landing.Overlap
import Kasei.Landing.Display
import Kasei.Landing.Table
import Kasei.Checkout.Posts
import Kasei.Checkout.Service
import Kasei.Checkout.Live
import Kasei.Checkout.Slots
import Kasei.Checkout.Screen
import Kasei.Checkout.Journey
import Kasei.App.Device
import Kasei.App.Gate
import Kasei.App.Privacy
import Kasei.App.Profile
import Kasei.App.Login
import Kasei.App.Attempts
