import Tirke.Obeys.Processing
import Tirke.Obeys.Retry
import Tirke.Obeys.Export
import Tirke.Obeys.Creation
import Tirke.Obeys.CoordinatorRuntime
import Tirke.Theorems.Confirmation
import Tirke.Theorems.FailedReview
import Tirke.Theorems.Retry
import Tirke.Theorems.Publication
import Tirke.Theorems.AckPending
import Tirke.Theorems.Lifecycle
import Tirke.Theorems.Pagination
import Tirke.Theorems.Overlay
import Tirke.Theorems.Forgotten
import Tirke.Theorems.Editor
import Tirke.Theorems.Schemas
import Tirke.Theorems.Wire
import Tirke.Theorems.Adapter
import Tirke.Theorems.Boundary
import Tirke.Theorems.Cursor
import Tirke.Theorems.JobHistory
import Tirke.Theorems.Webm
import Tirke.Theorems.WriteOnce
import Tirke.Theorems.Staging
import Tirke.Theorems.SelfHealing
import Tirke.Theorems.Failing
import Tirke.Theorems.Retention
import Tirke.Theorems.Deletion
import Tirke.Theorems.HalfPublished
import Tirke.Theorems.Scheduling
import Tirke.Theorems.Seeding
import Tirke.Theorems.Resumption
