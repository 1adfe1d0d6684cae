import Tirke.Models.Insights
/-!
# The models of `app/services/reviews.py` (`:38-68`)
-/

namespace Tirke

structure SegmentEdit where
  segmentId : UUID
  text : Option Str
  speakerId : Option SpeakerId
deriving DecidableEq

/-- `has_edit` (`:44`). -/
def SegmentEdit.valid (e : SegmentEdit) : Bool :=
  e.text.all nonBlank && (e.text.isSome || e.speakerId.isSome)

structure ReviewRequest where
  baseRevision : Nat
  speakerMappings : List Speaker
  segmentEdits : List SegmentEdit
  summary : List SummaryItem
  actionItems : List ActionItem
deriving DecidableEq

/-- What `ReviewRequest.model_validate` accepts. -/
def ReviewRequest.valid (r : ReviewRequest) : Bool :=
  r.speakerMappings.all Speaker.valid && r.segmentEdits.all SegmentEdit.valid &&
    r.summary.all SummaryItem.valid && r.actionItems.all ActionItem.valid

structure ApprovalRequest where
  baseRevision : Nat
deriving DecidableEq

structure ReviewSnapshot where
  meetingId : UUID
  revision : Nat
  speakerMappings : List Speaker
  segmentEdits : List SegmentEdit
  summary : List SummaryItem
  actionItems : List ActionItem
deriving DecidableEq

def ReviewSnapshot.valid (s : ReviewSnapshot) : Bool :=
  1 ≤ s.revision && s.speakerMappings.all Speaker.valid && s.segmentEdits.all SegmentEdit.valid &&
    s.summary.all SummaryItem.valid && s.actionItems.all ActionItem.valid

/-- The snapshot `update_review` builds from a request (`:181`). -/
def ReviewRequest.snapshot (r : ReviewRequest) (meetingId : UUID) (revision : Nat) : ReviewSnapshot :=
  ⟨meetingId, revision, r.speakerMappings, r.segmentEdits, r.summary, r.actionItems⟩

end Tirke
