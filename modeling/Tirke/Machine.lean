import Tirke.Lib.Program
import Tirke.Lib.Disk
import Tirke.Models.Document
/-!
# The machine the services run on

One meeting folder, its clock, and the inference API behind the network. The lifecycle lock
serialises every mutation of a meeting (`artifact_store.py:lifecycle_lock`), so a run of the services
on one meeting is a sequence of programs over this machine, stopped anywhere.

| here | there |
| --- | --- |
| `Dir`, `Name` | `<root>/users/<owner>/meetings/<meeting>[/attempts/<n>]` and the files in it |
| `Exn` | the exceptions of the services; `osError` is any `OSError` but the two it is told apart from |
| `Op.file` | one system call on a path, together with the `_check` that precedes it |
| `Op.ask` | one HTTP exchange of `GPUClient` |
| `Op.flock` | `fcntl.flock`: `false` for a lock that is taken and not waited for |
| `Op.stale` | `_stale_tree` (`local_janitor.py:50`): modification times are the file system's own |
| `Op.respond` | the bytes of an export leaving the ASGI app |

The artifact tree has no symbolic links and no special files (nothing in the services makes one), so
`_check` never raises `UnsafePath`; an `OSError` of its `lstat` calls is one of the call it guards.
-/

namespace Tirke

open CrashProg CrashDisk

/-- `above` stands for the ancestors of the data root up to `/`. -/
inductive Dir where
  | above
  | root
  | users
  | owner
  | meetings
  | folder
  | attempts
  | attempt (n : Nat)
deriving DecidableEq

def Dir.chain : Dir → List Dir
  | .above => [.above]
  | .root => [.root, .above]
  | .users => [.users, .root, .above]
  | .owner => [.owner, .users, .root, .above]
  | .meetings => [.meetings, .owner, .users, .root, .above]
  | .folder => [.folder, .meetings, .owner, .users, .root, .above]
  | .attempts => [.attempts, .folder, .meetings, .owner, .users, .root, .above]
  | .attempt n => [.attempt n, .attempts, .folder, .meetings, .owner, .users, .root, .above]

instance : DirTree Dir := ⟨Dir.chain⟩

inductive Name where
  | upload
  | meeting
  | manifest
  | transcript
  | insights
  | text
  | review
  | snapshot (revision : Nat)
  | pdf (revision : Nat)
  | pdfMarker (revision : Nat)
deriving DecidableEq

abbrev Path := Dir × Name
abbrev Path.entry (p : Path) : Dir × Entry Name := (p.1, .named p.2)

/-- The codes of `_DOMAIN_CODES` (`gpu_client.py:17`). -/
inductive DomainCode where
  | jobNotFound
  | idempotencyConflict
  | submissionPending
  | resultNotReady
  | jobFailed
  | resultHashMismatch
  | payloadDeleted
  | sourceExpired
  | fileTooLarge
  | unsupportedMediaType
  | invalidRequest
deriving DecidableEq, Repr

/-- `Literal["stale_revision", "invalid_state", "review_required"]` (`reviews.py:29`). -/
inductive ReviewCode where
  | staleRevision
  | invalidState
  | reviewRequired
deriving DecidableEq, Repr

inductive LifecycleCode where
  | invalidState
  | attemptsExhausted
  | sourceExpired
  | cleanupPending
deriving DecidableEq, Repr

inductive Exn where
  | osError
  | fileNotFound
  | fileExists
  | meetingNotFound
  | notReady
  | integrity (message : String)
  | valueError (message : String)
  | validation
  /-- The `ValidationError` of `valid_job_history`. -/
  | jobHistory
  | gpuUnavailable (reason : String)
  | gpuDomain (status : Nat) (code : DomainCode)
  | gpuProtocol
  | gpuInput
  | reviewConflict (code : ReviewCode)
  | reviewValidation (message : String)
  | lifecycleConflict (code : LifecycleCode)
  | storageError
  /-- `next(…)` found nothing inside a coroutine. -/
  | runtimeError
deriving DecidableEq, Repr

/-- `isinstance(error, OSError)`. -/
def Exn.isOSError : Exn → Bool
  | .osError | .fileNotFound | .fileExists => true
  | _ => false

/-- `isinstance(error, GPUClientError)`. -/
def Exn.isGPUClientError : Exn → Bool
  | .gpuUnavailable _ | .gpuDomain _ _ | .gpuProtocol | .gpuInput => true
  | _ => false

def Exn.ofErrno : Errno → Exn
  | .io => .osError
  | .notFound => .fileNotFound
  | .exists => .fileExists

/-- One HTTP request of `GPUClient`: the method, the path and what is sent. -/
inductive Request where
  | submit (key : UUID × Nat) (context : GPUContextV1) (audio : Doc) (suffix : Option AudioExtension)
  | getJob (id : UUID)
  | getJobByKey (key : UUID × Nat)
  | getResult (id : UUID)
  | ack (id : UUID) (resultHash : Sha256)
deriving DecidableEq

/-- A response body; `error` is a JSON object whose `code` is one of the known ones, if any. -/
inductive Body where
  | job (j : JobV1)
  | bundle (b : ResultBundleV1)
  | receipt (a : AckV1)
  | error (code : Option DomainCode)
  | malformed
deriving DecidableEq

inductive Response where
  | timeout
  | connectionError
  | http (status : Nat) (body : Body)
deriving DecidableEq

abbrev Bytes.Fault := CrashDisk.Fault Dir Name Doc
abbrev Files := Disk Dir Name UUID Doc
abbrev FileImages := Images Dir Name UUID Doc
abbrev FileCall := FileOp Dir Name UUID Doc
abbrev FileEffect := Effect Dir Name UUID Doc

inductive Op where
  | file (o : FileCall)
  | ask (q : Request)
  | now
  | flock (blocking : Bool)
  | stale
  | respond (pdf : Bytes)

@[reducible] def Op.Reply : Op → Type
  | .file o => Except Errno o.Value
  | .ask _ => Response
  | .now => Time
  | .flock _ => Bool
  | .stale => Bool
  | .respond _ => Unit

abbrev Ops : Interface := ⟨Op, Op.Reply⟩

/-- A service: it returns an `α` or raises. -/
abbrev Serv := Prog Ops Exn

/-- One serialised use of a meeting: an API request, a coordinator step, or a janitor visit. -/
inductive Action where
  | processOnce
  | step
  | sweep
  | retry
  | delete (suffix : UUID)
  | updateReview (q : ReviewRequest)
  | approve (q : ApprovalRequest)
  | exportPdf
deriving DecidableEq

inductive Event where
  | file (e : FileEffect)
  | asked (q : Request) (a : Response)
  | responded (pdf : Bytes)
  | started (a : Action)
  | finished (e : Option Exn)
  | killed
  | power
  | damaged (n : Name) (d : Option Doc)

structure World where
  disk : Files
  clock : Time
  /-- Another process holds the lifecycle lock. -/
  busy : Bool
  /-- Newest first. -/
  log : List Event

/-- What the program does not decide about one operation. -/
structure Choice where
  elapsed : Nat
  fault : Option Bytes.Fault
  answer : Response
  stale : Bool

def Choice.calm : Choice := ⟨0, none, .connectionError, false⟩

namespace World

def tick (w : World) (c : Choice) : World := { w with clock := w.clock + c.elapsed }

def note (w : World) (e : Event) : World := { w with log := e :: w.log }

def act (o : Op) (c : Choice) (w : World) : o.Reply × World :=
  let w := w.tick c
  match o with
  | .file o =>
    let out := w.disk.act o c.fault
    (out.1, { w with
      disk := out.2
      log := match w.disk.effect o c.fault with
        | some e => .file e :: w.log
        | none => w.log })
  | .ask q => (c.answer, w.note (.asked q c.answer))
  | .now => (w.clock, w)
  | .flock blocking => (blocking || !w.busy, w)
  | .stale => (c.stale, w)
  | .respond pdf => ((), w.note (.responded pdf))

end World

abbrev host : Machine Ops := ⟨World, Choice, World.act⟩

/-! ## System calls -/

def call (o : FileCall) : Serv o.Value :=
  .op (.file o) fun
    | .ok a => .ret a
    | .error e => .raise (.ofErrno e)

/-- `datetime.now(UTC)`. -/
def now : Serv Time := .op .now .ret

def ask (q : Request) : Serv Response := .op (.ask q) .ret

/-- `flock(fd, …)`, without `LOCK_NB` when `blocking`. -/
def flock (blocking : Bool) : Serv Bool := .op (.flock blocking) .ret

def staleTree : Serv Bool := .op .stale .ret

def respond (pdf : Bytes) : Serv Unit := .op (.respond pdf) .ret

/-- `if not b: raise e`. -/
def demand (b : Bool) (e : Exn) : Serv Unit := if b then .ret () else .raise e

/-- `except FileNotFoundError: raise e`. -/
def missingAs {α : Type} (p : Serv α) (e : Exn) : Serv α :=
  p.handle fun x => .raise (if x = .fileNotFound then e else x)

/-- The meeting whose folder the machine holds: the `owner_id` and `meeting_id` of every call. -/
class Home where
  ownerId : UUID
  meetingId : UUID

end Tirke
