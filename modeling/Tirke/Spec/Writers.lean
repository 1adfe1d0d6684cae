import Tirke.Services.ArtifactStore
import Tirke.Lib.Pool
/-!
# `_atomic_write(…, immutable=True)`, step by step

`Phase` is where a call stands: what is left of `writeOriginal` there is `Phase.prog`, and `Phase.Next` is what comes
after the phase's operation, by its reply. `Phase.takes` ties the two together.
-/

namespace Tirke

open CrashProg CrashDisk

/-- The numbers are those of the call's temporary file. -/
inductive Phase where
  | check
  | compare
  | syncFile
  | syncParent
  | reserve
  | write (k : Nat)
  | flush (k : Nat)
  | link (k : Nat)
  | recompare (k : Nat)
  | resync (k : Nat)
  | settle (k : Nat)
  | unlink (k : Nat) (out : Except Exn Unit)
  | ended (out : Except Exn Unit)

namespace Phase

/-- The body of the `try`, under its `finally`. -/
def guarded (p : Path) (k : Nat) (body : Serv Unit) : Serv Unit :=
  Prog.ensuring body (call (.unlink (p.1, .pending k) true))

/-- What is left of the call. -/
def prog (p : Path) (x : Doc) : Phase → Serv Unit
  | check => writeOriginal p x
  | compare => do
    sameContent p x (.integrity "Original artifact already exists")
    Tirke.syncFile p
    syncDirectory p.1
  | syncFile => do
    Tirke.syncFile p
    syncDirectory p.1
  | syncParent => syncDirectory p.1
  | reserve => writeTemporary p x true
  | write k => guarded p k do
    call (.write (p.1, .pending k) x)
    call (.fsync (p.1, .pending k))
    showTemporary (p.1, .pending k) p x true
    syncDirectory p.1
  | flush k => guarded p k do
    call (.fsync (p.1, .pending k))
    showTemporary (p.1, .pending k) p x true
    syncDirectory p.1
  | link k => guarded p k do
    showTemporary (p.1, .pending k) p x true
    syncDirectory p.1
  | recompare k => guarded p k do
    (do
      sameContent p x (.integrity "Original artifact conflict")
      Tirke.syncFile p : Serv Unit)
    syncDirectory p.1
  | resync k => guarded p k do
    Tirke.syncFile p
    syncDirectory p.1
  | settle k => guarded p k (syncDirectory p.1)
  | unlink k out => (call (.unlink (p.1, .pending k) true)).bind fun _ => .ofExcept out
  | ended out => .ofExcept out

/-- What an operation's reply leads to. -/
inductive Next (p : Path) (x : Doc) : Phase → (o : FileCall) → Except Errno o.Value → Phase → Prop where
  | found : Next p x check (.test p.entry) (.ok true) compare
  | missing : Next p x check (.test p.entry) (.ok false) reserve
  | checkFailed (e : Errno) : Next p x check (.test p.entry) (.error e) (ended (.error (.ofErrno e)))
  | same : Next p x compare (.read p.entry) (.ok x) syncFile
  | differs (y : Doc) (h : y ≠ x) : Next p x compare (.read p.entry) (.ok y)
      (ended (.error (.integrity "Original artifact already exists")))
  | readFailed (e : Errno) : Next p x compare (.read p.entry) (.error e) (ended (.error (.ofErrno e)))
  | synced : Next p x syncFile (.fsync p.entry) (.ok ()) syncParent
  | syncFailed (e : Errno) : Next p x syncFile (.fsync p.entry) (.error e) (ended (.error (.ofErrno e)))
  | parentSynced : Next p x syncParent (.syncDir p.1) (.ok ()) (ended (.ok ()))
  | parentFailed (e : Errno) : Next p x syncParent (.syncDir p.1) (.error e) (ended (.error (.ofErrno e)))
  | reserved (k : Nat) : Next p x reserve (.mkstemp p.1) (.ok k) (write k)
  | reserveFailed (e : Errno) : Next p x reserve (.mkstemp p.1) (.error e) (ended (.error (.ofErrno e)))
  | written (k : Nat) : Next p x (write k) (.write (p.1, .pending k) x) (.ok ()) (flush k)
  | writeFailed (k : Nat) (e : Errno) :
      Next p x (write k) (.write (p.1, .pending k) x) (.error e) (unlink k (.error (.ofErrno e)))
  | flushed (k : Nat) : Next p x (flush k) (.fsync (p.1, .pending k)) (.ok ()) (link k)
  | flushFailed (k : Nat) (e : Errno) :
      Next p x (flush k) (.fsync (p.1, .pending k)) (.error e) (unlink k (.error (.ofErrno e)))
  | linked (k : Nat) : Next p x (link k) (.link (p.1, .pending k) p.entry) (.ok ()) (settle k)
  | lost (k : Nat) : Next p x (link k) (.link (p.1, .pending k) p.entry) (.error .exists) (recompare k)
  | linkFailed (k : Nat) (e : Errno) (h : e ≠ .exists) :
      Next p x (link k) (.link (p.1, .pending k) p.entry) (.error e) (unlink k (.error (.ofErrno e)))
  | sameAgain (k : Nat) : Next p x (recompare k) (.read p.entry) (.ok x) (resync k)
  | conflicts (k : Nat) (y : Doc) (h : y ≠ x) : Next p x (recompare k) (.read p.entry) (.ok y)
      (unlink k (.error (.integrity "Original artifact conflict")))
  | rereadFailed (k : Nat) (e : Errno) :
      Next p x (recompare k) (.read p.entry) (.error e) (unlink k (.error (.ofErrno e)))
  | resynced (k : Nat) : Next p x (resync k) (.fsync p.entry) (.ok ()) (settle k)
  | resyncFailed (k : Nat) (e : Errno) : Next p x (resync k) (.fsync p.entry) (.error e) (unlink k (.error (.ofErrno e)))
  | settled (k : Nat) : Next p x (settle k) (.syncDir p.1) (.ok ()) (unlink k (.ok ()))
  | settleFailed (k : Nat) (e : Errno) : Next p x (settle k) (.syncDir p.1) (.error e) (unlink k (.error (.ofErrno e)))
  | unlinked (k : Nat) (out : Except Exn Unit) :
      Next p x (unlink k out) (.unlink (p.1, .pending k) true) (.ok ()) (ended out)
  | unlinkFailed (k : Nat) (out : Except Exn Unit) (e : Errno) :
      Next p x (unlink k out) (.unlink (p.1, .pending k) true) (.error e) (ended (.error (.ofErrno e)))

/-- The operation that is next. -/
def next (p : Path) (x : Doc) : Phase → Option FileCall
  | check => some (.test p.entry)
  | compare | recompare _ => some (.read p.entry)
  | syncFile | resync _ => some (.fsync p.entry)
  | syncParent | settle _ => some (.syncDir p.1)
  | reserve => some (.mkstemp p.1)
  | write k => some (.write (p.1, .pending k) x)
  | flush k => some (.fsync (p.1, .pending k))
  | link k => some (.link (p.1, .pending k) p.entry)
  | unlink k _ => some (.unlink (p.1, .pending k) true)
  | ended _ => none

theorem Next.next {p : Path} {x : Doc} {π π' : Phase} {o : FileCall} {r : Except Errno o.Value} (h : Next p x π o r π') :
    π.next p x = some o := by
  cases h <;> rfl

/-- How many operations a call may still perform. -/
def rank : Phase → Nat
  | check => 9
  | compare => 3
  | syncFile => 2
  | syncParent => 1
  | reserve => 8
  | write _ => 7
  | flush _ => 6
  | link _ => 5
  | recompare _ => 4
  | resync _ => 3
  | settle _ => 2
  | unlink _ _ => 1
  | ended _ => 0

theorem Next.rank {p : Path} {x : Doc} {π π' : Phase} {o : FileCall} {r : Except Errno o.Value} (h : Next p x π o r π') :
    π'.rank < π.rank := by
  cases h <;> simp [Phase.rank]

/-- The program performs the phase's operation and goes on as its next phase. -/
def Takes (p : Path) (x : Doc) (π : Phase) : Serv Unit → Prop
  | .op (.file f) k => ∀ reply, ∃ π', Next p x π f reply π' ∧ k reply = π'.prog p x
  | .op _ _ => False
  | .ret _ | .raise _ => ∃ out, π = ended out

theorem demand_same {x y : Doc} {e : Exn} (h : y = x) : demand (y = x) e = .ret () := by
  rw [decide_eq_true h]
  rfl

theorem demand_differs {x y : Doc} {e : Exn} (h : y ≠ x) : demand (y = x) e = .raise e := by
  rw [decide_eq_false h]
  rfl

/-- **The phases are the program.** -/
theorem takes (p : Path) (x : Doc) (π : Phase) : π.Takes p x (π.prog p x) := by
  cases π with
  | check =>
    intro reply
    cases reply with
    | ok b =>
      cases b with
      | true => exact ⟨_, .found, rfl⟩
      | false => exact ⟨_, .missing, rfl⟩
    | error e => exact ⟨_, .checkFailed e, rfl⟩
  | compare =>
    intro reply
    cases reply with
    | ok y =>
      by_cases hy : y = x
      · subst hy
        exact ⟨_, .same, congrArg (fun q : Serv Unit => q.bind fun _ => (Tirke.syncFile p).bind fun _ => syncDirectory p.1)
          (demand_same rfl)⟩
      · exact ⟨_, .differs y hy, congrArg
          (fun q : Serv Unit => q.bind fun _ => (Tirke.syncFile p).bind fun _ => syncDirectory p.1) (demand_differs hy)⟩
    | error e => exact ⟨_, .readFailed e, rfl⟩
  | syncFile =>
    intro reply
    cases reply with
    | ok _ => exact ⟨_, .synced, rfl⟩
    | error e => exact ⟨_, .syncFailed e, rfl⟩
  | syncParent =>
    intro reply
    cases reply with
    | ok _ => exact ⟨_, .parentSynced, rfl⟩
    | error e => exact ⟨_, .parentFailed e, rfl⟩
  | reserve =>
    intro reply
    cases reply with
    | ok k => exact ⟨_, .reserved k, rfl⟩
    | error e => exact ⟨_, .reserveFailed e, rfl⟩
  | write k =>
    intro reply
    cases reply with
    | ok _ => exact ⟨_, .written k, rfl⟩
    | error e => exact ⟨_, .writeFailed k e, rfl⟩
  | flush k =>
    intro reply
    cases reply with
    | ok _ => exact ⟨_, .flushed k, rfl⟩
    | error e => exact ⟨_, .flushFailed k e, rfl⟩
  | link k =>
    intro reply
    cases reply with
    | ok _ => exact ⟨_, .linked k, rfl⟩
    | error e =>
      cases e with
      | «exists» => exact ⟨_, .lost k, rfl⟩
      | io => exact ⟨_, .linkFailed k .io nofun, rfl⟩
      | notFound => exact ⟨_, .linkFailed k .notFound nofun, rfl⟩
  | recompare k =>
    intro reply
    cases reply with
    | ok y =>
      by_cases hy : y = x
      · subst hy
        exact ⟨_, .sameAgain k, congrArg (fun q : Serv Unit => guarded p k
          ((q.bind fun _ => Tirke.syncFile p).bind fun _ => syncDirectory p.1)) (demand_same rfl)⟩
      · exact ⟨_, .conflicts k y hy, congrArg (fun q : Serv Unit => guarded p k
          ((q.bind fun _ => Tirke.syncFile p).bind fun _ => syncDirectory p.1)) (demand_differs hy)⟩
    | error e => exact ⟨_, .rereadFailed k e, rfl⟩
  | resync k =>
    intro reply
    cases reply with
    | ok _ => exact ⟨_, .resynced k, rfl⟩
    | error e => exact ⟨_, .resyncFailed k e, rfl⟩
  | settle k =>
    intro reply
    cases reply with
    | ok _ => exact ⟨_, .settled k, rfl⟩
    | error e => exact ⟨_, .settleFailed k e, rfl⟩
  | unlink k out =>
    intro reply
    cases reply with
    | ok _ => exact ⟨_, .unlinked k out, rfl⟩
    | error e => exact ⟨_, .unlinkFailed k out e, rfl⟩
  | ended out =>
    cases out with
    | ok _ => exact ⟨_, rfl⟩
    | error e => exact ⟨_, rfl⟩

end Phase

end Tirke
