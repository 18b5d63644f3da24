import Mathlib.Data.List.Basic

/-!
# Jobs: the unit of work the dispatcher moves around

The `Job` type and its constructors `NewJob` / `NewJobDefault` live in a file
of the cloudlus package that is not part of the source at hand; the server
code only reads and writes the fields below. They are modelled from the
spec (§3 "Data model"): an `Id` of 16 bytes (`[16]byte`), a `Status`, the
`Submitted` time, the caller's payload and the named output blobs, which the
retrieve handler reads as `fd.Name` / `fd.Data`.

Go's `time.Time` is a natural number of clock ticks here; nothing in the
server compares two of them.
-/
namespace Cloudlus

/-- A job id, `[16]byte` in Go: exactly sixteen bytes. -/
structure JobId where
  bytes : List UInt8
  length_eq : bytes.length = 16
  deriving DecidableEq

/-- The all-zero id, `[16]byte{}`. -/
def JobId.zero : JobId := ⟨List.replicate 16 0, rfl⟩

/-- `StatusQueued`, `StatusRunning`, `StatusComplete`, `StatusFailed`. -/
inductive Status where
  | queued | running | complete | failed
  deriving DecidableEq, Repr

/-- How far a status is along `Queued → Running → {Complete | Failed}`. -/
def Status.rank : Status → Nat
  | .queued => 0
  | .running => 1
  | .complete => 2
  | .failed => 2

/-- A named output blob (`fd.Name`, `fd.Data`). -/
structure OutFile where
  name : String
  data : List UInt8
  deriving DecidableEq

/-- Modelled from the spec: the `Job` record (§3). -/
structure Job where
  id : JobId
  status : Status
  submitted : Nat
  payload : List UInt8
  outfiles : List OutFile
  deriving DecidableEq

/-- Modelled from the spec: `Job.Size`, which the result cache charges for an
entry; the spec bounds the cache by the jobs' total byte size. -/
def Job.size (j : Job) : Nat :=
  j.payload.length + j.outfiles.foldr (fun f acc => f.name.length + f.data.length + acc) 0

/-- Modelled from the spec: `NewJob()`, a job with a freshly generated id
(the random source is the argument) and nothing else set. -/
def newJob (id : JobId) : Job :=
  { id, status := .queued, submitted := 0, payload := [], outfiles := [] }

/-- Modelled from the spec: `NewJobDefault(data)`, a default job wrapping the
raw payload bytes of `/job/submit-infile`. -/
def newJobDefault (id : JobId) (data : List UInt8) : Job :=
  { newJob id with payload := data }

end Cloudlus
