import Cloudlus.Server.Hex
import Cloudlus.Server.Dispatcher

/-!
# The HTTP and RPC façades

Each handler turns one call into at most one value sent to the dispatcher.

* The submit handlers read the body (`ioutil.ReadAll`), build a job and send
  `jobSubmit{j, nil}`; `/job/submit` decodes the body with
  `json.Unmarshal(data, &j)` over the job `NewJob()` returned.
* RPC Submit and RPC Push pass on the `*Job` that `net/rpc` decoded, which is
  never `nil`; RPC Submit adds a fresh result channel.
* `getjob` parses the id with `convid` and asks the dispatcher with a
  `statjobs` request; `/job/status/` and `/job/retrieve/` build on it.

`encoding/json`'s reading of the body bytes is not modelled: a body is what
`Unmarshal` into a `*Job` distinguishes (`Body`): the literal `null`, an
object and the fields it sets, or an error.

* `submit_panics_iff_null`: the dispatcher dereferences the job of every
  `jobSubmit` it receives, and the body `null` makes `Unmarshal` set the
  handler's pointer to `nil` without an error. So an HTTP submission takes
  the dispatcher goroutine down exactly when its body is `null`; every other
  body is rejected before anything is sent, or handed over as a job.
-/
namespace Cloudlus

structure JobFields where
  id : Option JobId
  status : Option Status
  submitted : Option Nat
  payload : Option (List UInt8)
  outfiles : Option (List OutFile)

def JobFields.apply (p : JobFields) (j : Job) : Job :=
  { id := p.id.getD j.id, status := p.status.getD j.status,
    submitted := p.submitted.getD j.submitted, payload := p.payload.getD j.payload,
    outfiles := p.outfiles.getD j.outfiles }

/-- A request body as `json.Unmarshal` reads it into a `*Job`. -/
inductive Body where
  | null
  | object (fields : JobFields)
  | invalid (err : String)

/-- `json.Unmarshal(data, &j)` with `j` pointing at a job: `null` sets `j`
to `nil`, an object is decoded into `*j`. -/
def unmarshal : Body → Job → Except String (Option Job)
  | .null, _ => .ok none
  | .object p, j => .ok (some (p.apply j))
  | .invalid e, _ => .error e

structure JobSubmit where
  j : Option Job
  wait : Bool

inductive Handled where
  | rejected (code : Nat) (msg : String)
  | sent (js : JobSubmit)

def statusBadRequest : Nat := 400

/-- mirrors `Server.submit` (lines 114-134). `data` is what `ReadAll`
returned, as JSON; `id` is the id `NewJob` draws. -/
def submitHandler (id : JobId) (data : Except String Body) : Handled :=
  match data with
  | .error e => .rejected statusBadRequest e
  | .ok b =>
    match unmarshal b (newJob id) with
    | .error e => .rejected statusBadRequest e
    | .ok j => .sent ⟨j, false⟩

/-- mirrors `Server.submitInfile` (lines 136-152). -/
def submitInfileHandler (id : JobId) (data : Except String (List UInt8)) : Handled :=
  match data with
  | .error e => .rejected statusBadRequest e
  | .ok d => .sent ⟨some (newJobDefault id d), false⟩

/-- mirrors `RPC.Submit` (lines 248-254). -/
def rpcSubmit (j : Job) : Handled := .sent ⟨some j, true⟩

def rpcPush (j : Job) : Req := .push j

/-- The Submit case on a `jobSubmit` whose job may be `nil`: its first
statement dereferences the job, so `nil` panics the dispatcher (`none`). -/
def World.submitPtr (w : World) (js : JobSubmit) (now : Nat) : Option (World × Ev) :=
  js.j.map fun j => w.submit j js.wait now

def World.handle (w : World) (now : Nat) : Handled → Option World
  | .rejected _ _ => some w
  | .sent js => (w.submitPtr js now).map Prod.fst

/-- An HTTP submission panics the dispatcher exactly when its body is `null`. -/
theorem submit_panics_iff_null (w : World) (now : Nat) (id : JobId) (data : Except String Body) :
    w.handle now (submitHandler id data) = none ↔ data = .ok .null := by
  rcases data with e | _ | p | e <;>
    simp [submitHandler, unmarshal, World.handle, World.submitPtr]

/-! ## Lookups -/

/-- The text `%v` prints for a Go string, read as UTF-8. Bytes that are not
valid UTF-8 give `""` here, where Go prints them raw; every id `convid`
accepts is ASCII. -/
def goString (s : List UInt8) : String := String.fromUTF8! ⟨s.toArray⟩

/-- mirrors `Server.getjob` (lines 200-213). The `*Job` it returns is the
object `r` the dispatcher replied with, paired with what `r` held then; a
handler that reads through it later sees `r` as it is by then. -/
def World.getjobPtr (w : World) (idstr : List UInt8) : World × Except String (Ref × Job) :=
  match convid idstr with
  | .error _ => (w, .error ("malformed job id " ++ goString idstr))
  | .ok id =>
    match (w.lookup id).2 with
    | .replied _ (some p) => ((w.lookup id).1, .ok p)
    | _ => ((w.lookup id).1, .error ("unknown job id " ++ goString idstr))

def World.getjob (w : World) (idstr : List UInt8) : World × Except String Job :=
  ((w.getjobPtr idstr).1, (w.getjobPtr idstr).2.map Prod.snd)

end Cloudlus
