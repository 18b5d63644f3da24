import Mathlib.Logic.Function.Basic
import Cloudlus.Server.Job
import Cloudlus.Server.Lru

/-!
# The dispatcher as a state machine

`Server.dispatcher` is one goroutine looping over a `select` on five
channels; every HTTP handler and RPC method talks to it only by sending one
value on one of them (`submitjobs`, `retrievejobs`, `statjobs`, `pushjobs`,
`fetchjobs`). So the server is a state machine whose steps are the received
values, in whatever order the `select` picks them: `World.step` is one
iteration of the loop and `World.run` the loop over any finite sequence of
received values.

**State.** The dispatcher-owned fields of `Server` (`queue`, `submitchans`,
`alljobs`) and the part of the Go heap they reach: every `*Job` the
dispatcher was handed, addressed by a `Ref` in order of allocation, and the
count of result channels made so far. Jobs are pointers in Go, and the Fetch
case writes `j.Status = StatusRunning` through the pointer it pops, which the
cache may share; the heap makes that aliasing explicit. Each handler and RPC
call allocates its own `*Job` (`NewJob`, `NewJobDefault`, or the argument
`net/rpc` decodes) and RPC Submit its own `chan *Job`, so a step allocates
them fresh.

**Events.** `Ev` is what a step sends back: the reply on `req.Resp` or on the
`workRequest`, the delivery `ch <- j` to a waiter, and, for a submission,
the object the dispatcher accepted and the waiter channel it registered.

A reply carries the object `r` it points at as well as what `r` holds when
the dispatcher sends it, so that a handler reading through the pointer later
can be modelled (`World.statusHandlerAfter`). `time.Now()` is the `now`
carried by the submission.
-/
namespace Cloudlus

/-- `const MB = 1 << 20` -/
def MB : Nat := 1 <<< 20

/-- A `*Job`: the index of the object in the heap. -/
abbrev Ref := Nat

/-- A `chan *Job` made by RPC Submit, numbered in order of creation. -/
abbrev Chan := Nat

/-- The fields of `Server` the dispatcher owns. -/
structure Server where
  queue : List Ref
  submitchans : JobId → Option Chan
  alljobs : LRUCache JobId Ref

/-- The server with the heap objects it reaches. -/
structure World where
  heap : List Job
  chans : Nat
  srv : Server

/-- The state `NewServer` leaves: empty queue and waiter map, an empty cache of
500 MB. -/
def World.init : World := ⟨[], 0, ⟨[], fun _ => none, LRUCache.empty (500 * MB)⟩⟩

/-- One value received by the dispatcher's `select`. -/
inductive Req where
  /-- `jobSubmit{J, Result}` on `submitjobs`. `wait` when `Result` is a fresh
  channel (RPC Submit) rather than `nil` (the HTTP handlers); `now` is what
  `time.Now()` returns during the step. -/
  | submit (j : Job) (wait : Bool) (now : Nat)
  /-- `jobRequest` on `retrievejobs`. -/
  | retrieve (id : JobId)
  /-- `jobRequest` on `statjobs` (`getjob`). -/
  | stat (id : JobId)
  /-- `*Job` on `pushjobs` (RPC Push). -/
  | push (j : Job)
  /-- `workRequest` on `fetchjobs` (RPC Fetch). -/
  | fetch
  deriving DecidableEq

/-- What one step sends back. -/
inductive Ev where
  /-- A submission was queued as object `r`, with waiter channel `ch`. -/
  | submitted (r : Ref) (ch : Option Chan)
  /-- The reply to a lookup of `id`: the cached object, or `nil`. -/
  | replied (id : JobId) (resp : Option (Ref × Job))
  /-- The reply to a Fetch: the popped object, or `nil`. -/
  | fetched (resp : Option (Ref × Job))
  /-- A pushed job, and the waiter it was delivered to. -/
  | pushed (j : Job) (delivered : Option Chan)
  deriving DecidableEq

/-! ## One iteration of the loop -/

/-- The `submitjobs` case (lines 75-83). -/
def World.submit (w : World) (j : Job) (wait : Bool) (now : Nat) : World × Ev :=
  let r := w.heap.length
  let j := { j with status := .queued, submitted := now }
  ({ heap := w.heap ++ [j]
     chans := if wait then w.chans + 1 else w.chans
     srv :=
      { queue := w.srv.queue ++ [r]
        submitchans :=
          if wait then Function.update w.srv.submitchans j.id (some w.chans) else w.srv.submitchans
        alljobs := w.srv.alljobs.set j.id r j.size } },
   .submitted r (if wait then some w.chans else none))

/-- The `retrievejobs` and `statjobs` cases (lines 84-95): `alljobs.Get`. -/
def World.lookup (w : World) (id : JobId) : World × Ev :=
  ({ w with srv := { w.srv with alljobs := (w.srv.alljobs.get id).2 } },
   .replied id ((w.srv.alljobs.get id).1.bind fun r => w.heap[r]?.map (r, ·)))

/-- The `pushjobs` case (lines 96-101). -/
def World.push (w : World) (j : Job) : World × Ev :=
  ({ w with
     heap := w.heap ++ [j]
     srv :=
      { w.srv with
        submitchans := match w.srv.submitchans j.id with
          | some _ => Function.update w.srv.submitchans j.id none
          | none => w.srv.submitchans
        alljobs := w.srv.alljobs.set j.id w.heap.length j.size } },
   .pushed j (w.srv.submitchans j.id))

/-- The Push case leaves no waiter under the pushed id (`delete` of a missing
key changes nothing). -/
theorem push_submitchans (w : World) (j : Job) :
    (w.push j).1.srv.submitchans = Function.update w.srv.submitchans j.id none := by
  simp only [World.push]
  split
  · rfl
  · rename_i h; funext x
    by_cases hx : x = j.id
    · subst hx; simp [h]
    · simp [hx]

/-- Fetch marks a job running. -/
def markRunning (j : Job) : Job := { j with status := .running }

/-- The `fetchjobs` case (lines 102-109). -/
def World.fetch (w : World) : World × Ev :=
  match w.srv.queue with
  | [] => (w, .fetched none)
  | r :: q =>
    ({ w with heap := w.heap.modify markRunning r, srv := { w.srv with queue := q } },
     .fetched ((w.heap.modify markRunning r)[r]?.map (r, ·)))

/-- One iteration of `Server.dispatcher`. -/
def World.step (w : World) : Req → World × Ev
  | .submit j wait now => w.submit j wait now
  | .retrieve id => w.lookup id
  | .stat id => w.lookup id
  | .push j => w.push j
  | .fetch => w.fetch

/-- The loop over a sequence of received values. -/
def World.run (w : World) : List Req → World × List Ev
  | [] => (w, [])
  | r :: rs => ((w.step r).1.run rs |>.1, (w.step r).2 :: ((w.step r).1.run rs).2)

@[simp] theorem run_nil (w : World) : w.run [] = (w, []) := rfl

@[simp] theorem run_cons (w : World) (r : Req) (rs : List Req) :
    w.run (r :: rs) = (((w.step r).1.run rs).1, (w.step r).2 :: ((w.step r).1.run rs).2) := rfl

theorem run_append (w : World) (rs rs' : List Req) :
    w.run (rs ++ rs') = (((w.run rs).1.run rs').1, (w.run rs).2 ++ ((w.run rs).1.run rs').2) := by
  induction rs generalizing w with
  | nil => rfl
  | cons r rs ih => simp [ih]

theorem run_snoc (w : World) (rs : List Req) (r : Req) :
    w.run (rs ++ [r]) = (((w.run rs).1.step r).1, (w.run rs).2 ++ [((w.run rs).1.step r).2]) := by
  simp [run_append]

/-- The steps a run may take, as a predicate on the state each starts from. -/
def Guarded (g : World → Req → Prop) : World → List Req → Prop
  | _, [] => True
  | w, r :: rs => g w r ∧ Guarded g (w.step r).1 rs

instance decGuarded (g : World → Req → Prop) [∀ w r, Decidable (g w r)] :
    ∀ w rs, Decidable (Guarded g w rs)
  | _, [] => isTrue trivial
  | w, r :: rs => @instDecidableAnd _ _ _ (decGuarded g (w.step r).1 rs)

theorem guarded_snoc (g : World → Req → Prop) (w : World) (rs : List Req) (r : Req) :
    Guarded g w (rs ++ [r]) ↔ Guarded g w rs ∧ g (w.run rs).1 r := by
  induction rs generalizing w with
  | nil => simp [Guarded]
  | cons r' rs ih => simp [Guarded, ih, and_assoc]

end Cloudlus
