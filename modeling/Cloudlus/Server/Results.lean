import Cloudlus.Server.Transport
import Cloudlus.Server.Fifo

/-!
# The result cache over a run, and reading results back

`alljobs` is built with a capacity of 500 MB and every Submit and Push stores
the job in it with `Set`, charged `j.Size()`. `Retrieve` (`/job/retrieve/`)
and `status` (`/job/status/`) read a job back through `getjob`; RPC Fetch
answers a worker with the job the dispatcher popped, or an error.

`getjob` returns the `*Job` the cache holds, which the dispatcher shares:
a Fetch served after the reply and before the handler reads `j.Status`
changes what it reads (`statusHandlerAfter`; `statusHandler` is the handler
whose read comes first).

Not modelled: the `Content-Disposition` header and the zip archive `retrieve`
writes (`retrieveHandler` returns the files that go into it), and the JSON
encoding of `status`'s reply (the handlers return its two fields).

Results:
* `cache_within_capacity`: in every reachable state the cache keeps its
  capacity of 500 MB and holds no more, each job counted at the size it had
  when it was stored.
* `oversized_store_empties_cache`: a Submit or Push of a job larger than
  500 MB evicts every job, itself included, so `getjob` then fails for every
  id.
* `read_back_after_push`: right after a Push of a job of at most 500 MB, from
  any reachable state, `status` and `retrieve` on the id as `%x` prints it
  find that very job: its id and status, and its files if it is complete.
* `status_after_submit`: from any reachable state, `/job/status/` on the id
  `/job/submit` or `/job/submit-infile` prints reports that job, whatever
  the dispatcher serves before the handler reads it: `Running` exactly when
  one of those steps was a Fetch that handed it out, `Queued` otherwise,
  also when the JSON body set another status.
* `getjob_errors`: in every reachable state `getjob` answers "malformed job
  id" exactly for the ids `convid` rejects, and "unknown job id" exactly for
  the decoded ids the cache does not hold.
* `getjob_ignores_trailing_digits`: in every state, 32 digits followed by
  more well-formed digits find the same job as the 32 digits alone.
* `retrieve_serves_asked_job`: in every reachable state a successful Retrieve
  serves the files of a Complete job held under the id the request decodes
  to, and a status reply names that id.
* `two_job_scenario_trace`: from any reachable state with an empty queue, two
  Submits, Fetch, Stat, Push, Retrieve and Fetch reply as the spec's example
  run says.
* `rpcFetch_reachable`: in every reachable state RPC Fetch fails with "no jobs
  available to run" exactly when the queue is empty, and otherwise hands out
  the job at its head, which was Queued, marked Running.
-/
namespace Cloudlus

/-! ## The handlers -/

/-- Modelled from the spec: the text `%v` prints for a status. -/
def Status.text : Status → String
  | .queued => "Queued"
  | .running => "Running"
  | .complete => "Complete"
  | .failed => "Failed"

/-- mirrors `Server.retrieve` (lines 154-198) up to the archive: the files it
writes into it, or the error it answers with. -/
def World.retrieveHandler (w : World) (idstr : List UInt8) : World × Except String (List OutFile) :=
  match w.getjob idstr with
  | (w', .error e) => (w', .error e)
  | (w', .ok j) =>
    if j.status ≠ .complete then (w', .error ("job " ++ goString idstr ++ " status: " ++ j.status.text))
    else (w', .ok j.outfiles)

/-- mirrors `Server.status` (lines 215-238) up to the JSON encoding of
`&Job{Id: j.Id, Status: j.Status}`, run beside the dispatcher: `getjob`
returns the cached `*Job`, and the handler reads its fields after the
dispatcher has served `rs`, what other goroutines sent in between. The heap
only grows, so the object is still at `r` and `getD` never falls back. -/
def World.statusHandlerAfter (w : World) (idstr : List UInt8) (rs : List Req) :
    World × Except String (JobId × Status) :=
  let w' := ((w.getjobPtr idstr).1.run rs).1
  (w', (w.getjobPtr idstr).2.map fun (r, j) => ((w'.heap.getD r j).id, (w'.heap.getD r j).status))

/-- `Server.status` when its read comes before the dispatcher's next step. -/
def World.statusHandler (w : World) (idstr : List UInt8) : World × Except String (JobId × Status) :=
  ((w.getjob idstr).1, (w.getjob idstr).2.map fun j => (j.id, j.status))

/-- mirrors `RPC.Fetch` (lines 256-264). -/
def World.rpcFetch (w : World) : World × Except String Job :=
  (w.fetch.1, match w.fetch.2 with
    | .fetched (some (_, j)) => .ok j
    | _ => .error "no jobs available to run")

/-! ## The cache stays within its capacity -/

/-- The cache keeps the capacity `NewServer` gave it and holds no more. -/
structure CacheBound (w : World) : Prop where
  capacity : w.srv.alljobs.capacity = 500 * MB
  total_le : total w.srv.alljobs.entries ≤ 500 * MB

theorem cacheBound_init : CacheBound World.init := ⟨rfl, Nat.zero_le _⟩

theorem cacheBound_step {w : World} (h : CacheBound w) (req : Req) : CacheBound (w.step req).1 := by
  cases req with
  | submit j wait now =>
    exact ⟨h.capacity, h.capacity ▸ total_set_le _ _ _ _⟩
  | push j => exact ⟨h.capacity, h.capacity ▸ total_set_le _ _ _ _⟩
  | retrieve id =>
    exact ⟨(capacity_get _ _).trans h.capacity, (total_get _ _).trans_le h.total_le⟩
  | stat id =>
    exact ⟨(capacity_get _ _).trans h.capacity, (total_get _ _).trans_le h.total_le⟩
  | fetch =>
    show CacheBound w.fetch.1
    unfold World.fetch
    split
    · exact h
    · exact ⟨h.capacity, h.total_le⟩

theorem cacheBound_run {w : World} (h : CacheBound w) (rs : List Req) : CacheBound (w.run rs).1 := by
  induction rs generalizing w with
  | nil => exact h
  | cons r rs ih => exact ih (cacheBound_step h r)

/-- In every reachable state the result cache has its capacity of 500 MB and
holds no more than that, each job counted at the `Size()` it had when it was
stored. -/
theorem cache_within_capacity (rs : List Req) :
    (World.init.run rs).1.srv.alljobs.capacity = 500 * MB ∧
      total (World.init.run rs).1.srv.alljobs.entries ≤ 500 * MB :=
  let h := cacheBound_run cacheBound_init rs
  ⟨h.capacity, h.total_le⟩

/-! ## Storing a job larger than the cache -/

theorem getjob_of_entries_nil {w : World} (h : w.srv.alljobs.entries = []) (idstr : List UInt8) :
    ∃ e, (w.getjob idstr).2 = .error e := by
  unfold World.getjob World.getjobPtr
  split
  · exact ⟨_, rfl⟩
  · have hl : ∀ id, w.srv.alljobs.lookup id = none := fun id => by simp [LRUCache.lookup, h]
    simp [World.lookup, hl, Except.map]

/-- A Submit or a Push of a job whose `Size()` exceeds 500 MB, from any state
whose cache has its capacity, evicts every job, the new one included: after
it `getjob`, and so `status` and `retrieve`, fail for every id. -/
theorem oversized_store_empties_cache {w : World} (hw : w.srv.alljobs.capacity = 500 * MB) (j : Job)
    (hj : 500 * MB < j.size) (req : Req) (hreq : req = .push j ∨ ∃ wait now, req = .submit j wait now) :
    (w.step req).1.srv.alljobs.entries = [] ∧ ∀ idstr, ∃ e, ((w.step req).1.getjob idstr).2 = .error e := by
  have hempty : (w.step req).1.srv.alljobs.entries = [] := by
    rcases hreq with rfl | ⟨wait, now, rfl⟩
    · exact set_of_large _ _ _ (hw ▸ hj)
    · exact set_of_large _ _ _ (show w.srv.alljobs.capacity < j.size from hw ▸ hj)
  exact ⟨hempty, getjob_of_entries_nil hempty⟩

def bigJob : Job := ⟨JobId.zero, .complete, 0, List.replicate (600 * MB) 0, []⟩

theorem oversized_store_empties_cache_bigJob :
    500 * MB < bigJob.size ∧ (World.init.step (.push bigJob)).1.srv.alljobs.entries = [] ∧
      ∀ idstr, ∃ e, ((World.init.step (.push bigJob)).1.getjob idstr).2 = .error e := by
  have hsize : bigJob.size = 600 * MB := by
    rw [Job.size, show bigJob.payload = List.replicate (600 * MB) 0 from rfl,
      show bigJob.outfiles = [] from rfl, List.length_replicate, List.foldr_nil, Nat.add_zero]
  have hbig : 500 * MB < bigJob.size := hsize ▸ by decide
  exact ⟨hbig, oversized_store_empties_cache rfl bigJob hbig _ (.inl rfl)⟩

/-! ## Reading a pushed job back -/

theorem lookup_after_push {w : World} (hw : w.srv.alljobs.capacity = 500 * MB) {j : Job}
    (hj : j.size ≤ 500 * MB) :
    ((w.push j).1.lookup j.id).2 = .replied j.id (some (w.heap.length, j)) := by
  have hl : (w.srv.alljobs.set j.id w.heap.length j.size).lookup j.id = some w.heap.length :=
    lookup_set_self _ _ _ (hw ▸ hj)
  simp [World.lookup, hl, World.push]

theorem getjob_after_push {w : World} (hw : w.srv.alljobs.capacity = 500 * MB) {j : Job}
    (hj : j.size ≤ 500 * MB) : ((w.push j).1.getjob (sprintfX j.id.bytes)).2 = .ok j := by
  simp only [World.getjob, World.getjobPtr, convid_sprintfX, lookup_after_push hw hj]
  rfl

theorem retrieveHandler_of_getjob {w : World} {idstr : List UInt8} {j : Job} (h : (w.getjob idstr).2 = .ok j) :
    (w.retrieveHandler idstr).2 = if j.status = .complete then .ok j.outfiles
      else .error ("job " ++ goString idstr ++ " status: " ++ j.status.text) := by
  obtain ⟨w', hw'⟩ : ∃ w', w.getjob idstr = (w', .ok j) := ⟨_, Prod.ext rfl h⟩
  by_cases hc : j.status = .complete <;> simp [World.retrieveHandler, hw', hc]

/-- From any reachable state, right after a Push of a job of at most 500 MB,
`status` and `retrieve` on its id as `%x` prints it find that very job:
`status` reports its id and status, and `retrieve` serves its files when it
is complete and reports its status otherwise. -/
theorem read_back_after_push (rs : List Req) (j : Job) (hj : j.size ≤ 500 * MB) :
    (((World.init.run rs).1.push j).1.statusHandler (sprintfX j.id.bytes)).2 = .ok (j.id, j.status) ∧
      (((World.init.run rs).1.push j).1.retrieveHandler (sprintfX j.id.bytes)).2 =
        if j.status = .complete then .ok j.outfiles
        else .error ("job " ++ goString (sprintfX j.id.bytes) ++ " status: " ++ j.status.text) := by
  have hg := getjob_after_push (cacheBound_run cacheBound_init rs).capacity hj
  exact ⟨by simp only [World.statusHandler, hg]; rfl, retrieveHandler_of_getjob hg⟩

def doneJob : Job := ⟨JobId.zero, .complete, 0, [], [⟨"out.txt", [52, 50]⟩]⟩

theorem read_back_after_push_doneJob :
    doneJob.size ≤ 500 * MB ∧
      ((World.init.push doneJob).1.retrieveHandler (sprintfX JobId.zero.bytes)).2 = .ok doneJob.outfiles := by
  have hs : doneJob.size ≤ 500 * MB := by decide
  have h := (read_back_after_push [] doneJob hs).2
  exact ⟨hs, by simpa [doneJob] using h⟩

/-! ## Reading a submitted job back -/

theorem getjobPtr_heap (w : World) (idstr : List UInt8) : (w.getjobPtr idstr).1.heap = w.heap := by
  unfold World.getjobPtr
  split
  · rfl
  · split <;> rfl

/-- `getjob` answers with the object the cache holds under the id the request
decodes to, and what that object holds. -/
theorem getjobPtr_ok {w : World} {idstr : List UInt8} {r : Ref} {j : Job}
    (h : (w.getjobPtr idstr).2 = .ok (r, j)) :
    ∃ id, convid idstr = .ok id ∧ w.srv.alljobs.lookup id = some r ∧ w.heap[r]? = some j := by
  unfold World.getjobPtr at h
  split at h
  · cases h
  · rename_i id hid
    split at h
    · rename_i x p he
      cases h
      simp only [World.lookup, get_fst, Ev.replied.injEq, Option.bind_eq_some, Option.map_eq_some',
        Prod.mk.injEq] at he
      obtain ⟨-, r0, hr0, j0, hj0, rfl, rfl⟩ := he
      exact ⟨id, hid, hr0, hj0⟩
    · cases h

theorem getjob_ok_iff {w : World} {idstr : List UInt8} {j : Job} :
    (w.getjob idstr).2 = .ok j ↔ ∃ r, (w.getjobPtr idstr).2 = .ok (r, j) := by
  simp only [World.getjob]
  rcases (w.getjobPtr idstr).2 with e | ⟨r, j'⟩
  · simp [Except.map]
  · simp [Except.map, eq_comm]

/-- With nothing served between the reply and the read, `status` reads what
the dispatcher replied with. -/
theorem statusHandlerAfter_nil (w : World) (idstr : List UInt8) :
    w.statusHandlerAfter idstr [] = w.statusHandler idstr := by
  simp only [World.statusHandlerAfter, World.statusHandler, World.getjob, run_nil, getjobPtr_heap]
  rcases hp : (w.getjobPtr idstr).2 with e | ⟨r, j⟩
  · rfl
  · obtain ⟨-, -, -, hj⟩ := getjobPtr_ok hp
    simp [Except.map, List.getD_eq_getElem?_getD, hj]

theorem getjobPtr_after_submit {w : World} (hw : w.srv.alljobs.capacity = 500 * MB) {j : Job}
    (hj : j.size ≤ 500 * MB) (wait : Bool) (now : Nat) :
    ((w.submit j wait now).1.getjobPtr (sprintfX j.id.bytes)).2 =
      .ok (w.heap.length, { j with status := .queued, submitted := now }) := by
  have hl : (w.srv.alljobs.set j.id w.heap.length ({ j with status := .queued, submitted := now } : Job).size).lookup
      j.id = some w.heap.length := lookup_set_self _ _ _ (hw ▸ hj)
  simp [World.getjobPtr, convid_sprintfX, World.lookup, World.submit, hl]

/-- After a Submit of `j` that fits in the cache, `status` on its printed id
reports `j.id`, and `Running` exactly when a Fetch served between the reply
and the read handed out the object. -/
theorem statusHandlerAfter_submit {w : World} (hw : w.srv.alljobs.capacity = 500 * MB) {j : Job}
    (hj : j.size ≤ 500 * MB) (wait : Bool) (now : Nat) (rs : List Req) :
    ((w.submit j wait now).1.statusHandlerAfter (sprintfX j.id.bytes) rs).2 =
      .ok (j.id, if w.heap.length ∈
          handedOut (((w.submit j wait now).1.getjobPtr (sprintfX j.id.bytes)).1.run rs).2
        then .running else .queued) := by
  have hg := getjobPtr_after_submit hw hj wait now
  obtain ⟨-, -, -, hh⟩ := getjobPtr_ok hg
  rw [← getjobPtr_heap _ (sprintfX j.id.bytes)] at hh
  have hr := heap_run_at _ rs (lt_of_getElem?_eq_some hh)
  simp only [World.statusHandlerAfter, hg, Except.map, List.getD_eq_getElem?_getD, hr, hh]
  split <;> rfl

/-- From any reachable state, `/job/submit` with a JSON object body and
`/job/submit-infile` send their job to the dispatcher, and `/job/status/` on
the id the handler prints (`%x` of `j.Id`: the body's `Id` when it sets one)
then reports that id, whatever `Status` the body set and whatever the
dispatcher serves between its reply and the handler's read of the shared
job: `Running` exactly when one of those steps was a Fetch that handed the
job out, `Queued` otherwise, when the job fits in the cache. -/
theorem status_after_submit (rs : List Req) (now : Nat) (id : JobId) :
    (∀ p : JobFields, (p.apply (newJob id)).size ≤ 500 * MB →
      ∃ w', (World.init.run rs).1.handle now (submitHandler id (.ok (.object p))) = some w' ∧
        ∀ rs', (w'.statusHandlerAfter (sprintfX (p.apply (newJob id)).id.bytes) rs').2 =
          .ok ((p.apply (newJob id)).id, if (World.init.run rs).1.heap.length ∈
              handedOut ((w'.getjobPtr (sprintfX (p.apply (newJob id)).id.bytes)).1.run rs').2
            then .running else .queued)) ∧
    ∀ d : List UInt8, d.length ≤ 500 * MB →
      ∃ w', (World.init.run rs).1.handle now (submitInfileHandler id (.ok d)) = some w' ∧
        ∀ rs', (w'.statusHandlerAfter (sprintfX id.bytes) rs').2 =
          .ok (id, if (World.init.run rs).1.heap.length ∈
              handedOut ((w'.getjobPtr (sprintfX id.bytes)).1.run rs').2
            then .running else .queued) := by
  have hw := (cacheBound_run cacheBound_init rs).capacity
  exact ⟨fun p hp => ⟨_, rfl, statusHandlerAfter_submit hw hp false now⟩,
    fun d hd => ⟨_, rfl, statusHandlerAfter_submit (j := newJobDefault id d) hw hd false now⟩⟩

def completeBody : JobFields := ⟨none, some .complete, none, none, none⟩

theorem status_after_submit_completeBody :
    ∃ w', World.init.handle 0 (submitHandler JobId.zero (.ok (.object completeBody))) = some w' ∧
      (w'.statusHandlerAfter (sprintfX JobId.zero.bytes) []).2 = .ok (JobId.zero, .queued) ∧
      (w'.statusHandlerAfter (sprintfX JobId.zero.bytes) [.fetch]).2 = .ok (JobId.zero, .running) := by
  obtain ⟨w', hw', h⟩ := (status_after_submit [] 0 JobId.zero).1 completeBody (by decide)
  cases hw'
  exact ⟨_, rfl, h [], h [.fetch]⟩

/-! ## Replies name the job asked for -/

/-- In a state of `WF`, `getjob` answers only with a job the server holds,
stored under the id the request decodes to. -/
theorem getjob_sound {w : World} (hw : WF w) {idstr : List UInt8} {j : Job} (h : (w.getjob idstr).2 = .ok j) :
    convid idstr = .ok j.id ∧ j ∈ w.heap := by
  obtain ⟨r, hp⟩ := getjob_ok_iff.mp h
  obtain ⟨id, hid, hr, hj⟩ := getjobPtr_ok hp
  obtain ⟨j1, hj1, hid1⟩ := hw.cache_id id r hr
  rw [hj] at hj1
  cases hj1
  exact ⟨hid.trans (hid1 ▸ rfl), List.getElem?_mem hj⟩

theorem malformed_ne_unknown (g : String) : "malformed job id " ++ g ≠ "unknown job id " ++ g := by
  intro h
  have := congrArg (fun s : String => s.data.head?) h
  simp at this

/-- In every state, `getjob` on 32 digits followed by any more well-formed
hex digits finds exactly the job it finds on the 32 digits alone: `convid`
keeps only the first sixteen bytes. -/
theorem getjob_ignores_trailing_digits (w : World) {idstr t bs : List UInt8} (hs : idstr.length = 32)
    (ht : decode t = .ok bs) (j : Job) :
    (w.getjob (idstr ++ t)).2 = .ok j ↔ (w.getjob idstr).2 = .ok j := by
  unfold World.getjob World.getjobPtr
  rw [convid_append hs ht]
  cases convid idstr with
  | error e => simp [Except.map]
  | ok id =>
    dsimp only
    split <;> simp [Except.map]

theorem getjob_ignores_trailing_digits_doneJob :
    (sprintfX JobId.zero.bytes).length = 32 ∧ decode [48, 48] = .ok [0] ∧
      ((World.init.push doneJob).1.getjob (sprintfX JobId.zero.bytes ++ [48, 48])).2 = .ok doneJob :=
  ⟨rfl, rfl, (getjob_ignores_trailing_digits _ (by rfl) (by rfl) doneJob).mpr (getjob_after_push rfl (by decide))⟩

/-- In every reachable state, a Retrieve that succeeds serves the files of a
Complete job the server holds under the id the request decodes to, and a
status reply names that id: no reply answers for another job. -/
theorem retrieve_serves_asked_job (rs : List Req) (idstr : List UInt8) :
    (∀ fs, ((World.init.run rs).1.retrieveHandler idstr).2 = .ok fs →
      ∃ j ∈ (World.init.run rs).1.heap, convid idstr = .ok j.id ∧ j.status = .complete ∧ j.outfiles = fs) ∧
    ∀ id st, ((World.init.run rs).1.statusHandler idstr).2 = .ok (id, st) → convid idstr = .ok id := by
  have hw := wf_reachable rs
  refine ⟨fun fs h => ?_, fun id st h => ?_⟩
  · unfold World.retrieveHandler at h
    split at h
    · cases h
    · rename_i w' j hj
      have hg : ((World.init.run rs).1.getjob idstr).2 = .ok j := by rw [hj]
      by_cases hc : j.status = .complete
      · rw [if_neg (not_not.mpr hc)] at h
        cases h
        exact ⟨j, (getjob_sound hw hg).2, (getjob_sound hw hg).1, hc, rfl⟩
      · rw [if_pos hc] at h
        cases h
  · simp only [World.statusHandler] at h
    cases hg : ((World.init.run rs).1.getjob idstr).2 with
    | error e => rw [hg] at h; cases h
    | ok j =>
      rw [hg] at h
      cases h
      exact (getjob_sound hw hg).1

theorem retrieve_serves_asked_job_doneJob :
    ((World.init.run [.push doneJob]).1.retrieveHandler (sprintfX JobId.zero.bytes)).2 = .ok doneJob.outfiles ∧
      ∃ j ∈ (World.init.run [.push doneJob]).1.heap, convid (sprintfX JobId.zero.bytes) = .ok j.id ∧
        j.status = .complete ∧ j.outfiles = doneJob.outfiles := by
  have hg : ((World.init.run [.push doneJob]).1.getjob (sprintfX JobId.zero.bytes)).2 = .ok doneJob :=
    getjob_after_push (w := World.init) (j := doneJob) rfl (by decide)
  have hr := (retrieveHandler_of_getjob hg).trans (if_pos rfl)
  exact ⟨hr, (retrieve_serves_asked_job [.push doneJob] _).1 _ hr⟩

/-! ## Two jobs through the dispatcher -/

/-- Two Submits, a Fetch, a Stat of the second job, a Push, a Retrieve of the
pushed id and a second Fetch, from any reachable state with an empty queue:
the first Fetch hands out the first job Running, Stat finds the second
Queued, Retrieve finds the pushed job, and the second Fetch hands out the
second job Running, when the second and the pushed job fit in the cache. -/
theorem two_job_scenario_trace (rs : List Req) (hq : (World.init.run rs).1.srv.queue = [])
    (a b a' : Job) (now1 now2 : Nat) (hb : b.size ≤ 500 * MB) (ha' : a'.size ≤ 500 * MB) :
    ((World.init.run rs).1.run [.submit a false now1, .submit b false now2, .fetch, .stat b.id, .push a',
        .retrieve a'.id, .fetch]).2 =
      [.submitted (World.init.run rs).1.heap.length none,
       .submitted ((World.init.run rs).1.heap.length + 1) none,
       .fetched (some ((World.init.run rs).1.heap.length,
         markRunning { a with status := .queued, submitted := now1 })),
       .replied b.id (some ((World.init.run rs).1.heap.length + 1, { b with status := .queued, submitted := now2 })),
       .pushed a' ((World.init.run rs).1.srv.submitchans a'.id),
       .replied a'.id (some ((World.init.run rs).1.heap.length + 2, a')),
       .fetched (some ((World.init.run rs).1.heap.length + 1,
         markRunning { b with status := .queued, submitted := now2 }))] := by
  set w := (World.init.run rs).1
  have hw : w.srv.alljobs.capacity = 500 * MB := (cacheBound_run cacheBound_init rs).capacity
  have hlb : (w.srv.alljobs.set a.id w.heap.length ({ a with status := .queued, submitted := now1 } : Job).size |>.set
      b.id (w.heap.length + 1) ({ b with status := .queued, submitted := now2 } : Job).size).lookup b.id =
      some (w.heap.length + 1) := lookup_set_self _ _ _ (by simpa [hw] using hb)
  have hla : ∀ (c : LRUCache JobId Ref) r, c.capacity = 500 * MB → (c.set a'.id r a'.size).lookup a'.id = some r :=
    fun c r hc => lookup_set_self _ _ _ (hc ▸ ha')
  simp [World.run, World.step, World.submit, World.fetch, World.lookup, World.push, hq, hlb, hla, hw,
    List.getElem_append_right, List.getElem?_append_right, List.getElem_append_left, List.getElem_modify]

def jobA : Job := ⟨⟨List.replicate 15 0 ++ [1], by decide⟩, .queued, 0, [120], []⟩

def jobB : Job := ⟨⟨List.replicate 15 0 ++ [2], by decide⟩, .queued, 0, [121], []⟩

def doneA : Job := { jobA with status := .complete, outfiles := [⟨"out.txt", [52, 50]⟩] }

theorem two_job_scenario_trace_fresh :
    (World.init.run [.submit jobA false 0, .submit jobB false 1, .fetch, .stat jobB.id, .push doneA,
        .retrieve doneA.id, .fetch]).2 =
      [.submitted 0 none, .submitted 1 none, .fetched (some (0, { jobA with status := .running })),
       .replied jobB.id (some (1, { jobB with submitted := 1 })), .pushed doneA none,
       .replied doneA.id (some (2, doneA)), .fetched (some (1, { jobB with status := .running, submitted := 1 }))] :=
  two_job_scenario_trace [] rfl jobA jobB doneA 0 1 (by decide) (by decide)

/-! ## RPC Fetch -/

/-- In every reachable state, RPC Fetch fails with "no jobs available to run"
exactly when the queue is empty; otherwise it hands out the job at the head of
the queue, which was Queued, marked Running. -/
theorem rpcFetch_reachable (rs : List Req) :
    ((World.init.run rs).1.srv.queue = [] →
        (World.init.run rs).1.rpcFetch.2 = .error "no jobs available to run") ∧
      ∀ r q, (World.init.run rs).1.srv.queue = r :: q → ∃ j, (World.init.run rs).1.heap[r]? = some j ∧
        j.status = .queued ∧ (World.init.run rs).1.rpcFetch.2 = .ok (markRunning j) := by
  set w := (World.init.run rs).1
  have hwf : WF w := wf_reachable rs
  refine ⟨fun h => by simp [World.rpcFetch, World.fetch, h], fun r q h => ?_⟩
  obtain ⟨j, hj, hs⟩ := hwf.queued r (by rw [h]; exact List.mem_cons_self r q)
  refine ⟨j, hj, hs, ?_⟩
  simp [World.rpcFetch, World.fetch, h, getElem?_modify_markRunning, hj]

theorem rpcFetch_reachable_oneSubmit :
    (World.init.run []).1.rpcFetch.2 = .error "no jobs available to run" ∧
      ∃ j, (World.init.run [.submit jobA false 0]).1.heap[0]? = some j ∧ j.status = .queued ∧
        (World.init.run [.submit jobA false 0]).1.rpcFetch.2 = .ok (markRunning j) :=
  ⟨(rpcFetch_reachable []).1 rfl, (rpcFetch_reachable [.submit jobA false 0]).2 0 [] rfl⟩

end Cloudlus
