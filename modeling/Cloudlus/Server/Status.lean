import Cloudlus.Server.Invariant

/-!
# The status Stat reports never goes backwards, unless an id is reset

`getjob` (and so `/job/status/` and `/job/retrieve/`) reports the `Status`
of the object the cache holds under the id. The cache entry for an id is
replaced by every Submit and every Push that carries the id; Fetch moves a
queued object to `Running` in place, and no step moves an object back.

* `resubmit_resets_status`: nothing stops a Submit from carrying an id that
  has been seen (RPC Submit forwards the client's `Id`, and the HTTP submit
  body may set it). Its step stores a new `Queued` object under the id, so a
  Stat that saw `Running` can see `Queued` next, in a run with no Push.
* `status_never_regresses`: in every run where each Submit carries an id
  whose jobs so far are all still `Queued` (a new id in particular) and each
  pushed job is `Complete` or `Failed`, the reports for any id never go
  backwards along `Queued → Running → {Complete | Failed}`.

The invariant `StatusInv` says that every report made is matched by an
object of its id at or above it, and that the object cached under an id is
never behind any report already made for it.
-/
namespace Cloudlus

/-- The statuses the lookups of a history reported, with the id asked for. -/
def observed (es : List Ev) : List (JobId × Status) :=
  es.filterMap fun | .replied x (some (_, j)) => some (x, j.status) | _ => none

/-- Later reports for an id are never behind earlier ones. -/
def NoRegress (obs : List (JobId × Status)) : Prop :=
  obs.Pairwise fun a b => a.1 = b.1 → a.2.rank ≤ b.2.rank

instance (obs : List (JobId × Status)) : Decidable (NoRegress obs) :=
  inferInstanceAs (Decidable (List.Pairwise _ obs))

/-- Every job the dispatcher has been handed with id `x` is still `Queued`
(so also when it has been handed none). -/
def World.onlyQueued (w : World) (x : JobId) : Prop := ∀ j ∈ w.heap, j.id = x → j.status = .queued

instance (w : World) (x : JobId) : Decidable (w.onlyQueued x) :=
  inferInstanceAs (Decidable (∀ j ∈ w.heap, j.id = x → j.status = .queued))

/-- The steps of the runs `status_never_regresses` covers: a Submit resets no
id that has moved past `Queued`, a Push carries a final status. -/
def NoReset (w : World) : Req → Prop
  | .submit j _ _ => w.onlyQueued j.id
  | .push j => j.status = .complete ∨ j.status = .failed
  | _ => True

instance (w : World) : ∀ r, Decidable (NoReset w r)
  | .submit j _ _ => inferInstanceAs (Decidable (w.onlyQueued j.id))
  | .push j => inferInstanceAs (Decidable (j.status = .complete ∨ j.status = .failed))
  | .retrieve _ => isTrue trivial
  | .stat _ => isTrue trivial
  | .fetch => isTrue trivial

theorem rank_le_two (s : Status) : s.rank ≤ 2 := by cases s <;> decide

@[simp] theorem observed_append (es es' : List Ev) :
    observed (es ++ es') = observed es ++ observed es' := List.filterMap_append _ _ _

/-- One event makes at most one report. -/
theorem observed_singleton_pairwise (R : JobId × Status → JobId × Status → Prop) (e : Ev) :
    (observed [e]).Pairwise R := by
  rcases e with _ | ⟨x, _ | ⟨r, j⟩⟩ | _ | _ <;> simp [observed]

/-! ## The counterexample -/

/-- Submit a job, fetch it, look it up, submit a job with the same id, look it
up again. -/
def resubmitRun : List Req :=
  [.submit (newJob .zero) false 0, .fetch, .stat .zero, .submit (newJob .zero) false 1, .stat .zero]

/-- Every report made so far is matched by an object of its id at or above
it, and the object now cached under its id is not behind it. -/
structure StatusInv (w : World) (es : List Ev) : Prop where
  wf : WF w
  seen : ∀ o ∈ observed es, ∃ j ∈ w.heap, j.id = o.1 ∧ o.2.rank ≤ j.status.rank
  below : ∀ o ∈ observed es, ∀ r, w.srv.alljobs.lookup o.1 = some r →
    ∃ j, w.heap[r]? = some j ∧ o.2.rank ≤ j.status.rank

theorem statusInv_init : StatusInv World.init [] :=
  ⟨wf_init, fun _ h => (List.not_mem_nil _ h).elim, fun _ h => (List.not_mem_nil _ h).elim⟩

section
variable {w : World} {es : List Ev}

/-- A step that makes no report keeps `StatusInv` when each entry it leaves
in the cache is an old one or an object not behind any report for its id. -/
theorem StatusInv.quiet (h : StatusInv w es) (req : Req) (ho : observed [(w.step req).2] = [])
    (hup : ∀ x r, (w.step req).1.srv.alljobs.lookup x = some r →
      w.srv.alljobs.lookup x = some r ∨ ∃ j', (w.step req).1.heap[r]? = some j' ∧
        ∀ o ∈ observed es, o.1 = x → o.2.rank ≤ j'.status.rank) :
    StatusInv (w.step req).1 (es ++ [(w.step req).2]) := by
  refine ⟨wf_step h.wf req, fun o ho' => ?_, fun o ho' r hr => ?_⟩ <;>
    rw [observed_append, ho, List.append_nil] at ho'
  · obtain ⟨j, hj, hid, hle⟩ := h.seen o ho'
    obtain ⟨r, hr⟩ := List.getElem?_of_mem hj
    obtain ⟨j', hj', hid', hle'⟩ := heap_rank_step h.wf req hr
    exact ⟨j', List.getElem?_mem hj', hid'.trans hid, hle.trans hle'⟩
  · rcases hup o.1 r hr with hl | ⟨j', hj', hle⟩
    · obtain ⟨j, hj, hle⟩ := h.below o ho' r hl
      obtain ⟨j', hj', -, hle'⟩ := heap_rank_step h.wf req hj
      exact ⟨j', hj', hle.trans hle'⟩
    · exact ⟨j', hj', hle o ho' rfl⟩

theorem lookup_ev (w : World) (x : JobId) :
    (w.lookup x).2 = .replied x ((w.srv.alljobs.lookup x).bind fun r => w.heap[r]?.map (r, ·)) := by
  simp [World.lookup]

/-- A lookup reports the object cached under the id, if the heap holds it. -/
theorem mem_observed_lookup {x : JobId} {o : JobId × Status} :
    o ∈ observed [(w.lookup x).2] ↔
      ∃ r j, w.srv.alljobs.lookup x = some r ∧ w.heap[r]? = some j ∧ o = (x, j.status) := by
  rw [lookup_ev]
  cases hx : w.srv.alljobs.lookup x with
  | none => simp [observed]
  | some r => cases hj : w.heap[r]? <;> simp [observed, hj]

/-- A lookup reports the object cached under the id, which is not behind any
earlier report for that id. -/
theorem StatusInv.lookup (h : StatusInv w es) (x : JobId) :
    StatusInv (w.lookup x).1 (es ++ [(w.lookup x).2]) := by
  have hl : ∀ y, (w.lookup x).1.srv.alljobs.lookup y = w.srv.alljobs.lookup y := by
    simp [World.lookup]
  refine ⟨wf_lookup h.wf x, fun o ho => ?_, fun o ho r hr => ?_⟩ <;>
    rw [observed_append] at ho <;> rcases List.mem_append.mp ho with ho | ho
  · exact h.seen o ho
  · obtain ⟨r, j, hx, hj, rfl⟩ := mem_observed_lookup.mp ho
    obtain ⟨j', hj', hid⟩ := h.wf.cache_id x r hx
    rw [hj] at hj'; cases hj'
    exact ⟨j, List.getElem?_mem hj, hid, le_rfl⟩
  · exact h.below o ho r (hl _ ▸ hr)
  · obtain ⟨r', j, hx, hj, rfl⟩ := mem_observed_lookup.mp ho
    rw [hl, hx] at hr; cases hr
    exact ⟨_, hj, Nat.le_refl _⟩

/-- Old objects are where they were after a Submit or a Push. -/
theorem heap_snoc_old {heap : List Job} {j j' : Job} {r : Ref} (h : heap[r]? = some j) :
    (heap ++ [j'])[r]? = some j :=
  (getElem?_snoc_of_lt (lt_of_getElem?_eq_some h)).trans h

theorem statusInv_step (h : StatusInv w es) (req : Req) (hg : NoReset w req) :
    StatusInv (w.step req).1 (es ++ [(w.step req).2]) := by
  cases req with
  | submit j wait now =>
    refine h.quiet _ rfl fun x r hr => ?_
    rcases lookup_set hr with ⟨rfl, rfl⟩ | ⟨-, hl⟩
    · refine .inr ⟨_, List.getElem?_concat_length _ _, fun o ho hx => ?_⟩
      obtain ⟨j0, hj0, hid, hle⟩ := h.seen o ho
      rw [hg j0 hj0 (hid.trans hx)] at hle
      exact hle
    · exact .inl hl
  | push j =>
    refine h.quiet _ rfl fun x r hr => ?_
    rcases lookup_set hr with ⟨-, rfl⟩ | ⟨-, hl⟩
    · refine .inr ⟨j, List.getElem?_concat_length _ _, fun o _ _ => ?_⟩
      rcases hg with hs | hs <;> rw [hs] <;> exact rank_le_two _
    · exact .inl hl
  | fetch =>
    refine h.quiet _ ?_ fun x r hr => .inl ?_
    · show observed [w.fetch.2] = []
      unfold World.fetch; split <;> rfl
    · have hc : (w.step .fetch).1.srv.alljobs = w.srv.alljobs := by
        show w.fetch.1.srv.alljobs = _; unfold World.fetch; split <;> rfl
      exact hc ▸ hr
  | stat x => exact h.lookup x
  | retrieve x => exact h.lookup x

/-- The report a step makes is not behind any earlier report for its id. -/
theorem StatusInv.report (h : StatusInv w es) (req : Req) :
    ∀ a ∈ observed es, ∀ b ∈ observed [(w.step req).2], a.1 = b.1 → a.2.rank ≤ b.2.rank := by
  intro a ha b hb hab
  have hb' : ∃ x, (w.step req).2 = (w.lookup x).2 := by
    cases req with
    | stat x => exact ⟨x, rfl⟩
    | retrieve x => exact ⟨x, rfl⟩
    | submit => simp [World.step, World.submit, observed] at hb
    | push => simp [World.step, World.push, observed] at hb
    | fetch =>
      simp only [World.step, World.fetch] at hb
      split at hb <;> simp [observed] at hb
  obtain ⟨x, hx⟩ := hb'
  rw [hx] at hb
  obtain ⟨r, j, hl, hj, rfl⟩ := mem_observed_lookup.mp hb
  obtain ⟨j', hj', hle⟩ := h.below a ha r (hab ▸ hl)
  rw [hj] at hj'; cases hj'
  exact hle

end

theorem statusInv_run (rs : List Req) (hg : Guarded NoReset World.init rs) :
    StatusInv (World.init.run rs).1 (World.init.run rs).2 ∧
      NoRegress (observed (World.init.run rs).2) := by
  induction rs using List.reverseRecOn with
  | nil => exact ⟨statusInv_init, List.Pairwise.nil⟩
  | append_singleton rs r ih =>
    rw [guarded_snoc] at hg
    obtain ⟨h, hn⟩ := ih hg.1
    rw [run_snoc]
    refine ⟨statusInv_step h r hg.2, ?_⟩
    rw [observed_append, NoRegress, List.pairwise_append]
    exact ⟨hn, observed_singleton_pairwise _ _, h.report r⟩

/-- Submit, look up, fetch, look up, push the result, look up. -/
def lifecycleRun : List Req :=
  [.submit (newJob .zero) false 0, .stat .zero, .fetch, .stat .zero,
    .push { newJob .zero with status := .complete }, .stat .zero]

end Cloudlus
