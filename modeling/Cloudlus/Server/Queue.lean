import Cloudlus.Server.Status

/-!
# The pending queue against the cache

`WF` already gives, for every reachable state, that each queued object is
`Queued` and queued once. Whether the cache holds *that* object under its id
depends on the ids the clients send:

* `dup_ids_share_cache_entry`: two submissions with one id are both queued
  under it, and the cache keeps only the second; after Fetch hands out the
  first, Stat on its id reports the second, still `Queued`.
* `queue_matches_cache`: in every run where no Submit and no Push carries
  the id of a job still in the queue, each queued id occurs once, the
  cache holds under it the queued object itself or nothing (eviction), and
  right after a Fetch hands out a job, Stat on its id reports that very
  object, `Running`, or nothing.

The invariant is `QueueInv`.
-/
namespace Cloudlus

/-- The ids of the queued objects, in queue order. -/
def World.queuedIds (w : World) : List JobId :=
  w.srv.queue.filterMap fun r => w.heap[r]?.map Job.id

/-- The steps of the runs `queue_matches_cache` covers: no Submit or Push
carries the id of a queued job. -/
def Disciplined (w : World) : Req → Prop
  | .submit j _ _ => j.id ∉ w.queuedIds
  | .push j => j.id ∉ w.queuedIds
  | _ => True

instance (w : World) : ∀ r, Decidable (Disciplined w r)
  | .submit j _ _ => inferInstanceAs (Decidable (j.id ∉ w.queuedIds))
  | .push j => inferInstanceAs (Decidable (j.id ∉ w.queuedIds))
  | .retrieve _ => isTrue trivial
  | .stat _ => isTrue trivial
  | .fetch => isTrue trivial

/-! ## The counterexample -/

/-- Two submissions with the zero id, a Fetch, a Stat. -/
def dupRun : List Req :=
  [.submit (newJob .zero) false 0, .submit (newJob .zero) false 1, .fetch, .stat .zero]

/-- The id is queued twice, and after the first job is handed out Stat
reports the second submission, `Queued`. -/
theorem dup_ids_share_cache_entry :
    (World.init.run (dupRun.take 2)).1.queuedIds = [.zero, .zero] ∧
      (World.init.run dupRun).2.getLast? =
        some (.replied .zero (some (1, { newJob .zero with submitted := 1 }))) := by
  decide

/-! ## The invariant -/

/-- Queued ids are distinct and the cache holds, under a queued id, the queued
object or nothing. -/
structure QueueInv (w : World) : Prop where
  wf : WF w
  ids_nodup : w.queuedIds.Nodup
  cached : ∀ r ∈ w.srv.queue, ∀ j, w.heap[r]? = some j →
    w.srv.alljobs.lookup j.id = some r ∨ w.srv.alljobs.lookup j.id = none

theorem queueInv_init : QueueInv World.init :=
  ⟨wf_init, List.nodup_nil, fun _ h => (List.not_mem_nil _ h).elim⟩

/-- Steps that change no queued object's place keep the queued ids. -/
theorem queuedIds_congr {w w' : World} (hq : w'.srv.queue = w.srv.queue)
    (hh : ∀ r ∈ w.srv.queue, w'.heap[r]?.map Job.id = w.heap[r]?.map Job.id) :
    w'.queuedIds = w.queuedIds := by
  rw [World.queuedIds, World.queuedIds, hq]
  exact List.filterMap_congr hh

section
variable {w : World}

theorem queueInv_submit (h : QueueInv w) (j : Job) (wait : Bool) (now : Nat)
    (hn : j.id ∉ w.queuedIds) : QueueInv (w.submit j wait now).1 := by
  have hq : ∀ r ∈ w.srv.queue, ∃ j', w.heap[r]? = some j' ∧ j'.id ≠ j.id := fun r hr =>
    let ⟨j', hj', _⟩ := h.wf.queued r hr
    ⟨j', hj', fun he => hn (he ▸ List.mem_filterMap.mpr ⟨r, hr, by rw [hj']; rfl⟩)⟩
  have hids : (w.submit j wait now).1.queuedIds = w.queuedIds ++ [j.id] := by
    simp only [World.queuedIds, World.submit, List.filterMap_append]
    congr 1
    · refine List.filterMap_congr fun r hr => ?_
      obtain ⟨j', hj', -⟩ := hq r hr
      rw [heap_snoc_old hj', hj']
    · simp
  refine ⟨wf_submit h.wf j wait now, ?_, fun r hr j' hj' => ?_⟩
  · rw [hids]
    exact List.nodup_append.mpr ⟨h.ids_nodup, List.nodup_singleton _,
      List.disjoint_singleton.mpr hn⟩
  · simp only [World.submit, List.mem_append, List.mem_singleton] at hr hj' ⊢
    rcases hr with hr | rfl
    · obtain ⟨j0, hj0, hne⟩ := hq r hr
      obtain rfl : j0 = j' := Option.some.inj ((heap_snoc_old hj0).symm.trans hj')
      cases hl : (w.srv.alljobs.set j.id w.heap.length _).lookup j0.id with
      | none => exact .inr rfl
      | some r' =>
        rcases lookup_set hl with ⟨he, -⟩ | ⟨-, hl'⟩
        · exact absurd he hne
        · rcases h.cached r hr j0 hj0 with h1 | h1 <;> rw [h1] at hl' <;> cases hl'
          exact .inl rfl
    · simp only [List.getElem?_concat_length, Option.some.injEq] at hj'
      subst hj'
      cases hl : (w.srv.alljobs.set j.id w.heap.length _).lookup j.id with
      | none => exact .inr rfl
      | some r' =>
        rcases lookup_set hl with ⟨-, rfl⟩ | ⟨hne, -⟩
        · exact .inl rfl
        · exact absurd rfl hne

theorem queueInv_push (h : QueueInv w) (j : Job) (hn : j.id ∉ w.queuedIds) :
    QueueInv (w.push j).1 := by
  have hids : (w.push j).1.queuedIds = w.queuedIds := queuedIds_congr rfl fun r hr => by
    obtain ⟨j', hj', -⟩ := h.wf.queued r hr
    rw [show (w.push j).1.heap = w.heap ++ [j] from rfl, heap_snoc_old hj', hj']
  refine ⟨wf_push h.wf j, hids ▸ h.ids_nodup, fun r hr j' hj' => ?_⟩
  rw [show (w.push j).1.heap = w.heap ++ [j] from rfl] at hj'
  obtain ⟨j0, hj0, -⟩ := h.wf.queued r hr
  obtain rfl : j0 = j' := Option.some.inj ((heap_snoc_old hj0).symm.trans hj')
  have hne : j0.id ≠ j.id := fun he =>
    hn (he ▸ List.mem_filterMap.mpr ⟨r, hr, by rw [hj0]; rfl⟩)
  cases hl : (w.push j).1.srv.alljobs.lookup j0.id with
  | none => exact .inr rfl
  | some r' =>
    rcases lookup_set hl with ⟨he, -⟩ | ⟨-, hl'⟩
    · exact absurd he hne
    · rcases h.cached r hr j0 hj0 with h1 | h1 <;> rw [h1] at hl' <;> cases hl'
      exact .inl rfl

theorem queueInv_fetch (h : QueueInv w) : QueueInv w.fetch.1 := by
  have hwf := wf_fetch h.wf
  rcases hq : w.srv.queue with _ | ⟨r0, q⟩ <;> simp only [World.fetch, hq] at hwf ⊢
  · exact h
  · refine ⟨hwf, ?_, fun r hr j hj => ?_⟩
    · have hids : w.queuedIds = (w.heap[r0]?.map Job.id).toList ++
          q.filterMap (fun r => w.heap[r]?.map Job.id) := by
        rw [World.queuedIds, hq, List.filterMap_cons]
        cases w.heap[r0]?.map Job.id <;> rfl
      have hn := h.ids_nodup
      rw [hids] at hn
      have he : q.filterMap (fun r => (w.heap.modify markRunning r0)[r]?.map Job.id) =
          q.filterMap (fun r => w.heap[r]?.map Job.id) := by
        refine List.filterMap_congr fun r _ => ?_
        simp only [getElem?_modify_markRunning, Option.map_map]
        cases w.heap[r]? <;> simp only [Option.map_none', Option.map_some']
        split <;> rfl
      simpa only [World.queuedIds, he] using (List.nodup_append.mp hn).2.1
    · simp only [getElem?_modify_markRunning] at hj
      obtain ⟨j0, hj0, rfl⟩ := Option.map_eq_some'.mp hj
      have hc := h.cached r (hq ▸ List.mem_cons_of_mem r0 hr) j0 hj0
      split <;> exact hc

theorem queueInv_lookup (h : QueueInv w) (x : JobId) : QueueInv (w.lookup x).1 :=
  ⟨wf_lookup h.wf x, h.ids_nodup, by simpa [World.lookup] using h.cached⟩

theorem queueInv_step (h : QueueInv w) (req : Req) (hg : Disciplined w req) :
    QueueInv (w.step req).1 := by
  cases req with
  | submit j wait now => exact queueInv_submit h j wait now hg
  | retrieve x => exact queueInv_lookup h x
  | stat x => exact queueInv_lookup h x
  | push j => exact queueInv_push h j hg
  | fetch => exact queueInv_fetch h

end

/-- Right after a Fetch hands out a job, Stat on its id reports that very
object, `Running`, or nothing. -/
theorem fetch_then_stat {w : World} (h : QueueInv w) {r : Ref} {j : Job}
    (hf : (w.step .fetch).2 = .fetched (some (r, j))) :
    j.status = .running ∧
      (((w.step .fetch).1.step (.stat j.id)).2 = .replied j.id (some (r, j)) ∨
        ((w.step .fetch).1.step (.stat j.id)).2 = .replied j.id none) := by
  change w.fetch.2 = _ at hf
  show _ ∧ ((w.fetch.1.lookup j.id).2 = _ ∨ (w.fetch.1.lookup j.id).2 = _)
  rw [lookup_ev]
  rcases hq : w.srv.queue with _ | ⟨r0, q⟩ <;> simp only [World.fetch, hq] at hf ⊢
  · cases hf
  · cases hj0 : w.heap[r0]? with
    | none => simp [getElem?_modify_markRunning, hj0] at hf
    | some j0 =>
      simp only [getElem?_modify_markRunning, hj0, if_pos, Option.map_some', Ev.fetched.injEq,
        Option.some.injEq, Prod.mk.injEq] at hf
      obtain ⟨rfl, rfl⟩ := hf
      refine ⟨rfl, ?_⟩
      rcases h.cached r0 (by rw [hq]; exact List.mem_cons_self r0 q) j0 hj0 with hl | hl <;>
        simp [markRunning, hl, getElem?_modify_markRunning, hj0]

theorem queueInv_run (rs : List Req) (hg : Guarded Disciplined World.init rs) :
    QueueInv (World.init.run rs).1 := by
  induction rs using List.reverseRecOn with
  | nil => exact queueInv_init
  | append_singleton rs r ih =>
    rw [guarded_snoc] at hg
    rw [run_snoc]
    exact queueInv_step (ih hg.1) r hg.2

/-- In every reachable state each queued job is `Queued` and queued once. In
every run where no Submit and no Push carries the id of a queued job,
moreover, each queued id occurs once, the cache holds under it the
queued object or nothing, and right after a Fetch hands out a job, Stat on
its id reports that object, `Running`, or nothing. -/
theorem queue_matches_cache (rs : List Req) :
    let w := (World.init.run rs).1
    (∀ r ∈ w.srv.queue, ∃ j, w.heap[r]? = some j ∧ j.status = .queued) ∧ w.srv.queue.Nodup ∧
      (Guarded Disciplined World.init rs →
        w.queuedIds.Nodup ∧
        (∀ r ∈ w.srv.queue, ∀ j, w.heap[r]? = some j →
          w.srv.alljobs.lookup j.id = some r ∨ w.srv.alljobs.lookup j.id = none) ∧
        ∀ r j, (w.step .fetch).2 = .fetched (some (r, j)) → j.status = .running ∧
          (((w.step .fetch).1.step (.stat j.id)).2 = .replied j.id (some (r, j)) ∨
            ((w.step .fetch).1.step (.stat j.id)).2 = .replied j.id none)) := by
  intro w
  have hw : WF w := wf_reachable rs
  refine ⟨hw.queued, hw.queue_nodup, fun hg => ?_⟩
  have hq := queueInv_run rs hg
  exact ⟨hq.ids_nodup, hq.cached, fun r j hf => fetch_then_stat hq hf⟩

theorem queue_matches_cache_lifecycle :
    Guarded Disciplined World.init lifecycleRun ∧
      (World.init.run lifecycleRun).1.queuedIds.Nodup :=
  ⟨by decide, ((queue_matches_cache lifecycleRun).2.2 (by decide)).1⟩

end Cloudlus
