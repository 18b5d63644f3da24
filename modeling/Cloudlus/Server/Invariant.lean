import Cloudlus.Server.Dispatcher

/-!
# What every reachable dispatcher state satisfies

`WF` holds from `World.init` on, whatever values the `select` receives and in
whatever order (`wf_run`):

* every queued object exists and is `Queued`, and no object is queued twice;
* a cache entry under `x` points at an object whose `Id` is `x`;
* a registered waiter channel was made already, and is registered under one
  id only.

Below them are the heap facts each step obeys: a step only appends objects,
changes no object's `Id` and moves none back along
`Queued → Running → {Complete | Failed}` (`heap_rank_step`).
-/
namespace Cloudlus

/-- The invariant of reachable states. -/
structure WF (w : World) : Prop where
  queued : ∀ r ∈ w.srv.queue, ∃ j, w.heap[r]? = some j ∧ j.status = .queued
  queue_nodup : w.srv.queue.Nodup
  cache_id : ∀ x r, w.srv.alljobs.lookup x = some r → ∃ j, w.heap[r]? = some j ∧ j.id = x
  chans_lt : ∀ x c, w.srv.submitchans x = some c → c < w.chans
  chans_inj : ∀ x y c, w.srv.submitchans x = some c → w.srv.submitchans y = some c → x = y

theorem wf_init : WF World.init :=
  ⟨by simp [World.init], by simp [World.init], by simp [World.init], by simp [World.init],
    by simp [World.init]⟩

/-! ## The heap -/

theorem getElem?_snoc_of_lt {α : Type} {l : List α} {a : α} {r : Nat} (h : r < l.length) :
    (l ++ [a])[r]? = l[r]? :=
  List.getElem?_append_left h

theorem lt_of_getElem?_eq_some {α : Type} {l : List α} {r : Nat} {a : α} (h : l[r]? = some a) :
    r < l.length := by
  by_contra hc
  rw [List.getElem?_eq_none (by omega)] at h
  cases h

theorem getElem?_modify_markRunning (heap : List Job) (r0 r : Nat) :
    (heap.modify markRunning r0)[r]? = heap[r]?.map (if r0 = r then markRunning else id) := by
  rw [List.getElem?_modify]
  cases heap[r]? <;> split <;> rfl

/-- A step keeps every object with its `Id` and moves none back in rank: the
only object it changes is the queued one Fetch marks running. -/
theorem heap_rank_step {w : World} (hw : WF w) (req : Req) {r : Ref} {j : Job}
    (h : w.heap[r]? = some j) :
    ∃ j', (w.step req).1.heap[r]? = some j' ∧ j'.id = j.id ∧ j.status.rank ≤ j'.status.rank := by
  have hr := lt_of_getElem?_eq_some h
  cases req with
  | submit =>
    exact ⟨j, by simp only [World.step, World.submit]; rw [getElem?_snoc_of_lt hr, h], rfl, le_rfl⟩
  | retrieve => exact ⟨j, h, rfl, le_rfl⟩
  | stat => exact ⟨j, h, rfl, le_rfl⟩
  | push => exact ⟨j, by simp only [World.step, World.push]; rw [getElem?_snoc_of_lt hr, h], rfl, le_rfl⟩
  | fetch =>
    show ∃ j', w.fetch.1.heap[r]? = some j' ∧ _
    unfold World.fetch
    split
    · exact ⟨j, h, rfl, le_rfl⟩
    · rename_i r0 q hq
      simp only [getElem?_modify_markRunning, h, Option.map_some', Option.some.injEq, exists_eq_left']
      split
      · rename_i he
        obtain ⟨j0, hj0, hs⟩ := hw.queued r0 (hq ▸ List.mem_cons_self r0 q)
        rw [he, h] at hj0
        cases hj0
        exact ⟨rfl, by simp [markRunning, hs, Status.rank]⟩
      · exact ⟨rfl, le_rfl⟩

theorem heap_length_step (w : World) (req : Req) : w.heap.length ≤ (w.step req).1.heap.length := by
  cases req with
  | fetch => show _ ≤ w.fetch.1.heap.length; unfold World.fetch; split <;> simp
  | _ => simp [World.step, World.submit, World.lookup, World.push]

/-! ## One step -/

section
variable {w : World}

theorem wf_submit (h : WF w) (j : Job) (wait : Bool) (now : Nat) : WF (w.submit j wait now).1 := by
  have hq : ∀ r ∈ w.srv.queue, r < w.heap.length := fun r hr =>
    let ⟨_, hj, _⟩ := h.queued r hr; lt_of_getElem?_eq_some hj
  constructor
  · intro r hr
    simp only [World.submit, List.mem_append, List.mem_singleton] at hr ⊢
    rcases hr with hr | rfl
    · rw [getElem?_snoc_of_lt (hq r hr)]; exact h.queued r hr
    · simp
  · simp only [World.submit, List.nodup_append, List.nodup_singleton, List.disjoint_singleton]
    exact ⟨h.queue_nodup, trivial, fun hm => Nat.lt_irrefl _ (hq _ hm)⟩
  · intro x r hx
    rcases lookup_set hx with ⟨rfl, rfl⟩ | ⟨-, hx⟩
    · simp [World.submit]
    · obtain ⟨j', hj', hid⟩ := h.cache_id x r hx
      exact ⟨j', by simp only [World.submit]; rw [getElem?_snoc_of_lt (lt_of_getElem?_eq_some hj'), hj'],
        hid⟩
  · intro x c hc
    cases wait
    · exact h.chans_lt x c hc
    · simp only [World.submit, ite_true, Function.update_apply] at hc ⊢
      split at hc
      · cases hc; exact Nat.lt_succ_self _
      · exact Nat.lt_succ_of_lt (h.chans_lt x c hc)
  · intro x y c hx hy
    cases wait
    · exact h.chans_inj x y c hx hy
    · simp only [World.submit, ite_true, Function.update_apply] at hx hy
      split at hx <;> split at hy
      · simp_all
      · cases hx; exact absurd (h.chans_lt y _ hy) (Nat.lt_irrefl _)
      · cases hy; exact absurd (h.chans_lt x _ hx) (Nat.lt_irrefl _)
      · exact h.chans_inj x y c hx hy

theorem wf_lookup (h : WF w) (id : JobId) : WF (w.lookup id).1 :=
  ⟨h.queued, h.queue_nodup, by simpa [World.lookup] using h.cache_id, h.chans_lt, h.chans_inj⟩

theorem wf_push (h : WF w) (j : Job) : WF (w.push j).1 := by
  have hq : ∀ r ∈ w.srv.queue, r < w.heap.length := fun r hr =>
    let ⟨_, hj, _⟩ := h.queued r hr; lt_of_getElem?_eq_some hj
  have hsc : ∀ x c, (w.push j).1.srv.submitchans x = some c → w.srv.submitchans x = some c := by
    intro x c hc
    cases hj : w.srv.submitchans j.id <;> simp only [World.push, hj] at hc
    · exact hc
    · by_cases hx : x = j.id
      · subst hx; simp at hc
      · rwa [Function.update_noteq hx] at hc
  refine ⟨fun r hr => ?_, h.queue_nodup, fun x r hx => ?_, fun x c hc => h.chans_lt x c (hsc x c hc),
    fun x y c hx hy => h.chans_inj x y c (hsc x c hx) (hsc y c hy)⟩
  · rw [show (w.push j).1.heap = w.heap ++ [j] from rfl, getElem?_snoc_of_lt (hq r hr)]
    exact h.queued r hr
  · rcases lookup_set hx with ⟨rfl, rfl⟩ | ⟨-, hx⟩
    · simp [World.push]
    · obtain ⟨j', hj', hid⟩ := h.cache_id x r hx
      exact ⟨j', by simp only [World.push]; rw [getElem?_snoc_of_lt (lt_of_getElem?_eq_some hj'), hj'],
        hid⟩

theorem wf_fetch (h : WF w) : WF w.fetch.1 := by
  unfold World.fetch
  split
  · exact h
  · rename_i r0 q hq
    have hnd := h.queue_nodup
    rw [hq, List.nodup_cons] at hnd
    refine ⟨fun r hr => ?_, hnd.2, fun x r hx => ?_, h.chans_lt, h.chans_inj⟩
    · have hne : r0 ≠ r := fun e => hnd.1 (e ▸ hr)
      simp only [getElem?_modify_markRunning, hne, if_false]
      simpa using h.queued r (by rw [hq]; exact List.mem_cons_of_mem _ hr)
    · obtain ⟨j, hj, hid⟩ := h.cache_id x r hx
      simp only [getElem?_modify_markRunning, hj, Option.map_some', Option.some.injEq, exists_eq_left']
      split <;> exact hid

theorem wf_step (h : WF w) (req : Req) : WF (w.step req).1 := by
  cases req with
  | submit j wait now => exact wf_submit h j wait now
  | retrieve id => exact wf_lookup h id
  | stat id => exact wf_lookup h id
  | push j => exact wf_push h j
  | fetch => exact wf_fetch h

end

theorem wf_run {w : World} (h : WF w) (rs : List Req) : WF (w.run rs).1 := by
  induction rs generalizing w with
  | nil => exact h
  | cons r rs ih => exact ih (wf_step h r)

theorem wf_reachable (rs : List Req) : WF (World.init.run rs).1 := wf_run wf_init rs

end Cloudlus
