import Cloudlus.Server.Invariant

/-!
# Fetch hands out submissions in order, once each

Over any run of the dispatcher, from any mix of HTTP and RPC submissions,
fetches, pushes and lookups in any order (`fetch_fifo`):

* the dispatcher accepts one object per Submit request, in order, and the
  object holds that request's job, as the `submitjobs` case stores it;
* the jobs Fetch handed out are, in order, the jobs of a prefix of the
  Submit requests, marked `Running`, and no object is handed out twice;
* the pending queue is exactly the accepted objects after that prefix, so
  no accepted submission is dropped;
* the next Fetch returns `nil` (RPC Fetch's "no jobs available to run")
  exactly when every Submit request's job has been handed out.

The invariants are `Fifo`, on the objects (`fifo_step`), and `Holds`, on
what they hold (`holds_step`).
-/
namespace Cloudlus

/-- The objects the dispatcher accepted, in order. -/
def accepted (es : List Ev) : List Ref :=
  es.filterMap fun | .submitted r _ => some r | _ => none

/-- The objects Fetch handed out, in order. -/
def handedOut (es : List Ev) : List Ref :=
  es.filterMap fun | .fetched (some (r, _)) => some r | _ => none

@[simp] theorem accepted_append (es es' : List Ev) :
    accepted (es ++ es') = accepted es ++ accepted es' := List.filterMap_append _ _ _

@[simp] theorem handedOut_append (es es' : List Ev) :
    handedOut (es ++ es') = handedOut es ++ handedOut es' := List.filterMap_append _ _ _

theorem handedOut_cons (e : Ev) (es : List Ev) :
    handedOut (e :: es) = handedOut [e] ++ handedOut es := handedOut_append [e] es

@[simp] theorem accepted_singleton (e : Ev) :
    accepted [e] = match e with | .submitted r _ => [r] | _ => [] := by
  cases e <;> rfl

@[simp] theorem handedOut_singleton (e : Ev) :
    handedOut [e] = match e with | .fetched (some (r, _)) => [r] | _ => [] := by
  cases e <;> try rfl
  rename_i o; cases o <;> rfl

/-- The queue is the accepted objects not yet handed out. -/
structure Fifo (w : World) (es : List Ev) : Prop where
  handed : handedOut es <+: accepted es
  queue : w.srv.queue = (accepted es).drop (handedOut es).length
  nodup : (accepted es).Nodup
  lt : ∀ r ∈ accepted es, r < w.heap.length

theorem fifo_init : Fifo World.init [] :=
  ⟨List.nil_prefix, rfl, List.nodup_nil, fun _ h => by cases h⟩

/-- A step that accepts and hands out nothing, keeps the queue and grows the
heap keeps `Fifo`. -/
theorem Fifo.quiet {w w' : World} {es : List Ev} {e : Ev} (h : Fifo w es)
    (ha : accepted [e] = []) (hh : handedOut [e] = []) (hq : w'.srv.queue = w.srv.queue)
    (hl : w.heap.length ≤ w'.heap.length) : Fifo w' (es ++ [e]) := by
  refine ⟨?_, ?_, ?_, ?_⟩ <;> simp only [accepted_append, handedOut_append, ha, hh, List.append_nil, hq]
  exacts [h.handed, h.queue, h.nodup, fun r hr => Nat.lt_of_lt_of_le (h.lt r hr) hl]

/-- Handing out the head of the remainder extends the prefix by it. -/
theorem prefix_snoc_of_drop {a h q : List Ref} {r : Ref} (hp : h <+: a)
    (hd : a.drop h.length = r :: q) : h ++ [r] <+: a ∧ a.drop (h ++ [r]).length = q := by
  obtain ⟨t, rfl⟩ := hp
  rw [List.drop_left] at hd
  subst hd
  exact ⟨⟨q, by simp⟩, by simp⟩

section
variable {w : World} {es : List Ev}

theorem fifo_submit (h : Fifo w es) (j : Job) (wait : Bool) (now : Nat) :
    Fifo (w.submit j wait now).1 (es ++ [(w.submit j wait now).2]) := by
  have hn : w.heap.length ∉ accepted es := fun hm => Nat.lt_irrefl _ (h.lt _ hm)
  refine ⟨?_, ?_, ?_, ?_⟩ <;> simp only [World.submit, accepted_append, handedOut_append,
    accepted_singleton, handedOut_singleton, List.append_nil]
  · exact h.handed.trans (List.prefix_append _ _)
  · rw [h.queue, List.drop_append_of_le_length h.handed.length_le]
  · exact List.nodup_append.mpr ⟨h.nodup, List.nodup_singleton _, List.disjoint_singleton.mpr hn⟩
  · intro r hr
    rcases List.mem_append.mp hr with hr | hr
    · simpa using Nat.lt_succ_of_lt (h.lt r hr)
    · simp_all

theorem fifo_fetch (h : Fifo w es) : Fifo w.fetch.1 (es ++ [w.fetch.2]) := by
  unfold World.fetch
  split
  · exact h.quiet rfl rfl rfl (Nat.le_refl _)
  · rename_i r q hq
    have hr : r ∈ accepted es := List.mem_of_mem_drop (h.queue ▸ hq ▸ List.mem_cons_self r q)
    obtain ⟨j, hj⟩ : ∃ j, w.heap[r]? = some j :=
      ⟨_, List.getElem?_eq_getElem (h.lt r hr)⟩
    have hd : (accepted es).drop (handedOut es).length = r :: q := h.queue ▸ hq
    obtain ⟨hp, hq'⟩ := prefix_snoc_of_drop h.handed hd
    refine ⟨?_, ?_, ?_, ?_⟩ <;> simp only [getElem?_modify_markRunning, hj, Option.map_some',
      accepted_append, handedOut_append, accepted_singleton, handedOut_singleton, List.append_nil,
      List.length_modify]
    exacts [hp, hq'.symm, h.nodup, h.lt]

theorem fifo_step (h : Fifo w es) (req : Req) : Fifo (w.step req).1 (es ++ [(w.step req).2]) := by
  cases req with
  | submit j wait now => exact fifo_submit h j wait now
  | retrieve id => exact h.quiet rfl rfl rfl (Nat.le_refl _)
  | stat id => exact h.quiet rfl rfl rfl (Nat.le_refl _)
  | push j => exact h.quiet rfl rfl rfl (by simp [World.step, World.push])
  | fetch => exact fifo_fetch h

end

theorem fifo_run (rs : List Req) : Fifo (World.init.run rs).1 (World.init.run rs).2 := by
  induction rs using List.reverseRecOn with
  | nil => exact fifo_init
  | append_singleton rs r ih => rw [run_snoc]; exact fifo_step ih r

/-- A Fetch returns `nil` exactly when the queue is empty. -/
theorem fetch_none_iff (w : World) (hq : ∀ r ∈ w.srv.queue, r < w.heap.length) :
    w.fetch.2 = .fetched none ↔ w.srv.queue = [] := by
  unfold World.fetch
  split
  · simp [*]
  · rename_i r q hrq
    have hr := hq r (hrq ▸ List.mem_cons_self r q)
    simp [getElem?_modify_markRunning, List.getElem?_eq_getElem hr, hrq]

/-! ## An object changes only when Fetch hands it out -/

theorem heap_step_at (w : World) (req : Req) {r : Ref} (hr : r < w.heap.length) :
    (w.step req).1.heap[r]? =
      w.heap[r]?.map (if r ∈ handedOut [(w.step req).2] then markRunning else id) := by
  cases req with
  | submit => simp [World.step, World.submit, getElem?_snoc_of_lt hr]
  | retrieve => simp [World.step, World.lookup]
  | stat => simp [World.step, World.lookup]
  | push => simp [World.step, World.push, getElem?_snoc_of_lt hr]
  | fetch =>
    show w.fetch.1.heap[r]? = w.heap[r]?.map (if r ∈ handedOut [w.fetch.2] then markRunning else id)
    unfold World.fetch
    split
    · simp
    · rename_i r0 q _
      by_cases he : r0 = r
      · subst he
        simp [getElem?_modify_markRunning, List.getElem?_eq_getElem hr]
      · cases hj : w.heap[r0]? <;> simp [getElem?_modify_markRunning, he, hj, Ne.symm he]

theorem markRunning_comp_self : markRunning ∘ markRunning = markRunning := rfl

/-- Over a run, an object the heap already held changes only when a Fetch of
the run hands it out, which marks it running. -/
theorem heap_run_at (w : World) (rs : List Req) {r : Ref} (hr : r < w.heap.length) :
    (w.run rs).1.heap[r]? =
      w.heap[r]?.map (if r ∈ handedOut (w.run rs).2 then markRunning else id) := by
  induction rs generalizing w with
  | nil => simp [handedOut]
  | cons req rs ih =>
    rw [run_cons, ih _ (Nat.lt_of_lt_of_le hr (heap_length_step w req)), heap_step_at w req hr,
      Option.map_map, handedOut_cons _ ((w.step req).1.run rs).2]
    congr 1
    by_cases h1 : r ∈ handedOut [(w.step req).2] <;>
      by_cases h2 : r ∈ handedOut ((w.step req).1.run rs).2 <;>
      simp only [List.mem_append, h1, h2, if_true, if_false, or_true, true_or, or_false,
        Function.comp_id, Function.id_comp, markRunning_comp_self]

/-! ## What the accepted objects hold -/

/-- The jobs the Submit requests of a run carry, in order, as the
`submitjobs` case stores them: `Queued`, stamped with the request's `now`. -/
def submittedJobs (rs : List Req) : List Job :=
  rs.filterMap fun
    | .submit j _ now => some { j with status := .queued, submitted := now }
    | _ => none

/-- The jobs Fetch handed out, in order. -/
def handedJobs (es : List Ev) : List Job :=
  es.filterMap fun | .fetched (some (_, j)) => some j | _ => none

@[simp] theorem submittedJobs_append (rs rs' : List Req) :
    submittedJobs (rs ++ rs') = submittedJobs rs ++ submittedJobs rs' := List.filterMap_append _ _ _

@[simp] theorem handedJobs_append (es es' : List Ev) :
    handedJobs (es ++ es') = handedJobs es ++ handedJobs es' := List.filterMap_append _ _ _

@[simp] theorem submittedJobs_singleton (req : Req) :
    submittedJobs [req] = match req with
      | .submit j _ now => [{ j with status := .queued, submitted := now }]
      | _ => [] := by
  cases req <;> rfl

@[simp] theorem handedJobs_singleton (e : Ev) :
    handedJobs [e] = match e with | .fetched (some (_, j)) => [j] | _ => [] := by
  cases e <;> try rfl
  rename_i o; cases o <;> rfl

theorem getElem?_snoc_eq_some {α : Type} {l : List α} {a x : α} {k : Nat} :
    (l ++ [a])[k]? = some x ↔ l[k]? = some x ∨ k = l.length ∧ a = x := by
  rcases Nat.lt_trichotomy k l.length with hk | rfl | hk
  · simp [List.getElem?_append_left hk, hk.ne]
  · simp [List.getElem?_concat_length]
  · have hk' : (l ++ [a]).length ≤ k := by simpa using hk
    simp [List.getElem?_eq_none hk', List.getElem?_eq_none hk.le, hk.ne']

/-- Accepted object `k` holds the job of Submit request `k`, marked running
once handed out; the jobs handed out are those jobs, in order. -/
structure Holds (w : World) (rs : List Req) (es : List Ev) : Prop where
  length : (accepted es).length = (submittedJobs rs).length
  obj : ∀ k r, (accepted es)[k]? = some r →
    w.heap[r]? = (submittedJobs rs)[k]?.map (if k < (handedOut es).length then markRunning else id)
  handed : handedJobs es = ((submittedJobs rs).take (handedOut es).length).map markRunning

theorem holds_init : Holds World.init [] [] := ⟨rfl, fun _ _ h => by simp [accepted] at h, rfl⟩

section
variable {w : World} {rs : List Req} {es : List Ev}

/-- A step that is no Submit, accepts and hands out nothing and keeps the
objects it finds keeps `Holds`. -/
theorem Holds.quiet {w' : World} {req : Req} {e : Ev} (hf : Fifo w es) (h : Holds w rs es)
    (hs : submittedJobs [req] = []) (ha : accepted [e] = []) (hh : handedOut [e] = [])
    (hj : handedJobs [e] = []) (hheap : ∀ r < w.heap.length, w'.heap[r]? = w.heap[r]?) :
    Holds w' (rs ++ [req]) (es ++ [e]) := by
  refine ⟨?_, fun k r hk => ?_, ?_⟩
  · simpa only [submittedJobs_append, accepted_append, hs, ha, List.append_nil] using h.length
  · simp only [submittedJobs_append, accepted_append, handedOut_append, hs, ha, hh,
      List.append_nil] at hk ⊢
    rw [hheap r (hf.lt r (List.getElem?_mem hk))]
    exact h.obj k r hk
  · simpa only [submittedJobs_append, handedOut_append, handedJobs_append, hs, hh, hj,
      List.append_nil] using h.handed

theorem holds_submit (hf : Fifo w es) (h : Holds w rs es) (j : Job) (wait : Bool) (now : Nat) :
    Holds (w.submit j wait now).1 (rs ++ [.submit j wait now]) (es ++ [(w.submit j wait now).2]) := by
  have hH := hf.handed.length_le
  have hS : submittedJobs (rs ++ [.submit j wait now]) =
      submittedJobs rs ++ [{ j with status := .queued, submitted := now }] := by simp
  have ha : accepted (es ++ [(w.submit j wait now).2]) = accepted es ++ [w.heap.length] := by
    simp [World.submit]
  have hh : handedOut (es ++ [(w.submit j wait now).2]) = handedOut es := by simp [World.submit]
  have hj : handedJobs (es ++ [(w.submit j wait now).2]) = handedJobs es := by simp [World.submit]
  refine ⟨by simp only [ha, hS, List.length_append, List.length_singleton, h.length],
    fun k r hk => ?_, ?_⟩
  · rw [ha] at hk
    rw [hS, hh, show (w.submit j wait now).1.heap = _ ++ _ from rfl]
    rcases getElem?_snoc_eq_some.mp hk with hk | ⟨rfl, rfl⟩
    · have hk' : k < (submittedJobs rs).length := h.length ▸ lt_of_getElem?_eq_some hk
      rw [getElem?_snoc_of_lt (hf.lt r (List.getElem?_mem hk)), List.getElem?_append_left hk']
      exact h.obj k r hk
    · rw [List.getElem?_concat_length, h.length, List.getElem?_concat_length,
        if_neg (Nat.not_lt.mpr (h.length ▸ hH))]
      rfl
  · rw [hS, hh, hj, List.take_append_of_le_length (h.length ▸ hH)]
    exact h.handed

theorem holds_fetch (hf : Fifo w es) (h : Holds w rs es) :
    Holds w.fetch.1 (rs ++ [.fetch]) (es ++ [w.fetch.2]) := by
  unfold World.fetch
  split
  · exact h.quiet hf rfl rfl rfl rfl fun _ _ => rfl
  · rename_i r0 q hq
    have ha : (accepted es)[(handedOut es).length]? = some r0 := by
      have hd := congrArg (·[0]?) (hf.queue.symm.trans hq)
      simp only [List.getElem?_drop, Nat.add_zero, List.getElem?_cons_zero] at hd
      exact hd
    obtain ⟨j0, hj0⟩ : ∃ j0, w.heap[r0]? = some j0 :=
      ⟨_, List.getElem?_eq_getElem (hf.lt r0 (List.getElem?_mem ha))⟩
    have hs : (submittedJobs rs)[(handedOut es).length]? = some j0 := by
      simpa only [Nat.lt_irrefl, if_false, Option.map_id, id_eq, hj0] using (h.obj _ _ ha).symm
    have he : (Ev.fetched ((w.heap.modify markRunning r0)[r0]?.map (r0, ·))) =
        .fetched (some (r0, markRunning j0)) := by
      simp [getElem?_modify_markRunning, hj0]
    rw [he]
    refine ⟨by simpa using h.length, fun k r hk => ?_, ?_⟩
    · simp only [accepted_append, accepted_singleton, List.append_nil] at hk
      simp only [getElem?_modify_markRunning, submittedJobs_append, submittedJobs_singleton,
        List.append_nil, handedOut_append, handedOut_singleton, List.length_append,
        List.length_singleton, h.obj k r hk, Option.map_map]
      by_cases hkH : k = (handedOut es).length
      · subst hkH
        obtain rfl : r0 = r := Option.some.inj (ha.symm.trans hk)
        simp
      · have hne : r0 ≠ r := fun he => hkH <|
          List.getElem?_inj (lt_of_getElem?_eq_some hk) hf.nodup (hk.trans (he ▸ ha.symm))
        have hlt : k < (handedOut es).length + 1 ↔ k < (handedOut es).length := by omega
        simp only [hne, hlt, if_false]
        rfl
    · simp only [submittedJobs_append, submittedJobs_singleton, List.append_nil, handedOut_append,
        handedOut_singleton, handedJobs_append, handedJobs_singleton, List.length_append,
        List.length_singleton, List.take_succ, hs, h.handed]
      simp

theorem holds_step (hf : Fifo w es) (h : Holds w rs es) (req : Req) :
    Holds (w.step req).1 (rs ++ [req]) (es ++ [(w.step req).2]) := by
  cases req with
  | submit j wait now => exact holds_submit hf h j wait now
  | retrieve id => exact h.quiet hf rfl rfl rfl rfl fun _ _ => rfl
  | stat id => exact h.quiet hf rfl rfl rfl rfl fun _ _ => rfl
  | push j => exact h.quiet hf rfl rfl rfl rfl fun _ hr => getElem?_snoc_of_lt hr
  | fetch => exact holds_fetch hf h

end

theorem holds_run (rs : List Req) : Holds (World.init.run rs).1 rs (World.init.run rs).2 := by
  induction rs using List.reverseRecOn with
  | nil => exact holds_init
  | append_singleton rs r ih => rw [run_snoc]; exact holds_step (fifo_run rs) ih r

/-- Over every run, the dispatcher accepts one object per Submit request, in
order, holding that request's job; Fetch hands the objects out in that order,
each at most once and marked running, none is dropped, and Fetch returns
`nil` exactly when every Submit request's job has been handed out. -/
theorem fetch_fifo (rs : List Req) :
    let p := World.init.run rs
    (accepted p.2).length = (submittedJobs rs).length ∧
      (∀ k r, (accepted p.2)[k]? = some r → p.1.heap[r]? =
        (submittedJobs rs)[k]?.map (if k < (handedOut p.2).length then markRunning else id)) ∧
      handedJobs p.2 = ((submittedJobs rs).take (handedOut p.2).length).map markRunning ∧
      handedOut p.2 <+: accepted p.2 ∧ (accepted p.2).Nodup ∧
      p.1.srv.queue = (accepted p.2).drop (handedOut p.2).length ∧
      ((p.1.step .fetch).2 = .fetched none ↔ (handedOut p.2).length = (submittedJobs rs).length) := by
  intro p
  have h : Fifo p.1 p.2 := fifo_run rs
  have hj : Holds p.1 rs p.2 := holds_run rs
  refine ⟨hj.length, hj.obj, hj.handed, h.handed, h.nodup, h.queue, ?_⟩
  have hq : ∀ r ∈ p.1.srv.queue, r < p.1.heap.length := fun r hr =>
    h.lt r (List.mem_of_mem_drop (h.queue ▸ hr))
  rw [show (p.1.step .fetch).2 = p.1.fetch.2 from rfl, fetch_none_iff _ hq, h.queue,
    List.drop_eq_nil_iff, ← hj.length]
  have := h.handed.length_le
  omega

end Cloudlus
