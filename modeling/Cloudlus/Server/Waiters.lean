import Cloudlus.Server.Invariant

/-!
# What a synchronous submitter receives

RPC Submit makes a channel, sends `jobSubmit{j, ch}` and blocks on `<-ch`.
The Submit case stores the channel in `submitchans[j.Id]`, overwriting
whatever was there; the Push case sends the pushed job on
`submitchans[j.Id]`, if any, and deletes the entry.

* `waiter_receives`: over every run, the channel registered by a
  synchronous Submit for id `x` receives exactly `waiterFate x post`, where
  `post` is the rest of the run: the job of the first Push with id `x`,
  unless a synchronous Submit for `x` comes first, in which case nothing
  (its registration is overwritten and its caller blocks forever); nothing
  either when no Push for `x` follows (the registration dangles). So a job
  the channel receives carries the id `x` and was pushed after the
  submission.
* `resubmit_replaces_waiter`: two synchronous submissions of one id, then a
  Push of it: only the second caller is answered.
-/
namespace Cloudlus

/-- The jobs a history delivered on channel `c`. -/
def delivered (c : Chan) (es : List Ev) : List Job :=
  es.filterMap fun | .pushed j (some c') => if c' = c then some j else none | _ => none

/-- What the waiter registered for `x` receives over the rest of a run. -/
def waiterFate (x : JobId) : List Req → Option Job
  | [] => none
  | .push j :: rs => if j.id = x then some j else waiterFate x rs
  | .submit j true _ :: rs => if j.id = x then none else waiterFate x rs
  | _ :: rs => waiterFate x rs

/-- A job the waiter receives carries its id and is pushed later in the run. -/
theorem waiterFate_spec {x : JobId} {j : Job} :
    ∀ {rs : List Req}, waiterFate x rs = some j → j.id = x ∧ Req.push j ∈ rs
  | [], h => by cases h
  | .push j' :: rs, h => by
    simp only [waiterFate] at h
    split at h
    · cases h; exact ⟨‹_›, List.mem_cons_self _ _⟩
    · exact (waiterFate_spec h).imp_right (List.mem_cons_of_mem _)
  | .submit j' true _ :: rs, h => by
    simp only [waiterFate] at h
    split at h
    · cases h
    · exact (waiterFate_spec h).imp_right (List.mem_cons_of_mem _)
  | .submit _ false _ :: rs, h | .retrieve _ :: rs, h | .stat _ :: rs, h | .fetch :: rs, h => by
    have h' : waiterFate x rs = some j := h
    exact (waiterFate_spec h').imp_right (List.mem_cons_of_mem _)

@[simp] theorem delivered_append (c : Chan) (es es' : List Ev) :
    delivered c (es ++ es') = delivered c es ++ delivered c es' := List.filterMap_append _ _ _

/-! ## Channels -/

theorem chans_le_step (w : World) (req : Req) : w.chans ≤ (w.step req).1.chans := by
  cases req with
  | submit j wait now => cases wait <;> simp [World.step, World.submit]
  | fetch => show w.chans ≤ w.fetch.1.chans; unfold World.fetch; split <;> exact Nat.le_refl _
  | _ => exact Nat.le_refl _

theorem chans_le_run (w : World) (rs : List Req) : w.chans ≤ (w.run rs).1.chans := by
  induction rs generalizing w with
  | nil => exact Nat.le_refl _
  | cons r rs ih => exact (chans_le_step w r).trans (ih _)

/-- A Push delivers on the channel registered under its id, if any. -/
theorem step_delivers {w : World} {req : Req} {j : Job} {c : Chan}
    (h : (w.step req).2 = .pushed j (some c)) :
    req = .push j ∧ w.srv.submitchans j.id = some c := by
  cases req with
  | push j' => simp only [World.step, World.push, Ev.pushed.injEq] at h; exact ⟨h.1 ▸ rfl, h.1 ▸ h.2⟩
  | submit => simp [World.step, World.submit] at h
  | retrieve => simp [World.step, World.lookup] at h
  | stat => simp [World.step, World.lookup] at h
  | fetch =>
    change w.fetch.2 = _ at h
    unfold World.fetch at h; split at h <;> cases h

theorem delivered_cons (c : Chan) (e : Ev) (es : List Ev) :
    delivered c (e :: es) = delivered c [e] ++ delivered c es :=
  delivered_append c [e] es

theorem delivered_singleton {c : Chan} {e : Ev} (h : ∀ j, e ≠ .pushed j (some c)) :
    delivered c [e] = [] := by
  rcases e with _ | _ | _ | ⟨j, _ | c'⟩ <;> simp [delivered]
  intro he; exact h j (he ▸ rfl)

/-- A step delivers on `c` only when `c` is registered under the pushed id. -/
theorem delivered_step {w : World} {c : Chan} (req : Req)
    (hn : ∀ j, req = .push j → w.srv.submitchans j.id ≠ some c) : delivered c [(w.step req).2] = [] :=
  delivered_singleton fun _ he => hn _ (step_delivers he).1 (step_delivers he).2

/-- How a step changes the waiter map. -/
theorem submitchans_step (w : World) (req : Req) :
    (w.step req).1.srv.submitchans = match req with
      | .submit j true _ => Function.update w.srv.submitchans j.id (some w.chans)
      | .push j => Function.update w.srv.submitchans j.id none
      | _ => w.srv.submitchans := by
  cases req with
  | submit j wait now => cases wait <;> rfl
  | push j => exact push_submitchans w j
  | fetch => show w.fetch.1.srv.submitchans = _; unfold World.fetch; split <;> rfl
  | _ => rfl

/-- A step registers a channel made before it only where it was registered
already: it only removes registrations, or adds its own new channel. -/
theorem submitchans_step_of_some {w : World} {req : Req} {c : Chan} {y : JobId} (hc : c < w.chans)
    (h : (w.step req).1.srv.submitchans y = some c) : w.srv.submitchans y = some c := by
  rw [submitchans_step] at h
  split at h
  · rw [Function.update_apply] at h
    split at h
    · exact absurd (Option.some.inj h ▸ hc) (Nat.lt_irrefl _)
    · exact h
  · rw [Function.update_apply] at h
    split at h
    · cases h
    · exact h
  · exact h

/-- A channel registered under no id receives nothing more. -/
theorem delivered_of_unregistered (rs : List Req) :
    ∀ {w : World} {c : Chan}, c < w.chans → (∀ x, w.srv.submitchans x ≠ some c) →
      delivered c (w.run rs).2 = [] := by
  induction rs with
  | nil => intro _ _ _ _; rfl
  | cons r rs ih =>
    intro w c hc hn
    rw [run_cons, delivered_cons, delivered_step r fun _ _ => hn _,
      ih (Nat.lt_of_lt_of_le hc (chans_le_step w r)) fun x he => hn x (submitchans_step_of_some hc he)]
    rfl

/-- While `c` is registered under `x` and no other id, the rest of the run
delivers on it exactly `waiterFate x`. -/
theorem delivered_of_registered (post : List Req) :
    ∀ {w : World} {x : JobId} {c : Chan}, c < w.chans → w.srv.submitchans x = some c →
      (∀ y, y ≠ x → w.srv.submitchans y ≠ some c) →
      delivered c (w.run post).2 = (waiterFate x post).toList := by
  induction post with
  | nil => intros; rfl
  | cons r rs ih =>
    intro w x c hc hx hy
    have hc' := Nat.lt_of_lt_of_le hc (chans_le_step w r)
    rw [run_cons, delivered_cons]
    match r with
    | .push j =>
      by_cases hj : j.id = x
      · subst hj
        have hev : (w.step (.push j)).2 = .pushed j (some c) := by simp [World.step, World.push, hx]
        have hgone : ∀ y, (w.step (.push j)).1.srv.submitchans y ≠ some c := fun y he => by
          obtain rfl | hyx := eq_or_ne y j.id
          · simp [submitchans_step] at he
          · exact hy y hyx (submitchans_step_of_some hc he)
        rw [hev, delivered_of_unregistered rs hc' hgone]
        simp [waiterFate, delivered]
      · rw [delivered_step _ fun j' he => by cases he; exact hy _ hj]
        rw [ih (x := x) hc' (by simp only [submitchans_step, Function.update_noteq (Ne.symm hj)]; exact hx)
          fun y hyx he => hy y hyx (submitchans_step_of_some hc he)]
        simp [waiterFate, hj]
    | .submit j true now =>
      have hne : c ≠ w.chans := Nat.ne_of_lt hc
      by_cases hj : j.id = x
      · subst hj
        have hgone : ∀ y, (w.step (.submit j true now)).1.srv.submitchans y ≠ some c := fun y he => by
          obtain rfl | hyx := eq_or_ne y j.id
          · simp [submitchans_step] at he
            exact hne he.symm
          · exact hy y hyx (submitchans_step_of_some hc he)
        rw [delivered_step _ (fun _ he => by cases he), delivered_of_unregistered rs hc' hgone]
        simp [waiterFate]
      · rw [delivered_step _ (fun _ he => by cases he)]
        rw [ih (x := x) hc' (by simp only [submitchans_step, Function.update_noteq (Ne.symm hj)]; exact hx)
          fun y hyx he => hy y hyx (submitchans_step_of_some hc he)]
        simp [waiterFate, hj]
    | .submit j false now | .retrieve _ | .stat _ | .fetch =>
      rw [delivered_step _ (fun _ he => by cases he), ih (x := x) hc' (by simpa only [submitchans_step] using hx)
        fun y hyx he => hy y hyx (submitchans_step_of_some hc he)]
      simp [waiterFate]

/-- Nothing is delivered on a channel not made yet. -/
theorem delivered_unmade (rs : List Req) :
    ∀ {w : World} {c : Chan}, WF w → (w.run rs).1.chans ≤ c → delivered c (w.run rs).2 = [] := by
  induction rs with
  | nil => intros; rfl
  | cons r rs ih =>
    intro w c hw hc
    rw [run_cons, delivered_cons, ih (wf_step hw r) hc, List.append_nil]
    refine delivered_step r fun j _ hj => ?_
    have := Nat.lt_of_lt_of_le (hw.chans_lt _ _ hj) ((chans_le_step w r).trans (chans_le_run _ rs))
    exact Nat.lt_irrefl _ (Nat.lt_of_lt_of_le this hc)

/-- Over every run, the channel a synchronous Submit registers (the
`chans`-th one made) receives exactly `waiterFate` of the rest of the run: the
job of the first later Push with its id, unless a later synchronous Submit of
that id replaces the registration first, and nothing otherwise. So what it
receives carries the submitted id and was pushed after the submission. -/
theorem waiter_receives (pre post : List Req) (j : Job) (now : Nat) :
    delivered (World.init.run pre).1.chans (World.init.run (pre ++ .submit j true now :: post)).2 =
        (waiterFate j.id post).toList ∧
      ∀ j' ∈ delivered (World.init.run pre).1.chans (World.init.run (pre ++ .submit j true now :: post)).2,
        j'.id = j.id ∧ Req.push j' ∈ post := by
  have hw := wf_reachable pre
  have h : delivered (World.init.run pre).1.chans (World.init.run (pre ++ .submit j true now :: post)).2 =
      (waiterFate j.id post).toList := by
    rw [run_append, delivered_append, delivered_unmade pre wf_init (Nat.le_refl _), run_cons,
      delivered_cons, delivered_step _ (fun _ he => by cases he), List.nil_append, List.nil_append]
    refine delivered_of_registered post (by simp [World.step, World.submit])
      (by simp [World.step, World.submit]) fun y hy => ?_
    simp only [World.step, World.submit, ite_true, Function.update_noteq hy]
    exact fun he => Nat.lt_irrefl _ (hw.chans_lt y _ he)
  refine ⟨h, fun j' hj' => waiterFate_spec ?_⟩
  rw [h] at hj'
  simpa using hj'


/-- Two synchronous submissions of the zero id, then a Push of it. -/
def replaceRun : List Req :=
  [.submit (newJob .zero) true 0, .submit (newJob .zero) true 1,
    .push { newJob .zero with status := .complete }]

/-- The first caller's channel receives nothing although a Push of its id
follows its submission; the second caller's receives the job. -/
theorem resubmit_replaces_waiter :
    delivered 0 (World.init.run replaceRun).2 = [] ∧
      delivered 1 (World.init.run replaceRun).2 = [{ newJob .zero with status := .complete }] := by
  decide

end Cloudlus
