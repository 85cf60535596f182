import Mathlib.Data.List.Basic
import Mathlib.Data.Option.Basic

/-!
# Runs of partial labelled transitions

A system is a partial step function from an event and a state to the next
state.  A run is a list of events.  The file gives the invariant rule, the rule
for steps that take something into use for good, and the rule by which a safety
property of a run is matched exactly by a condition on its steps.
-/

namespace LinuxOS.Foundation

variable {σ ε : Type*}

/-- Perform the events in order; `none` when one of them cannot happen. -/
def run (step : ε → σ → Option σ) : List ε → σ → Option σ
  | [], state => some state
  | event :: events, state => (step event state).bind (run step events)

def statesAlong (step : ε → σ → Option σ) : List ε → σ → List σ
  | [], state => [state]
  | event :: events, state =>
      state :: ((step event state).map (statesAlong step events)).getD []

/-- The steps of a run: each event with the state it happens in. -/
def stepsAlong (step : ε → σ → Option σ) : List ε → σ → List (σ × ε)
  | [], _ => []
  | event :: events, state =>
      (state, event) :: ((step event state).map (stepsAlong step events)).getD []

variable {step : ε → σ → Option σ}

@[simp] theorem run_nil (state : σ) : run step [] state = some state := rfl

theorem run_cons_eq_some {event : ε} {events : List ε} {state final : σ} :
    run step (event :: events) state = some final ↔
      ∃ next, step event state = some next ∧ run step events next = some final := by
  simp [run, Option.bind_eq_some_iff]

theorem statesAlong_cons {event : ε} {events : List ε} {state next : σ}
    (h : step event state = some next) :
    statesAlong step (event :: events) state =
      state :: statesAlong step events next := by
  simp [statesAlong, h]

theorem stepsAlong_cons {event : ε} {events : List ε} {state next : σ}
    (h : step event state = some next) :
    stepsAlong step (event :: events) state =
      (state, event) :: stepsAlong step events next := by
  simp [stepsAlong, h]

theorem run_append {before after : List ε} {state middle final : σ}
    (hbefore : run step before state = some middle) (hafter : run step after middle = some final) :
    run step (before ++ after) state = some final := by
  induction before generalizing state with
  | nil =>
      cases hbefore
      exact hafter
  | cons event before ih =>
      obtain ⟨next, hstep, hrest⟩ := run_cons_eq_some.mp hbefore
      exact run_cons_eq_some.mpr ⟨next, hstep, ih hrest⟩

theorem stepsAlong_append {before : List ε} {state middle : σ}
    (hbefore : run step before state = some middle) (after : List ε) :
    stepsAlong step (before ++ after) state =
      stepsAlong step before state ++ stepsAlong step after middle := by
  induction before generalizing state with
  | nil =>
      cases hbefore
      rfl
  | cons event before ih =>
      obtain ⟨next, hstep, hrest⟩ := run_cons_eq_some.mp hbefore
      rw [List.cons_append, stepsAlong_cons hstep, stepsAlong_cons hstep, ih hrest,
        List.cons_append]

theorem statesAlong_invariant {inv : σ → Prop}
    (keep : ∀ event state next, inv state → step event state = some next → inv next)
    {events : List ε} {state final : σ} (hrun : run step events state = some final)
    (hstart : inv state) : ∀ visited ∈ statesAlong step events state, inv visited := by
  induction events generalizing state with
  | nil => simpa [statesAlong] using hstart
  | cons event events ih =>
      obtain ⟨next, hstep, hrest⟩ := run_cons_eq_some.mp hrun
      rw [statesAlong_cons hstep]
      intro visited hvisited
      rcases List.mem_cons.mp hvisited with rfl | hvisited
      · exact hstart
      · exact ih hrest (keep _ _ _ hstart hstep) visited hvisited

theorem run_mem_statesAlong {events : List ε} {state final : σ}
    (hrun : run step events state = some final) :
    final ∈ statesAlong step events state := by
  induction events generalizing state with
  | nil =>
      simp only [run_nil, Option.some.injEq] at hrun
      simp [statesAlong, hrun]
  | cons event events ih =>
      obtain ⟨next, hstep, hrest⟩ := run_cons_eq_some.mp hrun
      rw [statesAlong_cons hstep]
      exact List.mem_cons_of_mem _ (ih hrest)

theorem run_invariant {inv : σ → Prop}
    (keep : ∀ event state next, inv state → step event state = some next → inv next)
    {events : List ε} {state final : σ} (hrun : run step events state = some final)
    (hstart : inv state) : inv final :=
  statesAlong_invariant keep hrun hstart final (run_mem_statesAlong hrun)

theorem mem_statesAlong_of_mem_stepsAlong {events : List ε} {state : σ}
    {taken : σ × ε} (h : taken ∈ stepsAlong step events state) :
    taken.1 ∈ statesAlong step events state := by
  induction events generalizing state with
  | nil => simp [stepsAlong] at h
  | cons event events ih =>
      cases hstep : step event state with
      | none =>
          simp only [stepsAlong, hstep, Option.map_none, Option.getD_none,
            List.mem_singleton] at h
          simp [h, statesAlong]
      | some next =>
          rw [stepsAlong_cons hstep] at h
          rw [statesAlong_cons hstep]
          rcases List.mem_cons.mp h with rfl | h
          · exact List.mem_cons_self
          · exact List.mem_cons_of_mem _ (ih h)

theorem exists_step_of_mem_stepsAlong {events : List ε} {state final : σ}
    (hrun : run step events state = some final) {taken : σ × ε}
    (h : taken ∈ stepsAlong step events state) : ∃ next, step taken.2 taken.1 = some next := by
  induction events generalizing state with
  | nil => simp [stepsAlong] at h
  | cons event events ih =>
      obtain ⟨next, hstep, hrest⟩ := run_cons_eq_some.mp hrun
      rw [stepsAlong_cons hstep] at h
      rcases List.mem_cons.mp h with rfl | h
      · exact ⟨next, hstep⟩
      · exact ih hrest h

theorem run_relates {inv : σ → Prop} {allowed : σ → ε → Prop} {rel : σ → σ → Prop}
    (refl : ∀ state, rel state state)
    (trans : ∀ first second third, rel first second → rel second third → rel first third)
    (relates : ∀ event state next, inv state → allowed state event →
      step event state = some next → inv next ∧ rel state next)
    {events : List ε} {state final : σ} (hrun : run step events state = some final)
    (hallowed : ∀ taken ∈ stepsAlong step events state, allowed taken.1 taken.2)
    (hinv : inv state) : inv final ∧ rel state final := by
  induction events generalizing state with
  | nil =>
      cases hrun
      exact ⟨hinv, refl _⟩
  | cons event events ih =>
      obtain ⟨next, hstep, hrest⟩ := run_cons_eq_some.mp hrun
      rw [stepsAlong_cons hstep, List.forall_mem_cons] at hallowed
      obtain ⟨hnext, hfirst⟩ := relates event state next hinv hallowed.1 hstep
      obtain ⟨hfinal, hothers⟩ := ih hrest hallowed.2 hnext
      exact ⟨hfinal, trans _ _ _ hfirst hothers⟩

section Kept

variable {α : Type*} {inv : σ → Prop} {used : σ → α → Prop}
  (keep : ∀ event state next, inv state → step event state = some next → inv next)
  (kept : ∀ event state next item, inv state → step event state = some next →
    used state item → used next item)

include keep kept

theorem forall_used_of_run {events : List ε} {state final : σ} {item : α}
    (hrun : run step events state = some final) (hinv : inv state) (hused : used state item) :
    ∀ visited ∈ statesAlong step events state, used visited item := by
  have hboth : ∀ visited ∈ statesAlong step events state, inv visited ∧ used visited item :=
    statesAlong_invariant
      (fun _ _ _ h hstep => ⟨keep _ _ _ h.1 hstep, kept _ _ _ _ h.1 hstep h.2⟩) hrun
      ⟨hinv, hused⟩
  exact fun visited hvisited => (hboth visited hvisited).2

theorem statesAlong_pairwise {events : List ε} {state final : σ}
    (hrun : run step events state = some final) (hinv : inv state) :
    (statesAlong step events state).Pairwise fun earlier later =>
      ∀ item, used earlier item → used later item := by
  induction events generalizing state with
  | nil => simp [statesAlong]
  | cons event events ih =>
      obtain ⟨next, hstep, hrest⟩ := run_cons_eq_some.mp hrun
      have hnext := keep _ _ _ hinv hstep
      rw [statesAlong_cons hstep, List.pairwise_cons]
      refine ⟨fun later hlater item hused => ?_, ih hrest hnext⟩
      exact forall_used_of_run keep kept hrest hnext (kept _ _ _ _ hinv hstep hused) later hlater

theorem filterMap_stepsAlong_nodup {taken : σ × ε → Option α}
    (fresh : ∀ event state next item, inv state → step event state = some next →
      taken (state, event) = some item → ¬ used state item ∧ used next item)
    {events : List ε} {state final : σ} (hrun : run step events state = some final)
    (hinv : inv state) : ((stepsAlong step events state).filterMap taken).Nodup := by
  induction events generalizing state with
  | nil => simp [stepsAlong]
  | cons event events ih =>
      obtain ⟨next, hstep, hrest⟩ := run_cons_eq_some.mp hrun
      have hnext := keep _ _ _ hinv hstep
      rw [stepsAlong_cons hstep, List.filterMap_cons]
      split
      · exact ih hrest hnext
      · next item hitem =>
          rw [List.nodup_cons]
          refine ⟨fun hagain => ?_, ih hrest hnext⟩
          -- a second step that takes the item would find it used
          obtain ⟨later, hlater, hsame⟩ := List.mem_filterMap.mp hagain
          obtain ⟨after, hafter⟩ := exists_step_of_mem_stepsAlong hrest hlater
          have hvisited := mem_statesAlong_of_mem_stepsAlong hlater
          have hinvLater := statesAlong_invariant keep hrest hnext later.1 hvisited
          have hused := forall_used_of_run keep kept hrest hnext
            (fresh _ _ _ _ hinv hstep hitem).2 later.1 hvisited
          exact (fresh _ _ _ _ hinvLater hafter hsame).1 hused

end Kept

/--
Exact conditions.  `safe` is kept by the allowed steps that meet `meets` and
broken at once by one that does not; `inv` is what the two facts need of the
states met on the way.  Then a run of allowed steps is safe throughout exactly
when each of its steps meets the condition.
-/
theorem forall_safe_iff_forall_meets {inv safe : σ → Prop} (allowed meets : σ → ε → Prop)
    (keep : ∀ event state next, inv state → safe state → allowed state event →
      meets state event → step event state = some next → inv next ∧ safe next)
    (broken : ∀ event state next, inv state → safe state → allowed state event →
      ¬ meets state event → step event state = some next → ¬ safe next)
    {events : List ε} {state final : σ} (hrun : run step events state = some final)
    (hallowed : ∀ taken ∈ stepsAlong step events state, allowed taken.1 taken.2)
    (hinv : inv state) (hsafe : safe state) :
    (∀ visited ∈ statesAlong step events state, safe visited) ↔
      ∀ taken ∈ stepsAlong step events state, meets taken.1 taken.2 := by
  induction events generalizing state with
  | nil => simpa [statesAlong, stepsAlong] using hsafe
  | cons event events ih =>
      obtain ⟨next, hstep, hrest⟩ := run_cons_eq_some.mp hrun
      rw [stepsAlong_cons hstep, List.forall_mem_cons] at hallowed
      obtain ⟨hfirst, hothers⟩ := hallowed
      rw [statesAlong_cons hstep, stepsAlong_cons hstep, List.forall_mem_cons,
        List.forall_mem_cons]
      by_cases hmeets : meets state event
      · obtain ⟨hinv', hsafe'⟩ := keep _ _ _ hinv hsafe hfirst hmeets hstep
        rw [ih hrest hothers hinv' hsafe']
        simp [hsafe, hmeets]
      · have hnext : ¬ safe next := broken _ _ _ hinv hsafe hfirst hmeets hstep
        constructor
        · rintro ⟨-, hall⟩
          refine absurd (hall next ?_) hnext
          cases events <;> simp [statesAlong]
        · rintro ⟨hm, -⟩
          exact absurd hm hmeets

theorem forall_safe_iff_of_step_iff {inv safe : σ → Prop} {meets : σ → ε → Prop}
    (keep : ∀ event state next, inv state → step event state = some next → inv next)
    (decides : ∀ event state next, inv state → safe state → step event state = some next →
      (safe next ↔ meets state event))
    {events : List ε} {state final : σ} (hrun : run step events state = some final)
    (hinv : inv state) (hsafe : safe state) :
    (∀ visited ∈ statesAlong step events state, safe visited) ↔
      ∀ taken ∈ stepsAlong step events state, meets taken.1 taken.2 := by
  refine forall_safe_iff_forall_meets (fun _ _ => True) meets ?_ ?_ hrun
    (fun _ _ => trivial) hinv hsafe
  · intro event source next hinv hsafe _ hmeets hstep
    exact ⟨keep _ _ _ hinv hstep, (decides _ _ _ hinv hsafe hstep).mpr hmeets⟩
  · intro event source next hinv hsafe _ hmeets hstep hnext
    exact hmeets ((decides _ _ _ hinv hsafe hstep).mp hnext)

end LinuxOS.Foundation
