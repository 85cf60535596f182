import LinuxOS.Foundation.Transition
import Mathlib.Data.List.Forall2

/-!
# Refinement of a machine that answers

A concrete system takes partial steps and answers each request; a specification
is a total machine that replies to the same requests.  When one step keeps the
relation between the two states and the answer matches the reply, whole runs do.
When a step also decides whether its answer matches, so does the run.
-/

namespace LinuxOS.Foundation

variable {σ μ ε ο ρ : Type*}

def answers (step : ε → σ → Option (σ × ο)) : List ε → σ → Option (σ × List ο)
  | [], state => some (state, [])
  | event :: events, state =>
      (step event state).bind fun (next, answer) =>
        (answers step events next).map fun (final, rest) => (final, answer :: rest)

def advance (step : ε → σ → Option (σ × ο)) (event : ε) (state : σ) : Option σ :=
  (step event state).map Prod.fst

def replies (reply : ε → μ → μ × ρ) : List ε → μ → μ × List ρ
  | [], machine => (machine, [])
  | event :: events, machine =>
      ((replies reply events (reply event machine).1).1,
        (reply event machine).2 :: (replies reply events (reply event machine).1).2)

variable {step : ε → σ → Option (σ × ο)} {reply : ε → μ → μ × ρ}

theorem answers_cons_eq_some {event : ε} {events : List ε} {state final : σ}
    {outputs : List ο} :
    answers step (event :: events) state = some (final, outputs) ↔
      ∃ next answer rest, step event state = some (next, answer) ∧
        answers step events next = some (final, rest) ∧ outputs = answer :: rest := by
  constructor
  · intro h
    obtain ⟨⟨next, answer⟩, hstep, h⟩ := Option.bind_eq_some_iff.mp h
    obtain ⟨⟨last, rest⟩, hrest, h⟩ := Option.map_eq_some_iff.mp h
    cases h
    exact ⟨next, answer, rest, hstep, hrest, rfl⟩
  · rintro ⟨next, answer, rest, hstep, hrest, rfl⟩
    simp [answers, hstep, hrest]

theorem answers_refine {represents : μ → σ → Prop} {matching : ρ → ο → Prop}
    (simulates : ∀ event machine state next answer, represents machine state →
      step event state = some (next, answer) →
      represents (reply event machine).1 next ∧ matching (reply event machine).2 answer)
    {events : List ε} {machine : μ} {state final : σ} {outputs : List ο}
    (hrun : answers step events state = some (final, outputs))
    (hstart : represents machine state) :
    represents (replies reply events machine).1 final ∧
      List.Forall₂ matching (replies reply events machine).2 outputs := by
  induction events generalizing machine state outputs with
  | nil =>
      cases hrun
      exact ⟨hstart, .nil⟩
  | cons event events ih =>
      obtain ⟨next, answer, rest, hstep, hrest, rfl⟩ := answers_cons_eq_some.mp hrun
      obtain ⟨hnext, hanswer⟩ := simulates _ _ _ _ _ hstart hstep
      obtain ⟨hfinal, hanswers⟩ := ih hrest hnext
      exact ⟨hfinal, .cons hanswer hanswers⟩

/--
Exact answers.  The allowed steps keep the relation and decide whether their
answer matches.  Then all answers of a run of allowed steps match exactly when
every step meets the condition.
-/
theorem answers_matching_iff {represents : μ → σ → Prop} {matching : ρ → ο → Prop}
    (allowed meets : σ → ε → Prop)
    (simulates : ∀ event machine state next answer, represents machine state →
      allowed state event → step event state = some (next, answer) →
      represents (reply event machine).1 next ∧
        (matching (reply event machine).2 answer ↔ meets state event))
    {events : List ε} {machine : μ} {state final : σ} {outputs : List ο}
    (hrun : answers step events state = some (final, outputs))
    (hallowed : ∀ taken ∈ stepsAlong (advance step) events state, allowed taken.1 taken.2)
    (hstart : represents machine state) :
    List.Forall₂ matching (replies reply events machine).2 outputs ↔
      ∀ taken ∈ stepsAlong (advance step) events state, meets taken.1 taken.2 := by
  induction events generalizing machine state outputs with
  | nil =>
      cases hrun
      simp [replies, stepsAlong]
  | cons event events ih =>
      obtain ⟨next, answer, rest, hstep, hrest, rfl⟩ := answers_cons_eq_some.mp hrun
      have hnext : advance step event state = some next := by rw [advance, hstep, Option.map_some]
      rw [stepsAlong_cons hnext, List.forall_mem_cons] at hallowed
      obtain ⟨hfirst, hothers⟩ := hallowed
      obtain ⟨hrepresents, hanswer⟩ := simulates _ _ _ _ _ hstart hfirst hstep
      rw [stepsAlong_cons hnext, List.forall_mem_cons, replies, List.forall₂_cons, hanswer,
        ih hrest hothers hrepresents]

theorem answers_of_place {place : Nat → σ → Prop} {answer : ε × Nat → ο}
    (hstep : ∀ {k state} (event : ε), place k state →
      ∃ next, step event state = some (next, answer (event, k)) ∧ place (k + 1) next)
    (events : List ε) {k : Nat} {state : σ} (hplace : place k state) :
    ∃ final, answers step events state = some (final, (events.zipIdx k).map answer) := by
  induction events generalizing k state with
  | nil => exact ⟨state, rfl⟩
  | cons event events ih =>
      obtain ⟨next, hnext, hbehind⟩ := hstep event hplace
      obtain ⟨final, hfinal⟩ := ih hbehind
      refine ⟨final, answers_cons_eq_some.mpr ⟨next, _, _, hnext, hfinal, ?_⟩⟩
      rw [List.zipIdx_cons, List.map_cons]

end LinuxOS.Foundation
