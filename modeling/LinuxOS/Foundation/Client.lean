import Mathlib.Data.Nat.Init
import Mathlib.Logic.Relation

/-!
# Programs that ask a service

A client is done with a value, or asks a request and goes on with the reply.  A
service says how its state moves while the client does not ask, how a request is
answered, and which requests may be kept waiting.  `Meets` is total correctness
up to waiting: the client is never refused an answer, ends, and ends well.
-/

namespace LinuxOS.Foundation

inductive Client (ρ ι α : Type) where
  | done (value : α)
  | ask (request : ρ) (next : ι → Client ρ ι α)

namespace Client

variable {ρ ι α β κ : Type}

def bind : Client ρ ι α → (α → Client ρ ι β) → Client ρ ι β
  | .done value, next => next value
  | .ask request rest, next => .ask request fun reply => (rest reply).bind next

instance : Monad (Client ρ ι) where
  pure := .done
  bind := .bind

def request (request : ρ) : Client ρ ι ι := .ask request .done

def Asks (allowed : ρ → Prop) : Client ρ ι α → Prop
  | .done _ => True
  | .ask request next => allowed request ∧ ∀ reply, (next reply).Asks allowed

/-- Go round until the body leaves with a value; `none` when `fuel` rounds are too few. -/
def loop (body : κ → Client ρ ι (κ ⊕ α)) : Nat → κ → Client ρ ι (Option α)
  | 0, _ => .done none
  | fuel + 1, state => (body state).bind fun result =>
      match result with
      | .inl next => loop body fuel next
      | .inr value => .done (some value)

theorem Asks.bind {allowed : ρ → Prop} {client : Client ρ ι α} {next : α → Client ρ ι β}
    (h : client.Asks allowed) (hnext : ∀ value, (next value).Asks allowed) :
    (client.bind next).Asks allowed := by
  induction client with
  | done value => exact hnext value
  | ask request rest ih => exact ⟨h.1, fun reply => ih reply (h.2 reply)⟩

end Client

structure Service (σ ρ ι : Type) where
  between : σ → σ → Prop
  answers : ρ → σ → σ → ι → Prop
  waits : ρ → σ → Prop

section Meets

variable {σ ρ ι α β κ : Type} (service : Service σ ρ ι)

/-- Whatever happens in between, the client ends with the postcondition unless it waits. -/
def Meets (post : α → σ → Prop) : Client ρ ι α → σ → Prop
  | .done value, state => post value state
  | .ask request next, state => ∀ ready, service.between state ready →
      (service.waits request ready ∨ ∃ after reply, service.answers request ready after reply) ∧
        ∀ after reply, service.answers request ready after reply → Meets post (next reply) after

variable {service}

/-! ## Rules -/

theorem meets_mono {post post' : α → σ → Prop} {client : Client ρ ι α} {state : σ}
    (himp : ∀ value state, post value state → post' value state)
    (h : Meets service post client state) : Meets service post' client state := by
  induction client generalizing state with
  | done value => exact himp value state h
  | ask request next ih =>
      intro ready hbetween
      obtain ⟨hserved, hnext⟩ := h ready hbetween
      exact ⟨hserved, fun after reply hanswer => ih reply (hnext after reply hanswer)⟩

theorem meets_bind {post : β → σ → Prop} {client : Client ρ ι α} {next : α → Client ρ ι β}
    {state : σ} :
    Meets service post (client.bind next) state ↔
      Meets service (fun value state => Meets service post (next value) state) client state := by
  induction client generalizing state with
  | done value => exact Iff.rfl
  | ask request rest ih =>
      exact forall₂_congr fun ready hbetween => and_congr_right fun _ =>
        forall₃_congr fun after reply hanswer => ih reply

theorem meets_seq {post : β → σ → Prop} {middle : α → σ → Prop} {client : Client ρ ι α}
    {next : α → Client ρ ι β} {state : σ} (hfirst : Meets service middle client state)
    (hnext : ∀ value state, middle value state → Meets service post (next value) state) :
    Meets service post (client >>= next) state :=
  meets_bind.mpr (meets_mono hnext hfirst)

/-- The rule of frames: what neither the waiting nor an allowed request changes stays. -/
theorem meets_frame {post : α → σ → Prop} {kept : σ → Prop} {allowed : ρ → Prop}
    (hbetween : ∀ state ready, service.between state ready → kept state → kept ready)
    (hanswers : ∀ request ready after reply, allowed request →
      service.answers request ready after reply → kept ready → kept after)
    {client : Client ρ ι α} {state : σ} (hasks : client.Asks allowed) (hkept : kept state)
    (h : Meets service post client state) :
    Meets service (fun value state => post value state ∧ kept state) client state := by
  induction client generalizing state with
  | done value => exact ⟨h, hkept⟩
  | ask request next ih =>
      intro ready hready
      obtain ⟨hserved, hnext⟩ := h ready hready
      refine ⟨hserved, fun after reply hanswer => ?_⟩
      have hafter := hanswers _ _ _ _ hasks.1 hanswer (hbetween state ready hready hkept)
      exact ih reply (hasks.2 reply) hafter (hnext after reply hanswer)

/--
The rule of loops that need not end.  The invariant holds of the rounds that
are left, the loop's variables and the state; each round leaves or keeps it.
-/
theorem meets_rounds {inv : Nat → κ → σ → Prop} {post : Option α → σ → Prop}
    {body : κ → Client ρ ι (κ ⊕ α)}
    (hbody : ∀ left local' state, inv (left + 1) local' state →
      Meets service (fun result state => result.elim
        (fun next => inv left next state) fun value => post (some value) state)
        (body local') state)
    (hlast : ∀ local' state, inv 0 local' state → post none state)
    {fuel : Nat} {local' : κ} {state : σ} (hinv : inv fuel local' state) :
    Meets service post (Client.loop body fuel local') state := by
  induction fuel generalizing local' state with
  | zero => exact hlast local' state hinv
  | succ fuel ih =>
      refine meets_bind.mpr (meets_mono (fun result after hround => ?_) (hbody _ _ _ hinv))
      cases result with
      | inl next => exact ih hround
      | inr value => exact hround

/--
The rule of loops.  The invariant holds of the loop's variables and the state
with a bound on the rounds to come; each round leaves, or lowers the bound.
-/
theorem meets_loop {inv : Nat → κ → σ → Prop} {post : α → σ → Prop}
    {body : κ → Client ρ ι (κ ⊕ α)}
    (hbody : ∀ bound local' state, inv bound local' state →
      Meets service (fun result state => result.elim
        (fun next => ∃ lower < bound, inv lower next state) fun value => post value state)
        (body local') state)
    {fuel bound : Nat} {local' : κ} {state : σ} (hfuel : bound < fuel)
    (hinv : inv bound local' state) :
    Meets service (fun result state => ∃ value, result = some value ∧ post value state)
      (Client.loop body fuel local') state := by
  have hrounds : ∀ left local' state, (∃ bound < left + 1, inv bound local' state) →
      Meets service (fun result state => result.elim
        (fun next => ∃ bound < left, inv bound next state)
        fun value => ∃ last, some value = some last ∧ post last state) (body local') state := by
    rintro left local' state ⟨bound, hbound, hinv⟩
    refine meets_mono (fun result after hround => ?_) (hbody bound local' state hinv)
    cases result with
    | inl next =>
        obtain ⟨lower, hlower, hnext⟩ := hround
        exact ⟨lower, by omega, hnext⟩
    | inr value => exact ⟨value, rfl, hround⟩
  exact @meets_rounds _ _ _ _ _ service (fun left local' state => ∃ bound < left,
    inv bound local' state) _ body hrounds
    (fun _ _ ⟨_, hbound, _⟩ => absurd hbound (Nat.not_lt_zero _)) fuel local' state
    ⟨bound, hfuel, hinv⟩

end Meets

end LinuxOS.Foundation
