import Mathlib.Data.Fintype.Card
import Mathlib.Logic.Relation

/-!
# Following a pointer to the end of its chain

`chase next fuel start` follows `next` until it yields `none`.  Over a type
with at most `fuel` elements the fuel is no restriction: a chase that runs out
of it is on a cycle, so that `none` means exactly that the loop never ends.
-/

namespace LinuxOS.Foundation

variable {α : Type*}

def chase (next : α → Option α) : Nat → α → Option α
  | 0, _ => none
  | fuel + 1, node =>
      match next node with
      | none => some node
      | some following => chase next fuel following

def Edge (next : α → Option α) (first second : α) : Prop :=
  next first = some second

/-- The chain from a node ends in `last` after exactly so many edges. -/
inductive EndsIn (next : α → Option α) : Nat → α → α → Prop
  | here {last : α} : next last = none → EndsIn next 0 last last
  | there {count : Nat} {node following last : α} :
      next node = some following → EndsIn next count following last →
      EndsIn next (count + 1) node last

variable {next : α → Option α}

theorem EndsIn.last_none {count : Nat} {node last : α}
    (h : EndsIn next count node last) : next last = none := by
  induction h with
  | here hlast => exact hlast
  | there _ _ ih => exact ih

theorem EndsIn.unique {count count' : Nat} {node last last' : α}
    (h : EndsIn next count node last) (h' : EndsIn next count' node last') :
    count = count' ∧ last = last' := by
  induction h generalizing count' with
  | here hlast =>
      cases h' with
      | here => exact ⟨rfl, rfl⟩
      | there hnext => simp [hlast] at hnext
  | there hnext _ ih =>
      cases h' with
      | here hlast => simp [hlast] at hnext
      | there hnext' hrest =>
          rw [hnext, Option.some.injEq] at hnext'
          subst hnext'
          obtain ⟨rfl, rfl⟩ := ih hrest
          exact ⟨rfl, rfl⟩

theorem exists_endsIn_of_path {node last : α}
    (hpath : Relation.ReflTransGen (Edge next) node last)
    (hlast : next last = none) : ∃ count, EndsIn next count node last := by
  induction hpath using Relation.ReflTransGen.head_induction_on with
  | refl => exact ⟨0, .here hlast⟩
  | head hedge _ ih =>
      obtain ⟨count, hends⟩ := ih
      exact ⟨count + 1, .there hedge hends⟩

theorem EndsIn.path {count : Nat} {node last : α}
    (h : EndsIn next count node last) :
    Relation.ReflTransGen (Edge next) node last := by
  induction h with
  | here => exact .refl
  | there hnext _ ih => exact .head hnext ih

theorem EndsIn.chase_eq {count fuel : Nat} {node last : α}
    (h : EndsIn next count node last) (hfuel : count < fuel) :
    chase next fuel node = some last := by
  induction h generalizing fuel with
  | here hlast =>
      obtain ⟨rest, rfl⟩ : ∃ rest, fuel = rest + 1 := ⟨fuel - 1, by omega⟩
      simp [chase, hlast]
  | there hnext _ ih =>
      obtain ⟨rest, rfl⟩ : ∃ rest, fuel = rest + 1 := ⟨fuel - 1, by omega⟩
      simp only [chase, hnext]
      exact ih (by omega)

theorem endsIn_of_chase {fuel : Nat} {node last : α}
    (h : chase next fuel node = some last) : ∃ count, EndsIn next count node last := by
  induction fuel generalizing node with
  | zero => simp [chase] at h
  | succ fuel ih =>
      cases hnext : next node with
      | none =>
          simp only [chase, hnext, Option.some.injEq] at h
          subst h
          exact ⟨0, .here hnext⟩
      | some following =>
          simp only [chase, hnext] at h
          obtain ⟨count, hends⟩ := ih h
          exact ⟨count + 1, .there hnext hends⟩

theorem EndsIn.exists_nodup {count : Nat} {node last : α}
    (h : EndsIn next count node last) :
    ∃ nodes : List α, nodes.length = count + 1 ∧ nodes.Nodup ∧
      ∀ member ∈ nodes, ∃ left ≤ count, EndsIn next left member last := by
  induction h with
  | @here last hlast =>
      refine ⟨[last], rfl, by simp, ?_⟩
      simpa using EndsIn.here hlast
  | @there count node following last hnext hrest ih =>
      obtain ⟨nodes, hlength, hnodup, hmembers⟩ := ih
      refine ⟨node :: nodes, by simp [hlength], ?_, ?_⟩
      · -- a repeated node would be at two different distances from the end
        refine List.nodup_cons.mpr ⟨fun hmem => ?_, hnodup⟩
        obtain ⟨left, hle, hends⟩ := hmembers node hmem
        have := (hends.unique (.there hnext hrest)).1
        omega
      · intro member hmember
        rcases List.mem_cons.mp hmember with rfl | hmember
        · exact ⟨count + 1, le_refl _, .there hnext hrest⟩
        · obtain ⟨left, hle, hends⟩ := hmembers member hmember
          exact ⟨left, by omega, hends⟩

theorem EndsIn.count_lt_card [Fintype α] {count : Nat} {node last : α}
    (h : EndsIn next count node last) : count < Fintype.card α := by
  obtain ⟨nodes, hlength, hnodup, -⟩ := h.exists_nodup
  have := hnodup.length_le_card
  omega

theorem chase_eq_some_iff [Fintype α] {fuel : Nat} (hfuel : Fintype.card α ≤ fuel)
    {node last : α} :
    chase next fuel node = some last ↔
      Relation.ReflTransGen (Edge next) node last ∧ next last = none := by
  constructor
  · intro h
    obtain ⟨count, hends⟩ := endsIn_of_chase h
    exact ⟨hends.path, hends.last_none⟩
  · rintro ⟨hpath, hlast⟩
    obtain ⟨count, hends⟩ := exists_endsIn_of_path hpath hlast
    exact hends.chase_eq (hends.count_lt_card.trans_le hfuel)

end LinuxOS.Foundation
