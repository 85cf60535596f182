import LinuxOS.Foundation.Chase
import Mathlib.Data.Set.Finite.Basic
import Mathlib.Data.Fintype.EquivFin
import Mathlib.Order.WellFounded

/-!
# Doubly linked chains

A forest of chains over an arbitrary type of nodes: every live node has at most
one child and at most one parent, the two links agree, and every live node is
below a parentless one.  The three updates are starting a chain, extending a
chain at its end, and removing the end of a chain.
-/

namespace LinuxOS.Foundation

open Relation

structure Forest (α : Type*) where
  live : Set α
  parent : α → Option α
  child : α → Option α

namespace Forest

variable {α : Type*} {F : Forest α}

/-- `first` is above `second` in one chain, or equal to it. -/
def Above (F : Forest α) (first second : α) : Prop :=
  ReflTransGen (Edge F.child) first second

structure WellFormed (F : Forest α) : Prop where
  linked : ∀ first second, F.child first = some second ↔ F.parent second = some first
  child_live : ∀ first second, F.child first = some second →
    first ∈ F.live ∧ second ∈ F.live
  rooted : ∀ node ∈ F.live, ∃ root ∈ F.live, F.parent root = none ∧ F.Above root node

theorem WellFormed.above_live (h : F.WellFormed) {first second : α}
    (hpath : F.Above first second) (hlive : first ∈ F.live) : second ∈ F.live := by
  cases hpath with
  | refl => exact hlive
  | tail _ hedge => exact (h.child_live _ _ hedge).2

theorem WellFormed.parent_unique (h : F.WellFormed) {first first' second : α}
    (hedge : Edge F.child first second) (hedge' : Edge F.child first' second) :
    first = first' := by
  have hparent := (h.linked _ _).mp hedge
  rw [(h.linked _ _).mp hedge', Option.some.injEq] at hparent
  exact hparent.symm

theorem WellFormed.not_edge_of_parentless (h : F.WellFormed) {first root : α}
    (hroot : F.parent root = none) : ¬ Edge F.child first root := by
  intro hedge
  rw [(h.linked _ _).mp hedge] at hroot
  simp at hroot

theorem WellFormed.root_unique (h : F.WellFormed) {root root' node : α}
    (hroot : F.parent root = none) (hroot' : F.parent root' = none)
    (hpath : F.Above root node) (hpath' : F.Above root' node) : root = root' := by
  induction hpath with
  | refl =>
      rcases ReflTransGen.cases_tail hpath' with heq | ⟨above, -, hedge⟩
      · exact heq
      · exact absurd hedge (h.not_edge_of_parentless hroot)
  | tail _ hedge ih =>
      rcases ReflTransGen.cases_tail hpath' with heq | ⟨above, habove, hedge'⟩
      · subst heq
        exact absurd hedge (h.not_edge_of_parentless hroot')
      · obtain rfl := h.parent_unique hedge hedge'
        exact ih habove

theorem WellFormed.acyclic (h : F.WellFormed) {node : α} (hlive : node ∈ F.live) :
    ¬ TransGen (Edge F.child) node node := by
  obtain ⟨root, -, hroot, hpath⟩ := h.rooted node hlive
  clear hlive
  induction hpath with
  | refl =>
      intro hcycle
      obtain ⟨above, -, hedge⟩ := TransGen.tail'_iff.mp hcycle
      exact h.not_edge_of_parentless hroot hedge
  | tail _ hedge ih =>
      -- a cycle through a node is also a cycle through its only predecessor
      intro hcycle
      obtain ⟨above, habove, hedge'⟩ := TransGen.tail'_iff.mp hcycle
      obtain rfl := h.parent_unique hedge hedge'
      exact ih (TransGen.head' hedge habove)

theorem WellFormed.exists_bottom (h : F.WellFormed) (hfinite : F.live.Finite)
    {node : α} (hlive : node ∈ F.live) :
    ∃ bottom, F.Above node bottom ∧ F.child bottom = none := by
  have := hfinite.to_subtype
  let below : F.live → F.live → Prop := fun lower upper =>
    TransGen (Edge F.child) upper.1 lower.1
  have : IsTrans F.live below := ⟨fun _ _ _ hab hbc => TransGen.trans hbc hab⟩
  have : Std.Irrefl below := ⟨fun member => h.acyclic member.2⟩
  have hwf : WellFounded below := Finite.wellFounded_of_trans_of_irrefl below
  obtain ⟨⟨bottom, hbottom⟩, hpath, hmin⟩ :=
    hwf.has_min {member | F.Above node member.1} ⟨⟨node, hlive⟩, .refl⟩
  refine ⟨bottom, hpath, ?_⟩
  cases hchild : F.child bottom with
  | none => rfl
  | some lower =>
      have hlower := (h.child_live _ _ hchild).2
      have hbelow : below ⟨lower, hlower⟩ ⟨bottom, hbottom⟩ := .single hchild
      exact absurd hbelow (hmin ⟨lower, hlower⟩ (ReflTransGen.tail hpath hchild))

theorem bottom_unique {node bottom bottom' : α}
    (hpath : F.Above node bottom) (hbottom : F.child bottom = none)
    (hpath' : F.Above node bottom') (hbottom' : F.child bottom' = none) :
    bottom = bottom' := by
  obtain ⟨_, hends⟩ := exists_endsIn_of_path hpath hbottom
  obtain ⟨_, hends'⟩ := exists_endsIn_of_path hpath' hbottom'
  exact (hends.unique hends').2

/-! ## The three updates -/

def addRoot (F : Forest α) (fresh : α) : Forest α :=
  { F with live := insert fresh F.live }

theorem WellFormed.no_links (h : F.WellFormed) {fresh : α} (hfresh : fresh ∉ F.live) :
    F.parent fresh = none ∧ F.child fresh = none := by
  constructor
  · cases hparent : F.parent fresh with
    | none => rfl
    | some above => exact absurd (h.child_live _ _ ((h.linked _ _).mpr hparent)).2 hfresh
  · cases hchild : F.child fresh with
    | none => rfl
    | some below => exact absurd (h.child_live _ _ hchild).1 hfresh

theorem WellFormed.addRoot (h : F.WellFormed) {fresh : α} (hfresh : fresh ∉ F.live) :
    (F.addRoot fresh).WellFormed where
  linked := h.linked
  child_live first second hchild :=
    ⟨.inr (h.child_live _ _ hchild).1, .inr (h.child_live _ _ hchild).2⟩
  rooted := by
    rintro node (rfl | hlive)
    · exact ⟨node, .inl rfl, (h.no_links hfresh).1, .refl⟩
    · obtain ⟨root, hroot, hparent, hpath⟩ := h.rooted node hlive
      exact ⟨root, .inr hroot, hparent, hpath⟩

variable [DecidableEq α]

def push (F : Forest α) (above fresh : α) : Forest α where
  live := insert fresh F.live
  parent := Function.update F.parent fresh (some above)
  child := Function.update F.child above (some fresh)

def pop (F : Forest α) (above last : α) : Forest α where
  live := F.live \ {last}
  parent := Function.update F.parent last none
  child := Function.update F.child above none

theorem push_above {above fresh first second : α} (hchild : F.child above = none)
    (hpath : F.Above first second) : (F.push above fresh).Above first second := by
  refine ReflTransGen.mono (fun upper lower hedge => ?_) first second hpath
  have hne : upper ≠ above := by
    rintro rfl
    simp [Edge, hchild] at hedge
  simpa [Edge, push, hne] using hedge

theorem WellFormed.push (h : F.WellFormed) {above fresh : α} (habove : above ∈ F.live)
    (hchild : F.child above = none) (hfresh : fresh ∉ F.live) :
    (F.push above fresh).WellFormed where
  linked first second := by
    have hlinked := h.linked first second
    by_cases hfirst : first = above
    · subst hfirst
      by_cases hsecond : second = fresh
      · simp [Forest.push, hsecond]
      · have hno : F.parent second ≠ some first := by
          rw [Ne, ← hlinked, hchild]
          simp
        simp [Forest.push, hsecond, hno, Ne.symm hsecond]
    · by_cases hsecond : second = fresh
      · subst hsecond
        have hno : F.child first ≠ some second := fun hedge =>
          hfresh (h.child_live _ _ hedge).2
        simp [Forest.push, hfirst, hno, Ne.symm hfirst]
      · simpa [Forest.push, hfirst, hsecond] using hlinked
  child_live first second hedge := by
    by_cases hfirst : first = above
    · subst hfirst
      simp only [Forest.push, Function.update_self, Option.some.injEq] at hedge
      exact ⟨.inr habove, .inl hedge.symm⟩
    · simp only [Forest.push, Function.update_of_ne hfirst] at hedge
      exact ⟨.inr (h.child_live _ _ hedge).1, .inr (h.child_live _ _ hedge).2⟩
  rooted := by
    have hold : ∀ node ∈ F.live, ∃ root ∈ (F.push above fresh).live,
        (F.push above fresh).parent root = none ∧ (F.push above fresh).Above root node := by
      intro node hnode
      obtain ⟨root, hroot, hparent, hpath⟩ := h.rooted node hnode
      have hne : root ≠ fresh := by
        rintro rfl
        exact hfresh hroot
      exact ⟨root, .inr hroot, by simpa [Forest.push, hne] using hparent,
        push_above hchild hpath⟩
    -- the fresh node is reached from the root of `above`
    rintro node (rfl | hlive)
    · obtain ⟨root, hroot, hparent, hpath⟩ := hold above habove
      exact ⟨root, hroot, hparent, hpath.tail (by simp [Edge, Forest.push])⟩
    · exact hold node hlive

theorem pop_above {above last first second : α}
    (hlink : F.child above = some last) (hlast : F.child last = none)
    (hpath : F.Above first second) (hne : second ≠ last) :
    (F.pop above last).Above first second := by
  induction hpath with
  | refl => exact .refl
  | @tail middle second _ hedge ih =>
      have hmiddle : middle ≠ last := by
        rintro rfl
        simp [Edge, hlast] at hedge
      have habove : middle ≠ above := by
        rintro rfl
        rw [Edge, hlink, Option.some.injEq] at hedge
        exact hne hedge.symm
      exact (ih hmiddle).tail (by simpa [Edge, pop, habove] using hedge)

theorem WellFormed.pop (h : F.WellFormed) {above last : α}
    (hlink : F.child above = some last) (hlast : F.child last = none) :
    (F.pop above last).WellFormed where
  linked first second := by
    have hlinked := h.linked first second
    by_cases hfirst : first = above
    · subst hfirst
      by_cases hsecond : second = last
      · simp [Forest.pop, hsecond]
      · have hno : F.parent second ≠ some first := by
          rw [Ne, ← hlinked, hlink, Option.some.injEq]
          exact Ne.symm hsecond
        simp [Forest.pop, hsecond, hno]
    · by_cases hsecond : second = last
      · subst hsecond
        have hno : F.child first ≠ some second := fun hedge =>
          hfirst (h.parent_unique hedge hlink)
        simp [Forest.pop, hfirst, hno]
      · simpa [Forest.pop, hfirst, hsecond] using hlinked
  child_live first second hedge := by
    by_cases hfirst : first = above
    · simp [Forest.pop, hfirst] at hedge
    · simp only [Forest.pop, Function.update_of_ne hfirst] at hedge
      refine ⟨⟨(h.child_live _ _ hedge).1, ?_⟩, ⟨(h.child_live _ _ hedge).2, ?_⟩⟩
      · rintro rfl
        simp [hlast] at hedge
      · rintro rfl
        exact hfirst (h.parent_unique hedge hlink)
  rooted := by
    rintro node ⟨hlive, hne⟩
    obtain ⟨root, hroot, hparent, hpath⟩ := h.rooted node hlive
    -- `last` has a parent and is the root of no chain
    have hrootne : root ≠ last := by
      rintro rfl
      rw [(h.linked _ _).mp hlink] at hparent
      simp at hparent
    refine ⟨root, ⟨hroot, hrootne⟩, by simpa [Forest.pop, hrootne] using hparent,
      pop_above hlink hlast hpath hne⟩

end Forest

end LinuxOS.Foundation
