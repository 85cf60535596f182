import Mathlib.Data.List.TakeWhile
import Mathlib.Logic.Function.Basic

/-!
# Loops over a terminated sequence

A sequence lies in an array and ends with a stop value.  Scan and copy loops
walk along it with an index; an access outside an array has no value, so that
a loop with a value has stayed inside.
-/

namespace LinuxOS.Foundation

variable {α : Type*}

def loadCell (size : Nat) (cells : Nat → α) (index : Nat) : Option α :=
  if index < size then some (cells index) else none

def storeCell (size : Nat) (cells : Nat → α) (index : Nat) (value : α) : Option (Nat → α) :=
  if index < size then some (Function.update cells index value) else none

/-- `while (passes(cells[index])) index++;` -/
def scanWhile (passes : α → Bool) (size : Nat) (cells : Nat → α) (index : Nat) : Option Nat :=
  if index < size then
    if passes (cells index) then scanWhile passes size cells (index + 1) else some index
  else none
termination_by size - index

/--
`while (passes(cells[i]) && j < room - 1) target[j++] = cells[i++];`: the two
indices and the target behind the loop.
-/
def copyWhile (passes : α → Bool) (size room : Nat) (cells : Nat → α) (i j : Nat)
    (target : Nat → α) : Option (Nat × Nat × (Nat → α)) :=
  if i < size then
    if passes (cells i) ∧ j < room - 1 then
      (storeCell room target j (cells i)).bind fun written =>
        copyWhile passes size room cells (i + 1) (j + 1) written
    else some (i, j, target)
  else none
termination_by size - i

/-- `for (; index < index + count; index++) target[index] = cells[index];` -/
def copyCells (size room : Nat) (cells : Nat → α) :
    Nat → Nat → (Nat → α) → Option (Nat → α)
  | 0, _, target => some target
  | count + 1, index, target =>
      (loadCell size cells index).bind fun value =>
        (storeCell room target index value).bind fun written =>
          copyCells size room cells count (index + 1) written

def overwrite : List α → Nat → (Nat → α) → Nat → α
  | [], _, target => target
  | value :: values, index, target =>
      overwrite values (index + 1) (Function.update target index value)

theorem overwrite_of_lt {values : List α} {start index : Nat} (target : Nat → α)
    (h : index < start) : overwrite values start target index = target index := by
  induction values generalizing start target with
  | nil => rfl
  | cons value values ih =>
      rw [overwrite, ih _ (by omega), Function.update_of_ne (by omega)]

theorem overwrite_of_ge {values : List α} {start index : Nat} (target : Nat → α)
    (h : start + values.length ≤ index) : overwrite values start target index = target index := by
  induction values generalizing start target with
  | nil => rfl
  | cons value values ih =>
      rw [List.length_cons] at h
      rw [overwrite, ih _ (by omega), Function.update_of_ne (by omega)]

theorem overwrite_add {values : List α} {start index : Nat} (target : Nat → α)
    (h : index < values.length) :
    overwrite values start target (start + index) = values.get ⟨index, h⟩ := by
  induction values generalizing start index target with
  | nil => exact absurd h (Nat.not_lt_zero _)
  | cons value values ih =>
      rw [overwrite]
      cases index with
      | zero =>
          have hlt : start < start + 1 := by omega
          exact (overwrite_of_lt _ hlt).trans (Function.update_self start value target)
      | succ index =>
          have hstart : start + (index + 1) = start + 1 + index := by omega
          rw [hstart, ih _ (Nat.lt_of_succ_lt_succ h)]
          rfl

theorem drop_length_takeWhile (passes : α → Bool) (list : List α) :
    list.drop (list.takeWhile passes).length = list.dropWhile passes :=
  calc list.drop (list.takeWhile passes).length
      = (list.takeWhile passes ++ list.dropWhile passes).drop
          (list.takeWhile passes).length := by rw [List.takeWhile_append_dropWhile]
    _ = list.dropWhile passes := List.drop_left

theorem passes_headD_drop {passes : α → Bool} {stop : α} (hstop : passes stop = false)
    {list : List α} {count : Nat} (hcount : count ≤ (list.takeWhile passes).length) :
    passes ((list.drop count).headD stop) = decide (count < (list.takeWhile passes).length) := by
  induction list generalizing count with
  | nil => simpa using hstop
  | cons value list ih =>
      cases hvalue : passes value with
      | false =>
          rw [List.takeWhile_cons_of_neg (by simp [hvalue])] at hcount ⊢
          simp [Nat.le_zero.mp hcount, hvalue]
      | true =>
          rw [List.takeWhile_cons_of_pos hvalue, List.length_cons] at hcount ⊢
          cases count with
          | zero => simpa using hvalue
          | succ count => simpa using ih (Nat.le_of_succ_le_succ hcount)

/-! ## Where a loop is in its sequence -/

structure Terminated (stop : α) (size : Nat) (cells : Nat → α) (index : Nat) (rest : List α) :
    Prop where
  inside : index + rest.length < size
  cell : ∀ k ≤ rest.length, cells (index + k) = rest.getD k stop

namespace Terminated

variable {stop : α} {size index : Nat} {cells : Nat → α} {rest : List α}

theorem lt (h : Terminated stop size cells index rest) : index < size :=
  (Nat.le_add_right _ _).trans_lt h.inside

theorem stopped (h : Terminated stop size cells index []) : cells index = stop := by
  simpa using h.cell 0 (Nat.le_refl _)

theorem head {value : α} (h : Terminated stop size cells index (value :: rest)) :
    cells index = value := by
  simpa using h.cell 0 (Nat.zero_le _)

theorem tail {value : α} (h : Terminated stop size cells index (value :: rest)) :
    Terminated stop size cells (index + 1) rest where
  inside := by
    have hinside := h.inside
    rw [List.length_cons] at hinside
    omega
  cell := by
    intro k hk
    have hcell := h.cell (k + 1) (by simpa using hk)
    rwa [List.getD_cons_succ, ← Nat.add_assoc, Nat.add_right_comm] at hcell

theorem load (h : Terminated stop size cells index rest) :
    loadCell size cells index = some (rest.headD stop) := by
  rw [loadCell, if_pos h.lt]
  cases rest with
  | nil => rw [h.stopped, List.headD_nil]
  | cons value rest => rw [h.head, List.headD_cons]

theorem drop (h : Terminated stop size cells index rest) {count : Nat}
    (hcount : count ≤ rest.length) :
    Terminated stop size cells (index + count) (rest.drop count) := by
  induction count generalizing index rest with
  | zero => exact h
  | succ count ih =>
      cases rest with
      | nil => exact absurd hcount (Nat.not_succ_le_zero _)
      | cons value rest =>
          have htail := ih h.tail (by simpa using hcount)
          rwa [Nat.add_assoc, Nat.add_comm 1] at htail

theorem congr (h : Terminated stop size cells index rest) {cells' : Nat → α}
    (hsame : ∀ k < size, cells' k = cells k) : Terminated stop size cells' index rest where
  inside := h.inside
  cell := by
    intro k hk
    have hinside := h.inside
    rw [hsame _ (by omega), h.cell k hk]

theorem of_overwrite {values : List α} (h : index + values.length < size) (target : Nat → α) :
    Terminated stop size
      (Function.update (overwrite values index target) (index + values.length) stop) index
      values where
  inside := h
  cell := by
    intro k hk
    rcases hk.eq_or_lt with rfl | hlt
    · rw [Function.update_self, List.getD_eq_getElem?_getD, List.getElem?_eq_none (Nat.le_refl _),
        Option.getD_none]
    · rw [Function.update_of_ne (by omega), overwrite_add target hlt,
        List.getD_eq_getElem?_getD, List.getElem?_eq_getElem hlt, Option.getD_some]
      rfl

theorem cons {value : α} (hvalue : cells index = value)
    (h : Terminated stop size cells (index + 1) rest) :
    Terminated stop size cells index (value :: rest) where
  inside := by
    have hinside := h.inside
    rw [List.length_cons]
    omega
  cell := by
    intro k hk
    cases k with
    | zero => exact hvalue
    | succ k =>
        have hcell := h.cell k (Nat.le_of_succ_le_succ hk)
        rwa [List.getD_cons_succ, ← Nat.add_assoc, Nat.add_right_comm]

theorem prepend {values : List α}
    (h : Terminated stop size cells (index + values.length) rest) :
    Terminated stop size (overwrite values index cells) index (values ++ rest) where
  inside := by
    have hinside := h.inside
    rw [List.length_append]
    omega
  cell := by
    intro k hk
    rw [List.length_append] at hk
    by_cases hfront : k < values.length
    · rw [overwrite_add cells hfront, List.getD_eq_getElem?_getD,
        List.getElem?_append_left hfront, List.getElem?_eq_getElem hfront, Option.getD_some]
      rfl
    · have hplace : index + k = index + values.length + (k - values.length) := by omega
      rw [overwrite_of_ge cells (by omega), hplace, h.cell _ (by omega),
        List.getD_eq_getElem?_getD, List.getD_eq_getElem?_getD,
        List.getElem?_append_right (by omega)]

theorem scanWhile_eq (passes : α → Bool) (hstop : passes stop = false)
    (h : Terminated stop size cells index rest) :
    scanWhile passes size cells index = some (index + (rest.takeWhile passes).length) := by
  induction rest generalizing index with
  | nil =>
      rw [scanWhile, if_pos h.lt, h.stopped, hstop]
      rfl
  | cons value rest ih =>
      rw [scanWhile, if_pos h.lt, h.head]
      cases hvalue : passes value with
      | false => simp [hvalue]
      | true =>
          rw [if_pos rfl, ih h.tail, List.takeWhile_cons_of_pos hvalue, List.length_cons]
          exact congrArg some (by omega)

theorem behind (passes : α → Bool) (h : Terminated stop size cells index rest) :
    Terminated stop size cells (index + (rest.takeWhile passes).length)
      (rest.dropWhile passes) := by
  have hdrop := h.drop (List.takeWhile_prefix passes).length_le
  rwa [drop_length_takeWhile] at hdrop

theorem copyWhile_eq (passes : α → Bool) (hstop : passes stop = false) (room j : Nat)
    (target : Nat → α) (h : Terminated stop size cells index rest) :
    let taken := (rest.takeWhile passes).take (room - 1 - j)
    copyWhile passes size room cells index j target =
      some (index + taken.length, j + taken.length, overwrite taken j target) := by
  induction rest generalizing index j target with
  | nil =>
      rw [copyWhile, if_pos h.lt, h.stopped, hstop]
      simp [overwrite]
  | cons value rest ih =>
      rw [copyWhile, if_pos h.lt, h.head]
      cases hvalue : passes value with
      | false => simp [hvalue, overwrite]
      | true =>
          by_cases hroom : j < room - 1
          · have hleft : room - 1 - j = room - 1 - (j + 1) + 1 := by omega
            rw [if_pos ⟨rfl, hroom⟩, storeCell, if_pos (by omega), Option.bind_some, ih _ _ h.tail,
              List.takeWhile_cons_of_pos hvalue, hleft, List.take_succ_cons]
            simp only [List.length_cons, overwrite, Nat.add_assoc, Nat.add_comm 1]
          · have hleft : room - 1 - j = 0 := by omega
            rw [if_neg fun h => hroom h.2, hleft]
            simp [overwrite]

end Terminated

theorem copyCells_eq {size room : Nat} {cells : Nat → α} {count index : Nat} {target : Nat → α}
    (hsize : index + count ≤ size) (hroom : index + count ≤ room) :
    copyCells size room cells count index target = some fun k =>
      if index ≤ k ∧ k < index + count then cells k else target k := by
  induction count generalizing index target with
  | zero =>
      rw [copyCells]
      refine congrArg some (funext fun k => ?_)
      rw [if_neg (by omega)]
  | succ count ih =>
      rw [copyCells, loadCell, if_pos (by omega), Option.bind_some, storeCell, if_pos (by omega),
        Option.bind_some, ih (by omega) (by omega)]
      refine congrArg some (funext fun k => ?_)
      rcases Nat.lt_trichotomy k index with hlt | rfl | hgt
      · rw [if_neg (by omega), if_neg (by omega), Function.update_of_ne (by omega)]
      · rw [if_neg (by omega), if_pos (by omega), Function.update_self]
      · simp only [Function.update_of_ne (show k ≠ index by omega)]
        exact if_congr (by omega) rfl rfl

end LinuxOS.Foundation
