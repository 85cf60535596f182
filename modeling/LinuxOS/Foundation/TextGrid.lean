import Mathlib.Algebra.GroupWithZero.Nat
import Mathlib.Data.Fin.Basic
import Mathlib.Logic.Function.Basic

/-!
# Text on a grid

A terminal of `rows` rows and `columns` columns.  A character is written at the
cursor, which goes on to the next cell and from the end of a row to the next
row; behind the last row the text scrolls.  The cursor is a cell of the grid by
its type.
-/

namespace LinuxOS.Foundation

structure TextGrid (rows columns : Nat) (α : Type*) where
  cells : Fin rows → Fin columns → α
  row : Fin rows
  column : Fin columns

namespace TextGrid

variable {rows columns : Nat} {α : Type*}

/-- Row 0 is dropped, the others move up, and the last one is blank. -/
def scrolled (blank : α) (cells : Fin rows → Fin columns → α) (row : Fin rows)
    (column : Fin columns) : α :=
  if h : row + 1 < rows then cells ⟨row + 1, h⟩ column else blank

def nextRow [NeZero columns] (blank : α) (grid : TextGrid rows columns α) :
    TextGrid rows columns α :=
  if h : grid.row + 1 < rows then { grid with row := ⟨grid.row + 1, h⟩, column := 0 }
  else { grid with cells := scrolled blank grid.cells, column := 0 }

def advance [NeZero columns] (blank : α) (grid : TextGrid rows columns α) :
    TextGrid rows columns α :=
  if h : grid.column + 1 < columns then { grid with column := ⟨grid.column + 1, h⟩ }
  else grid.nextRow blank

def write (char : α) (grid : TextGrid rows columns α) : TextGrid rows columns α :=
  { grid with
    cells := Function.update grid.cells grid.row
      (Function.update (grid.cells grid.row) grid.column char) }

theorem cells_write (char : α) (grid : TextGrid rows columns α) (row : Fin rows)
    (column : Fin columns) :
    (grid.write char).cells row column =
      if row = grid.row ∧ column = grid.column then char else grid.cells row column := by
  by_cases hrow : row = grid.row
  · subst hrow
    simp [write, Function.update_apply]
  · simp [write, hrow]

section Output

variable [NeZero columns] (blank : α) (newline : α → Prop) [DecidablePred newline]

def put (char : α) (grid : TextGrid rows columns α) : TextGrid rows columns α :=
  if newline char then grid.nextRow blank else (grid.write char).advance blank

def print (text : List α) (grid : TextGrid rows columns α) : TextGrid rows columns α :=
  text.foldl (fun shown char => shown.put blank newline char) grid

variable {blank newline}

theorem print_simulates {σ : Type*} {shows : σ → TextGrid rows columns α → Prop}
    {output : α → σ → σ}
    (hput : ∀ char state grid, shows state grid →
      shows (output char state) (grid.put blank newline char))
    (text : List α) {state : σ} {grid : TextGrid rows columns α} (h : shows state grid) :
    shows (text.foldl (fun written char => output char written) state)
      (grid.print blank newline text) := by
  induction text generalizing state grid with
  | nil => exact h
  | cons char text ih => exact ih (hput char state grid h)

end Output

end TextGrid

end LinuxOS.Foundation
