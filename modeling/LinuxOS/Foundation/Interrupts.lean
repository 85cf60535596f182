import Mathlib.Data.List.FinRange
import Mathlib.Data.Fin.Basic
import Mathlib.Logic.Function.Basic

/-!
# Interrupt controllers with fixed priorities

A chip has eight lines, and line 0 comes first.  The rising edge of a line is a
request; the processor takes it, and the line is then in service until its end
is announced.  Meanwhile neither the line nor one after it is delivered.  A chip
learns its first vector and its wiring from a sequence of bytes.  Two chips form
a cascade: what the second has to deliver is a request on one line of the first.
-/

namespace LinuxOS.Foundation

abbrev Lines := Fin 8 → Bool

def noLines : Lines := fun _ => false

def linesOf (byte : UInt8) : Lines := fun line => byte.toNat.testBit line

def lineNamed (byte : UInt8) : Fin 8 := ⟨byte.toNat % 8, Nat.mod_lt _ (by decide)⟩

/-- What the next byte at the data port of a chip is taken for. -/
inductive DataByte where
  | vector
  | wiring
  | mode
  | masks
  deriving DecidableEq, Repr

structure Chip where
  expects : DataByte
  single : Bool
  withMode : Bool
  base : UInt8
  wiring : UInt8
  autoEnd : Bool
  masked : Lines
  requested : Lines
  inService : Lines

namespace Chip

def finish (line : Fin 8) (chip : Chip) : Chip :=
  { chip with inService := Function.update chip.inService line false }

/--
A byte at the command port: the start of the initialisation, which forgets
requests, or the end of a named line.  Changes of priority and the choice of a
register to read are left out.
-/
def writeCommand (byte : UInt8) (chip : Chip) : Chip :=
  if byte &&& 0x10 ≠ 0 then
    { chip with
      expects := .vector
      single := byte &&& 0x02 ≠ 0
      withMode := byte &&& 0x01 ≠ 0
      autoEnd := false
      masked := noLines
      requested := noLines
      inService := noLines }
  else if byte &&& 0xF8 = 0x60 then
    chip.finish (lineNamed byte)
  else chip

def writeData (byte : UInt8) (chip : Chip) : Chip :=
  let behindWiring := if chip.withMode then .mode else .masks
  match chip.expects with
  | .vector =>
      { chip with
        base := byte &&& 0xF8
        expects := if chip.single then behindWiring else .wiring }
  | .wiring => { chip with wiring := byte, expects := behindWiring }
  | .mode => { chip with autoEnd := byte &&& 0x02 ≠ 0, expects := .masks }
  | .masks => { chip with masked := linesOf byte }

def request (line : Fin 8) (chip : Chip) : Chip :=
  { chip with requested := Function.update chip.requested line true }

def Deliverable (chip : Chip) (line : Fin 8) : Prop :=
  chip.requested line = true ∧ chip.masked line = false ∧
    ∀ earlier ≤ line, chip.inService earlier = false

instance (chip : Chip) (line : Fin 8) : Decidable (chip.Deliverable line) :=
  inferInstanceAs (Decidable (_ ∧ _ ∧ ∀ _ ≤ _, _))

def next (chip : Chip) : Option (Fin 8) :=
  (List.finRange 8).find? fun line => chip.Deliverable line

def serve (line : Fin 8) (chip : Chip) : Chip :=
  { chip with
    requested := Function.update chip.requested line false
    inService := if chip.autoEnd then chip.inService
      else Function.update chip.inService line true }

/-! ## Which line is delivered -/

theorem next_eq_some_iff {chip : Chip} {line : Fin 8} :
    chip.next = some line ↔
      chip.Deliverable line ∧ ∀ earlier < line, ¬ chip.Deliverable earlier := by
  rw [next, List.find?_eq_some_iff_getElem]
  simp only [decide_eq_true_eq, List.getElem_finRange, List.length_finRange]
  constructor
  · rintro ⟨hline, i, hi, hat, hbefore⟩
    refine ⟨hline, fun earlier hlt => ?_⟩
    have hearlier : earlier.val < i := by
      have hval : line.val = i := by rw [← hat]; rfl
      omega
    simpa using hbefore earlier.val hearlier
  · rintro ⟨hline, hbefore⟩
    refine ⟨hline, line.val, line.isLt, rfl, fun j hj => ?_⟩
    simpa using hbefore ⟨j, by omega⟩ hj

theorem next_eq_none_iff {chip : Chip} :
    chip.next = none ↔ ∀ line, ¬ chip.Deliverable line := by
  simp [next, List.find?_eq_none]

theorem next_isSome {chip : Chip} {line : Fin 8} (h : chip.Deliverable line) :
    chip.next.isSome := by
  rw [Option.isSome_iff_ne_none]
  exact fun hnone => next_eq_none_iff.mp hnone line h

theorem next_eq_none_of_first {chip : Chip} (h : chip.inService 0 = true) : chip.next = none := by
  refine next_eq_none_iff.mpr fun line hline => ?_
  have hfree := hline.2.2 0 (Fin.zero_le line)
  rw [h] at hfree
  cases hfree

/-! ## Initialisation -/

structure Ready (base wiring : UInt8) (chip : Chip) : Prop where
  masks : chip.expects = .masks
  base : chip.base = base
  wiring : chip.wiring = wiring
  announced : chip.autoEnd = false

structure SameSetup (before after : Chip) : Prop where
  expects : after.expects = before.expects
  base : after.base = before.base
  wiring : after.wiring = before.wiring
  autoEnd : after.autoEnd = before.autoEnd
  masked : after.masked = before.masked

theorem SameSetup.refl (chip : Chip) : SameSetup chip chip := ⟨rfl, rfl, rfl, rfl, rfl⟩

theorem SameSetup.trans {first second third : Chip} (h : SameSetup first second)
    (h' : SameSetup second third) : SameSetup first third :=
  ⟨h'.expects.trans h.expects, h'.base.trans h.base, h'.wiring.trans h.wiring,
    h'.autoEnd.trans h.autoEnd, h'.masked.trans h.masked⟩

theorem SameSetup.request (line : Fin 8) (chip : Chip) : SameSetup chip (chip.request line) :=
  ⟨rfl, rfl, rfl, rfl, rfl⟩

theorem SameSetup.serve (line : Fin 8) (chip : Chip) : SameSetup chip (chip.serve line) :=
  ⟨rfl, rfl, rfl, rfl, rfl⟩

theorem SameSetup.finish (line : Fin 8) (chip : Chip) : SameSetup chip (chip.finish line) :=
  ⟨rfl, rfl, rfl, rfl, rfl⟩

theorem Ready.same {base wiring : UInt8} {before after : Chip} (h : Ready base wiring before)
    (hsame : SameSetup before after) : Ready base wiring after :=
  ⟨hsame.expects.trans h.masks, hsame.base.trans h.base, hsame.wiring.trans h.wiring,
    hsame.autoEnd.trans h.announced⟩

theorem ready_initialised (start base wiring mode : UInt8) (chip : Chip)
    (hstart : start &&& 0x10 ≠ 0) (hcascade : start &&& 0x02 = 0) (hmode : start &&& 0x01 ≠ 0)
    (hbase : base &&& 0xF8 = base) (hannounced : mode &&& 0x02 = 0) :
    ∃ ready : Chip, Ready base wiring ready ∧ ready.masked = noLines ∧
      ready.requested = noLines ∧ ready.inService = noLines ∧
      (((chip.writeCommand start).writeData base).writeData wiring).writeData mode = ready := by
  refine ⟨_, ⟨?_, ?_, ?_, ?_⟩, ?_, ?_, ?_, rfl⟩ <;>
    simp [writeCommand, writeData, hstart, hcascade, hmode, hbase, hannounced]

theorem Ready.writeData {base wiring : UInt8} {chip : Chip} (h : Ready base wiring chip)
    (byte : UInt8) : chip.writeData byte = { chip with masked := linesOf byte } := by
  simp only [Chip.writeData, h.masks]

/-! ## From a request to its end -/

theorem writeCommand_end (line : Fin 8) (chip : Chip) :
    chip.writeCommand (0x60 ||| UInt8.ofNat line) = chip.finish line := by
  have hbyte : (0x60 ||| UInt8.ofNat line) &&& 0x10 = 0 ∧
      (0x60 ||| UInt8.ofNat line) &&& 0xF8 = 0x60 ∧
      lineNamed (0x60 ||| UInt8.ofNat line) = line := by
    revert line
    decide
  simp [writeCommand, hbyte.1, hbyte.2.1, hbyte.2.2]

theorem inService_finish_serve {chip : Chip} {line : Fin 8} (h : chip.inService line = false) :
    ((chip.serve line).finish line).inService = chip.inService := by
  funext other
  by_cases hother : other = line
  · simp [finish, hother, h]
  · by_cases hauto : chip.autoEnd <;> simp [finish, serve, hother, hauto]

end Chip

/-! ## Two chips -/

structure Cascade where
  first : Chip
  second : Chip

inductive ChipLine where
  | first (line : Fin 8)
  | second (line : Fin 8)
  deriving DecidableEq, Repr

namespace Cascade

variable (link : Fin 8)

/-- The first chip, with what the second has to deliver on their common line. -/
def joined (pair : Cascade) : Chip :=
  { pair.first with
    requested := Function.update pair.first.requested link pair.second.next.isSome }

/--
The processor takes an interrupt: the chip whose line it is supplies the
vector.  The second chip does so when the first has it on the line they share,
and it knows that line for its own.
-/
def acknowledge (pair : Cascade) : Option (UInt8 × Cascade) :=
  (pair.joined link).next.bind fun line =>
    if line = link ∧ linesOf pair.first.wiring link = true then
      if lineNamed pair.second.wiring = link then
        pair.second.next.map fun (inner : Fin 8) =>
          (pair.second.base + UInt8.ofNat inner,
            ⟨pair.first.serve link, pair.second.serve inner⟩)
      else none
    else some (pair.first.base + UInt8.ofNat line, ⟨pair.first.serve line, pair.second⟩)

structure Ready (base base' : UInt8) (pair : Cascade) : Prop where
  first : ∃ wiring, pair.first.Ready base wiring ∧ linesOf wiring link = true
  second : ∃ wiring, pair.second.Ready base' wiring ∧ lineNamed wiring = link

structure SameSetup (before after : Cascade) : Prop where
  first : before.first.SameSetup after.first
  second : before.second.SameSetup after.second

def vector (base base' : UInt8) : ChipLine → UInt8
  | .first line => base + UInt8.ofNat line
  | .second line => base' + UInt8.ofNat line

def serve (pair : Cascade) : ChipLine → Cascade
  | .first line => ⟨pair.first.serve line, pair.second⟩
  | .second line => ⟨pair.first.serve link, pair.second.serve line⟩

def finish (pair : Cascade) : ChipLine → Cascade
  | .first line => ⟨pair.first.finish line, pair.second⟩
  | .second line => ⟨pair.first.finish link, pair.second.finish line⟩

def request (pair : Cascade) : ChipLine → Cascade
  | .first line => { pair with first := pair.first.request line }
  | .second line => { pair with second := pair.second.request line }

inductive Delivers (pair : Cascade) : ChipLine → Prop where
  | first {line : Fin 8} (hne : line ≠ link) (hnext : (pair.joined link).next = some line) :
      Delivers pair (.first line)
  | second {line : Fin 8} (houter : (pair.joined link).next = some link)
      (hnext : pair.second.next = some line) : Delivers pair (.second line)

inductive Waits (pair : Cascade) : ChipLine → Prop where
  | first {line : Fin 8} (hne : line ≠ link) (hrequested : pair.first.requested line = true)
      (hopen : pair.first.masked line = false) : Waits pair (.first line)
  | second {line : Fin 8} (hlink : pair.first.masked link = false)
      (hrequested : pair.second.requested line = true)
      (hopen : pair.second.masked line = false) : Waits pair (.second line)

structure Idle (pair : Cascade) : Prop where
  first : pair.first.inService = noLines
  second : pair.second.inService = noLines

def rank : ChipLine → Nat × Nat
  | .first line => (line, 0)
  | .second line => (link, line)

variable {link} {pair : Cascade} {base base' : UInt8}

theorem SameSetup.refl (pair : Cascade) : SameSetup pair pair := ⟨.refl _, .refl _⟩

theorem SameSetup.trans {first second third : Cascade} (h : SameSetup first second)
    (h' : SameSetup second third) : SameSetup first third :=
  ⟨h.first.trans h'.first, h.second.trans h'.second⟩

theorem SameSetup.serve (link : Fin 8) (line : ChipLine) :
    SameSetup pair (pair.serve link line) := by
  cases line with
  | first line => exact ⟨.serve line _, .refl _⟩
  | second line => exact ⟨.serve link _, .serve line _⟩

theorem SameSetup.finish (link : Fin 8) (line : ChipLine) :
    SameSetup pair (pair.finish link line) := by
  cases line with
  | first line => exact ⟨.finish line _, .refl _⟩
  | second line => exact ⟨.finish link _, .finish line _⟩

theorem SameSetup.request (line : ChipLine) : SameSetup pair (pair.request line) := by
  cases line with
  | first line => exact ⟨.request line _, .refl _⟩
  | second line => exact ⟨.refl _, .request line _⟩

theorem Ready.same {after : Cascade} (h : pair.Ready link base base')
    (hsame : SameSetup pair after) : after.Ready link base base' := by
  obtain ⟨⟨wiring, hfirst, hwired⟩, wiring', hsecond, hnamed⟩ := h
  exact ⟨⟨wiring, hfirst.same hsame.first, hwired⟩, wiring', hsecond.same hsame.second, hnamed⟩

theorem acknowledge_eq_some_iff (h : pair.Ready link base base') {vec : UInt8}
    {after : Cascade} :
    pair.acknowledge link = some (vec, after) ↔
      ∃ line, pair.Delivers link line ∧ vec = vector base base' line ∧
        after = pair.serve link line := by
  obtain ⟨⟨wiring, hfirst, hwired⟩, wiring', hsecond, hnamed⟩ := h
  rw [acknowledge, Option.bind_eq_some_iff]
  constructor
  · rintro ⟨line, hnext, h⟩
    by_cases hline : line = link
    · subst hline
      rw [if_pos ⟨rfl, hfirst.wiring ▸ hwired⟩, if_pos (hsecond.wiring ▸ hnamed)] at h
      obtain ⟨inner, hinner, heq⟩ := Option.map_eq_some_iff.mp h
      cases heq
      exact ⟨.second inner, .second hnext hinner, by rw [vector, hsecond.base], rfl⟩
    · rw [if_neg fun hlink => hline hlink.1] at h
      cases h
      exact ⟨.first line, .first hline hnext, by rw [vector, hfirst.base], rfl⟩
  · rintro ⟨line, hdelivers, rfl, rfl⟩
    cases hdelivers with
    | @first line hne hnext =>
        refine ⟨line, hnext, ?_⟩
        rw [if_neg fun hlink => hne hlink.1, hfirst.base]
        rfl
    | @second line houter hnext =>
        refine ⟨link, houter, ?_⟩
        rw [if_pos ⟨rfl, hfirst.wiring ▸ hwired⟩, if_pos (hsecond.wiring ▸ hnamed), hnext,
          hsecond.base]
        rfl

theorem Delivers.waits {line : ChipLine} (h : pair.Delivers link line) :
    pair.Waits link line := by
  cases h with
  | first hne hnext =>
      obtain ⟨⟨hrequested, hopen, -⟩, -⟩ := Chip.next_eq_some_iff.mp hnext
      refine .first hne ?_ hopen
      simpa [joined, hne] using hrequested
  | second houter hnext =>
      obtain ⟨⟨-, hlink, -⟩, -⟩ := Chip.next_eq_some_iff.mp houter
      obtain ⟨⟨hrequested, hopen, -⟩, -⟩ := Chip.next_eq_some_iff.mp hnext
      exact .second hlink hrequested hopen

theorem not_delivers_of_first {line : ChipLine} (h : pair.first.inService 0 = true) :
    ¬ pair.Delivers link line := by
  have hnone : (pair.joined link).next = none := Chip.next_eq_none_of_first h
  intro hdelivers
  cases hdelivers with
  | first hne hnext =>
      rw [hnone] at hnext
      cases hnext
  | second houter hnext =>
      rw [hnone] at houter
      cases houter

section Idle

variable (hidle : pair.Idle)

include hidle

theorem Idle.deliverable_first {line : Fin 8} (h : pair.Waits link (.first line)) :
    (pair.joined link).Deliverable line := by
  cases h with
  | first hne hrequested hopen =>
      refine ⟨?_, hopen, fun earlier _ => congrFun hidle.first earlier⟩
      simpa [joined, hne] using hrequested

theorem Idle.deliverable_second {line : Fin 8} (h : pair.Waits link (.second line)) :
    pair.second.Deliverable line ∧ (pair.joined link).Deliverable link := by
  cases h with
  | second hlink hrequested hopen =>
      have hinner : pair.second.Deliverable line :=
        ⟨hrequested, hopen, fun earlier _ => congrFun hidle.second earlier⟩
      refine ⟨hinner, ?_, hlink, fun earlier _ => congrFun hidle.first earlier⟩
      simp [joined, Chip.next_isSome hinner]

theorem Idle.exists_delivers {line : ChipLine} (h : pair.Waits link line) :
    ∃ served, pair.Delivers link served := by
  have hfirst : (pair.joined link).next.isSome := by
    cases line with
    | first line => exact Chip.next_isSome (hidle.deliverable_first h)
    | second line => exact Chip.next_isSome (hidle.deliverable_second h).2
  obtain ⟨outer, houter⟩ := Option.isSome_iff_exists.mp hfirst
  by_cases hlink : outer = link
  · subst hlink
    obtain ⟨⟨hinner, -⟩, -⟩ := Chip.next_eq_some_iff.mp houter
    have hsome : pair.second.next.isSome := by simpa [joined] using hinner
    obtain ⟨inner, hnext⟩ := Option.isSome_iff_exists.mp hsome
    exact ⟨.second inner, .second houter hnext⟩
  · exact ⟨.first outer, .first hlink houter⟩

theorem Idle.rank_le {line other : ChipLine} (hdelivers : pair.Delivers link line)
    (hwaits : pair.Waits link other) :
    (rank link line).1 < (rank link other).1 ∨
      (rank link line).1 = (rank link other).1 ∧ (rank link line).2 ≤ (rank link other).2 := by
  have hbehind : ∀ {outer later : Fin 8}, (pair.joined link).next = some outer →
      (pair.joined link).Deliverable later → outer.val ≤ later.val := by
    intro outer later hnext hlater
    by_contra hlt
    exact (Chip.next_eq_some_iff.mp hnext).2 later (Fin.lt_def.mpr (not_le.mp hlt)) hlater
  cases hdelivers with
  | first hne hnext =>
      cases other with
      | first line' =>
          have hle := hbehind hnext (hidle.deliverable_first hwaits)
          simp only [rank]
          omega
      | second line' =>
          have hle := hbehind hnext (hidle.deliverable_second hwaits).2
          have hval := Fin.val_ne_of_ne hne
          simp only [rank]
          omega
  | second houter hnext =>
      cases other with
      | first line' =>
          have hle := hbehind houter (hidle.deliverable_first hwaits)
          cases hwaits with
          | first hne' hrequested hopen =>
              have hval := Fin.val_ne_of_ne hne'
              simp only [rank]
              omega
      | second line' =>
          have hinner := (hidle.deliverable_second hwaits).1
          have hle := (Chip.next_eq_some_iff.mp hnext).2 line'
          simp only [rank, lt_self_iff_false, true_and, false_or]
          by_contra hlt
          exact hle (Fin.lt_def.mpr (not_le.mp hlt)) hinner

theorem Idle.finish_serve (link : Fin 8) (line : ChipLine) :
    ((pair.serve link line).finish link line).Idle := by
  have hfirst : ∀ outer, pair.first.inService outer = false := congrFun hidle.first
  have hsecond : ∀ inner, pair.second.inService inner = false := congrFun hidle.second
  cases line with
  | first line =>
      exact ⟨(Chip.inService_finish_serve (hfirst line)).trans hidle.first, hidle.second⟩
  | second line =>
      exact ⟨(Chip.inService_finish_serve (hfirst link)).trans hidle.first,
        (Chip.inService_finish_serve (hsecond line)).trans hidle.second⟩

end Idle

end Cascade

end LinuxOS.Foundation
