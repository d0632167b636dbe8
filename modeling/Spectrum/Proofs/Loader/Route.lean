import Mathlib.Tactic.Common
import Spectrum.Proofs.Loader.FoundLoops
import Spectrum.Proofs.Loader.View

/-! # The way through a polling loop

An iteration of a loop passes its moves in order, goes forward by a `JR NZ` and past every other
jump, and ends with the jump that closes the loop.  `PollingLoop.moves` finds these moves in the
pattern.  An `Outlook` predicts what a part of the iteration does, from the view that it has of the
registers; that all loops of the catalogue behave as their entries say is a matter of computing
outlooks.

Main statements: `PollingLoop.StandsAt.instructionAt`, `PollingLoop.regular_of_mem`. -/

namespace Spectrum.Loader

open Z80

/-! ### Moves -/

namespace Move

/-- Whether an iteration goes on by the jump of a move. -/
def forward : Move → Bool
  | .jr .nz (some _) => true
  | _ => false

/-- The distance to the next move of an iteration. -/
def advance : Move → UInt16
  | .jr .nz (some d) => 2 + d.displacement
  | move => move.length

/-- Going on as an iteration does leads to the next move. -/
theorem target_forward (low high : UInt8) (pc : UInt16) (move : Move) :
    move.target low high pc move.forward = pc + move.advance := by
  cases move with
  | jr cc d =>
    cases cc <;> cases d <;> first | rfl | exact UInt16.add_assoc pc 2 _
  | _ => rfl

theorem forward_ret {move : Move} {cc : Condition} (h : move = .ret cc) :
    move.forward = false := by
  rw [h]
  rfl

/-- Whether a move at an offset can close a loop, by going back when the sample was as awaited. -/
def closes (offset : UInt16) : Move → Bool
  | .jr .z (some d) => offset + 2 + d.displacement == 0
  | .jp .z => true
  | _ => false

theorem eq_of_closes {offset : UInt16} {move : Move} (h : move.closes offset = true) :
    (∃ d : UInt8, move = .jr .z (some d) ∧ offset + 2 + d.displacement = 0) ∨ move = .jp .z := by
  cases move with
  | jr cc d =>
    cases d with
    | none => cases cc <;> cases h
    | some d =>
      cases cc with
      | z => exact .inl ⟨d, rfl, beq_iff_eq.mp h⟩
      | _ => cases h
  | jp cc =>
    cases cc with
    | z => exact .inr rfl
    | _ => cases h
  | _ => cases h

end Move

namespace PollingLoop

/-- The moves of an iteration from an offset on, with their offsets. -/
def movesFrom (pattern : List (Option UInt8)) : (fuel : Nat) → UInt16 → List (UInt16 × Move)
  | 0, _ => []
  | fuel + 1, offset =>
    match Move.parse (pattern.drop offset.toNat) with
    | none => []
    | some move => (offset, move) :: movesFrom pattern fuel (offset + move.advance)

/-- The moves of an iteration, with their offsets from the start of the loop. -/
def moves (loop : PollingLoop) : List (UInt16 × Move) :=
  movesFrom loop.pattern loop.pattern.length 0

/-- The offsets of the instructions that an iteration passes. -/
def route (loop : PollingLoop) : List UInt16 := loop.moves.map Prod.fst

/-- The code of a loop stands at an address; if its last byte is the opcode of an absolute jump,
that jump leads back to the address. -/
structure StandsAt (loop : PollingLoop) (m : Machine) (address : UInt16) : Prop where
  isAt : loop.isAt m.memory address = true
  closing : loop.pattern.getLast? = some (some 0xCA) →
    UInt16.join (m.read (address + UInt16.ofNat loop.pattern.length + 1))
      (m.read (address + UInt16.ofNat loop.pattern.length)) = address

theorem parse_of_mem_movesFrom {pattern : List (Option UInt8)} {fuel : Nat} {offset : UInt16}
    {x : UInt16 × Move} (h : x ∈ movesFrom pattern fuel offset) :
    Move.parse (pattern.drop x.1.toNat) = some x.2 := by
  induction fuel generalizing offset with
  | zero => cases h
  | succ fuel ih =>
    rw [movesFrom] at h
    split at h
    · cases h
    · rename_i move hm
      rcases List.mem_cons.mp h with rfl | h
      · exact hm
      · exact ih h

/-- Where a pattern stands, its rest stands behind its beginning. -/
theorem fitsAt_drop {memory : Memory} {address : UInt16} {pattern : List (Option UInt8)}
    (h : fitsAt memory address pattern = true) (offset : UInt16) :
    fitsAt memory (address + offset) (pattern.drop offset.toNat) = true := by
  rw [fitsAt_iff] at h ⊢
  intro i b hb
  rw [List.getElem?_drop] at hb
  rw [← h _ b hb, UInt16.ofNat_add, UInt16.ofNat_toNat, UInt16.add_assoc]

theorem StandsAt.instructionAt {loop : PollingLoop} {m : Machine} {address : UInt16}
    (h : loop.StandsAt m address) {x : UInt16 × Move} (hx : x ∈ loop.moves) :
    m.instructionAt (address + x.1) =
      x.2.instruction (m.read (address + x.1 + 1)) (m.read (address + x.1 + 2)) :=
  Move.instructionAt_of_parse (fitsAt_drop h.isAt x.1) (parse_of_mem_movesFrom hx)

theorem StandsAt.congr {loop : PollingLoop} {m n : Machine} {address : UInt16}
    (h : loop.StandsAt m address) (hm : n.memory = m.memory) : loop.StandsAt n address where
  isAt := by rw [hm]; exact h.isAt
  closing := by
    unfold Machine.read
    rw [hm]
    exact h.closing

/-! ### What moves do in a row -/

/-- What is known after some moves. -/
def viewAfter (mask c known byte : UInt8) (v : View) (moves : List (UInt16 × Move)) : Option View :=
  moves.foldlM (fun v x => v.after mask c known byte false x.2) v

/-- What a sample returns while no key is held. -/
def sampled (level : Bool) : UInt8 := if level then 0xFF else 0xBF

/-- The part of a sample that a loop looks at: the level, and all of it if it goes to R. -/
def sampleMask (loop : PollingLoop) : UInt8 := if loop.refreshes = 0 then 0xFF else 0x40

/-- The part of C that a loop looks at. -/
def masked (loop : PollingLoop) (awaited : Bool) : UInt8 := if awaited then loop.earMask else 0

/-- What is known at the closing jump of an iteration that waits for the end of one level and
samples another. -/
def closingView? (loop : PollingLoop) (awaited level : Bool) : Option View :=
  viewAfter loop.earMask (loop.masked awaited) loop.sampleMask
    (sampled level &&& loop.sampleMask) {} loop.moves.dropLast

/-- A prediction of where an iteration is after some moves: the offset of the next one, the T-states
so far, whether the loop has counted and sampled, and what is known. -/
structure Outlook where
  offset : UInt16 := 0
  time : Nat := 0
  counted : Bool := false
  sampled : Bool := false
  view : View := {}
deriving DecidableEq, Repr

/-- The prediction after one more move, if it is the one that follows and its outcome is known. -/
def Outlook.after (loop : PollingLoop) (awaited : Bool) (k : Outlook) (x : UInt16 × Move) :
    Option Outlook :=
  if x.1 = k.offset ∧ k.view.jumps? x.2 = some x.2.forward ∧
      (∀ down, x.2 = .count down → k.counted = false ∧ down = loop.countsDown) ∧
      (x.2 = .sample → k.sampled = false ∧ k.time = loop.inTime) then
    (k.view.after loop.earMask (loop.masked awaited) 0xFF (PollingLoop.sampled awaited) true
      x.2).map fun view =>
        { offset := k.offset + x.2.advance
          time := k.time + x.2.cost x.2.forward
          counted := k.counted || (x.2 = .count loop.countsDown)
          sampled := k.sampled || (x.2 = .sample)
          view }
  else none

/-- The closing jump of a loop and its offset. -/
def closing (loop : PollingLoop) : UInt16 × Move := loop.moves.getLastD (0, .nop)

/-- What is known at the closing jump of an iteration that goes on. -/
def closingView (loop : PollingLoop) (awaited : Bool) : View :=
  (loop.closingView? awaited awaited).getD {}

/-- The position of the sample among the moves. -/
def samplePosition (loop : PollingLoop) : Nat := loop.moves.findIdx fun x => x.2 = .sample

/-- A loop does in an iteration what its entry in the catalogue says, and goes on exactly if it
samples the level that it waits on. -/
structure Regular (loop : PollingLoop) (awaited : Bool) : Prop where
  moves : loop.moves = loop.moves.dropLast ++ [loop.closing]
  single : ∀ i < loop.moves.length,
    loop.moves[i]?.map Prod.snd = some .sample → i = loop.samplePosition
  outlook : loop.moves.dropLast.foldlM (Outlook.after loop awaited) {} =
    some
      { offset := loop.closing.1
        time := loop.loopTime - loop.closing.2.cost true
        counted := true
        sampled := true
        view := loop.closingView awaited }
  time : loop.closing.2.cost true ≤ loop.loopTime
  closes : loop.closing.2.closes loop.closing.1 = true
  onward : loop.closing.1 + loop.closing.2.length ≠ 0
  absolute : loop.closing.2 = .jp .z → loop.pattern.getLast? = some (some 0xCA) ∧
    UInt16.ofNat loop.pattern.length = loop.closing.1 + 1
  earMask : loop.earMask = 0x20 ∨ loop.earMask = 0x40
  mask : (loop.closingView awaited).mask = 0xFF
  value : (loop.closingView awaited).value = 0
  flags : (loop.closingView awaited).flags? = some 0x54
  refreshes : if (loop.closingView awaited).loaded? = none then
      (loop.closingView awaited).refreshes + 1 = loop.refreshes
    else loop.refreshes = 0
  settles : loop.closingView? awaited awaited = some (loop.closingView awaited)
  leaves : (loop.closingView? awaited (!awaited)).bind View.zero? = some false

theorem regular_of_mem {loop : PollingLoop} (h : loop ∈ catalogue) (awaited : Bool) :
    loop.Regular awaited where
  moves := by
    revert loop
    decide +kernel
  single := by
    revert loop
    decide +kernel
  outlook := by
    revert awaited loop
    decide +kernel
  time := by
    revert loop
    decide +kernel
  closes := by
    revert loop
    decide +kernel
  onward := by
    revert loop
    decide +kernel
  absolute := by
    revert loop
    decide +kernel
  earMask := by
    revert loop
    decide +kernel
  mask := by
    revert awaited loop
    decide +kernel
  value := by
    revert awaited loop
    decide +kernel
  flags := by
    revert awaited loop
    decide +kernel
  refreshes := by
    revert awaited loop
    decide +kernel
  settles := by
    revert awaited loop
    decide +kernel
  leaves := by
    revert awaited loop
    decide +kernel

theorem Regular.closing_mem {loop : PollingLoop} {awaited : Bool} (h : loop.Regular awaited) :
    loop.closing ∈ loop.moves := by
  rw [h.moves]
  exact List.mem_append_right _ List.mem_cons_self

/-- The masked part of C tells whether the loop waits for the end of the high level. -/
theorem Regular.and_earMask {loop : PollingLoop} {awaited : Bool} (h : loop.Regular awaited)
    (c : UInt8) : c &&& loop.earMask = loop.masked (c &&& loop.earMask != 0) := by
  unfold masked
  rcases h.earMask with h | h <;> rw [h]
  · exact UInt8.of_fin
      (P := fun c => c &&& 0x20 = if c &&& 0x20 != 0 then 0x20 else 0) (by decide +kernel) c
  · exact UInt8.of_fin
      (P := fun c => c &&& 0x40 = if c &&& 0x40 != 0 then 0x40 else 0) (by decide +kernel) c

end PollingLoop
end Spectrum.Loader
