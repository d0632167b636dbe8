import Mathlib.Tactic.Common
import Spectrum.Proofs.Loader.Iteration

/-! # Iterations of a polling loop

An iteration that is completed leaves the accumulator, the flags and the internal register as every
other iteration of the loop does: `Scene.Settled` says how.

Main statements: `Scene.Completes.settled`. -/

namespace Spectrum.Loader

open Z80 Tape

/-! ### Samples -/

/-- Keys show in the lower bits of a sample only. -/
theorem Keyboard.read_and (k : Keyboard) (high : UInt8) : k.read high &&& 0x40 = 0 := by
  have hfold : ∀ (held : List Key) (v : UInt8), v &&& 0x40 = 0 →
      held.foldl (fun v key => if key.selected high then v &&& ~~~key.bit else v) v &&& 0x40 =
        0 := by
    intro held
    induction held with
    | nil => exact fun _ hv => hv
    | cons key rest ih =>
      intro v hv
      apply ih
      dsimp only
      split
      · rw [UInt8.and_assoc, UInt8.and_comm (~~~key.bit), ← UInt8.and_assoc, hv, UInt8.zero_and]
      · exact hv
  exact hfold k.held 0x1F rfl

namespace Session

/-- A session, and the one that it becomes when the tape is sampled at a time. -/
structure Sampled (s : Session) (time : UInt64) (t : Session) : Prop where
  signal : t.signal = s.signal
  origin : t.origin = s.origin
  keyboard : t.keyboard = s.keyboard
  index : t.index = s.indexAt time

theorem sampled_noteInput (s : Session) (m : Machine) (address : UInt16) {port : UInt16}
    (h : isUlaPort port = true) : s.Sampled m.cpu.clock (s.noteInput m address port) := by
  obtain ⟨_, _, _, hn⟩ := s.noteInput_eq m address h
  rw [hn]
  exact ⟨rfl, rfl, rfl, rfl⟩

/-- A port of the tape has an even address, whatever its high half is. -/
theorem isUlaPort_join (high : UInt8) : isUlaPort (UInt16.join high 0xFE) = true :=
  UInt8.of_fin (P := fun high => isUlaPort (UInt16.join high 0xFE) = true) (by decide +kernel) high

/-- While no key is held, a sample tells the level of the tape and nothing else. -/
theorem answer_eq {s : Session} (h : s.keyboard.held = []) (time : UInt64) (high : UInt8) :
    s.answer time (UInt16.join high 0xFE) =
      PollingLoop.sampled (s.advanceTape time).level := by
  unfold answer Keyboard.read
  rw [if_pos (isUlaPort_join high), h, List.foldl_nil]
  cases (s.advanceTape time).level <;> decide

/-- The level is sampled whatever keys are held. -/
theorem answer_and (s : Session) (time : UInt64) {port : UInt16} (h : isUlaPort port = true) :
    s.answer time port &&& 0x40 = PollingLoop.sampled (s.advanceTape time).level &&& 0x40 := by
  unfold answer
  rw [if_pos h, UInt8.or_and_of_and_eq_zero (Keyboard.read_and _ _)]
  cases (s.advanceTape time).level <;> rfl

end Session

/-! ### Moves in a scene -/

namespace Scene

section

variable {loop : PollingLoop} {address : UInt16} {s : Scene} {x : UInt16 × Move}

theorem instructionAt (h : loop.StandsAt s.machine address) (hx : x ∈ loop.moves)
    (hpc : s.machine.cpu.pc = address + x.1) :
    s.machine.instructionAt s.machine.cpu.pc =
      x.2.instruction (s.machine.read (address + x.1 + 1))
        (s.machine.read (address + x.1 + 2)) := by
  rw [hpc]
  exact h.instructionAt hx

theorem session_execute (h : loop.StandsAt s.machine address) (hx : x ∈ loop.moves)
    (hpc : s.machine.cpu.pc = address + x.1) :
    s.execute.1.session =
      if x.2 = .sample then
        s.session.noteInput s.machine s.machine.cpu.pc (UInt16.join s.machine.cpu.a 0xFE)
      else s.session :=
  Move.foldl_note_step _ (instructionAt h hx hpc) s.session

theorem memory_execute (h : loop.StandsAt s.machine address) (hx : x ∈ loop.moves)
    (hpc : s.machine.cpu.pc = address + x.1) :
    s.execute.1.machine.memory = s.machine.memory :=
  (Move.data_step _ (instructionAt h hx hpc)).1

theorem low_bc_execute (h : loop.StandsAt s.machine address) (hx : x ∈ loop.moves)
    (hpc : s.machine.cpu.pc = address + x.1) :
    s.execute.1.machine.cpu.bc.low = s.machine.cpu.bc.low := by
  have hd := (Move.data_step (s.session.answer s.clock) (instructionAt h hx hpc)).2.2.1
  exact (congrArg UInt16.low hd).trans (Move.low_bc_act _ _ _)

/-- What is known after a move, whichever way it goes. -/
theorem holds_execute (h : loop.StandsAt s.machine address) (hx : x ∈ loop.moves)
    (hpc : s.machine.cpu.pc = address + x.1) {v w : View} {r mask c known byte : UInt8}
    (hv : v.Holds r s.machine.cpu.toRegisterFile) (hc : s.machine.cpu.bc.low &&& mask = c)
    (hbyte : x.2 = .sample →
      ∀ high, s.session.answer s.clock (UInt16.join high 0xFE) &&& known = byte)
    (hw : v.after mask c known byte false x.2 = some w) :
    w.Holds r s.execute.1.machine.cpu.toRegisterFile := by
  obtain ⟨-, haf, -, hr⟩ := Move.data_step (s.session.answer s.clock) (instructionAt h hx hpc)
  refine (hv.after hc (fun hs => ?_) (fun _ _ (hn : false = true) => nomatch hn) hw).congr haf hr
  rw [hs]
  exact hbyte hs _

end

/-! ### Moves in a row -/

/-- What is known behind some moves, if they are executed in a row. -/
theorem holds_of_viewAfter {loop : PollingLoop} {address : UInt16}
    {moves : List (UInt16 × Move)} {f : Nat → Scene} {v w : View} {r mask c known byte : UInt8}
    (hm : ∀ x ∈ moves, x ∈ loop.moves) (h : loop.StandsAt (f 0).machine address)
    (hf : ∀ i < moves.length, (f (i + 1)).machine = (f i).execute.1.machine)
    (hpc : ∀ i x, moves[i]? = some x → (f i).machine.cpu.pc = address + x.1)
    (hbyte : ∀ i x, moves[i]? = some x → x.2 = .sample →
      ∀ high, (f i).session.answer (f i).clock (UInt16.join high 0xFE) &&& known = byte)
    (hv : v.Holds r (f 0).machine.cpu.toRegisterFile)
    (hc : (f 0).machine.cpu.bc.low &&& mask = c)
    (hw : PollingLoop.viewAfter mask c known byte v moves = some w) :
    w.Holds r (f moves.length).machine.cpu.toRegisterFile ∧
      (f moves.length).machine.memory = (f 0).machine.memory ∧
      (f moves.length).machine.cpu.bc.low = (f 0).machine.cpu.bc.low := by
  induction moves generalizing f v with
  | nil =>
    cases hw
    exact ⟨hv, rfl, rfl⟩
  | cons x rest ih =>
    have hx := hm x List.mem_cons_self
    have hpc0 := hpc 0 x rfl
    have h1 := hf 0 (Nat.succ_pos _)
    obtain ⟨u, hu, hrest⟩ := Option.bind_eq_some_iff.mp hw
    have hmem := memory_execute h hx hpc0
    have hlow := low_bc_execute h hx hpc0
    have hholds := holds_execute h hx hpc0 hv hc (hbyte 0 x rfl) hu
    rw [← h1] at hmem hlow hholds
    obtain ⟨hw', hmem', hlow'⟩ := ih (f := fun i => f (i + 1))
      (fun y hy => hm y (List.mem_cons_of_mem x hy)) (h.congr hmem)
      (fun i hi => hf (i + 1) (Nat.succ_lt_succ hi)) (fun i y hy => hpc (i + 1) y hy)
      (fun i y hy => hbyte (i + 1) y hy) hholds (by rw [hlow, hc]) hrest
    exact ⟨hw', hmem'.trans hmem, hlow'.trans hlow⟩

/-! ### A completed iteration -/

/-- From a scene on, a whole iteration of a loop at an address is executed, and its last jump goes
back to the address.  Nothing else happens to the machine between the instructions, and no key is
held in the end; if the loop keeps its sample in R, no key shows in that either. -/
structure Completes (loop : PollingLoop) (address : UInt16) (s : Scene) : Prop where
  pc : ∀ i offset, loop.route[i]? = some offset →
    (s.after i).machine.cpu.pc = address + offset
  machine : ∀ i < loop.route.length - 1,
    (s.after (i + 1)).machine = (s.after i).execute.1.machine
  continues : ∀ i < loop.route.length - 1, (s.after i).step.1.2 = .ok false
  released : (s.after (loop.route.length - 1)).session.keyboard.held = []
  unkeyed : loop.refreshes = 0 → (s.after loop.samplePosition).session.keyboard.held = []
  back : (s.after (loop.route.length - 1)).execute.1.machine.cpu.pc = address

/-- What every iteration that goes on leaves in the registers. -/
structure Settled (loop : PollingLoop) (address : UInt16) (awaited : Bool) (c : Cpu) : Prop where
  af : c.af = 0x0054
  pc : c.pc = address
  wz : c.wz = address
  blocked : c.blocked = false
  r : ∀ byte ∈ (loop.closingView awaited).loaded?,
    c.r = refreshed byte ((loop.closingView awaited).refreshes + 1)

theorem settled_execute_closing {loop : PollingLoop} {awaited : Bool} {address : UInt16}
    {s : Scene} {r : UInt8} (hr : loop.Regular awaited) (h : loop.StandsAt s.machine address)
    (hpc : s.machine.cpu.pc = address + loop.closing.1)
    (hv : (loop.closingView awaited).Holds r s.machine.cpu.toRegisterFile) :
    Settled loop address awaited s.execute.1.machine.cpu := by
  have haf := hr.af hv
  have hback : s.execute.1.machine = _ :=
    hr.step_closing_back (s.session.answer s.clock) h hpc (PollingLoop.flags_z_of_af haf)
  rw [hback]
  refine ⟨haf, rfl, rfl, rfl, fun byte hb => ?_⟩
  have hrr := hv.r
  rw [hb] at hrr
  rw [← refreshed_refreshed, ← show s.machine.cpu.r = refreshed byte _ from hrr]
  rfl

section

variable {loop : PollingLoop} {address : UInt16} {awaited : Bool} {s : Scene}

theorem Completes.pc_move (h : Completes loop address s) {i : Nat} {x : UInt16 × Move}
    (hx : loop.moves[i]? = some x) : (s.after i).machine.cpu.pc = address + x.1 :=
  h.pc i x.1 (by rw [PollingLoop.route, List.getElem?_map, hx]; rfl)

/-- The level that an iteration samples. -/
def sampledLevel (loop : PollingLoop) (s : Scene) : Bool :=
  let t := s.after loop.samplePosition
  (t.session.advanceTape t.clock).level

theorem Completes.answer (h : Completes loop address s) (hr : loop.Regular awaited) {i : Nat}
    {x : UInt16 × Move} (hx : loop.moves[i]? = some x) (hs : x.2 = .sample) (high : UInt8) :
    (s.after i).session.answer (s.after i).clock (UInt16.join high 0xFE) &&& loop.sampleMask =
      PollingLoop.sampled (sampledLevel loop s) &&& loop.sampleMask := by
  have hi := (List.getElem?_eq_some_iff.mp hx).1
  obtain rfl := hr.single i hi (by rw [hx, Option.map_some, hs])
  unfold PollingLoop.sampleMask
  split
  · rename_i hrefreshes
    rw [Session.answer_eq (h.unkeyed hrefreshes)]
    rfl
  · exact Session.answer_and _ _ (Session.isUlaPort_join high)

/-- What is known at the closing jump, if the level that was sampled leads to a view. -/
theorem Completes.holds (h : Completes loop address s) (hr : loop.Regular awaited)
    (hat : loop.StandsAt s.machine address)
    (hwaits : s.machine.cpu.bc.low &&& loop.earMask = loop.masked awaited) {v : View}
    (hv : loop.closingView? awaited (sampledLevel loop s) = some v) :
    v.Holds s.machine.cpu.r (s.after loop.moves.dropLast.length).machine.cpu.toRegisterFile ∧
      (s.after loop.moves.dropLast.length).machine.memory = s.machine.memory ∧
      (s.after loop.moves.dropLast.length).machine.cpu.bc.low = s.machine.cpu.bc.low := by
  have hlength := hr.length_route
  refine holds_of_viewAfter (f := s.after) (fun x hx => ?_) hat (fun i hi => ?_)
    (fun i x hx => h.pc_move (hr.getElem?_dropLast_moves hx))
    (fun i x hx => h.answer hr (hr.getElem?_dropLast_moves hx)) (View.holds_nothing _) hwaits hv
  · rw [hr.moves]
    exact List.mem_append_left _ hx
  · exact h.machine i (by omega)

/-- A completed iteration leaves the registers settled and memory as it was. -/
theorem Completes.settled (h : Completes loop address s) (hr : ∀ awaited, loop.Regular awaited)
    (hat : loop.StandsAt s.machine address) :
    let m := (s.after (loop.route.length - 1)).execute.1.machine
    Settled loop address (m.cpu.bc.low &&& loop.earMask != 0) m.cpu ∧
      m.memory = s.machine.memory := by
  have hn : loop.route.length - 1 = loop.moves.dropLast.length := by
    rw [(hr true).length_route, Nat.add_sub_cancel]
  have hclosing : (s.after loop.moves.dropLast.length).machine.cpu.pc =
      address + loop.closing.1 := by
    refine h.pc_move ?_
    rw [(hr true).moves]
    simp
  have hback := h.back
  rw [hn] at hback ⊢
  let awaited := s.machine.cpu.bc.low &&& loop.earMask != 0
  have hwaits := (hr awaited).and_earMask s.machine.cpu.bc.low
  by_cases hl : sampledLevel loop s = awaited
  · have hview : loop.closingView? awaited (sampledLevel loop s) =
        some (loop.closingView awaited) := by
      rw [hl]
      exact (hr awaited).settles
    obtain ⟨hv, hmem, hlow⟩ := h.holds (hr awaited) hat hwaits hview
    have hsettled := settled_execute_closing (hr awaited) (hat.congr hmem) hclosing hv
    have hlow' := low_bc_execute (hat.congr hmem) (hr true).closing_mem hclosing
    have hmem' := memory_execute (hat.congr hmem) (hr true).closing_mem hclosing
    dsimp only
    rw [hlow', hlow]
    exact ⟨hsettled, hmem'.trans hmem⟩
  · obtain ⟨v, hv, hzero⟩ := Option.bind_eq_some_iff.mp (hr awaited).leaves
    rw [← Bool.eq_not.mpr hl] at hv
    obtain ⟨hholds, hmem, -⟩ := h.holds (hr awaited) hat hwaits hv
    exact absurd hback
      ((hr awaited).pc_step_closing _ (hat.congr hmem) hclosing (hholds.zero false hzero))

end

end Scene
end Spectrum.Loader
