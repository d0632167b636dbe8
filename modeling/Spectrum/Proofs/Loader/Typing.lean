import Mathlib.Tactic.Common
import Spectrum.Proofs.Loader.Course
import Spectrum.Proofs.Loader.Keyboard

/-! # Typing before the tape

When chords are to be typed first, the tape starts behind the last of them.  Two machines are
advanced with every instruction: the session waits for interrupts to be enabled, then for the ROM to
be ready, then for the keyboard to have typed; the keyboard presses and releases.  The frames they
go by stay the same for many instructions and may then go on by many at once.

Main definitions: `Handling.Typing`, `Scene.startsTape`, `Begins`.
Main statements: `Scene.types_step`, `Course.phase`, `Course.begins_of_running`. -/

namespace Spectrum.Loader

open Z80 Tape

/-- The border may be set, and chords be typed while nothing is typed and no tape plays, which is
once.  Nothing else starts the tape. -/
inductive Handling.Typing (chords : List (List String)) : Handling
  | leave (s : Scene) : Typing chords s s.session
  | border (s : Scene) (colour : UInt8) : Typing chords s (s.session.setBorder colour)
  | type (s : Scene) (ho : s.session.origin = none) (ht : s.session.typing = none) :
      Typing chords s (s.session.typeThenStart chords)

/-! ### What leaves the keys alone -/

/-- A session, and one with the same keys held and waiting, whose tape has not been started in
between. -/
structure Session.SameKeys (s t : Session) : Prop where
  keyboard : t.keyboard = s.keyboard
  typing : t.typing = s.typing
  origin : t.origin = none ↔ s.origin = none

namespace Session

theorem SameKeys.refl (s : Session) : s.SameKeys s := ⟨rfl, rfl, Iff.rfl⟩

theorem SameKeys.trans {s t u : Session} (h : s.SameKeys t) (h' : t.SameKeys u) : s.SameKeys u where
  keyboard := h'.keyboard.trans h.keyboard
  typing := h'.typing.trans h.typing
  origin := h'.origin.trans h.origin

theorem answer_of_released {s : Session} (h : s.keyboard.held = []) (clock : UInt64) {port : UInt16}
    (hp : isUlaPort port = true) : s.answer clock port &&& 0x1F = 0x1F := by
  rw [answer, if_pos hp, Keyboard.read_of_released h]
  cases (s.advanceTape clock).level <;> rfl

end Session

namespace Scene

theorem sameKeys_execute (s : Scene) : s.session.SameKeys s.execute.1.session := by
  obtain ⟨_, _, _, _, _, -, h⟩ := s.notes_execute
  rw [h]
  exact ⟨rfl, rfl, Iff.rfl⟩

/-- Behind the trap only typing has to do with keys. -/
theorem sameKeys_step {s t : Scene} (h : s.atTrap.trapRoutine = (t, none)) :
    (t.typeKeys (Clock.frame t.clock)).1.session.SameKeys s.step.1.1.session := by
  obtain ⟨_, _, _, _, hs, -⟩ := session_step_of_trap h
  rw [hs]
  exact ⟨rfl, rfl, Iff.rfl⟩

/-- A step in which nothing waits to be typed leaves the keys alone. -/
theorem sameKeys_step_of_untyped {s : Scene} (ht : s.session.typing = none) :
    s.session.SameKeys s.step.1.1.session := by
  obtain ⟨index, origin, h, ho, -⟩ := s.atTrap.session_trapRoutine
  rw [session_atTrap] at h ho
  have hsame : s.session.SameKeys s.atTrap.trapRoutine.1.session := by
    refine s.sameKeys_execute.trans ?_
    rw [h]
    exact ⟨rfl, rfl, ho⟩
  rcases hr : s.atTrap.trapRoutine with ⟨t, error⟩
  rw [hr] at hsame
  cases error with
  | some error =>
    rw [step_of_trap_error hr]
    exact hsame
  | none =>
    have hu : (t.typeKeys (Clock.frame t.clock)).1 = t := by
      rw [typeKeys, hsame.typing, ht]
    have hstep := sameKeys_step hr
    rw [hu] at hstep
    exact hsame.trans hstep

/-- Without a tape that plays nothing is trapped. -/
theorem trapRoutine_of_silent {s : Scene} (ho : s.session.origin = none) :
    s.atTrap.trapRoutine = (s.execute.1, none) := by
  have horigin : s.execute.1.session.origin = none := s.origin_execute.trans ho
  have hskip : s.atTrap = s.execute.1 := by
    rw [atTrap, skipIterations, horigin]
  rw [hskip]
  refine trapRoutine_of_untrapped ?_
  rw [traps, Session.running, horigin]
  simp

/-- Without a tape that plays, and without interrupts, a step changes the machine by its instruction
only. -/
theorem machine_step_of_silent {s : Scene} (ho : s.session.origin = none)
    (hi : s.session.config.interrupts = false) : s.step.1.1.machine = s.execute.1.machine := by
  have hm := s.execute.1.machine_typeKeys (Clock.frame s.execute.1.clock)
  obtain ⟨_, _, _, _, hkeys, -⟩ := s.execute.1.session_typeKeys (Clock.frame s.execute.1.clock)
  rw [step_of_trap (trapRoutine_of_silent ho)]
  generalize s.execute.1.typeKeys (Clock.frame s.execute.1.clock) = typed at hm hkeys ⊢
  obtain ⟨u, error⟩ := typed
  cases error with
  | some error => exact hm
  | none =>
    have hconfig : u.session.config = s.session.config := by
      rw [hkeys]
      exact s.later_execute.config
    have hoff : u.offerInterrupt (Clock.frame s.execute.1.clock) = u := by
      rw [offerInterrupt, hconfig, hi]
      rfl
    dsimp only
    rw [hoff, machine_checkStop, machine_followTape]
    exact hm

/-! ### Typing in a step -/

/-- The frame that the instruction of a scene comes to. -/
def frameBehind (s : Scene) : UInt64 := Clock.frame s.execute.1.clock

/-- What typing makes of a session in a step from a scene in which the tape does not play: it waits
for interrupts to be enabled; if they are it fixes the frame from which to type; until then it
waits; then it advances the keyboard, and if that was the last of it the tape starts. -/
inductive Types (s : Scene) (t : Session) : Typing → Prop
  | waits (hi : s.execute.1.machine.cpu.iff1 = false) (h : s.session.SameKeys t) :
      Types s t .awaitingInterrupts
  | sees (hi : s.execute.1.machine.cpu.iff1 = true) (hk : t.keyboard = s.session.keyboard)
      (ht : t.typing = some (.fromFrame (s.frameBehind + Session.bootFrames)))
      (ho : t.origin = none) : Types s t .awaitingInterrupts
  | early {first : UInt64} (hf : s.frameBehind < first) (h : s.session.SameKeys t) :
      Types s t (.fromFrame first)
  | types {first : UInt64} (hf : first ≤ s.frameBehind)
      (hk : s.session.keyboard.Advances s.frameBehind t.keyboard)
      (hmore : t.keyboard.typing = true) (ht : t.typing = s.session.typing)
      (ho : t.origin = none) : Types s t (.fromFrame first)
  | starts {first : UInt64} (hf : first ≤ s.frameBehind)
      (hk : s.session.keyboard.Advances s.frameBehind t.keyboard)
      (hend : t.keyboard.typing = false) (ht : t.typing = none) (ho : t.origin ≠ none) :
      Types s t (.fromFrame first)

theorem types_step {s : Scene} {typing : Typing} (ho : s.session.origin = none)
    (ht : s.session.typing = some typing)
    (hv : ∀ chord ∈ s.session.keyboard.chords, Typable chord) :
    s.Types s.step.1.1.session typing := by
  have hexecute := s.sameKeys_execute
  have horigin : s.execute.1.session.origin = none := s.origin_execute.trans ho
  have hstep := sameKeys_step (trapRoutine_of_silent ho)
  change (s.execute.1.typeKeys s.frameBehind).1.session.SameKeys _ at hstep
  obtain ⟨hnone, hadvances⟩ := Keyboard.advances _ hv s.frameBehind
  unfold typeKeys at hstep
  rw [hexecute.typing, hexecute.keyboard, ht] at hstep
  generalize s.session.keyboard.advance s.frameBehind = advanced at hnone hadvances hstep
  obtain ⟨keyboard, error⟩ := advanced
  obtain rfl : error = none := hnone
  cases typing with
  | awaitingInterrupts =>
    dsimp only at hstep
    split at hstep
    · rename_i hi
      exact .sees hi (hstep.keyboard.trans hexecute.keyboard) hstep.typing
        (hstep.origin.mpr horigin)
    · rename_i hi
      exact .waits (Bool.eq_false_iff.mpr hi) (hexecute.trans hstep)
  | fromFrame first =>
    dsimp only at hstep
    split at hstep
    · rename_i hf
      exact .early hf (hexecute.trans hstep)
    · rename_i hf
      have hf' : first ≤ s.frameBehind := UInt64.not_lt.mp hf
      split at hstep
      · rename_i hmore
        exact .types hf' (hstep.keyboard ▸ hadvances) (hstep.keyboard ▸ hmore)
          (hstep.typing.trans hexecute.typing) (hstep.origin.mpr horigin)
      · rename_i hend
        refine .starts hf' (hstep.keyboard ▸ hadvances) ?_ hstep.typing
          (mt hstep.origin.mp (Option.some_ne_none _))
        rw [hstep.keyboard]
        exact Bool.eq_false_iff.mpr hend

/-- Whether the step of a scene starts the tape, which ends what was to be typed before. -/
def startsTape (s : Scene) : Bool :=
  s.session.typing.isSome && s.step.1.1.session.typing.isNone

theorem startsTape_of_untyped {s : Scene} (h : s.session.typing = none) : s.startsTape = false := by
  rw [startsTape, h]
  rfl

theorem startsTape_of_typed {s : Scene} (h : s.step.1.1.session.typing ≠ none) :
    s.startsTape = false := by
  rw [startsTape, Option.isNone_eq_false_iff.mpr (Option.isSome_iff_ne_none.mpr h), Bool.and_false]

end Scene

/-! ### Runs -/

/-- The keys that are held in some scenes, in turn. -/
def heldInTurn (scenes : List Scene) : List (List Key) :=
  scenes.foldl (fun turns s => Keyboard.noteHeld turns s.session.keyboard.held) []

theorem heldInTurn_concat (scenes : List Scene) (s : Scene) :
    heldInTurn (scenes ++ [s]) = Keyboard.noteHeld (heldInTurn scenes) s.session.keyboard.held := by
  rw [heldInTurn, List.foldl_append]
  rfl

/-- Fifty frames before a frame, or earlier, one of some scenes has come to interrupts being enabled
with chords waiting; and they had not been enabled before while chords waited. -/
def EnabledBefore (past : List Scene) (frame : UInt64) : Prop :=
  ∃ early u late, past = early ++ u :: late ∧
    (∀ w ∈ early, w.session.typing ≠ none → w.execute.1.machine.cpu.iff1 = false) ∧
    u.session.typing ≠ none ∧ u.execute.1.machine.cpu.iff1 = true ∧
    u.frameBehind.toNat + 50 ≤ frame.toNat

theorem EnabledBefore.mono {past : List Scene} {first frame : UInt64}
    (h : EnabledBefore past first) (hf : first ≤ frame) (behind : List Scene) :
    EnabledBefore (past ++ behind) frame := by
  obtain ⟨early, u, late, rfl, hearly, hu, hi, hframe⟩ := h
  refine ⟨early, u, late ++ behind, by simp, hearly, hu, hi, ?_⟩
  exact Nat.le_trans hframe (UInt64.le_iff_toNat_le.mp hf)

/-- The tape begins in the step of a scene: fifty frames after interrupts were first seen enabled,
and with all chords pressed and released, each once and in order. -/
structure Begins (chords : List (List String)) (before : List Scene) (s : Scene) : Prop where
  enabled : EnabledBefore before s.frameBehind
  typed : heldInTurn (before ++ [s, s.step.1.1]) = Keyboard.inTurn chords

/-- How far typing has come. -/
inductive Phase (chords : List (List String)) (past : List Scene) (s : Scene) : Prop
  | idle (ht : s.session.typing = none) (ho : s.session.origin = none)
      (hp : ∀ w ∈ past, w.session.typing = none) (hk : s.session.keyboard = {})
      (hh : heldInTurn (past ++ [s]) = Keyboard.inTurn [])
  | waiting (ht : s.session.typing = some .awaitingInterrupts) (ho : s.session.origin = none)
      (hp : ∀ w ∈ past, w.session.typing ≠ none → w.execute.1.machine.cpu.iff1 = false)
      (hs : ∀ w ∈ past, w.startsTape = false)
      (hk : s.session.keyboard.Typed chords (heldInTurn (past ++ [s])))
  | typing {first : UInt64} (ht : s.session.typing = some (.fromFrame first))
      (ho : s.session.origin = none) (hp : EnabledBefore past first)
      (hs : ∀ w ∈ past, w.startsTape = false)
      (hk : s.session.keyboard.Typed chords (heldInTurn (past ++ [s])))
  | playing (ht : s.session.typing = none) (ho : s.session.origin ≠ none)
      (hs : ∃ before v after, past = before ++ v :: after ∧ v.startsTape = true ∧
        (∀ w ∈ before ++ after, w.startsTape = false) ∧ Begins chords before v)
      (hk : s.session.keyboard.held = [])

section

variable {chords : List (List String)} {past : List Scene} {s t : Scene}

/-- Every one of some scenes and a last one. -/
theorem forall_mem_concat {P : Scene → Prop} (h : ∀ w ∈ past, P w) (hs : P s) :
    ∀ w ∈ past ++ [s], P w := by
  intro w hw
  rcases List.mem_append.mp hw with hw | hw
  · exact h w hw
  · rw [List.mem_singleton.mp hw]
    exact hs

theorem heldInTurn_of_held_eq (h : t.session.keyboard.held = s.session.keyboard.held) :
    heldInTurn (past ++ [s] ++ [t]) = heldInTurn (past ++ [s]) := by
  rw [heldInTurn_concat _ t, heldInTurn_concat, h, Keyboard.noteHeld_noteHeld]

/-- With the keyboard as it was, as much has been typed as before. -/
theorem typed_of_keyboard_eq
    (hk : s.session.keyboard.Typed chords (heldInTurn (past ++ [s])))
    (h : t.session.keyboard = s.session.keyboard) :
    t.session.keyboard.Typed chords (heldInTurn (past ++ [s] ++ [t])) := by
  rw [heldInTurn_of_held_eq (congrArg (·.held) h), h]
  exact hk

theorem toNat_frameBehind_add (s : Scene) :
    (s.frameBehind + Session.bootFrames).toNat = s.frameBehind.toNat + 50 := by
  have hclock := s.execute.1.clock.toNat_lt
  have hframe : s.frameBehind.toNat = s.execute.1.clock.toNat / 69888 := UInt64.toNat_div _ _
  rw [UInt64.toNat_add, show Session.bootFrames.toNat = 50 from rfl, hframe]
  omega

theorem Phase.step (h : Phase chords past s) (hv : ∀ chord ∈ chords, Typable chord) :
    Phase chords (past ++ [s]) s.step.1.1 := by
  cases h with
  | idle ht ho hp hk hh =>
    have hsame := Scene.sameKeys_step_of_untyped ht
    refine .idle (hsame.typing.trans ht) (hsame.origin.mpr ho) (forall_mem_concat hp ht)
      (hsame.keyboard.trans hk) ?_
    rw [heldInTurn_of_held_eq (congrArg (·.held) hsame.keyboard), hh]
  | waiting ht ho hp hs hk =>
    cases Scene.types_step ho ht (hk.typable hv) with
    | waits hi hsame =>
      have ht' := hsame.typing.trans ht
      exact .waiting ht' (hsame.origin.mpr ho) (forall_mem_concat hp fun _ => hi)
        (forall_mem_concat hs (Scene.startsTape_of_typed (by simp [ht'])))
        (typed_of_keyboard_eq hk hsame.keyboard)
    | sees hi hkeyboard ht' ho' =>
      refine .typing ht' ho' ⟨past, s, [], rfl, hp, by simp [ht], hi, ?_⟩
        (forall_mem_concat hs (Scene.startsTape_of_typed (by simp [ht'])))
        (typed_of_keyboard_eq hk hkeyboard)
      rw [toNat_frameBehind_add]
  | typing ht ho hp hs hk =>
    have hturns := heldInTurn_concat (past ++ [s]) s.step.1.1
    cases Scene.types_step ho ht (hk.typable hv) with
    | early _ hsame =>
      have ht' := hsame.typing.trans ht
      exact .typing ht' (hsame.origin.mpr ho) (hp.mono (UInt64.le_refl _) [s])
        (forall_mem_concat hs (Scene.startsTape_of_typed (by simp [ht'])))
        (typed_of_keyboard_eq hk hsame.keyboard)
    | types _ hadvances _ ht' ho' =>
      have ht' := ht'.trans ht
      refine .typing ht' ho' (hp.mono (UInt64.le_refl _) [s])
        (forall_mem_concat hs (Scene.startsTape_of_typed (by simp [ht']))) ?_
      rw [hturns]
      exact hk.advance hv hadvances
    | starts hf hadvances hend ht' ho' =>
      obtain ⟨hheld, hall⟩ := (hk.advance hv hadvances).finished hend
      have hstarts : s.startsTape = true := by
        rw [Scene.startsTape, ht, ht']
        rfl
      refine .playing ht' ho' ⟨past, s, [], rfl, hstarts, by simpa using hs, ?_, ?_⟩ hheld
      · simpa using hp.mono hf []
      · rw [← hall, ← hturns, List.append_assoc]
        rfl
  | playing ht ho hs hk =>
    have hsame := Scene.sameKeys_step_of_untyped ht
    obtain ⟨before, v, after, rfl, hv', hothers, hbegins⟩ := hs
    refine .playing (hsame.typing.trans ht) (mt hsame.origin.mp ho)
      ⟨before, v, after ++ [s], by simp, hv', ?_, hbegins⟩
      ((congrArg (·.held) hsame.keyboard).trans hk)
    rw [← List.append_assoc]
    exact forall_mem_concat hothers (Scene.startsTape_of_untyped ht)

/-- Nothing but what keys are held and waiting, and whether the tape plays, matters for typing. -/
theorem Phase.of_sameKeys (h : Phase chords past s) (hsame : s.session.SameKeys t.session) :
    Phase chords past t := by
  have hheld : heldInTurn (past ++ [t]) = heldInTurn (past ++ [s]) := by
    rw [heldInTurn_concat, heldInTurn_concat, hsame.keyboard]
  cases h with
  | idle ht ho hp hk hh =>
    exact .idle (hsame.typing.trans ht) (hsame.origin.mpr ho) hp (hsame.keyboard.trans hk)
      (hheld.trans hh)
  | waiting ht ho hp hs hk =>
    refine .waiting (hsame.typing.trans ht) (hsame.origin.mpr ho) hp hs ?_
    rw [hheld, hsame.keyboard]
    exact hk
  | typing ht ho hp hs hk =>
    refine .typing (hsame.typing.trans ht) (hsame.origin.mpr ho) hp hs ?_
    rw [hheld, hsame.keyboard]
    exact hk
  | playing ht ho hs hk =>
    exact .playing (hsame.typing.trans ht) (mt hsame.origin.mp ho) hs
      ((congrArg (·.held) hsame.keyboard).trans hk)

theorem Phase.handle (h : Phase chords past s) (hs : Handling.Typing chords s t.session) :
    Phase chords past t := by
  generalize ht : t.session = session at hs
  cases hs with
  | leave => exact h.of_sameKeys (ht ▸ .refl _)
  | border _ colour => exact h.of_sameKeys (ht ▸ ⟨rfl, rfl, Iff.rfl⟩)
  | type _ ho htyping =>
    cases h with
    | idle _ _ hp hk hh =>
      have hkeyboard : t.session.keyboard = ({} : Keyboard).queue chords Session.keyFrames := by
        rw [ht, Session.typeThenStart, hk]
      refine .waiting (by rw [ht]; rfl) (by rw [ht]; exact ho)
        (fun w hw hne => absurd (hp w hw) hne)
        (fun w hw => Scene.startsTape_of_untyped (hp w hw)) ?_
      have hheld : heldInTurn (past ++ [t]) = heldInTurn (past ++ [s]) := by
        rw [heldInTurn_concat, heldInTurn_concat, hkeyboard, hk]
        rfl
      rw [hheld, hh, hkeyboard]
      exact Keyboard.typed_queue chords _
    | waiting ht' => rw [htyping] at ht'; cases ht'
    | typing ht' => rw [htyping] at ht'; cases ht'
    | playing _ ho' => exact absurd ho ho'

variable {signal : Signal} {config : Config}

theorem Course.phase (h : Course (.Typing chords) signal config past s)
    (hv : ∀ chord ∈ chords, Typable chord) : Phase chords past s := by
  induction h with
  | create machine h =>
    obtain ⟨loops, -, rfl⟩ := Session.create_eq_ok_iff.mp h
    exact .idle rfl rfl (fun w hw => nomatch hw) rfl rfl
  | handle h machine hc hs ih => exact ih.handle hs
  | step h ih => exact ih.step hv

/-- In a run in which chords are typed once, and the tape is not started in another way, it starts
once if at all: fifty frames after interrupts were first seen enabled or later, and when all chords
have been pressed and released, each once and in order.  So while it plays no key is held, and a
port of the keyboard reads ones. -/
theorem Course.begins_of_running (h : Course (.Typing chords) signal config past s)
    (hv : ∀ chord ∈ chords, Typable chord) :
    (s.session.running = false → ∀ w ∈ past, w.startsTape = false) ∧
    (s.session.running = true →
      (∃ before v after, past = before ++ v :: after ∧ v.startsTape = true ∧
        (∀ w ∈ before ++ after, w.startsTape = false) ∧ Begins chords before v) ∧
      s.session.keyboard.held = [] ∧
      ∀ clock port, Session.isUlaPort port = true →
        s.session.answer clock port &&& 0x1F = 0x1F) := by
  cases h.phase hv with
  | idle _ ho hp =>
    refine ⟨fun _ w hw => Scene.startsTape_of_untyped (hp w hw), fun hr => ?_⟩
    simp [Session.running, ho] at hr
  | waiting _ ho _ hs =>
    refine ⟨fun _ => hs, fun hr => ?_⟩
    simp [Session.running, ho] at hr
  | typing _ ho _ hs =>
    refine ⟨fun _ => hs, fun hr => ?_⟩
    simp [Session.running, ho] at hr
  | playing _ ho hs hk =>
    refine ⟨fun hr => ?_, fun _ => ⟨hs, hk, fun clock port =>
      Session.answer_of_released hk clock⟩⟩
    exact absurd (by simpa [Session.running] using hr) ho

end

/-! ### A run that types -/

/-- A machine with nothing in memory and interrupts enabled, at a time. -/
def idleMachine (clock : UInt64) : Machine := { cpu := { clock, iff1 := true } }

theorem step_idleMachine (clock : UInt64) (answer : UInt16 → UInt8) :
    ((idleMachine clock).step answer).1.cpu.clock = clock + 4 ∧
      ((idleMachine clock).step answer).1.cpu.iff1 = true := by
  have hnop : ({} : Machine).instructionAt 0 = ⟨.main, .nop⟩ := by decide +kernel
  have hi : (idleMachine clock).instructionAt (idleMachine clock).cpu.pc = ⟨.main, .nop⟩ := hnop
  rw [Machine.step_of_instruction answer hi]
  exact ⟨rfl, rfl⟩

/-- A chord of one key. -/
def letterJ : List (List String) := [["J"]]

/-- A configuration without interrupts, so that nothing disturbs the machine. -/
def calm : Config := { accelerators := [], interrupts := false }

/-- A run that types a key has come to a time, and the tape does not play yet. -/
structure Idles (n : Nat) (past : List Scene) (s : Scene) : Prop where
  course : Course (.Typing letterJ) default calm past s
  machine : s.machine = idleMachine (UInt64.ofNat (4 * n))
  config : s.session.config = calm
  origin : s.session.origin = none

section

variable {n : Nat} {past : List Scene} {s : Scene}

theorem Idles.behind (h : Idles n past s) (hn : n < 2 ^ 61) :
    s.execute.1.machine.cpu.iff1 = true ∧ s.frameBehind.toNat = (n + 1) / 17472 := by
  obtain ⟨hclock, hi⟩ := step_idleMachine (UInt64.ofNat (4 * n)) (s.session.answer s.clock)
  rw [← h.machine] at hclock hi
  refine ⟨hi, ?_⟩
  have hframe : s.frameBehind.toNat = s.execute.1.clock.toNat / 69888 := UInt64.toNat_div _ _
  rw [hframe, show s.execute.1.clock = UInt64.ofNat (4 * n) + 4 from hclock, UInt64.toNat_add,
    UInt64.toNat_ofNat', show (4 : UInt64).toNat = 4 from rfl]
  omega

/-- Between instructions the machine is put back to where it was, but for the clock. -/
theorem Idles.step (h : Idles n past s) :
    Course (.Typing letterJ) default calm (past ++ [s])
      { s.step.1.1 with machine := idleMachine (UInt64.ofNat (4 * (n + 1))) } ∧
      s.step.1.1.session.config = calm := by
  have hm : s.step.1.1.clock = UInt64.ofNat (4 * (n + 1)) := by
    obtain ⟨hclock, -⟩ := step_idleMachine (UInt64.ofNat (4 * n)) (s.session.answer s.clock)
    rw [← h.machine] at hclock
    rw [Scene.clock, Scene.machine_step_of_silent h.origin (by rw [h.config]; rfl),
      show s.execute.1.machine.cpu.clock = _ from hclock, Nat.mul_succ, UInt64.ofNat_add]
    rfl
  exact ⟨h.course.step.handle _ hm.symm (.leave _), s.sameRun_step.config.trans h.config⟩

theorem Idles.next (h : Idles n past s) (ho : s.step.1.1.session.origin = none) :
    ∃ t, t.session = s.step.1.1.session ∧ Idles (n + 1) (past ++ [s]) t :=
  ⟨{ s.step.1.1 with machine := idleMachine (UInt64.ofNat (4 * (n + 1))) }, rfl, h.step.1, rfl,
    h.step.2, ho⟩

end

theorem typable_letterJ : ∀ chord ∈ letterJ, Typable chord := by decide +kernel

/-- For fifty frames nothing happens. -/
theorem exists_idles_booting {n : Nat} (hn : n < 873599) :
    ∃ past s, Idles (n + 1) past s ∧ s.session.typing = some (.fromFrame 50) ∧
      s.session.keyboard = ({} : Keyboard).queue letterJ 10 := by
  induction n with
  | zero =>
    have hcreate : Session.create default calm (idleMachine 0).cpu.clock =
        .ok { signal := default, config := calm, loops := [], runStart := 0 } := rfl
    have h : Idles 0 [] { machine := idleMachine 0, session := _ } :=
      ⟨(Course.create (idleMachine 0) hcreate).handle (idleMachine 0) rfl (.type _ rfl rfl), rfl,
        rfl, rfl⟩
    obtain ⟨hi, hframe⟩ := h.behind (by decide)
    have hzero : Scene.frameBehind _ = 0 := UInt64.toNat_inj.mp hframe
    cases Scene.types_step h.origin rfl typable_letterJ with
    | waits hi' => rw [hi] at hi'; cases hi'
    | sees _ hk ht ho =>
      obtain ⟨t, hsession, ht'⟩ := h.next ho
      refine ⟨_, t, ht', ?_, hsession ▸ hk⟩
      rw [hsession, ht, hzero]
      rfl
  | succ n ih =>
    obtain ⟨past, s, h, hfirst, hkeyboard⟩ := ih (by omega)
    have hframe : s.frameBehind < 50 := by
      rw [UInt64.lt_iff_toNat_lt, (h.behind (by omega)).2, show (50 : UInt64).toNat = 50 from rfl]
      omega
    cases Scene.types_step h.origin hfirst (hkeyboard ▸ typable_letterJ) with
    | early _ hsame =>
      obtain ⟨t, hsession, ht⟩ := h.next (hsame.origin.mpr h.origin)
      exact ⟨_, t, ht, by rw [hsession, hsame.typing, hfirst],
        by rw [hsession, hsame.keyboard, hkeyboard]⟩
    | types hf => exact absurd hf (UInt64.not_le.mpr hframe)
    | starts hf => exact absurd hf (UInt64.not_le.mpr hframe)

/-- The keyboard with that key held, from the frame on in which typing begins. -/
def holdingJ : Keyboard :=
  { held := chordKeys ["J"], chords := letterJ, frames := 10, phaseEnd := 60, pressing := true,
    started := true }

/-- A step that advances the keyboard to holding the key goes on typing. -/
theorem Idles.hold {n : Nat} {past : List Scene} {s : Scene} (h : Idles n past s)
    (hfirst : s.session.typing = some (.fromFrame 50)) (hf : 50 ≤ s.frameBehind)
    (hv : ∀ chord ∈ s.session.keyboard.chords, Typable chord)
    (hk : ∀ k, s.session.keyboard.Advances s.frameBehind k → k = holdingJ) :
    ∃ t, Idles (n + 1) (past ++ [s]) t ∧ t.session.typing = some (.fromFrame 50) ∧
      t.session.keyboard = holdingJ := by
  cases Scene.types_step h.origin hfirst hv with
  | early hf' => exact absurd hf (UInt64.not_le.mpr hf')
  | types _ hadvances _ ht ho =>
    obtain ⟨t, hsession, ht'⟩ := h.next ho
    exact ⟨t, ht', by rw [hsession, ht, hfirst], by rw [hsession, hk _ hadvances]⟩
  | starts _ hadvances hend => rw [hk _ hadvances] at hend; cases hend

/-- Then the key is held for ten frames. -/
theorem exists_idles_holding {n : Nat} (hn : n < 174720) :
    ∃ past s, Idles (873600 + n) past s ∧ s.session.typing = some (.fromFrame 50) ∧
      s.session.keyboard = holdingJ := by
  induction n with
  | zero =>
    obtain ⟨past, s, h, hfirst, hkeyboard⟩ := exists_idles_booting (n := 873598) (by omega)
    have hframe : s.frameBehind = 50 := UInt64.toNat_inj.mp (h.behind (by omega)).2
    obtain ⟨t, ht⟩ := h.hold hfirst (by rw [hframe]; exact UInt64.le_refl _)
      (hkeyboard ▸ typable_letterJ) fun k hk => by
        rw [hkeyboard, hframe] at hk
        cases hk with
        | stay h => exact absurd h (by decide)
        | press _ _ hc =>
          obtain ⟨rfl, rfl⟩ := List.cons.inj hc
          rfl
        | release _ hp => cases hp
    exact ⟨_, t, ht⟩
  | succ n ih =>
    obtain ⟨past, s, h, hfirst, hkeyboard⟩ := ih (by omega)
    have hframe := (h.behind (by omega)).2
    have hbefore : ¬ holdingJ.phaseEnd ≤ s.frameBehind := by
      rw [UInt64.le_iff_toNat_le, hframe, show holdingJ.phaseEnd.toNat = 60 from rfl]
      omega
    have hf : 50 ≤ s.frameBehind := by
      rw [UInt64.le_iff_toNat_le, hframe, show (50 : UInt64).toNat = 50 from rfl]
      omega
    obtain ⟨t, ht⟩ := h.hold hfirst hf (hkeyboard ▸ typable_letterJ) fun k hk => by
      rw [hkeyboard] at hk
      cases hk with
      | stay => rfl
      | press _ hp => cases hp
      | release hf => exact absurd (hf rfl) hbefore
    exact ⟨_, t, ht⟩

/-- After that it is released, and the tape starts. -/
theorem exists_playing : ∃ past s,
    Course (.Typing letterJ) default calm past s ∧ s.session.running = true := by
  obtain ⟨past, s, h, hfirst, hkeyboard⟩ := exists_idles_holding (n := 174719) (by omega)
  have hframe : s.frameBehind = 60 := UInt64.toNat_inj.mp (h.behind (by omega)).2
  have hreleased : ∀ k, s.session.keyboard.Advances s.frameBehind k → k.typing = false := by
    intro k hk
    rw [hkeyboard, hframe] at hk
    cases hk with
    | stay h => exact absurd h (by decide)
    | press _ hp => cases hp
    | release => rfl
  cases Scene.types_step h.origin hfirst (hkeyboard ▸ typable_letterJ) with
  | early hf => exact absurd (hframe ▸ hf) (by decide)
  | types _ hk hmore => rw [hreleased _ hk] at hmore; cases hmore
  | starts _ _ _ _ ho => exact ⟨_, _, h.course.step, Option.isSome_iff_ne_none.mpr ho⟩

/-- There is such a run in which the tape plays, so the key has been typed before. -/
theorem begins_of_playing : (∀ chord ∈ letterJ, Typable chord) ∧
    ∃ past s, Course (.Typing letterJ) default calm past s ∧ s.session.running = true ∧
      (∃ before v, v ∈ past ∧ Begins letterJ before v) ∧ s.session.keyboard.held = [] := by
  obtain ⟨past, s, hcourse, hrunning⟩ := exists_playing
  obtain ⟨⟨before, v, after, rfl, -, -, hbegins⟩, hheld, -⟩ :=
    (hcourse.begins_of_running typable_letterJ).2 hrunning
  exact ⟨typable_letterJ, _, s, hcourse, hrunning, ⟨before, v, by simp, hbegins⟩, hheld⟩

end Spectrum.Loader
