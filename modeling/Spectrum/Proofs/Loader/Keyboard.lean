import Mathlib.Tactic.Common
import Spectrum.Loader.Keyboard

/-! # Chords typed one after another

The keyboard is advanced with frame numbers, again and again with the same one, and now and then
with one that is many frames further.  Whatever these numbers are, an advance does one thing at
most: it presses the next chord or releases the one that is held.  So the keys that are held change
in the order of the chords, with nothing held in between.

Main definitions: `Keyboard.Advances`, `Keyboard.Typed`.
Main statements: `Keyboard.advances`, `Keyboard.Typed.advance`, `Keyboard.Typed.finished`. -/

namespace Spectrum.Loader

/-- A chord that can be typed has at least one key, and all its labels are on keys. -/
structure Typable (chord : List String) : Prop where
  ne_nil : chord ≠ []
  named : ∀ label ∈ chord, (Key.named? label).isSome = true

instance : DecidablePred Typable := fun chord =>
  decidable_of_iff (chord ≠ [] ∧ ∀ label ∈ chord, (Key.named? label).isSome = true)
    ⟨fun h => ⟨h.1, h.2⟩, fun h => ⟨h.ne_nil, h.named⟩⟩

/-- The keys of a chord as they are held, the last to be pressed first. -/
def chordKeys (chord : List String) : List Key := (chord.filterMap Key.named?).reverse

theorem chordKeys_ne_nil {chord : List String} (h : Typable chord) : chordKeys chord ≠ [] := by
  obtain ⟨label, hlabel⟩ := List.exists_mem_of_ne_nil chord h.ne_nil
  obtain ⟨key, hkey⟩ := Option.isSome_iff_exists.mp (h.named label hlabel)
  have hmem : key ∈ chordKeys chord :=
    List.mem_reverse.mpr (List.mem_filterMap.mpr ⟨label, hlabel, hkey⟩)
  exact List.ne_nil_of_mem hmem

namespace Keyboard

theorem read_of_released {k : Keyboard} (h : k.held = []) (high : UInt8) : k.read high = 0x1F := by
  rw [read, h]
  rfl

theorem pressAll_eq (k : Keyboard) {chord : List String}
    (h : ∀ label ∈ chord, (Key.named? label).isSome = true) :
    k.pressAll chord = ({ k with held := chordKeys chord ++ k.held }, none) := by
  induction chord generalizing k with
  | nil => rfl
  | cons label rest ih =>
    obtain ⟨key, hkey⟩ := Option.isSome_iff_exists.mp (h label List.mem_cons_self)
    have hrest := ih { k with held := key :: k.held } fun l hl => h l (List.mem_cons_of_mem _ hl)
    have hkeys : chordKeys (label :: rest) = chordKeys rest ++ [key] := by
      simp [chordKeys, hkey]
    rw [pressAll, press, hkey, hkeys, List.append_assoc]
    exact hrest

/-! ### One advance -/

/-- What a keyboard is turned into by one advance: it stays before the end of a phase, and when
there is nothing to type; at the end of a phase the next chord is pressed or the one that is held
released.  The first phase ends when it begins. -/
inductive Advances (frame : UInt64) (k : Keyboard) : Keyboard → Prop
  | stay (h : k.typing = false ∨ k.started = true ∧ frame < k.phaseEnd) : Advances frame k k
  | press {chord : List String} {rest : List (List String)}
      (hf : k.started = true → k.phaseEnd ≤ frame) (hp : k.pressing = false)
      (hc : k.chords = chord :: rest) :
      Advances frame k
        { k with
          held := chordKeys chord, pressing := true, started := true,
          phaseEnd := frame + k.frames }
  | release (hf : k.started = true → k.phaseEnd ≤ frame) (hp : k.pressing = true) :
      Advances frame k
        { k with
          held := [], chords := k.chords.tail, pressing := false, started := true,
          phaseEnd := frame + k.frames }

/-- Typing chords that are all known, a keyboard does just that. -/
theorem advances (k : Keyboard) (h : ∀ chord ∈ k.chords, Typable chord) (frame : UInt64) :
    (k.advance frame).2 = none ∧ k.Advances frame (k.advance frame).1 := by
  by_cases ht : k.typing = true
  swap
  · rw [advance, if_pos (by simpa using ht)]
    exact ⟨rfl, .stay (.inl (Bool.eq_false_iff.mpr ht))⟩
  by_cases hwait : k.started = true ∧ frame < k.phaseEnd
  · rw [advance, if_neg (by simpa using ht), if_pos hwait.1, if_pos hwait.2]
    exact ⟨rfl, .stay (.inr hwait)⟩
  -- Otherwise the phase is over, either because its time is up or because typing begins.
  have hf : k.started = true → k.phaseEnd ≤ frame := fun hs =>
    UInt64.not_lt.mp fun hlt => hwait ⟨hs, hlt⟩
  have hbegun : (if k.started = true then k else { k with started := true, phaseEnd := frame }) =
      { k with started := true, phaseEnd := if k.started = true then k.phaseEnd else frame } := by
    split
    · rename_i hs
      rw [← hs]
    · rfl
  have hover : ¬ frame < if k.started = true then k.phaseEnd else frame := by
    split
    · rename_i hs
      exact UInt64.not_lt.mpr (hf hs)
    · exact UInt64.lt_irrefl frame
  rw [advance, if_neg (by simpa using ht), hbegun, if_neg hover]
  cases hp : k.pressing with
  | true => exact ⟨rfl, .release hf hp⟩
  | false =>
    cases hc : k.chords with
    | nil => simp [typing, hp, hc] at ht
    | cons chord rest =>
      have hpress := fun k : Keyboard => k.pressAll_eq (h chord (hc ▸ List.mem_cons_self)).named
      simp only [release, List.headD_cons, hpress, List.append_nil, Bool.false_eq_true, if_false]
      have hpressed := Advances.press hf hp hc
      rw [hc] at hpressed
      exact ⟨trivial, hpressed⟩

/-! ### What is held in turn -/

/-- The keys held so far, in turn, and those that are held next; nothing changes if they are the
same. -/
def noteHeld (turns : List (List Key)) (held : List Key) : List (List Key) :=
  if turns.getLast? = some held then turns else turns ++ [held]

theorem noteHeld_noteHeld (turns : List (List Key)) (held : List Key) :
    noteHeld (noteHeld turns held) held = noteHeld turns held := by
  refine if_pos ?_
  unfold noteHeld
  split
  · assumption
  · exact List.getLast?_concat

/-- What is held in turn while some chords are typed: the keys of each, and none before and
after. -/
def inTurn (chords : List (List String)) : List (List Key) :=
  [] :: chords.flatMap fun chord => [chordKeys chord, []]

theorem inTurn_concat (chords : List (List String)) (chord : List String) :
    inTurn (chords ++ [chord]) = inTurn chords ++ [chordKeys chord] ++ [[]] := by
  simp [inTurn]

theorem getLast?_inTurn (chords : List (List String)) : (inTurn chords).getLast? = some [] := by
  rcases List.eq_nil_or_concat chords with rfl | ⟨done, chord, rfl⟩
  · rfl
  · rw [List.concat_eq_append, inTurn_concat, List.getLast?_concat]

/-- A keyboard that types chords and has come this far: some chords have been typed, and maybe the
next one is held. -/
inductive Typed (chords : List (List String)) (k : Keyboard) : List (List Key) → Prop
  | released {done : List (List String)} (hc : chords = done ++ k.chords) (hp : k.pressing = false)
      (hh : k.held = []) : Typed chords k (inTurn done)
  | pressed {done rest : List (List String)} {chord : List String}
      (hc : chords = done ++ k.chords) (hk : k.chords = chord :: rest) (hp : k.pressing = true)
      (hh : k.held = chordKeys chord) : Typed chords k (inTurn done ++ [chordKeys chord])

section

variable {chords : List (List String)} {k k' : Keyboard} {turns : List (List Key)} {frame : UInt64}

theorem typed_queue (chords : List (List String)) (frames : UInt64) :
    Typed chords (({} : Keyboard).queue chords frames) (inTurn []) :=
  .released rfl rfl rfl

theorem Typed.typable (h : Typed chords k turns) (hv : ∀ chord ∈ chords, Typable chord) :
    ∀ chord ∈ k.chords, Typable chord := by
  have hsuffix : ∃ done, chords = done ++ k.chords := by
    cases h with
    | released hc => exact ⟨_, hc⟩
    | pressed hc => exact ⟨_, hc⟩
  obtain ⟨done, hc⟩ := hsuffix
  exact fun chord hmem => hv chord (hc ▸ List.mem_append_right done hmem)

/-- The keys held last are those that are held. -/
theorem Typed.getLast?_eq (h : Typed chords k turns) : turns.getLast? = some k.held := by
  cases h with
  | released _ _ hh => rw [getLast?_inTurn, hh]
  | pressed _ _ _ hh => rw [List.getLast?_concat, hh]

/-- Typing goes on with each advance. -/
theorem Typed.advance (h : Typed chords k turns) (hv : ∀ chord ∈ chords, Typable chord)
    (ha : k.Advances frame k') : Typed chords k' (noteHeld turns k'.held) := by
  cases ha with
  | stay =>
    rw [noteHeld, if_pos h.getLast?_eq]
    exact h
  | @press chord rest _ hp hc =>
    cases h with
    | @released done hchords =>
      have hmem : chord ∈ chords := by
        rw [hchords, hc]
        exact List.mem_append_right _ List.mem_cons_self
      have hnew : (inTurn done).getLast? ≠ some (chordKeys chord) := by
        rw [getLast?_inTurn]
        exact fun h => chordKeys_ne_nil (hv chord hmem) (Option.some.inj h).symm
      rw [noteHeld, if_neg hnew]
      exact .pressed hchords hc rfl rfl
    | pressed _ _ hp' => rw [hp] at hp'; cases hp'
  | release _ hp =>
    cases h with
    | released _ hp' => rw [hp] at hp'; cases hp'
    | @pressed done rest chord hchords hk =>
      have hmem : chord ∈ chords := by
        rw [hchords, hk]
        exact List.mem_append_right _ List.mem_cons_self
      have hnew : (inTurn done ++ [chordKeys chord]).getLast? ≠ some [] := by
        rw [List.getLast?_concat]
        exact fun h => chordKeys_ne_nil (hv chord hmem) (Option.some.inj h)
      rw [noteHeld, if_neg hnew, ← inTurn_concat]
      refine .released ?_ rfl rfl
      rw [hchords, hk, List.append_assoc]
      rfl

/-- A keyboard with nothing left to type has typed all chords and holds no key. -/
theorem Typed.finished (h : Typed chords k turns) (ht : k.typing = false) :
    k.held = [] ∧ turns = inTurn chords := by
  obtain ⟨hchords, hpressing⟩ : k.chords = [] ∧ k.pressing = false := by
    simpa [typing] using ht
  cases h with
  | released hc _ hh =>
    rw [hchords, List.append_nil] at hc
    exact ⟨hh, by rw [hc]⟩
  | pressed _ hk => rw [hchords] at hk; cases hk

end

end Keyboard
end Spectrum.Loader
