import Mathlib.Data.List.Basic
import Mathlib.Tactic.Common
import Spectrum.Proofs.Loader.Keyboard

/-! # What the keyboard shows while chords are typed

Seen from outside, a keyboard is what a read of each half-row gives: a zero for a key that is down
and a one for any other.  Typing chords shows each of them once, in their order, with all keys up
behind each, and what is shown stays for a number of frames, however often the keyboard is advanced
in between and however far apart the frames are.

The end of a phase is a frame number of 64 bits.  Where the sum of a frame and the frames of a phase
does not fit, the phase is over at once; what is shown, and in which order, is the same.

Main definitions: `Key.reading`, `Keyboard.calls`, `Keyboard.Shown`.
Main statements: `Keyboard.read_eq_reading`, `Keyboard.shown_calls_queue`,
`Keyboard.not_forall_shown_calls`. -/

namespace Spectrum.Loader

/-! ### Half-rows -/

namespace Key

/-- The bits of a half-row while some keys are down: zeros for these, ones for the others. -/
def halfRow (down : List Key) (row : Fin 8) : UInt8 :=
  (List.finRange 5).foldl
    (fun bits column => if { row, column } ∈ down then bits else bits ||| bit { row, column }) 0

/-- What a read with `high` on the upper address lines gives while some keys are down: the bits that
are set in all half-rows that are selected. -/
def reading (down : List Key) (high : UInt8) : UInt8 :=
  ((List.finRange 8).filter fun row : Fin 8 => !high.bit (UInt8.ofNat row)).foldl
    (fun bits row => bits &&& halfRow down row) 0x1F

theorem getLsbD_bit (key : Key) {i : Nat} (hi : i < 8) :
    key.bit.toBitVec.getLsbD i = decide (key.column.val = i) := by
  have hall : ∀ (column : Fin 5) (i : Fin 8),
      (bit { row := 0, column }).toBitVec.getLsbD i = decide (column.val = i.val) := by
    decide
  exact hall key.column ⟨i, hi⟩

theorem getLsbD_halfRow (down : List Key) (row : Fin 8) {i : Nat} (hi : i < 8) :
    (halfRow down row).toBitVec.getLsbD i = true ↔
      ∃ column : Fin 5, column.val = i ∧ ({ row, column } : Key) ∉ down := by
  have hfold (columns : List (Fin 5)) (bits : UInt8) :
      (columns.foldl (fun bits column =>
          if ({ row, column } : Key) ∈ down then bits else bits ||| bit { row, column })
        bits).toBitVec.getLsbD i = true ↔
      bits.toBitVec.getLsbD i = true ∨
        ∃ column ∈ columns, column.val = i ∧ ({ row, column } : Key) ∉ down := by
    induction columns generalizing bits with
    | nil => simp
    | cons column columns ih =>
      rw [List.foldl_cons, ih]
      by_cases hdown : ({ row, column } : Key) ∈ down
      · simp [hdown]
      · simp [hdown, getLsbD_bit _ hi, or_assoc]
  rw [halfRow, hfold]
  simp

theorem getLsbD_reading (down : List Key) (high : UInt8) {i : Nat} (hi : i < 8) :
    (reading down high).toBitVec.getLsbD i = true ↔
      (0x1F : UInt8).toBitVec.getLsbD i = true ∧
        ∀ row : Fin 8, high.bit (UInt8.ofNat row) = false →
          ∃ column : Fin 5, column.val = i ∧ ({ row, column } : Key) ∉ down := by
  have hfold (rows : List (Fin 8)) (bits : UInt8) :
      (rows.foldl (fun bits row => bits &&& halfRow down row) bits).toBitVec.getLsbD i = true ↔
      bits.toBitVec.getLsbD i = true ∧
        ∀ row ∈ rows, (halfRow down row).toBitVec.getLsbD i = true := by
    induction rows generalizing bits with
    | nil => simp
    | cons row rows ih =>
      rw [List.foldl_cons, ih]
      simp [and_assoc]
  rw [reading, hfold]
  simp [getLsbD_halfRow down _ hi]

end Key

namespace Keyboard

theorem getLsbD_read (k : Keyboard) (high : UInt8) {i : Nat} (hi : i < 8) :
    (k.read high).toBitVec.getLsbD i = true ↔
      (0x1F : UInt8).toBitVec.getLsbD i = true ∧
        ∀ key ∈ k.held, key.selected high = true → key.column.val ≠ i := by
  have hfold (held : List Key) (bits : UInt8) :
      (held.foldl (fun v key => if key.selected high then v &&& ~~~key.bit else v)
        bits).toBitVec.getLsbD i = true ↔
      bits.toBitVec.getLsbD i = true ∧
        ∀ key ∈ held, key.selected high = true → key.column.val ≠ i := by
    induction held generalizing bits with
    | nil => simp
    | cons key held ih =>
      rw [List.foldl_cons, ih]
      by_cases hselected : key.selected high = true
      · have hclear : (bits &&& ~~~key.bit).toBitVec.getLsbD i = true ↔
            bits.toBitVec.getLsbD i = true ∧ key.column.val ≠ i := by
          rw [UInt8.toBitVec_and, UInt8.toBitVec_not, BitVec.getLsbD_and, BitVec.getLsbD_not,
            Key.getLsbD_bit key hi]
          simp [hi]
        rw [if_pos hselected, hclear]
        simp [hselected, and_assoc]
      · simp [hselected]
  exact hfold k.held 0x1F

theorem read_eq_reading (k : Keyboard) (high : UInt8) : k.read high = Key.reading k.held high := by
  refine UInt8.toBitVec_inj.mp (BitVec.eq_of_getLsbD_eq fun i hi => ?_)
  rw [Bool.eq_iff_iff, getLsbD_read k high hi, Key.getLsbD_reading k.held high hi]
  refine and_congr_right fun hbit => ?_
  have hcolumn : i < 5 := by
    by_contra hge
    have hhigh : ∀ j : Fin 8, 5 ≤ j.val → (0x1F : UInt8).toBitVec.getLsbD j = false := by decide
    rw [hhigh ⟨i, hi⟩ (Nat.not_lt.mp hge)] at hbit
    cases hbit
  constructor
  · intro h row hrow
    refine ⟨⟨i, hcolumn⟩, rfl, fun hmem => h _ hmem ?_ rfl⟩
    simpa [Key.selected] using hrow
  · intro h key hkey hselected heq
    obtain ⟨column, hi', hnot⟩ := h key.row (by simpa [Key.selected] using hselected)
    have hsame : column = key.column := Fin.ext (hi'.trans heq.symm)
    exact hnot (hsame ▸ hkey)

/-! ### Calls -/

/-- One advance: its frame, the keyboard that it leaves, and an error.  It reports whether the
keyboard is still typing. -/
structure Call where
  frame : UInt64
  keyboard : Keyboard
  error? : Option UnknownKey

/-- The advances in frames one after another, up to the first that reports the end of typing. -/
def calls (k : Keyboard) : List UInt64 → List Call
  | [] => []
  | frame :: rest =>
    let (k', error?) := k.advance frame
    { frame, keyboard := k', error? } :: if k'.typing then calls k' rest else []

/-- An advance that leaves just some keys down, and reports whether there is more to come. -/
structure Call.Shows (c : Call) (down : List Key) (more : Bool) : Prop where
  error?_eq : c.error? = none
  read_eq : ∀ high, c.keyboard.read high = Key.reading down high
  typing_eq : c.keyboard.typing = more

/-- The calls that show sets of keys one after another, each set from the call that brings it up to
the first one that comes `frames` later; the call that brings the last set ends typing.  There may
be fewer calls than that takes.  `Timed` holds of the frames for whose phases the time counts. -/
inductive Shown (Timed : UInt64 → Prop) (frames : UInt64) : List (List Key) → List Call → Prop
  | missing {turns : List (List Key)} : Shown Timed frames turns []
  | idle {c : Call} (h : c.Shows [] false) : Shown Timed frames [] [c]
  | last {c : Call} {down : List Key} (h : c.Shows down false) : Shown Timed frames [down] [c]
  | phase {c : Call} {stay later : List Call} {down next : List Key} {turns : List (List Key)}
      (h : c.Shows down true) (hstay : ∀ c' ∈ stay, c'.Shows down true)
      (htime : Timed c.frame →
        (∀ c' ∈ stay, c'.frame.toNat < c.frame.toNat + frames.toNat) ∧
        ∀ c' ∈ later.head?, c.frame.toNat + frames.toNat ≤ c'.frame.toNat)
      (hlater : Shown Timed frames (next :: turns) later) :
      Shown Timed frames (down :: next :: turns) (c :: (stay ++ later))

/-- The sets of keys that are to be shown for some chords. -/
def turns (chords : List (List String)) : List (List Key) :=
  chords.flatMap fun chord => [chordKeys chord, []]

/-- What a keyboard is still to show behind what it shows. -/
def remaining (k : Keyboard) : List (List Key) :=
  if k.pressing then [] :: turns k.chords.tail else turns k.chords

theorem remaining_eq_nil_iff (k : Keyboard) : k.remaining = [] ↔ k.typing = false := by
  unfold remaining typing
  cases k.pressing with
  | true => simp
  | false => cases k.chords <;> simp [turns]

/-- A phase that began in a frame lasts. -/
structure InPhase (k : Keyboard) (frames begun : UInt64) : Prop where
  started : k.started = true
  frames_eq : k.frames = frames
  phaseEnd_eq : k.phaseEnd = begun + frames

section

variable {Timed : UInt64 → Prop} {k k' : Keyboard} {frames frame begun : UInt64}

/-- While typing, an advance changes nothing before the end of a phase, and at its end brings what
is to be shown next. -/
theorem advance_cases (h : ∀ chord ∈ k.chords, Typable chord) (ht : k.typing = true)
    (frame : UInt64) :
    (k.started = true ∧ frame < k.phaseEnd ∧ k.advance frame = (k, none)) ∨
    ((k.started = true → k.phaseEnd ≤ frame) ∧ ∃ k', k.advance frame = (k', none) ∧
      k'.InPhase k.frames frame ∧ (∀ chord ∈ k'.chords, Typable chord) ∧
      k.remaining = k'.held :: k'.remaining) := by
  obtain ⟨herror, hadvances⟩ := k.advances h frame
  generalize hresult : k.advance frame = result at herror hadvances
  obtain ⟨k', error?⟩ := result
  obtain rfl : error? = none := herror
  dsimp only at hadvances
  cases hadvances with
  | stay hstay =>
    rcases hstay with hidle | ⟨hstarted, hlt⟩
    · rw [ht] at hidle
      cases hidle
    · exact .inl ⟨hstarted, hlt, rfl⟩
  | press hf hp hc =>
    refine .inr ⟨hf, _, rfl, ⟨rfl, rfl, rfl⟩, h, ?_⟩
    simp [remaining, hp, hc, turns]
  | release hf hp =>
    refine .inr ⟨hf, _, rfl, ⟨rfl, rfl, rfl⟩,
      fun chord hmem => h chord (List.mem_of_mem_tail hmem), ?_⟩
    simp [remaining, hp]

theorem calls_cons {error? : Option UnknownKey} (h : k.advance frame = (k', error?))
    (rest : List UInt64) :
    k.calls (frame :: rest) =
      { frame, keyboard := k', error? } :: if k'.typing then k'.calls rest else [] := by
  rw [calls, h]

/-- Calls that go on with what a phase shows as long as it lasts, and then with what is to come. -/
def Continues (Timed : UInt64 → Prop) (frames begun : UInt64) (down : List Key)
    (turns : List (List Key)) (calls : List Call) : Prop :=
  ∃ stay later, calls = stay ++ later ∧ (∀ c ∈ stay, c.Shows down true) ∧
    (Timed begun →
      (∀ c ∈ stay, c.frame.toNat < begun.toNat + frames.toNat) ∧
      ∀ c ∈ later.head?, begun.toNat + frames.toNat ≤ c.frame.toNat) ∧
    Shown Timed frames turns later

/-- A call that begins a phase, and the calls behind it. -/
theorem shown_of_begun (k' : Keyboard) (rest : List UInt64)
    (h : k'.typing = true → Continues Timed frames frame k'.held k'.remaining (k'.calls rest)) :
    Shown Timed frames (k'.held :: k'.remaining)
      ({ frame, keyboard := k', error? := none } :: if k'.typing then k'.calls rest else []) := by
  cases ht : k'.typing with
  | false =>
    rw [(remaining_eq_nil_iff k').mpr ht]
    exact .last ⟨rfl, k'.read_eq_reading, ht⟩
  | true =>
    obtain ⟨stay, later, hcalls, hstay, htime, hlater⟩ := h ht
    obtain ⟨next, turns, hturns⟩ := List.exists_cons_of_ne_nil
      (mt (remaining_eq_nil_iff k').mp (by simp [ht]))
    rw [hturns] at hlater ⊢
    rw [if_pos rfl, hcalls]
    exact .phase ⟨rfl, k'.read_eq_reading, ht⟩ hstay htime hlater

/-- A phase that has begun lasts for its frames, and then the next one begins.  The induction is on
the calls: one that comes too early leaves the keyboard as it is. -/
theorem continues_calls (hwrap : ∀ f, Timed f → (f + frames).toNat = f.toNat + frames.toNat)
    (rest : List UInt64) (hk : k.InPhase frames begun) (h : ∀ chord ∈ k.chords, Typable chord)
    (ht : k.typing = true) :
    Continues Timed frames begun k.held k.remaining (k.calls rest) := by
  induction rest generalizing k begun with
  | nil => exact ⟨[], [], rfl, by simp, by simp, .missing⟩
  | cons frame rest ih =>
    have hbegun (htimed : Timed begun) : k.phaseEnd.toNat = begun.toNat + frames.toNat := by
      rw [hk.phaseEnd_eq, hwrap begun htimed]
    rcases advance_cases h ht frame with ⟨-, hlt, heq⟩ | ⟨hend, k', heq, hk', h', hremaining⟩
    all_goals rw [calls_cons heq]
    · obtain ⟨stay, later, hcalls, hstay, htime, hlater⟩ := ih hk h ht
      have hcall : Call.Shows ⟨frame, k, none⟩ k.held true := ⟨rfl, k.read_eq_reading, ht⟩
      refine ⟨⟨frame, k, none⟩ :: stay, later, ?_, ?_, fun htimed => ?_, hlater⟩
      · rw [if_pos ht, hcalls, List.cons_append]
      · exact List.forall_mem_cons.mpr ⟨hcall, hstay⟩
      · refine ⟨List.forall_mem_cons.mpr ⟨?_, (htime htimed).1⟩, (htime htimed).2⟩
        rw [← hbegun htimed]
        exact UInt64.lt_iff_toNat_lt.mp hlt
    · refine ⟨[], _, rfl, by simp, fun htimed => ⟨by simp, fun c hc => ?_⟩, ?_⟩
      · have hframe : c.frame = frame := by
          rw [List.head?_cons] at hc
          rw [← Option.some.inj hc]
        rw [← hbegun htimed, hframe]
        exact UInt64.le_iff_toNat_le.mp (hend hk.started)
      · rw [hk.frames_eq] at hk'
        rw [hremaining]
        exact shown_of_begun k' rest fun ht' => ih hk' h' ht'

end

/-- On a keyboard that has typed nothing before, advances show the chords one after another, each
with all keys up behind it; the one that releases the last chord ends typing, and none fails.
Each set of keys stays up to the first advance that comes `frames` later, if the sum fits into 64
bits. -/
theorem shown_calls_queue {chords : List (List String)} (h : ∀ chord ∈ chords, Typable chord)
    (frames : UInt64) (rest : List UInt64) :
    Shown (fun f => f.toNat + frames.toNat < UInt64.size) frames (turns chords)
      ((({} : Keyboard).queue chords frames).calls rest) := by
  generalize hk : ({} : Keyboard).queue chords frames = k
  have hremaining : k.remaining = turns chords := by rw [← hk]; rfl
  have hframes : k.frames = frames := by rw [← hk]; rfl
  have hchords : ∀ chord ∈ k.chords, Typable chord := by rw [← hk]; exact h
  cases rest with
  | nil => exact .missing
  | cons frame rest =>
    rw [← hremaining]
    cases ht : k.typing with
    | false =>
      have hstay : k.advance frame = (k, none) := by
        rw [advance, ht]
        rfl
      have hheld : k.held = [] := by rw [← hk]; rfl
      rw [(remaining_eq_nil_iff k).mpr ht, calls_cons hstay, ht]
      exact .idle ⟨rfl, fun high => by rw [k.read_eq_reading, hheld], ht⟩
    | true =>
      rcases advance_cases hchords ht frame with
        ⟨hstarted, -, -⟩ | ⟨-, k', heq, hk', h', hremaining⟩
      · rw [← hk] at hstarted
        cases hstarted
      · rw [hframes] at hk'
        rw [calls_cons heq, hremaining]
        have hwrap (f : UInt64) (hf : f.toNat + frames.toNat < UInt64.size) :
            (f + frames).toNat = f.toNat + frames.toNat := by
          rw [UInt64.toNat_add, Nat.mod_eq_of_lt hf]
        exact shown_of_begun k' rest fun ht' => continues_calls hwrap rest hk' h' ht'

/-- Two chords of which the second has two keys, held and released for two frames each: advances in
one frame twice, in the next one, just in time, and far too late. -/
theorem shown_calls_queue_twoChords :
    (∀ chord ∈ [["J"], ["SS", "P"]], Typable chord) ∧
    Shown (fun f => f.toNat + (2 : UInt64).toNat < UInt64.size) 2
      [[⟨6, 3⟩], [], [⟨5, 0⟩, ⟨7, 1⟩], []]
      ((({} : Keyboard).queue [["J"], ["SS", "P"]] 2).calls [7, 7, 8, 9, 20, 21, 22, 23]) ∧
    ((({} : Keyboard).queue [["J"], ["SS", "P"]] 2).calls [7, 7, 8, 9, 20, 21, 22, 23]).map
      (fun c => (c.frame, c.keyboard.held, c.keyboard.typing)) =
      [(7, [⟨6, 3⟩], true), (7, [⟨6, 3⟩], true), (8, [⟨6, 3⟩], true), (9, [], true),
        (20, [⟨5, 0⟩, ⟨7, 1⟩], true), (21, [⟨5, 0⟩, ⟨7, 1⟩], true), (22, [], false)] := by
  have h : ∀ chord ∈ [["J"], ["SS", "P"]], Typable chord := by decide
  exact ⟨h, shown_calls_queue h 2 _, by decide⟩

/-- In the last frame that has a number, the end of a phase of one frame is the number zero: an
advance in the same frame releases the key, which should stay down to the next one. -/
theorem not_forall_shown_calls :
    ¬ ∀ (chords : List (List String)) (frames : UInt64) (rest : List UInt64),
      (∀ chord ∈ chords, Typable chord) → 1 ≤ frames → rest.Pairwise (· ≤ ·) →
        Shown (fun _ => True) frames (turns chords)
          ((({} : Keyboard).queue chords frames).calls rest) := by
  intro h
  have hshown := h [["A"]] 1 [0xFFFFFFFFFFFFFFFF, 0xFFFFFFFFFFFFFFFF] (by decide) (by decide)
    (by decide)
  generalize hcalls : (({} : Keyboard).queue [["A"]] 1).calls
    [0xFFFFFFFFFFFFFFFF, 0xFFFFFFFFFFFFFFFF] = calls at hshown
  generalize hturns : turns [["A"]] = turns at hshown
  have hframes : calls.map (·.frame) = [0xFFFFFFFFFFFFFFFF, 0xFFFFFFFFFFFFFFFF] := by
    rw [← hcalls]
    decide
  have htyping : calls.map (·.keyboard.typing) = [true, false] := by
    rw [← hcalls]
    decide
  cases hshown with
  | missing => simp at hframes
  | idle => simp [turns] at hturns
  | last => simp at hframes
  | @phase c stay later _ _ _ _ hstay htime _ =>
    cases stay with
    | nil =>
      obtain ⟨c', rfl⟩ : ∃ c', later = [c'] := by
        have hlength := congrArg List.length hframes
        simp only [List.map_cons, List.length_cons, List.length_map, List.length_nil] at hlength
        exact List.length_eq_one_iff.mp (Nat.succ.inj hlength)
      -- The second call comes in the same frame, so it is too early for the next set.
      simp only [List.nil_append, List.map_cons, List.cons.injEq] at hframes
      have hlate := (htime trivial).2 c' rfl
      rw [hframes.1, hframes.2.1] at hlate
      exact absurd hlate (by decide)
    | cons c' stay =>
      -- It shows the first set no more, since it reports the end.
      have hmore := (hstay c' List.mem_cons_self).typing_eq
      simp [hmore] at htyping

end Keyboard
end Spectrum.Loader
