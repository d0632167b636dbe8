import Mathlib.Tactic.Common
import Spectrum.Proofs.Loader.Move

/-! # What is known in a polling loop

The outcome of an iteration depends on single bits: the bit of the tape that is sampled, the same
bit of C, and the flags that they lead to.  A `View` says what is known of the accumulator, the
flags and R at some point of an iteration, and `View.after` what is known after a further move.

Main statements: `View.Holds.after`, `View.Holds.jumps`. -/

namespace Spectrum.Loader

open Z80

/-- What is known of the registers: the accumulator under a mask, single flags or all of them, and R
since the iteration began or since it was loaded. -/
structure View where
  mask : UInt8 := 0
  value : UInt8 := 0
  zero? : Option Bool := none
  carry? : Option Bool := none
  flags? : Option UInt8 := none
  loaded? : Option UInt8 := none
  refreshes : Nat := 0
deriving DecidableEq, Repr

namespace View

/-- A register file is as the view has it, with R as it was at first. -/
structure Holds (v : View) (r : UInt8) (f : RegisterFile) : Prop where
  value : f.a &&& v.mask = v.value
  zero : ∀ z ∈ v.zero?, f.flags.z = z
  carry : ∀ c ∈ v.carry?, f.flags.c = c
  flags : ∀ b ∈ v.flags?, f.af.low = b
  r : f.r = refreshed (v.loaded?.getD r) v.refreshes

/-- At first nothing need be known. -/
theorem holds_nothing (f : RegisterFile) : Holds {} f.r f where
  value := UInt8.and_zero
  zero := fun _ h => nomatch h
  carry := fun _ h => nomatch h
  flags := fun _ h => nomatch h
  r := (refreshed_zero f.r).symm

theorem Holds.congr {v : View} {r : UInt8} {f g : RegisterFile} (h : v.Holds r f)
    (haf : g.af = f.af) (hr : g.r = f.r) : v.Holds r g := by
  have hflags : g.flags = f.flags := by
    unfold RegisterFile.flags
    rw [haf]
  have ha : g.a = f.a := by
    unfold RegisterFile.a
    rw [haf]
  exact
    { value := by rw [ha, h.value]
      zero := by rw [hflags]; exact h.zero
      carry := by rw [hflags]; exact h.carry
      flags := by rw [haf]; exact h.flags
      r := hr.trans h.r }

/-- What is known after the effect of a move, if C is `c` under a mask, the known bits of a sample
are those of `byte`, and the counter may be known not to come to zero.  Moves that no loop makes are
not followed. -/
def act (mask c known byte : UInt8) (nonzero : Bool) (v : View) : Move → Option View
  | .ret _ | .jr _ _ | .jp _ | .copy | .nop => some v
  | .count _ => some { v with zero? := if nonzero then some false else none, flags? := none }
  | .load n => some { v with mask := 0xFF, value := n }
  | .loadDirect _ => some { v with mask := 0, value := 0 }
  | .sample => some { v with mask := known, value := byte }
  | .rotate long =>
    some { v with
      mask := v.mask >>> 1 ||| v.carry?.isSome.toUInt8 <<< 7
      value := v.value >>> 1 ||| (v.carry?.getD false).toUInt8 <<< 7
      zero? := if long then none else v.zero?
      carry? := if v.mask.bit 0 then some (v.value.bit 0) else none
      flags? := none }
  | .combine .xor .a =>
    some { v with mask := 0xFF, value := 0, zero? := none, carry? := some false, flags? := none }
  | .combine .or .a | .combine .and .a =>
    some { v with zero? := none, carry? := some false, flags? := none }
  | .combine .xor .c =>
    some { v with
      mask := v.mask &&& mask
      value := (v.value ^^^ c) &&& (v.mask &&& mask)
      zero? := none
      carry? := some false
      flags? := none }
  | .combineWith .and n =>
    if v.mask &&& n = n then
      some { v with
        mask := 0xFF
        value := v.value &&& n
        zero? := some (v.value &&& n == 0)
        carry? := some false
        flags? := some (Alu.and v.value n).2.toByte }
    else none
  | .combineWith .sub n =>
    if n = 0 then some { v with zero? := none, carry? := none, flags? := none } else none
  | .setCarry => some { v with carry? := some true, flags? := none }
  | .storeR =>
    if v.mask = 0xFF then some { v with loaded? := some v.value, refreshes := 0 } else none
  | _ => none

/-- What is known after a move. -/
def after (mask c known byte : UInt8) (nonzero : Bool) (v : View) (move : Move) : Option View :=
  { v with refreshes := v.refreshes + move.fetches }.act mask c known byte nonzero move

/-- Whether a move jumps, as far as this is known. -/
def jumps? (v : View) : Move → Option Bool
  | .ret cc | .jr cc _ | .jp cc =>
    match cc with
    | .z => v.zero?
    | .nz => v.zero?.map not
    | .c => v.carry?
    | .nc => v.carry?.map not
    | _ => none
  | _ => some false

/-- A jump goes the way that the view has it. -/
theorem Holds.jumps {v : View} {r : UInt8} {f : RegisterFile} (h : v.Holds r f) {move : Move}
    {b : Bool} (hb : v.jumps? move = some b) : move.jumps f.flags = b := by
  have hcc : ∀ cc : Condition, (match cc with
      | .z => v.zero?
      | .nz => v.zero?.map not
      | .c => v.carry?
      | .nc => v.carry?.map not
      | _ => none) = some b → cc.holds f.flags = b := by
    intro cc hcc
    cases cc with
    | z => exact h.zero b hcc
    | nz =>
      obtain ⟨z, hz, rfl⟩ := Option.map_eq_some_iff.mp hcc
      exact congrArg not (h.zero z hz)
    | c => exact h.carry b hcc
    | nc =>
      obtain ⟨c, hc, rfl⟩ := Option.map_eq_some_iff.mp hcc
      exact congrArg not (h.carry c hc)
    | po | pe | p | m => cases hcc
  cases move with
  | ret cc => exact hcc cc hb
  | jr cc d => exact hcc cc hb
  | jp cc => exact hcc cc hb
  | _ => exact Option.some.inj hb

/-! ### Bits of bytes -/

/-- The bits that are known of a byte rotated to the right through the carry. -/
theorem rotate_and (x m : UInt8) {c : Bool} {c? : Option Bool} (hc : ∀ b ∈ c?, c = b) :
    (x >>> 1 ||| c.toUInt8 <<< 7) &&& (m >>> 1 ||| c?.isSome.toUInt8 <<< 7) =
      (x &&& m) >>> 1 ||| (c?.getD false).toUInt8 <<< 7 := by
  have htop : ∀ i (hi : i < 8), i = 7 ∨ (128#8)[i] = false := by decide
  apply UInt8.toBitVec_inj.mp
  cases c? with
  | none =>
    cases c <;> ext i hi <;> rcases htop i hi with rfl | h <;> simp [*]
  | some b =>
    obtain rfl := hc b rfl
    cases c <;> ext i hi <;> rcases htop i hi with rfl | h <;> simp [*]

theorem xor_and (x c m k : UInt8) :
    (x ^^^ c) &&& (m &&& k) = ((x &&& m) ^^^ (c &&& k)) &&& (m &&& k) := by
  apply UInt8.toBitVec_inj.mp
  ext i hi
  cases hx : x.toBitVec[i] <;> cases hm : m.toBitVec[i] <;> cases hk : k.toBitVec[i] <;>
    simp [hx, hm, hk]

theorem bit_zero_and {x m : UInt8} (h : m.bit 0 = true) : (x &&& m).bit 0 = x.bit 0 := by
  have hm : m &&& 1 = 1 := by
    revert h
    exact UInt8.of_fin (P := fun m => m.bit 0 = true → m &&& 1 = 1) (by decide +kernel) m
  unfold UInt8.bit
  rw [UInt8.shiftRight_zero, UInt8.shiftRight_zero, UInt8.and_assoc, hm]

/-! ### Moves -/

section

variable {v w : View} {r mask c known byte taken : UInt8} {nonzero : Bool} {f : RegisterFile}

theorem Holds.refresh (h : v.Holds r f) (n : Nat) :
    { v with refreshes := v.refreshes + n }.Holds r (f.refresh n) where
  value := h.value
  zero := h.zero
  carry := h.carry
  flags := h.flags
  r := by
    rw [← refreshed_refreshed, ← h.r]
    rfl

/-- What is known of the accumulator and the flags when both are replaced. -/
theorem holds_setResult {p : UInt8 × Flags} (hr : f.r = refreshed (w.loaded?.getD r) w.refreshes)
    (hvalue : p.1 &&& w.mask = w.value) (hzero : ∀ z ∈ w.zero?, p.2.z = z)
    (hcarry : ∀ c ∈ w.carry?, p.2.c = c) (hflags : ∀ b ∈ w.flags?, p.2.toByte = b) :
    w.Holds r (f.setResult p) where
  value := by rw [RegisterFile.a_setResult, hvalue]
  zero := by rw [RegisterFile.flags_setResult]; exact hzero
  carry := by rw [RegisterFile.flags_setResult]; exact hcarry
  flags := by
    unfold RegisterFile.setResult
    rw [UInt16.low_join]
    exact hflags
  r := hr

/-- What is known when the accumulator is replaced. -/
theorem Holds.set8_a (h : v.Holds r f) {x mask value : UInt8} (hx : x &&& mask = value) :
    { v with mask, value }.Holds r (f.set8 .a x) where
  value := by rw [RegisterFile.a_set8_a, hx]
  zero := by rw [RegisterFile.flags_set8_a]; exact h.zero
  carry := by rw [RegisterFile.flags_set8_a]; exact h.carry
  flags := by
    unfold RegisterFile.set8
    rw [UInt16.low_withHigh]
    exact h.flags
  r := h.r

/-- What is known when the flags are replaced. -/
theorem Holds.setFlags (h : v.Holds r f) (g : Flags) (zero? : Option Bool) {carry? : Option Bool}
    (hzero : ∀ z ∈ zero?, g.z = z) (hcarry : ∀ c ∈ carry?, g.c = c) :
    { v with zero?, carry?, flags? := none }.Holds r (f.setFlags g) where
  value := by rw [RegisterFile.a_setFlags]; exact h.value
  zero := by rw [RegisterFile.flags_setFlags]; exact hzero
  carry := by rw [RegisterFile.flags_setFlags]; exact hcarry
  flags := fun _ hb => nomatch hb
  r := h.r

theorem Holds.count (h : v.Holds r f) {down : Bool}
    (hb : nonzero = true → ((Move.count down).act taken f).bc.high ≠ 0) :
    { v with zero? := if nonzero then some false else none, flags? := none }.Holds r
      ((Move.count down).act taken f) := by
  have hcount : ∀ x : UInt8, ∀ g : Flags, g.z = (x == 0) → g.c = f.flags.c →
      (nonzero = true → x ≠ 0) →
      { v with zero? := if nonzero then some false else none, flags? := none }.Holds r
        ((f.setFlags g).set8 .b x) := by
    intro x g hz hc hx
    refine (h.setFlags g (if nonzero then some false else none) ?_ ?_).congr rfl rfl
    · intro z hm
      split at hm
      · rename_i hn
        cases hm
        rw [hz]
        simpa using hx hn
      · cases hm
    · rw [hc]
      exact h.carry
  cases down with
  | false =>
    obtain ⟨-, hz, hc⟩ := Alu.inc_eq f.bc.high f.flags
    refine hcount _ _ hz hc fun hn => ?_
    have := hb hn
    unfold Move.act RegisterFile.set8 at this
    rwa [UInt16.high_withHigh] at this
  | true =>
    obtain ⟨-, hz, hc⟩ := Alu.dec_eq f.bc.high f.flags
    refine hcount _ _ hz hc fun hn => ?_
    have := hb hn
    unfold Move.act RegisterFile.set8 at this
    rwa [UInt16.high_withHigh] at this

theorem Holds.rotate (h : v.Holds r f) (long : Bool) :
    { v with
      mask := v.mask >>> 1 ||| v.carry?.isSome.toUInt8 <<< 7
      value := v.value >>> 1 ||| (v.carry?.getD false).toUInt8 <<< 7
      zero? := if long then none else v.zero?
      carry? := if v.mask.bit 0 then some (v.value.bit 0) else none
      flags? := none }.Holds r ((Move.rotate long).act taken f) := by
  have hvalue := rotate_and f.a v.mask h.carry
  rw [h.value] at hvalue
  have hout : ∀ b ∈ (if v.mask.bit 0 then some (v.value.bit 0) else none), f.a.bit 0 = b := by
    intro b hb
    split at hb
    · rename_i hm
      cases hb
      rw [← h.value, bit_zero_and hm]
    · cases hb
  cases long with
  | false => exact holds_setResult h.r hvalue h.zero hout fun _ hb => nomatch hb
  | true =>
    have hf := h.setFlags (Alu.shift .rr f.a f.flags).2 none (fun _ hz => nomatch hz) hout
    exact hf.set8_a hvalue

theorem Holds.combine (h : v.Holds r f) {op : Arithmetic} {q : Reg8} (hc : f.bc.low &&& mask = c)
    (hw : v.act mask c known byte nonzero (.combine op q) = some w) :
    w.Holds r ((Move.combine op q).act taken f) := by
  cases op with
  | xor =>
    cases q with
    | a =>
      cases hw
      refine holds_setResult h.r ?_ (fun _ hz => nomatch hz) ?_ fun _ hb => nomatch hb
      · show (f.a ^^^ f.a) &&& 0xFF = 0
        rw [UInt8.xor_self, UInt8.zero_and]
      · rintro _ ⟨⟩
        rfl
    | c =>
      cases hw
      refine holds_setResult h.r ?_ (fun _ hz => nomatch hz) ?_ fun _ hb => nomatch hb
      · show (f.a ^^^ f.bc.low) &&& (v.mask &&& mask) = _
        rw [xor_and, h.value, hc]
      · rintro _ ⟨⟩
        rfl
    | _ => cases hw
  | or =>
    cases q with
    | a =>
      cases hw
      refine holds_setResult h.r ?_ (fun _ hz => nomatch hz) ?_ fun _ hb => nomatch hb
      · show (f.a ||| f.a) &&& v.mask = v.value
        rw [UInt8.or_self, h.value]
      · rintro _ ⟨⟩
        rfl
    | _ => cases hw
  | and =>
    cases q with
    | a =>
      cases hw
      refine holds_setResult h.r ?_ (fun _ hz => nomatch hz) ?_ fun _ hb => nomatch hb
      · show (f.a &&& f.a) &&& v.mask = v.value
        rw [UInt8.and_self, h.value]
      · rintro _ ⟨⟩
        rfl
    | _ => cases hw
  | _ => cases hw

theorem Holds.combineWith (h : v.Holds r f) {op : Arithmetic} {n : UInt8}
    (hw : v.act mask c known byte nonzero (.combineWith op n) = some w) :
    w.Holds r ((Move.combineWith op n).act taken f) := by
  cases op with
  | and =>
    obtain ⟨hn, hw⟩ := Option.ite_none_right_eq_some.mp hw
    cases hw
    have hvalue : f.a &&& n = v.value &&& n := by
      rw [← h.value, UInt8.and_assoc, hn]
    have hflags : (Alu.and f.a n).2 = (Alu.and v.value n).2 := by
      unfold Alu.and
      rw [hvalue]
    refine holds_setResult h.r ?_ ?_ ?_ ?_
    · show f.a &&& n &&& 0xFF = v.value &&& n
      rw [hvalue]
      exact UInt8.and_neg_one
    · rintro _ ⟨⟩
      show (f.a &&& n == 0) = _
      rw [hvalue]
    · rintro _ ⟨⟩
      rfl
    · rintro _ ⟨⟩
      exact congrArg Flags.toByte hflags
  | sub =>
    obtain ⟨rfl, hw⟩ := Option.ite_none_right_eq_some.mp hw
    cases hw
    refine holds_setResult h.r ?_ (fun _ hz => nomatch hz) (fun _ hc => nomatch hc)
      fun _ hb => nomatch hb
    have hsub : (Alu.sub f.a 0 false).1 = f.a := by
      simp [Alu.sub, show false.toUInt16 = 0 from rfl]
    show (Alu.sub f.a 0 false).1 &&& v.mask = v.value
    rw [hsub, h.value]
  | _ => cases hw

/-- What is known after the effect of a move holds after it. -/
theorem Holds.act (h : v.Holds r f) {move : Move} (hc : f.bc.low &&& mask = c)
    (ht : move = .sample → taken &&& known = byte)
    (hb : ∀ down, move = .count down → nonzero = true → (move.act taken f).bc.high ≠ 0)
    (hw : v.act mask c known byte nonzero move = some w) : w.Holds r (move.act taken f) := by
  cases move with
  | ret | jr | jp | nop =>
    cases hw
    exact h
  | copy =>
    cases hw
    show v.Holds r (f.set8 .a f.a)
    rw [RegisterFile.set8_a_self]
    exact h
  | count =>
    cases hw
    exact h.count (hb _ rfl)
  | load =>
    cases hw
    exact h.set8_a UInt8.and_neg_one
  | loadDirect =>
    cases hw
    exact h.set8_a UInt8.and_zero
  | sample =>
    cases hw
    exact h.set8_a (ht rfl)
  | rotate =>
    cases hw
    exact h.rotate _
  | combine => exact h.combine hc hw
  | combineWith => exact h.combineWith hw
  | setCarry =>
    cases hw
    refine h.setFlags _ _ h.zero ?_
    rintro _ ⟨⟩
    rfl
  | storeR =>
    obtain ⟨hm, hw⟩ := Option.ite_none_right_eq_some.mp hw
    cases hw
    have ha := h.value
    rw [hm] at ha
    refine ⟨h.value, h.zero, h.carry, h.flags, ?_⟩
    show f.a = refreshed v.value 0
    rw [refreshed_zero, ← ha]
    exact UInt8.and_neg_one.symm

/-- What is known after a move holds after it. -/
theorem Holds.after (h : v.Holds r f) {move : Move} (hc : f.bc.low &&& mask = c)
    (ht : move = .sample → taken &&& known = byte)
    (hb : ∀ down, move = .count down → nonzero = true →
      (move.act taken (f.refresh move.fetches)).bc.high ≠ 0)
    (hw : v.after mask c known byte nonzero move = some w) :
    w.Holds r (move.act taken (f.refresh move.fetches)) :=
  (h.refresh move.fetches).act hc ht hb hw

end

end View
end Spectrum.Loader
