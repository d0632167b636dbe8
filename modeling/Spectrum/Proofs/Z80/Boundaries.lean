import Mathlib.Tactic.Common
import Spectrum.Proofs.Text.Hexadecimal
import Spectrum.Proofs.Z80.Kept
import Spectrum.Z80.Listing

/-! # Listings tell where a program goes on

A listing says of the four bytes at the program counter how many of them an instruction takes and,
of a jump, a call or a restart, where it leads.  The processor goes there: behind the instruction
unless its mnemonic is one of `transferMnemonics`, and to the address that is spelled out if the
transfer is made.

Main statements: `Operation.pc_execute_of_taken`, `Instruction.target?_line`,
`Machine.step_agrees_with_listing`. -/

namespace Spectrum

namespace Z80

open Text

/-! ### Transfers -/

/-- The mnemonics of jumps, calls, returns and restarts, of HALT and of the block instructions that
repeat. -/
def transferMnemonics : List String :=
  ["JP", "JR", "DJNZ", "CALL", "RET", "RETI", "RETN", "RST", "HALT",
    "LDIR", "LDDR", "CPIR", "CPDR", "INIR", "INDR", "OTIR", "OTDR"]

namespace Operation

theorem transfers_iff (op : Operation) :
    op.transfers = true ↔ op.mnemonic ∈ transferMnemonics := by
  cases op with
  | block kind direction repeats =>
    cases kind <;> cases direction <;> cases repeats <;> decide
  | halt | jp | jpRegister | jr | djnz | call | ret | reti | retn | rst =>
    rw [mnemonic]
    exact iff_of_true rfl (by decide)
  | arithmetic op | rotate op | shift op =>
    refine iff_of_false Bool.false_ne_true ?_
    cases op <;> rw [mnemonic] <;> decide
  | _ =>
    rw [mnemonic]
    exact iff_of_false Bool.false_ne_true (by decide)

/-- Whether a transfer to an address that the instruction gives is made. -/
def taken (c : Cpu) : Operation → Bool
  | .jp condition _ | .jr condition _ | .call condition _ => condition.all (·.holds c.flags)
  | .djnz _ => c.bc.high - 1 != 0
  | .rst _ => true
  | _ => false

/-- The address that an instruction gives, behind which the one at `next` follows. -/
def target? (next : UInt16) : Operation → Option UInt16
  | .jp _ address | .call _ address | .rst address => some address
  | .jr _ d | .djnz d => some (next + d.displacement)
  | _ => none

theorem pc_execute_of_taken {op : Operation} {e : Execution} (answer : UInt16 → UInt8)
    (start : UInt16) (h : op.taken e.machine.cpu = true) :
    some (op.execute answer start e).2.machine.cpu.pc = op.target? e.machine.cpu.pc := by
  cases op with
  | jp condition address =>
    cases condition with
    | none => rfl
    | some cc =>
      rw [execute_jp answer start address h]
      rfl
  | jr condition d =>
    cases condition with
    | none => rfl
    | some cc =>
      rw [execute_jr answer start d h]
      rfl
  | djnz d =>
    have hx : (djnz d).execute answer start e =
        (if e.machine.cpu.bc.high - 1 != 0 then Exec.jumpBy d else pure ())
          { e with
            machine := e.machine.mapCpu (·.mapFile (·.set8 .b (e.machine.cpu.bc.high - 1)))
            cost := e.cost + 1 } := rfl
    rw [hx, if_pos (show (e.machine.cpu.bc.high - 1 != 0) = true from h)]
    rfl
  | call condition address =>
    cases condition with
    | none => rfl
    | some cc =>
      have hx : (call (some cc) address).execute answer start e =
          (if cc.holds e.machine.cpu.flags = true then
            (do Exec.callTo address; Exec.setWz address : Exec Unit)
          else Exec.setWz address) e := rfl
      rw [hx, if_pos (show cc.holds e.machine.cpu.flags = true from h)]
      rfl
  | rst address => rfl
  | _ => exact absurd h Bool.false_ne_true

end Operation

/-! ### Addresses in listings -/

/-- The last operand of a listed instruction as a number. -/
def Line.target? (line : Line) : Option Nat := (fields ',' line.operands).getLast?.bind integer?

theorem Line.target?_of_operands {line : Line} (condition : Option Condition) {operand : String}
    (hcomma : ',' ∉ operand.toList) (h : line.operands = conditional condition operand) :
    line.target? = integer? operand := by
  have hlast : (fields ',' line.operands).getLast? = some operand := by
    cases condition with
    | none =>
      rw [h, conditional, fields, splitOn_of_not_mem hcomma]
      simp
    | some cc =>
      have hchars : (conditional (some cc) operand).toList =
          cc.text.toList ++ ',' :: operand.toList := by
        simp [conditional, operandPair]
      rw [h, fields, hchars, List.getLast?_map, getLast?_splitOn _ hcomma]
      simp
  rw [target?, hlast]
  rfl

theorem Line.target?_of_word {line : Line} (condition : Option Condition) {address : UInt16}
    (h : line.operands = conditional condition (wordText address)) :
    line.target? = some address.toNat := by
  have hcomma : ',' ∉ (wordText address).toList := by
    have hdigits := comma_not_mem_hexDigits address.toNat 4 (List.not_mem_nil (a := ','))
    simpa [wordText, hex16] using hdigits
  exact (Line.target?_of_operands condition hcomma h).trans (integer?_hex16 address)

theorem Line.target?_of_byte {line : Line} {b : UInt8} (h : line.operands = byteText b) :
    line.target? = some b.toNat := by
  have hcomma : ',' ∉ (byteText b).toList := by
    have hdigits := comma_not_mem_hexDigits b.toNat 2 (List.not_mem_nil (a := ','))
    simpa [byteText, hex8] using hdigits
  exact (Line.target?_of_operands none hcomma h).trans (integer?_hex8 b)

/-- The address that an instruction gives is the last operand of its listing.  That of a restart is
listed as a byte, which is enough for the first addresses. -/
theorem Instruction.target?_line {i : Instruction} {address a : UInt16}
    (hrst : ∀ a, i.operation = .rst a → a.toNat < 256)
    (ha : i.operation.target? (address + UInt16.ofNat i.length) = some a) :
    (i.line address).target? = some a.toNat := by
  have hoperands : (i.line address).operands =
      i.operation.operands (address + UInt16.ofNat i.length) := rfl
  cases hop : i.operation with
  | jp condition | call condition | jr condition =>
    rw [hop] at ha hoperands
    obtain rfl := Option.some.inj ha
    exact Line.target?_of_word condition hoperands
  | djnz d =>
    rw [hop] at ha hoperands
    obtain rfl := Option.some.inj ha
    exact Line.target?_of_word none hoperands
  | rst address =>
    rw [hop] at ha hoperands
    obtain rfl := Option.some.inj ha
    have hlow : address.low.toNat = address.toNat :=
      address.toNat_low.trans (Nat.mod_eq_of_lt (hrst address hop))
    exact (Line.target?_of_byte hoperands).trans (congrArg some hlow)
  | _ =>
    rw [hop] at ha
    cases ha

end Z80

namespace Machine

open Z80

/-- The listing of the four bytes at the program counter, wrapping at the top of memory. -/
def listing (m : Machine) : Line :=
  let pc := m.cpu.pc
  disassemble (m.read pc) (m.read (pc + 1)) (m.read (pc + 2)) (m.read (pc + 3)) pc

/-- The instruction at the program counter takes as many bytes as its listing says; unless the
listing is that of a transfer the program goes on behind them; and if it is a jump, a call or a
restart to an address, and the jump is made, the program goes on at the address that is listed. -/
theorem step_agrees_with_listing (m : Machine) (answer : UInt16 → UInt8) :
    let after := m.step answer
    after.2.length = m.listing.length ∧
      (m.listing.mnemonic ∉ transferMnemonics →
        after.1.cpu.pc = m.cpu.pc + UInt16.ofNat m.listing.length) ∧
      (m.fetch.1.operation.taken m.cpu = true →
        m.listing.target? = some after.1.cpu.pc.toNat) := by
  intro after
  let i := m.instructionAt m.cpu.pc
  have hlisting : m.listing = i.line m.cpu.pc := rfl
  have hfetch : m.fetch.1 = i := congrArg Prod.fst (Instruction.fetch_eq m m.cpu.pc)
  refine ⟨m.length_step answer, fun hm => m.pc_step answer ?_, fun ht => ?_⟩
  · exact Bool.eq_false_iff.mpr fun htransfers => hm (i.operation.transfers_iff.mp htransfers)
  · have hpc := Operation.pc_execute_of_taken (e := m.fetched i) answer m.cpu.pc (hfetch ▸ ht)
    rw [hlisting]
    refine Instruction.target?_line (fun a ha => ?_) ?_
    · exact Nat.lt_trans (Instruction.toNat_lt_of_decode_eq_rst _ _ _ _ ha) (by decide)
    · show _ = some (m.step answer).1.cpu.pc
      rw [m.step_eq_carriedOut answer]
      exact hpc.symm

/-- A machine at the top of memory, in front of some code that goes on at the bottom. -/
def wrapping (code : List UInt8) : Machine where
  cpu := { Cpu.powerOn with pc := 0xFFFF }
  memory := Memory.blank.writeAll 0xFFFF code

/-- LD A,7 goes on behind its second byte, and JR over two bytes back comes to itself. -/
theorem step_agrees_with_listing_wrapping :
    let loading := wrapping [0x3E, 0x07]
    let jumping := wrapping [0x18, 0xFE]
    loading.listing = ⟨2, "LD", "A,$07"⟩ ∧ "LD" ∉ transferMnemonics ∧
      (loading.step fun _ => 0xFF).1.cpu.pc = 0x0001 ∧
      jumping.listing = ⟨2, "JR", "$FFFF"⟩ ∧ jumping.fetch.1.operation.taken jumping.cpu = true ∧
      jumping.listing.target? = some (jumping.step fun _ => 0xFF).1.cpu.pc.toNat := by
  intro loading jumping
  have hline : loading.listing = ⟨2, "LD", "A,$07"⟩ := by decide +kernel
  have hjump : jumping.listing = ⟨2, "JR", "$FFFF"⟩ := by decide +kernel
  have hname : "LD" ∉ transferMnemonics := by decide
  have htaken : jumping.fetch.1.operation.taken jumping.cpu = true := by decide +kernel
  have hloading := (loading.step_agrees_with_listing fun _ => 0xFF).2.1 (hline ▸ hname)
  rw [hline] at hloading
  have hjumping := (jumping.step_agrees_with_listing fun _ => 0xFF).2.2 htaken
  have hnext : (0xFFFF : UInt16) + UInt16.ofNat 2 = 0x0001 := by decide
  exact ⟨hline, hname, hloading.trans hnext, hjump, htaken, hjumping⟩

end Machine
end Spectrum
