import Mathlib.Tactic.Common
import Spectrum.Proofs.Z80.Boundaries
import Spectrum.Proofs.Z80.Fetching
import Spectrum.Proofs.Z80.Operands

/-! # Reports tell what was executed

A report of an instruction keeps the bytes that were fetched and no others, and its text is spelled
out with zeros in the place of the others.  A fetch depends on the bytes that it takes alone, so
these zeros do not show.  There is one exception: an index prefix that stands alone is told by the
byte behind it, which is looked at and not fetched.

Main definition: `Fetch.TakesAt`.
Main statements: `Machine.instructionAt_congr`, `Machine.report_of_step`. -/

namespace Spectrum

/-- The bytes of two stretches in a row. -/
theorem Machine.bytesAt_add (m : Machine) (a : UInt16) (i j : Nat) :
    m.bytesAt a (i + j) = m.bytesAt a i ++ m.bytesAt (a + UInt16.ofNat i) j := by
  induction j with
  | zero => exact (List.append_nil _).symm
  | succ j ih =>
    rw [← Nat.add_assoc, Z80.Cursor.bytesAt_succ, Z80.Cursor.bytesAt_succ, ih, List.append_assoc,
      UInt16.add_assoc, UInt16.ofNat_add]

namespace Z80

/-! ### What a fetch depends on -/

namespace Fetch

variable {α β : Type} {x : Fetch α} {m : Machine} {c : Cursor}

/-- A part of a fetch takes the next `n` bytes, and would do the same wherever these stand. -/
structure TakesAt (x : Fetch α) (m : Machine) (c : Cursor) (n : Nat) : Prop where
  address : (x m c).2.address = c.address + UInt16.ofNat n
  bytes : (x m c).2.bytes.length = c.bytes.length + n
  same : ∀ m' : Machine, m'.bytesAt c.address n = m.bytesAt c.address n → x m' c = x m c

/-- A part of a fetch depends on nothing but the bytes that it takes. -/
def Takes (x : Fetch α) : Prop := ∀ m c, ∃ n, TakesAt x m c n

theorem takesAt_pure (a : α) : TakesAt (pure a) m c 0 where
  address := (UInt16.add_zero c.address).symm
  bytes := rfl
  same := fun _ _ => rfl

theorem TakesAt.bind {f : α → Fetch β} {i j : Nat} (hx : TakesAt x m c i)
    (hf : TakesAt (f (x m c).1) m (x m c).2 j) : TakesAt (x >>= f) m c (i + j) where
  address := by
    have haddress : ((x >>= f) m c).2.address = _ := hf.address
    rw [haddress, hx.address, UInt16.ofNat_add, UInt16.add_assoc]
  bytes := by
    have hbytes : ((x >>= f) m c).2.bytes.length = _ := hf.bytes
    rw [hbytes, hx.bytes, Nat.add_assoc]
  same m' h := by
    rw [Machine.bytesAt_add, Machine.bytesAt_add] at h
    obtain ⟨hi, hj⟩ := List.append_inj h (by rw [m'.length_bytesAt, m.length_bytesAt])
    have hxm := hx.same m' hi
    have hfm := hf.same m' (hx.address ▸ hj)
    show f (x m' c).1 m' (x m' c).2 = f (x m c).1 m (x m c).2
    rw [hxm, hfm]

theorem takesAt_byte : TakesAt byte m c 1 where
  address := rfl
  bytes := rfl
  same m' h := by
    have hread : m'.read c.address = m.read c.address := (List.cons.inj h).1
    show (m'.read c.address, _) = (m.read c.address, _)
    rw [hread]

theorem takesAt_opcode : TakesAt opcode m c 1 where
  address := rfl
  bytes := rfl
  same m' h := by
    have hopcode (m : Machine) : opcode m c =
        ((byte m c).1, { (byte m c).2 with opcodes := (byte m c).2.opcodes + 1 }) := rfl
    rw [hopcode, hopcode, takesAt_byte.same m' h]

/-- What looks at the next byte first may depend on it, if it takes the byte anyway. -/
theorem TakesAt.of_peek {y : Fetch α} {n : Nat} (hy : TakesAt y m c (1 + n))
    (h : ∀ m' : Machine, m'.read c.address = m.read c.address → x m' c = y m' c) :
    TakesAt x m c (1 + n) where
  address := by rw [h m rfl, hy.address]
  bytes := by rw [h m rfl, hy.bytes]
  same m' hm := by
    have hread : m'.bytesAt c.address 1 = m.bytesAt c.address 1 := by
      rw [Machine.bytesAt_add, Machine.bytesAt_add] at hm
      exact (List.append_inj hm rfl).1
    rw [h m' (List.cons.inj hread).1, h m rfl, hy.same m' hm]

theorem takes_pure (a : α) : Takes (pure a) := fun _ _ => ⟨0, takesAt_pure a⟩

theorem Takes.bind {f : α → Fetch β} (hx : Takes x) (hf : ∀ a, Takes (f a)) : Takes (x >>= f) := by
  intro m c
  obtain ⟨i, hi⟩ := hx m c
  obtain ⟨j, hj⟩ := hf (x m c).1 m (x m c).2
  exact ⟨i + j, hi.bind hj⟩

theorem takes_byte : Takes byte := fun _ _ => ⟨1, takesAt_byte⟩

theorem takes_opcode : Takes opcode := fun _ _ => ⟨1, takesAt_opcode⟩

theorem takes_word : Takes word := takes_byte.bind fun _ => takes_byte.bind fun _ => takes_pure _

theorem takes_memory (index : Option Index) : Takes (memory index) := by
  cases index with
  | none => exact takes_pure _
  | some index => exact takes_byte.bind fun _ => takes_pure _

end Fetch

open Fetch

theorem OpcodeKind.takes_fetch (index : Option Index) (opcode : UInt8) (kind : OpcodeKind) :
    Takes (kind.fetch index opcode) := by
  cases kind with
  | ldLiteral | arithmeticLiteral | jr | jrIf | djnz | inLiteral | outLiteral =>
    exact takes_byte.bind fun _ => takes_pure _
  | loadDirect | storeDirect | ldWord | loadHl | storeHl | jp | jpIf | call | callIf | ldWordDirect
  | storeWordDirect =>
    exact takes_word.bind fun _ => takes_pure _
  | ldMemory | storeMemory | arithmeticMemory | incMemory | decMemory =>
    exact (takes_memory index).bind fun _ => takes_pure _
  | storeMemoryLiteral =>
    exact (takes_memory index).bind fun _ => takes_byte.bind fun _ => takes_pure _
  | _ => exact takes_pure _

namespace Instruction

theorem takes_fetchIndexed (index : Index) (opcode : UInt8) (kind : OpcodeKind) :
    Takes (fetchIndexed index opcode kind) := by
  by_cases hkind : kind = .bitsPrefix
  · subst hkind
    exact takes_byte.bind fun _ => takes_byte.bind fun _ => takes_pure _
  · have hfetch : fetchIndexed index opcode kind =
        kind.fetch (some index) opcode >>= fun op => pure ⟨.indexed, op⟩ := by
      funext m c
      exact fetchIndexed_of_ne hkind index opcode m c
    rw [hfetch]
    exact (kind.takes_fetch (some index) opcode).bind fun _ => takes_pure _

/-- The byte behind an index prefix is looked at, and it is taken too unless it is a prefix. -/
theorem takesAt_fetchFrom (m : Machine) (c : Cursor) (first : UInt8) (kind : OpcodeKind)
    (h : ∀ index, kind = .indexPrefix index →
      ¬ (m.read c.address = 0xDD ∨ m.read c.address = 0xED ∨ m.read c.address = 0xFD)) :
    ∃ n, TakesAt (fetchFrom first kind) m c n := by
  cases kind with
  | indexPrefix index =>
    let body : Fetch Instruction := do
      let second ← opcode
      fetchIndexed index second (OpcodeMap.main.kind second)
    have hbody (m' : Machine) (hread : m'.read c.address = m.read c.address) :
        fetchFrom first (.indexPrefix index) m' c = body m' c := by
      let next := m'.read c.address
      have hfetch : fetchFrom first (.indexPrefix index) m' c =
          (if next == 0xDD || next == 0xFD || next == 0xED then
            return ⟨.main, .lonePrefix index⟩
          else body : Fetch Instruction) m' c := rfl
      have hnext : ¬ (next == 0xDD || next == 0xFD || next == 0xED) = true := by
        have hne := h index rfl
        rw [← hread] at hne
        simp only [Bool.or_eq_true, beq_iff_eq]
        grind
      rw [hfetch, if_neg hnext]
    obtain ⟨n, hn⟩ := takes_fetchIndexed index (opcode m c).1
      (OpcodeMap.main.kind (opcode m c).1) m (opcode m c).2
    exact ⟨1 + n, (takesAt_opcode.bind hn).of_peek hbody⟩
  | bitsPrefix | extendedPrefix =>
    exact (takes_opcode.bind fun second => (OpcodeKind.takes_fetch none second _).bind fun _ =>
      takes_pure _) m c
  | _ => exact ((OpcodeKind.takes_fetch none first _).bind fun _ => takes_pure _) m c

/-- An instruction takes its own bytes, if it does not stand alone. -/
theorem takesAt_fetch {m : Machine} {a : UInt16} (h : ¬ StandsAlone (m.read a) (m.read (a + 1))) :
    TakesAt fetch m { address := a } (m.instructionAt a).length := by
  obtain ⟨n, hn⟩ := takesAt_fetchFrom m (opcode m { address := a }).2 (m.read a)
    (OpcodeMap.main.kind (m.read a)) fun index hkind hnext =>
      h ⟨Index.eq_of_ofByte? (kind_main_eq_indexPrefix.mp hkind), hnext⟩
  have htakes : TakesAt fetch m { address := a } (1 + n) := takesAt_opcode.bind hn
  have hlength : (m.instructionAt a).length = 1 + n := by
    have hbytes := htakes.bytes
    rw [fetch_eq, fetchedAt, Cursor.behind, List.length_reverse, m.length_bytesAt] at hbytes
    simpa using hbytes
  rw [hlength]
  exact htakes

/-- A prefix that stands alone is listed as a byte of data; with zeros behind it, it is in front of a
NOP. -/
theorem listed_of_standsAlone {b₀ b₁ : UInt8} (h : StandsAlone b₀ b₁) (b₂ b₃ : UInt8)
    (address : UInt16) :
    (disassemble b₀ b₁ b₂ b₃ address).length = 1 ∧
      (disassemble b₀ b₁ b₂ b₃ address).text = "DEFB " ++ byteText b₀ ∧
      (disassembleBytes [b₀] address).text = "NOP" := by
  have hline : disassemble b₀ b₁ b₂ b₃ address = ⟨1, "DEFB", byteText b₀⟩ := by
    obtain ⟨rfl | rfl, rfl | rfl | rfl⟩ := h <;> rfl
  have htext : (Line.mk 1 "DEFB" (byteText b₀)).text = "DEFB " ++ byteText b₀ := by
    obtain ⟨rfl | rfl, -⟩ := h <;> decide
  have hzeros : (disassembleBytes [b₀] address).text = "NOP" := by
    obtain ⟨rfl | rfl, -⟩ := h <;> rfl
  rw [hline]
  exact ⟨rfl, htext, hzeros⟩

end Instruction

end Z80

namespace Machine

open Z80

/-- The instruction at an address depends on its own bytes, if it does not stand alone. -/
theorem instructionAt_congr {m m' : Machine} {a : UInt16}
    (hs : ¬ StandsAlone (m.read a) (m.read (a + 1)))
    (h : m'.bytesAt a (m.instructionAt a).length = m.bytesAt a (m.instructionAt a).length) :
    m'.instructionAt a = m.instructionAt a := by
  have hsame := (Instruction.takesAt_fetch hs).same m' h
  rw [Instruction.fetch_eq, Instruction.fetch_eq] at hsame
  exact congrArg Prod.fst hsame

/-- So it is listed in the same way from its own bytes and zeros. -/
theorem disassembleBytes_instructionAt {m : Machine} {a : UInt16}
    (hs : ¬ StandsAlone (m.read a) (m.read (a + 1))) :
    disassembleBytes (m.bytesAt a (m.instructionAt a).length) a = (m.instructionAt a).line a := by
  let bytes := m.bytesAt a (m.instructionAt a).length
  let padded : Machine := { m with memory := Memory.blank.writeAll a bytes }
  have hlength : bytes.length ≤ 4 := by
    rw [m.length_bytesAt]
    exact (Instruction.length_decode _ _ _ _).2
  have hsize : bytes.length ≤ Memory.size := Nat.le_trans hlength (by decide)
  have hread (d : UInt16) : padded.read (a + d) = bytes.getD d.toNat 0 := by
    rw [read, Memory.read_writeAll _ _ _ _ hsize, UInt16.add_comm, UInt16.add_sub_cancel,
      Memory.read_blank, List.getD_eq_getElem?_getD]
  have hpadded : disassembleBytes bytes a = (padded.instructionAt a).line a := by
    have h0 : padded.read a = bytes.getD 0 0 := by simpa using hread 0
    rw [disassembleBytes, disassemble, instructionAt, h0, hread, hread, hread]
    rfl
  have hbytes : padded.bytesAt a bytes.length = bytes :=
    bytesAt_writeAll { m with memory := Memory.blank } a hsize
  rw [m.length_bytesAt] at hbytes
  rw [hpadded, instructionAt_congr hs hbytes]

/-- What is reported of an instruction is the listing of the four bytes that stood at the program
counter, and the bytes that the listing covers; but an index prefix that stands alone is listed as a
byte of data and reported as NOP. -/
theorem report_of_step (m : Machine) (answer : UInt16 → UInt8) :
    let report := (m.step answer).2
    report.hex = Text.hexBytes (m.bytesAt m.cpu.pc m.listing.length) ∧
      (¬ StandsAlone (m.read m.cpu.pc) (m.read (m.cpu.pc + 1)) →
        report.text = m.listing.text) ∧
      (StandsAlone (m.read m.cpu.pc) (m.read (m.cpu.pc + 1)) →
        report.text = "NOP" ∧ m.listing.text = "DEFB " ++ byteText (m.read m.cpu.pc)) := by
  intro report
  have hbytes : report.bytes = m.bytesAt m.cpu.pc m.listing.length :=
    congrArg (·.2.bytes) (m.step_eq_carriedOut answer)
  have htext : report.text =
      (disassembleBytes (m.bytesAt m.cpu.pc m.listing.length) m.cpu.pc).text := by
    rw [← hbytes]
    rfl
  refine ⟨congrArg Text.hexBytes hbytes, fun hs => ?_, fun hs => ?_⟩
  · rw [htext]
    exact congrArg Line.text (disassembleBytes_instructionAt hs)
  · obtain ⟨hlength, hlisted, hzeros⟩ := Instruction.listed_of_standsAlone hs
      (m.read (m.cpu.pc + 2)) (m.read (m.cpu.pc + 3)) m.cpu.pc
    rw [htext, show m.listing.length = 1 from hlength]
    exact ⟨hzeros, hlisted⟩

/-- Both are seen at the top of memory: LD A,(IX+5) is reported in full, and DD in front of FD is
not what is listed. -/
theorem report_of_step_wrapping :
    let loading := wrapping [0xDD, 0x7E, 0x05]
    let alone := wrapping [0xDD, 0xFD, 0x76]
    ¬ StandsAlone (loading.read 0xFFFF) (loading.read 0) ∧
      (loading.step fun _ => 0xFF).2.text = "LD A,(IX+$05)" ∧
      (loading.step fun _ => 0xFF).2.hex = "DD7E05" ∧
      StandsAlone (alone.read 0xFFFF) (alone.read 0) ∧
      (alone.step fun _ => 0xFF).2.text = "NOP" ∧ alone.listing.text = "DEFB $DD" := by
  intro loading alone
  have hloading : ¬ StandsAlone (loading.read 0xFFFF) (loading.read 0) := by decide +kernel
  have halone : StandsAlone (alone.read 0xFFFF) (alone.read 0) := by decide +kernel
  have hlisting : loading.listing = ⟨3, "LD", "A,(IX+$05)"⟩ := by decide +kernel
  have hbytes : loading.bytesAt 0xFFFF 3 = [0xDD, 0x7E, 0x05] := by decide +kernel
  have hfirst : alone.read 0xFFFF = 0xDD := by decide +kernel
  have hnext : (0xFFFF : UInt16) + 1 = 0 := by decide
  obtain ⟨hhex, htext, -⟩ := loading.report_of_step fun _ => 0xFF
  obtain ⟨-, -, hdata⟩ := alone.report_of_step fun _ => 0xFF
  have hpc : loading.cpu.pc = 0xFFFF ∧ alone.cpu.pc = 0xFFFF := ⟨rfl, rfl⟩
  rw [hlisting, hpc.1, hbytes] at hhex
  rw [hpc.1, hnext, hlisting] at htext
  rw [hpc.2, hnext, hfirst] at hdata
  exact ⟨hloading, (htext hloading).trans (by decide), hhex.trans (by decide), halone,
    (hdata (hfirst ▸ halone)).1, (hdata (hfirst ▸ halone)).2.trans (by decide)⟩

/-- So the text of a report is not that of the listing for all instructions. -/
theorem not_forall_text_eq_listing :
    ¬ ∀ (m : Machine) (answer : UInt16 → UInt8),
      (m.step answer).2.text = m.listing.text := by
  intro h
  have htext : ((wrapping [0xDD, 0xFD, 0x76]).step fun _ => 0xFF).2.text = "NOP" := by
    decide +kernel
  have hlisting : (wrapping [0xDD, 0xFD, 0x76]).listing.text = "DEFB $DD" := by decide +kernel
  have heq := h (wrapping [0xDD, 0xFD, 0x76]) fun _ => 0xFF
  rw [htext, hlisting] at heq
  exact absurd heq (by decide)

end Machine
end Spectrum
