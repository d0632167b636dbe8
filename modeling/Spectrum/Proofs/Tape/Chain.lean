import Spectrum.Proofs.Tape.Layout

/-! # The chain of blocks in a TAP file

A TAP file is a chain of blocks, each behind its length.  Every string of bytes is a chain up to a
point, and there it either ends, with one byte more or not, or has a length that reaches past the
end.  The decoder reads the chain and tells which of the two it is.

Main definitions: `numbered`, `Remainder`.
Main statements: `decodeTapFrom_append`, `exists_chain`, `decodeTap_chain`. -/

namespace Spectrum.Tape

/-- What a block of a TAP file can hold. -/
abbrev TapData := Counted UInt8 2

/-- The TAP file with a chain of blocks. -/
def tapFile (chain : List TapData) : List UInt8 := encodeTap (chain.map (·.1))

/-- The blocks of a chain, counted from a number on, with the timings of their flags. -/
def numbered (number : Nat) (chain : List TapData) : List Block :=
  (chain.zipIdx number).map fun (data, number) =>
    { number, data := data.1, timings := Timings.standard (data.1.headD 0) }

/-- What is left where a chain ends: no block, as there is at most a single byte, or one whose
length reaches past the end. -/
inductive Remainder where
  | tail (byte : Option UInt8)
  | cut (low high : UInt8) (data : List UInt8) (h : data.length < littleEndian [low, high])

/-- The bytes that are left. -/
def Remainder.bytes : Remainder → List UInt8
  | tail byte => byte.toList
  | cut low high data _ => low :: high :: data

theorem tapFile_cons (data : TapData) (chain : List TapData) (rest : List UInt8) :
    tapFile (data :: chain) ++ rest =
      UInt8.ofNat data.1.length :: UInt8.ofNat (data.1.length / 256) ::
        (data.1 ++ (tapFile chain ++ rest)) := by
  simp [tapFile, encodeTap]

theorem numbered_cons (number : Nat) (data : TapData) (chain : List TapData) :
    numbered number (data :: chain) =
      { number, data := data.1, timings := Timings.standard (data.1.headD 0) } ::
        numbered (number + 1) chain := by
  unfold numbered
  rw [List.zipIdx_cons, List.map_cons]

theorem map_data_numbered (number : Nat) (chain : List TapData) :
    (numbered number chain).map Block.data = chain.map (·.1) := by
  induction chain generalizing number with
  | nil => rfl
  | cons data rest ih => rw [numbered_cons, List.map_cons, List.map_cons, ih]

/-! ### Decoding -/

theorem decodeTapFrom_block (number : Nat) {low high : UInt8} {data : List UInt8}
    (h : data.length = littleEndian [low, high]) (rest : List UInt8) :
    decodeTapFrom number (low :: high :: (data ++ rest)) =
      (decodeTapFrom (number + 1) rest).map
        ({ number, data, timings := Timings.standard (data.headD 0) } :: ·) := by
  rw [decodeTapFrom]
  simp only [← h, List.take_left, List.drop_left, Nat.lt_irrefl, if_false]
  cases decodeTapFrom (number + 1) rest <;> rfl

theorem decodeTapFrom_cut (number : Nat) {low high : UInt8} {data : List UInt8}
    (h : data.length < littleEndian [low, high]) :
    decodeTapFrom number (low :: high :: data) =
      .error (.truncatedTap number (littleEndian [low, high]) data.length) := by
  rw [decodeTapFrom]
  simp only [List.take_of_length_le (Nat.le_of_lt h), h, if_true]
  rfl

theorem decodeTapFrom_tail (number : Nat) (byte : Option UInt8) :
    decodeTapFrom number byte.toList = .ok [] := by
  cases byte <;> simp [decodeTapFrom]

/-- A chain is read, and then what follows it. -/
theorem decodeTapFrom_append (number : Nat) (chain : List TapData) (rest : List UInt8) :
    decodeTapFrom number (tapFile chain ++ rest) =
      (decodeTapFrom (number + chain.length) rest).map (numbered number chain ++ ·) := by
  induction chain generalizing number with
  | nil =>
    show decodeTapFrom number rest = (decodeTapFrom number rest).map id
    cases decodeTapFrom number rest <;> rfl
  | cons data chain ih =>
    have hlength : data.1.length =
        littleEndian [UInt8.ofNat data.1.length, UInt8.ofNat (data.1.length / 256)] :=
      (littleEndian_numberBytes data.2).symm
    have hnumber : number + 1 + chain.length = number + (data :: chain).length := by
      rw [List.length_cons]
      omega
    rw [tapFile_cons, decodeTapFrom_block number hlength, ih, hnumber, numbered_cons]
    cases decodeTapFrom (number + (data :: chain).length) rest <;> rfl

theorem decodeTap_append (chain : List TapData) (rest : Remainder) :
    decodeTap (tapFile chain ++ rest.bytes) =
      match rest with
      | .tail _ => .ok (numbered 1 chain)
      | .cut low high data _ =>
        .error (.truncatedTap (chain.length + 1) (littleEndian [low, high]) data.length) := by
  rw [decodeTap, decodeTapFrom_append]
  cases rest with
  | tail byte =>
    rw [Remainder.bytes, decodeTapFrom_tail]
    exact congrArg Except.ok (List.append_nil _)
  | cut low high data h =>
    rw [Remainder.bytes, decodeTapFrom_cut _ h, Nat.add_comm]
    rfl

/-! ### Taking a file apart -/

/-- Every string of bytes is a chain and what is left where it ends. -/
theorem exists_chain (bytes : List UInt8) :
    ∃ (chain : List TapData) (rest : Remainder), bytes = tapFile chain ++ rest.bytes := by
  induction h : bytes.length using Nat.strongRecOn generalizing bytes with
  | ind n ih =>
    match bytes with
    | [] => exact ⟨[], .tail none, rfl⟩
    | [byte] => exact ⟨[], .tail (some byte), rfl⟩
    | low :: high :: rest =>
      by_cases hcut : rest.length < littleEndian [low, high]
      · exact ⟨[], .cut low high rest hcut, rfl⟩
      · let length := littleEndian [low, high]
        have hlength : (rest.take length).length = length := by
          rw [List.length_take]
          omega
        obtain ⟨chain, left, hleft⟩ := ih _ (by simp at h ⊢; omega) (rest.drop length) rfl
        have hbound : (rest.take length).length < 256 ^ 2 := by
          rw [hlength]
          exact littleEndian_lt [low, high]
        refine ⟨⟨rest.take length, hbound⟩ :: chain, left, ?_⟩
        rw [tapFile_cons, ← hleft]
        dsimp only
        have hbytes := numberBytes_littleEndian [low, high]
        rw [hlength, List.take_append_drop]
        exact congrArg (· ++ rest) hbytes.symm

/-- TAP files are exactly the codings of chains, with a single byte behind them or not.  A chain is
read back in order, with the timings of its flags; what is read gives the file when it is coded
again; and a file is refused just if a length that the chain comes to reaches past its end. -/
theorem decodeTap_chain :
    (∀ (chain : List TapData) (byte : Option UInt8),
      decodeTap (encodeTap (chain.map (·.1)) ++ byte.toList) = .ok (numbered 1 chain)) ∧
    (∀ bytes blocks, decodeTap bytes = .ok blocks ↔
      ∃ (chain : List TapData) (byte : Option UInt8), blocks = numbered 1 chain ∧
        bytes = encodeTap (blocks.map Block.data) ++ byte.toList) ∧
    ∀ bytes e, decodeTap bytes = .error e ↔
      ∃ (chain : List TapData) (low high : UInt8) (rest : List UInt8),
        bytes = encodeTap (chain.map (·.1)) ++ low :: high :: rest ∧
        rest.length < littleEndian [low, high] ∧
        e = .truncatedTap (chain.length + 1) (littleEndian [low, high]) rest.length := by
  refine ⟨fun chain byte => decodeTap_append chain (.tail byte), fun bytes blocks => ?_,
    fun bytes e => ?_⟩
  · constructor
    · intro h
      obtain ⟨chain, rest, rfl⟩ := exists_chain bytes
      rw [decodeTap_append] at h
      cases rest with
      | tail byte =>
        obtain rfl := Except.ok.inj h
        exact ⟨chain, byte, rfl, by rw [map_data_numbered]; rfl⟩
      | cut => cases h
    · rintro ⟨chain, byte, rfl, rfl⟩
      rw [map_data_numbered]
      exact decodeTap_append chain (.tail byte)
  · constructor
    · intro h
      obtain ⟨chain, rest, rfl⟩ := exists_chain bytes
      rw [decodeTap_append] at h
      cases rest with
      | tail byte => cases h
      | cut low high data hcut =>
        obtain rfl := Except.error.inj h
        exact ⟨chain, low, high, data, rfl, hcut, rfl⟩
    · rintro ⟨chain, low, high, rest, rfl, hcut, rfl⟩
      exact decodeTap_append chain (.cut low high rest hcut)

end Spectrum.Tape
