import Mathlib.Tactic.Common
import Spectrum.Snapshot.RunLength

/-! # Decoding what was encoded

A coding in front of any bytes that do not begin with the mark decodes to the coded bytes and
whatever those bytes decode to.  The run that follows a coding is thereby never joined to it.

Two marks next to each other need not be the beginning of a run: they can be the count and the byte
of one.  Which are is told by reading a coding from its front, and `items` is the list of what is
read.

Main definitions: `Item`, `items`.
Main statements: `decode_encode_append`, `decode_encode`, `length_encode_le`, `decode_eq_items`,
`decode_inverts_encode`. -/

namespace Spectrum.Snapshot.RunLength

theorem leading_le (b : UInt8) (limit : Nat) (bytes : List UInt8) :
    leading b limit bytes ≤ limit := by
  fun_induction leading b limit bytes with
  | case1 => exact Nat.le_refl 0
  | case2 => exact Nat.zero_le _
  | case3 limit c rest h ih => omega
  | case4 => exact Nat.zero_le _

/-- The bytes at the front are a run. -/
theorem replicate_leading (b : UInt8) (limit : Nat) (bytes : List UInt8) :
    List.replicate (leading b limit bytes) b ++ bytes.drop (leading b limit bytes) = bytes := by
  fun_induction leading b limit bytes with
  | case1 => rfl
  | case2 => rfl
  | case3 limit c rest h ih =>
    rw [beq_iff_eq] at h
    rw [List.replicate_succ, List.drop_succ_cons, List.cons_append, ih, h]
  | case4 => rfl

theorem head_ne_of_leading (b : UInt8) {limit : Nat} {bytes : List UInt8} (hl : 0 < limit)
    (h : leading b limit bytes = 0) : bytes.head? ≠ some b := by
  cases limit with
  | zero => omega
  | succ limit =>
    cases bytes with
    | nil => simp
    | cons c rest =>
      simp only [leading] at h
      split at h
      · omega
      · rename_i hc
        simpa using hc

/-- The count of a run is not cut when it is written. -/
theorem toNat_count (b : UInt8) (bytes : List UInt8) :
    (UInt8.ofNat (leading b (longestRun - 1) bytes + 1)).toNat =
      leading b (longestRun - 1) bytes + 1 := by
  have hle : leading b (longestRun - 1) bytes ≤ 254 := leading_le b _ bytes
  rw [UInt8.toNat_ofNat']
  omega

theorem two_le_of_isCoded {b : UInt8} {n : Nat} (h : isCoded b n = true) : 2 ≤ n := by
  simp only [isCoded, Bool.or_eq_true, decide_eq_true_eq, Bool.and_eq_true] at h
  omega

/-! ### Steps of the decoder -/

theorem decode_stop (code : List UInt8) : decode (some 0) code = some [] := by
  rw [decode.eq_def]
  split <;> simp_all

theorem decode_run {limit : Option Nat} (hl : limit ≠ some 0) (count b : UInt8)
    (rest : List UInt8) :
    decode limit (mark :: mark :: count :: b :: rest) =
      (decode (limit.map (· - count.toNat)) rest).map (List.replicate count.toNat b ++ ·) := by
  rw [decode.eq_def]
  split <;> grind [mark]

/-- A mark has to be followed by a count and a byte. -/
theorem decode_truncated {limit : Option Nat} (hl : limit ≠ some 0) {rest : List UInt8}
    (h : rest.length < 2) : decode limit (mark :: mark :: rest) = none := by
  rw [decode.eq_def]
  split <;> grind [mark]

/-- A byte that begins no mark stands for itself. -/
theorem decode_literal {limit : Option Nat} (hl : limit ≠ some 0) {b : UInt8} {rest : List UInt8}
    (h : b = mark → rest.head? ≠ some mark) :
    decode limit (b :: rest) = (decode (limit.map (· - 1)) rest).map (b :: ·) := by
  rw [decode.eq_def]
  split <;> simp_all [mark]

/-! ### The room that a limit leaves -/

/-- A limit with room for `n` bytes. -/
def HasRoom (limit : Option Nat) (n : Nat) : Prop := ∀ k, limit = some k → n ≤ k

theorem HasRoom.ne_zero {limit : Option Nat} {n : Nat} (h : HasRoom limit n) (hn : 0 < n) :
    limit ≠ some 0 := by
  intro h0
  have := h 0 h0
  omega

theorem HasRoom.sub {limit : Option Nat} {m n : Nat} (h : HasRoom limit (m + n)) :
    HasRoom (limit.map (· - m)) n := by
  intro k hk
  obtain ⟨k', rfl, rfl⟩ := Option.map_eq_some_iff.mp hk
  have := h k' rfl
  omega

theorem map_sub_sub (limit : Option Nat) (m n : Nat) :
    (limit.map (· - m)).map (· - n) = limit.map (· - (m + n)) := by
  cases limit with
  | none => rfl
  | some k => simp only [Option.map_some, Nat.sub_sub]

/-! ### The round trip -/

/-- A mark that is not coded is alone. -/
theorem alone_of_not_isCoded {rest : List UInt8}
    (h : ¬ isCoded mark (leading mark (longestRun - 1) rest + 1) = true) :
    rest.head? ≠ some mark := by
  have hl : 0 < longestRun - 1 := by decide
  refine head_ne_of_leading mark hl ?_
  unfold isCoded at h
  simp at h
  omega

theorem decode_encode_append (bytes s : List UInt8) (hs : s.head? ≠ some mark)
    (limit : Option Nat) (hl : HasRoom limit bytes.length) :
    decode limit (encode bytes ++ s) =
      (decode (limit.map (· - bytes.length)) s).map (bytes ++ ·) := by
  fun_induction encode bytes generalizing limit with
  | case1 => cases limit <;> simp
  | case2 b rest more hc ih =>
    have hr : List.replicate more b ++ rest.drop more = rest := replicate_leading b _ rest
    have hn : (UInt8.ofNat (more + 1)).toNat = more + 1 := toNat_count b rest
    have hlen : (b :: rest).length = more + 1 + (rest.drop more).length := by
      have := congrArg List.length hr
      rw [List.length_append, List.length_replicate] at this
      rw [List.length_cons]
      omega
    have hcat : ∀ t, List.replicate (more + 1) b ++ (rest.drop more ++ t) = b :: rest ++ t := by
      intro t
      rw [← List.append_assoc, List.replicate_succ, List.cons_append, hr]
    rw [hlen] at hl ⊢
    simp only [List.cons_append]
    rw [decode_run (hl.ne_zero (by omega)), hn, ih _ hl.sub,
      map_sub_sub, Option.map_map]
    congr 1
    funext t
    exact hcat t
  | case3 b hb more hc =>
    obtain rfl : b = mark := by simpa using hb
    rw [List.cons_append, List.nil_append, decode_literal (hl.ne_zero Nat.one_pos) fun _ => hs]
    rfl
  | case4 b hb c rest more hc ih =>
    obtain rfl : b = mark := by simpa using hb
    have hcm : c ≠ mark := by
      simpa using alone_of_not_isCoded hc
    have hlen : (mark :: c :: rest).length = 1 + (1 + rest.length) := by
      rw [List.length_cons, List.length_cons]
      omega
    rw [hlen] at hl ⊢
    have hl' := hl.sub
    simp only [List.cons_append]
    rw [decode_literal (hl.ne_zero (by omega)) fun _ => by simpa using hcm,
      decode_literal (hl'.ne_zero (by omega)) fun h => absurd h hcm,
      ih _ hl'.sub, map_sub_sub, map_sub_sub, Option.map_map, Option.map_map]
    rfl
  | case5 b rest more hc hb ih =>
    have hlen : (b :: rest).length = 1 + rest.length := by
      rw [List.length_cons]
      omega
    rw [hlen] at hl ⊢
    rw [List.cons_append,
      decode_literal (hl.ne_zero (by omega)) fun h => absurd (by simpa using h) hb, ih _ hl.sub,
      map_sub_sub, Option.map_map]
    rfl

/-- Decoding gives back what was encoded, whether or not it stops at the right length. -/
theorem decode_encode (bytes : List UInt8) (limit : Option Nat) (hl : HasRoom limit bytes.length) :
    decode limit (encode bytes) = some bytes := by
  have h := decode_encode_append bytes [] (by simp) limit hl
  have hn : decode (limit.map (· - bytes.length)) [] = some [] := by
    rw [decode.eq_def]
  rw [List.append_nil, hn, Option.map_some, List.append_nil] at h
  exact h

/-- Decoding to the right length leaves alone what follows. -/
theorem decode_encode_append_stop (bytes s : List UInt8) (hs : s.head? ≠ some mark) :
    decode (some bytes.length) (encode bytes ++ s) = some bytes := by
  rw [decode_encode_append bytes s hs _ (by rintro k ⟨⟩; exact Nat.le_refl _), Option.map_some,
    Nat.sub_self, decode_stop, Option.map_some, List.append_nil]

/-- Coding at most doubles the length: the four bytes of a run stand for at least two. -/
theorem length_encode_le (bytes : List UInt8) : (encode bytes).length ≤ 2 * bytes.length := by
  fun_induction encode bytes with
  | case1 => exact Nat.zero_le _
  | case2 b rest more hc ih =>
    have hrest : rest.length = more + (rest.drop more).length := by
      have := congrArg List.length (replicate_leading b (longestRun - 1) rest)
      rw [List.length_append, List.length_replicate] at this
      exact this.symm
    have hrun : 2 ≤ more + 1 := two_le_of_isCoded hc
    simp only [List.length_cons]
    omega
  | case3 b => exact show 1 ≤ 2 * 1 by decide
  | case4 b hb c rest more hc ih =>
    simp only [List.length_cons]
    omega
  | case5 b rest more hc hb ih =>
    simp only [List.length_cons]
    omega

/-! ### Reading a coding item by item -/

/-- What a coding is read as: bytes that stand for themselves, and runs. -/
inductive Item where
  | literal (b : UInt8)
  | run (count b : UInt8)
deriving DecidableEq, Repr

/-- How an item is written. -/
def Item.code : Item → List UInt8
  | literal b => [b]
  | run count b => [mark, mark, count, b]

/-- The bytes that an item stands for. -/
def Item.bytes : Item → List UInt8
  | literal b => [b]
  | run count b => List.replicate count.toNat b

/-- The items of a coding, or none if it ends within a run. -/
def items : List UInt8 → Option (List Item)
  | [] => some []
  | 0xED :: 0xED :: count :: b :: rest => (items rest).map (.run count b :: ·)
  | 0xED :: 0xED :: _ => none
  | b :: rest => (items rest).map (.literal b :: ·)

theorem items_run (count b : UInt8) (rest : List UInt8) :
    items (mark :: mark :: count :: b :: rest) = (items rest).map (.run count b :: ·) := by
  rw [mark, items]

theorem items_literal {b : UInt8} {rest : List UInt8} (h : b = mark → rest.head? ≠ some mark) :
    items (b :: rest) = (items rest).map (.literal b :: ·) := by
  rw [items.eq_def]
  split <;> simp_all [mark]

/-- What is decoded is what the items stand for. -/
theorem decode_eq_items (code : List UInt8) :
    decode none code = (items code).map (·.flatMap Item.bytes) := by
  fun_induction items code with
  | case1 => rw [decode.eq_def]; rfl
  | case2 count b rest ih =>
    rw [← mark, decode_run (by simp), Option.map_none, ih, Option.map_map, Option.map_map]
    rfl
  | case3 rest hshort =>
    have hlength : rest.length < 2 := by
      rcases rest with _ | ⟨count, _ | ⟨b, rest⟩⟩
      · decide
      · exact Nat.one_lt_two
      · exact absurd rfl (hshort count b rest)
    rw [← mark, decode_truncated (by simp) hlength, Option.map_none]
  | case4 b rest hrun hmarks ih =>
    have halone : b = mark → rest.head? ≠ some mark := by
      rintro rfl hhead
      obtain ⟨rest', rfl⟩ := List.head?_eq_some_iff.mp hhead
      exact hmarks rest' rfl rfl
    rw [decode_literal (by simp) halone, Option.map_none, ih, Option.map_map, Option.map_map]
    rfl

/-- Nothing is read but what is written. -/
theorem flatMap_code_of_items {code : List UInt8} {its : List Item} (h : items code = some its) :
    its.flatMap Item.code = code := by
  fun_induction items code generalizing its with
  | case1 =>
    obtain rfl := Option.some.inj h
    rfl
  | case2 count b rest ih =>
    obtain ⟨its', h', rfl⟩ := Option.map_eq_some_iff.mp h
    rw [List.flatMap_cons, ih h']
    rfl
  | case3 => cases h
  | case4 b rest hrun hmarks ih =>
    obtain ⟨its', h', rfl⟩ := Option.map_eq_some_iff.mp h
    rw [List.flatMap_cons, ih h']
    rfl

/-- The encoder writes whole items, and no run that is shorter than two. -/
theorem exists_items_encode (bytes : List UInt8) :
    ∃ its, items (encode bytes) = some its ∧
      ∀ count b, Item.run count b ∈ its → 2 ≤ count.toNat := by
  fun_induction encode bytes with
  | case1 => exact ⟨[], rfl, by simp⟩
  | case2 b rest more hc ih =>
    obtain ⟨its, hits, hcounts⟩ := ih
    have hn : (UInt8.ofNat (more + 1)).toNat = more + 1 := toNat_count b rest
    have hrun : 2 ≤ more + 1 := two_le_of_isCoded hc
    refine ⟨_, by rw [items_run, hits, Option.map_some], fun count c hmem => ?_⟩
    rcases List.mem_cons.mp hmem with heq | hmem
    · obtain ⟨rfl, rfl⟩ := Item.run.inj heq
      rwa [hn]
    · exact hcounts count c hmem
  | case3 b hb more hc =>
    refine ⟨[.literal b], ?_, by simp⟩
    rw [items_literal (by simp)]
    rfl
  | case4 b hb c rest more hc ih =>
    obtain ⟨its, hits, hcounts⟩ := ih
    obtain rfl : b = mark := by simpa using hb
    have hcm : c ≠ mark := by
      simpa using alone_of_not_isCoded hc
    refine ⟨.literal mark :: .literal c :: its, ?_, by simpa using hcounts⟩
    rw [items_literal fun _ => by simpa using hcm, items_literal fun h => absurd h hcm, hits]
    rfl
  | case5 b rest more hc hb ih =>
    obtain ⟨its, hits, hcounts⟩ := ih
    refine ⟨.literal b :: its, ?_, by simpa using hcounts⟩
    rw [items_literal fun h => absurd (by simpa using h) hb, hits]
    rfl

/-- A coding decodes to what was encoded, also to the right length in front of bytes that do not
begin with the mark, and every run in it has a count from two to 255. -/
theorem decode_inverts_encode (bytes : List UInt8) :
    decode (limitOf 0) (encode bytes) = some bytes ∧
    (bytes ≠ [] → ∀ s : List UInt8, s.head? ≠ some mark →
      decode (limitOf bytes.length) (encode bytes ++ s) = some bytes) ∧
    ∃ its, items (encode bytes) = some its ∧ its.flatMap Item.code = encode bytes ∧
      its.flatMap Item.bytes = bytes ∧
      ∀ count b, Item.run count b ∈ its → 2 ≤ count.toNat ∧ count.toNat ≤ 255 := by
  have hback : decode none (encode bytes) = some bytes := decode_encode bytes none nofun
  refine ⟨hback, fun hne s hs => ?_, ?_⟩
  · rw [limitOf, if_neg (mt List.length_eq_zero_iff.mp hne)]
    exact decode_encode_append_stop bytes s hs
  · obtain ⟨its, hits, hcounts⟩ := exists_items_encode bytes
    rw [decode_eq_items, hits, Option.map_some] at hback
    refine ⟨its, hits, flatMap_code_of_items hits, Option.some.inj hback, fun count b hmem => ?_⟩
    have hlt := count.toNat_lt
    exact ⟨hcounts count b hmem, by omega⟩

/-- A lone mark takes the first of seven equal bytes with it, and a run of two marks follows the run
of the rest; behind it stands an end mark. -/
theorem decode_inverts_encode_loneMark :
    encode (mark :: List.replicate 7 0 ++ [mark, mark]) =
      [mark, 0, mark, mark, 6, 0, mark, mark, 2, mark] ∧
    ([0, mark, mark, 0] : List UInt8).head? ≠ some mark ∧
    decode (limitOf 10) ([mark, 0, mark, mark, 6, 0, mark, mark, 2, mark] ++ [0, mark, mark, 0]) =
      some (mark :: List.replicate 7 0 ++ [mark, mark]) := by
  have hcode : encode (mark :: List.replicate 7 0 ++ [mark, mark]) =
      [mark, 0, mark, mark, 6, 0, mark, mark, 2, mark] := by cbv
  have hs : ([0, mark, mark, 0] : List UInt8).head? ≠ some mark := by decide
  refine ⟨hcode, hs, ?_⟩
  rw [← hcode]
  exact (decode_inverts_encode (mark :: List.replicate 7 0 ++ [mark, mark])).2.1 (by decide) _ hs

end Spectrum.Snapshot.RunLength
