import Mathlib.Data.List.Basic
import Mathlib.Tactic.Common
import Spectrum.Proofs.Snapshot.LoadRequest
import Spectrum.Proofs.Text.Hexadecimal
import Spectrum.Proofs.Text.Numerals

/-! # Reading moves and pokes

The operations `move=source,length,target` and `poke=range,value` are described by how their
specifications are put together from integers; what is read by cutting a text at its separators is
just what has been put together so.  No integer has a separator or an operator in it, so there is
only one way to cut.

A range is `a`, `a-b` or `a-b-c`, with numbers that fit into sixteen bits and a step that is not
zero; the value of a poke may follow an operator.

Main definitions: `MoveRequest.Reads`, `PokeRequest.Reads`.
Main statements: `parse_move_iff`, `parse_poke_iff`. -/

namespace Spectrum

open Text Tape

/-! ### Requests -/

/-- What the fields of a move come to. -/
structure MoveRequest where
  source : Nat
  length : Nat
  target : Nat

/-- How the specification of a move reads; fields behind the third do not matter. -/
def MoveRequest.Reads (r : MoveRequest) (spec : String) : Prop :=
  ∃ source length target more : String, spec = source ++ "," ++ length ++ "," ++ target ++ more ∧
    (more = "" ∨ ∃ rest, more = "," ++ rest) ∧
    integer? source = some r.source ∧ integer? length = some r.length ∧
    integer? target = some r.target

/-- A number of a range. -/
def IsBound (text : String) (n : Nat) : Prop := integer? text = some n ∧ n ≤ 0xFFFF

/-- How a range reads: its first address, its last and its step. -/
inductive RangeReads : String → Nat → Nat → Nat → Prop
  | single {a : String} {first : Nat} (ha : IsBound a first) : RangeReads a first first 1
  | upTo {a b : String} {first last : Nat} (ha : IsBound a first) (hb : IsBound b last) :
      RangeReads (a ++ "-" ++ b) first last 1
  | stepped {a b c : String} {first last step : Nat} (ha : IsBound a first) (hb : IsBound b last)
      (hc : IsBound c step) (hstep : step ≠ 0) :
      RangeReads (a ++ "-" ++ b ++ "-" ++ c) first last step

/-- How the value of a poke reads, behind the operator or without one. -/
inductive ValueReads : String → PokeOperator → Nat → Prop
  | assign {v : String} {n : Nat} (h : integer? v = some n) : ValueReads v .assign n
  | xor {v : String} {n : Nat} (h : integer? v = some n) : ValueReads ("^" ++ v) .xor n
  | add {v : String} {n : Nat} (h : integer? v = some n) : ValueReads ("+" ++ v) .add n

/-- What the parts of a poke come to. -/
structure PokeRequest where
  first : Nat
  last : Nat
  step : Nat
  op : PokeOperator
  value : Nat

/-- How the specification of a poke reads. -/
def PokeRequest.Reads (r : PokeRequest) (spec : String) : Prop :=
  ∃ range value : String, spec = range ++ "," ++ value ∧
    RangeReads range r.first r.last r.step ∧ ValueReads value r.op r.value

theorem RangeReads.bounds {range : String} {first last step : Nat}
    (h : RangeReads range first last step) :
    first ≤ 0xFFFF ∧ last ≤ 0xFFFF ∧ step ≤ 0xFFFF ∧ 0 < step := by
  cases h with
  | single ha => exact ⟨ha.2, ha.2, by decide, by decide⟩
  | upTo ha hb => exact ⟨ha.2, hb.2, by decide, by decide⟩
  | stepped ha hb hc hstep => exact ⟨ha.2, hb.2, hc.2, Nat.pos_of_ne_zero hstep⟩

/-! ### Separators -/

section

variable {text : String} {n : Nat}

theorem comma_not_mem (h : integer? text = some n) : ',' ∉ text.toList :=
  not_mem_of_integer? h rfl (by decide)

theorem dash_not_mem (h : integer? text = some n) : '-' ∉ text.toList :=
  not_mem_of_integer? h rfl (by decide)

theorem comma_not_mem_range {first last step : Nat} (h : RangeReads text first last step) :
    ',' ∉ text.toList := by
  cases h with
  | single ha => exact comma_not_mem ha.1
  | upTo ha hb => simp [comma_not_mem ha.1, comma_not_mem hb.1]
  | stepped ha hb hc =>
    simp [comma_not_mem ha.1, comma_not_mem hb.1, comma_not_mem hc.1]

end

/-- The fields put together again. -/
theorem joinWith_fields (sep : Char) (s : String) :
    joinWith sep ((fields sep s).map String.toList) = s.toList := by
  have hmap : (fields sep s).map String.toList = splitOn sep s.toList := by
    rw [fields, List.map_map]
    exact List.map_id'' (fun cs => String.toList_ofList) _
  rw [hmap, joinWith_splitOn]

theorem fields_of_not_mem {sep : Char} {s : String} (h : sep ∉ s.toList) : fields sep s = [s] := by
  rw [fields, splitOn_of_not_mem h, List.map_singleton, String.ofList_toList]

/-- The field in front of the first separator. -/
theorem fields_append {sep : Char} {s first : String} (rest : String)
    (hfirst : sep ∉ first.toList) (hs : s.toList = first.toList ++ sep :: rest.toList) :
    fields sep s = first :: fields sep rest := by
  rw [fields, hs, splitOn_append, splitOn_of_not_mem hfirst, fields, List.singleton_append,
    List.map_cons, String.ofList_toList]

namespace RamOperation

/-! ### Moves -/

/-- A text that begins in another way does not have the prefix. -/
theorem afterPrefix?_of_other {start other rest : String}
    (h : ∀ cs, start.toList.isPrefixOf (other.toList ++ cs) = false) :
    afterPrefix? start (other ++ rest) = none := by
  rw [afterPrefix?, String.toList_append, h, if_neg Bool.false_ne_true]

theorem parse_move (blocks : List Block) (spec : String) :
    parse blocks ("move=" ++ spec) = parseMove spec := by
  rw [parse, afterPrefix?_of_other fun _ => rfl, afterPrefix?_of_other fun _ => rfl,
    afterPrefix?_append]

theorem fields_move {source length target more : String} (hsource : ',' ∉ source.toList)
    (hlength : ',' ∉ length.toList) (htarget : ',' ∉ target.toList)
    (hmore : more = "" ∨ ∃ rest, more = "," ++ rest) :
    ∃ others, fields ',' (source ++ "," ++ length ++ "," ++ target ++ more) =
      source :: length :: target :: others := by
  rw [fields_append (length ++ "," ++ target ++ more) hsource (by simp),
    fields_append (target ++ more) hlength (by simp)]
  rcases hmore with rfl | ⟨rest, rfl⟩
  · rw [String.append_empty, fields_of_not_mem htarget]
    exact ⟨[], rfl⟩
  · rw [fields_append rest htarget (by simp)]
    exact ⟨_, rfl⟩

/-- A move is accepted just if its specification reads as a request. -/
theorem parse_move_iff (blocks : List Block) {spec : String} {op : RamOperation} :
    parse blocks ("move=" ++ spec) = .ok op ↔
      ∃ r : MoveRequest, r.Reads spec ∧ op = .move r.source r.length r.target := by
  rw [parse_move]
  constructor
  · intro h
    unfold parseMove at h
    split at h
    · next source length target others hfields =>
      split at h
      · next source' length' target' hsource hlength htarget =>
        refine ⟨⟨source', length', target'⟩, ⟨source, length, target, ?_⟩, (Except.ok.inj h).symm⟩
        have hjoined := joinWith_fields ',' spec
        rw [hfields] at hjoined
        cases others with
        | nil =>
          refine ⟨"", String.toList_inj.mp ?_, .inl rfl, hsource, hlength, htarget⟩
          rw [← hjoined]
          simp [joinWith]
        | cons other others =>
          refine ⟨"," ++ String.ofList (joinWith ',' ((other :: others).map String.toList)),
            String.toList_inj.mp ?_, .inr ⟨_, rfl⟩, hsource, hlength, htarget⟩
          rw [← hjoined]
          simp [joinWith]
      · cases h
    · cases h
  · rintro ⟨r, ⟨source, length, target, more, rfl, hmore, hsource, hlength, htarget⟩, rfl⟩
    obtain ⟨others, hfields⟩ := fields_move (comma_not_mem hsource) (comma_not_mem hlength)
      (comma_not_mem htarget) hmore
    simp only [parseMove, hfields, hsource, hlength, htarget]

/-! ### Pokes -/

theorem parse_poke (blocks : List Block) (spec : String) :
    parse blocks ("poke=" ++ spec) = parsePoke spec := by
  rw [parse, afterPrefix?_of_other fun _ => rfl, afterPrefix?_append]

theorem rangeBound?_eq_some_iff {text : String} {n : Nat} :
    rangeBound? text = some n ↔ IsBound text n := by
  unfold rangeBound? IsBound
  cases integer? text with
  | none => simp
  | some m =>
    simp only [Option.ite_none_right_eq_some, Option.some.injEq]
    constructor
    · rintro ⟨hm, rfl⟩
      exact ⟨rfl, hm⟩
    · rintro ⟨rfl, hm⟩
      exact ⟨hm, rfl⟩

theorem parseRange?_of_reads {range : String} {first last step : Nat}
    (h : RangeReads range first last step) :
    parseRange? range.toList = some (first, last, step) := by
  unfold parseRange?
  rw [String.ofList_toList]
  cases h with
  | single ha =>
    rw [fields_of_not_mem (dash_not_mem ha.1)]
    simp [rangeBound?_eq_some_iff.mpr ha]
  | @upTo a b _ _ ha hb =>
    rw [fields_append b (dash_not_mem ha.1) (by simp),
      fields_of_not_mem (dash_not_mem hb.1)]
    simp [rangeBound?_eq_some_iff.mpr ha, rangeBound?_eq_some_iff.mpr hb]
  | @stepped a b c _ _ _ ha hb hc hstep =>
    rw [fields_append (b ++ "-" ++ c) (dash_not_mem ha.1) (by simp),
      fields_append c (dash_not_mem hb.1) (by simp),
      fields_of_not_mem (dash_not_mem hc.1)]
    simp [rangeBound?_eq_some_iff.mpr ha, rangeBound?_eq_some_iff.mpr hb,
      rangeBound?_eq_some_iff.mpr hc, hstep]

theorem mapM_rangeBound?_eq_some_iff {texts : List String} {bounds : List Nat} :
    texts.mapM rangeBound? = some bounds ↔ List.Forall₂ IsBound texts bounds := by
  induction texts generalizing bounds with
  | nil => cases bounds <;> simp
  | cons text texts ih =>
    rw [List.mapM_cons, List.forall₂_cons_left_iff]
    simp only [Option.bind_eq_bind, Option.bind_eq_some_iff, Option.pure_def, Option.some.injEq,
      rangeBound?_eq_some_iff, ih]
    constructor
    · rintro ⟨n, hn, rest, hrest, rfl⟩
      exact ⟨n, rest, hn, hrest, rfl⟩
    · rintro ⟨n, rest, hn, hrest, rfl⟩
      exact ⟨n, hn, rest, hrest, rfl⟩

theorem reads_of_parseRange? {range : List Char} {first last step : Nat}
    (h : parseRange? range = some (first, last, step)) :
    RangeReads (String.ofList range) first last step := by
  have hjoined := joinWith_fields '-' (String.ofList range)
  unfold parseRange? at h
  split at h
  · next a ha =>
    obtain ⟨rfl, rfl, rfl⟩ : a = first ∧ a = last ∧ 1 = step := by simpa using h
    rw [mapM_rangeBound?_eq_some_iff, List.forall₂_cons_right_iff] at ha
    obtain ⟨x, _, hx, hnil, hfields⟩ := ha
    rw [List.forall₂_nil_right_iff] at hnil
    rw [hfields, hnil] at hjoined
    rw [← String.toList_inj.mp hjoined]
    exact .single hx
  · next a b hab =>
    obtain ⟨rfl, rfl, rfl⟩ : a = first ∧ b = last ∧ 1 = step := by simpa using h
    simp only [mapM_rangeBound?_eq_some_iff, List.forall₂_cons_right_iff,
      List.forall₂_nil_right_iff] at hab
    obtain ⟨x, _, hx, ⟨y, _, hy, rfl, rfl⟩, hfields⟩ := hab
    rw [hfields] at hjoined
    have htext : String.ofList range = x ++ "-" ++ y := by
      apply String.toList_inj.mp
      rw [← hjoined]
      simp [joinWith]
    rw [htext]
    exact .upTo hx hy
  · next a b c habc =>
    split at h
    · cases h
    · next hc =>
      obtain ⟨rfl, rfl, rfl⟩ : a = first ∧ b = last ∧ c = step := by simpa using h
      simp only [mapM_rangeBound?_eq_some_iff, List.forall₂_cons_right_iff,
        List.forall₂_nil_right_iff] at habc
      obtain ⟨x, _, hx, ⟨y, _, hy, ⟨z, _, hz, rfl, rfl⟩, rfl⟩, hfields⟩ := habc
      rw [hfields] at hjoined
      have htext : String.ofList range = x ++ "-" ++ y ++ "-" ++ z := by
        apply String.toList_inj.mp
        rw [← hjoined]
        simp [joinWith]
      rw [htext]
      exact .stepped hx hy hz hc
  · cases h

theorem valueReads_iff {text : String} {op : PokeOperator} {n : Nat} :
    ValueReads text op n ↔
      (pokeOperator text.toList).1 = op ∧
        integer? (String.ofList (pokeOperator text.toList).2) = some n := by
  constructor
  · intro h
    cases h with
    | assign h =>
      have hplain : pokeOperator text.toList = (.assign, text.toList) := by
        unfold pokeOperator
        split
        · next rest htext =>
          refine absurd ?_ (not_mem_of_integer? (c := '^') h rfl (by decide))
          rw [htext]
          exact List.mem_cons_self
        · next rest htext =>
          refine absurd ?_ (not_mem_of_integer? (c := '+') h rfl (by decide))
          rw [htext]
          exact List.mem_cons_self
        · rfl
      rw [hplain, String.ofList_toList]
      exact ⟨rfl, h⟩
    | xor h =>
      rw [String.toList_append]
      exact ⟨rfl, by simpa [pokeOperator] using h⟩
    | add h =>
      rw [String.toList_append]
      exact ⟨rfl, by simpa [pokeOperator] using h⟩
  · rintro ⟨rfl, hn⟩
    unfold pokeOperator at hn ⊢
    split
    · next rest htext =>
      rw [htext] at hn
      have hvalue : text = "^" ++ String.ofList rest := String.toList_inj.mp (by simp [htext])
      rw [hvalue]
      exact .xor hn
    · next rest htext =>
      rw [htext] at hn
      have hvalue : text = "+" ++ String.ofList rest := String.toList_inj.mp (by simp [htext])
      rw [hvalue]
      exact .add hn
    · next hxor hadd =>
      refine .assign ?_
      split at hn
      · next rest htext => exact absurd htext (hxor rest)
      · next rest htext => exact absurd htext (hadd rest)
      · rwa [String.ofList_toList] at hn

/-- A poke is accepted just if its specification reads as a request. -/
theorem parse_poke_iff (blocks : List Block) {spec : String} {op : RamOperation} :
    parse blocks ("poke=" ++ spec) = .ok op ↔
      ∃ r : PokeRequest, r.Reads spec ∧
        op = .poke r.first r.last r.step r.op (UInt8.ofNat r.value) := by
  rw [parse_poke]
  constructor
  · intro h
    unfold parsePoke at h
    split at h
    · cases h
    · next range value hcut =>
      split at h
      · cases h
      · next first last step hrange =>
        dsimp only at h
        split at h
        · cases h
        · next n hn =>
          have hvalue := valueReads_iff.mpr
            ⟨rfl, (congrArg (fun cs => integer? (String.ofList (pokeOperator cs).2))
              String.toList_ofList).trans hn⟩
          rw [String.toList_ofList] at hvalue
          refine ⟨⟨first, last, step, _, n⟩, ⟨String.ofList range, String.ofList value, ?_,
            reads_of_parseRange? hrange, hvalue⟩, (Except.ok.inj h).symm⟩
          apply String.toList_inj.mp
          rw [(eq_append_of_cut hcut).1]
          simp
  · rintro ⟨r, ⟨range, value, rfl, hrange, hvalue⟩, rfl⟩
    obtain ⟨hop, hn⟩ := valueReads_iff.mp hvalue
    have hcut : cut ',' (range ++ "," ++ value).toList = (range.toList, some value.toList) := by
      have htext : (range ++ "," ++ value).toList = range.toList ++ ',' :: value.toList := by simp
      rw [htext, cut_append (comma_not_mem_range hrange)]
    simp only [parsePoke, hcut, parseRange?_of_reads hrange, hn, hop]

end RamOperation
end Spectrum
