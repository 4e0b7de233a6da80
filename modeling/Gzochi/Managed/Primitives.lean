import Gzochi.Managed.Io

/-!
# The serializations of primitive values

The serializations that `(gzochi io)` exports: for exact integers, booleans, strings,
symbols and bytevectors, and for lists whose elements all go through one serialization.
A serialization reads a value back when its deserializer takes the value off whatever port
begins with what its serializer wrote.
-/

namespace Gzochi.Managed

open Gzochi.Lib (Reader)

variable {Value : Type}

/-- `gzochi:serialization`, for values of one kind. -/
structure PortSerialization (Value : Type) where
  serializer : Value → Except String Bytes
  deserializer : Port Value

/-- The value comes back from a port with its bytes in front, and only they are taken. -/
def PortSerialization.ReadsBack (serialization : PortSerialization Value) (value : Value) : Prop :=
  ∃ written, serialization.serializer value = .ok written ∧
    serialization.deserializer.Reads written value

/-- `gzochi:write-integer`, which is `write-varint` of any exact integer. -/
def writeInteger (varint : Int) : Bytes :=
  let b := (varint % 2 ^ 7).toNat
  if varint > 127 then
    UInt8.ofNat (1 <<< 7 ||| b) :: writeInteger (varint >>> (7 : Nat))
  else
    [UInt8.ofNat b]
termination_by varint.toNat
decreasing_by
  rw [Int.shiftRight_eq_div_pow]
  omega

/-- `gzochi:read-integer`. -/
def readInteger : Port Int := do
  let varint ← readVarint
  pure (varint : Int)

/-- `gzochi:integer-serialization`. -/
def integerSerialization : PortSerialization Int :=
  ⟨fun varint => .ok (writeInteger varint), readInteger⟩

/-- Lengths and ids are written as `writeVarint` writes them. -/
theorem writeInteger_natCast (varint : Nat) : writeInteger varint = writeVarint varint := by
  induction varint using Nat.strongRecOn with
  | ind varint ih =>
    have low : ((varint : Int) % 2 ^ 7).toNat = varint % 2 ^ 7 := by omega
    have shifted : (varint : Int) >>> (7 : Nat) = ((varint >>> 7 : Nat) : Int) := by
      rw [Int.shiftRight_eq_div_pow, Nat.shiftRight_eq_div_pow]
      omega
    rw [writeInteger, writeVarint]
    simp only [low, shifted]
    split
    · rename_i more
      rw [if_pos (by omega), ih (varint >>> 7) (by rw [Nat.shiftRight_eq_div_pow]; omega)]
    · rename_i last
      rw [if_neg (by omega)]

theorem readInteger_reads (varint : Nat) : readInteger.Reads (writeInteger varint) varint := by
  rw [writeInteger_natCast]
  exact (readVarint_reads varint).map Int.ofNat

variable {varint : Int}

/-- An integer of at most seven bits, and any negative one, is written as one byte. -/
theorem writeInteger_last (last : varint ≤ 127) :
    writeInteger varint = [UInt8.ofNat (varint % 2 ^ 7).toNat] := by
  rw [writeInteger, if_neg (by omega)]

/-- A negative integer is written as its lowest seven bits are. -/
theorem writeInteger_negative (negative : varint < 0) :
    writeInteger varint = writeInteger (varint % 2 ^ 7).toNat := by
  have low : (((varint % 2 ^ 7).toNat : Int) % 2 ^ 7).toNat = (varint % 2 ^ 7).toNat := by omega
  rw [writeInteger_last (by omega : varint ≤ 127), writeInteger_last (by omega), low]

theorem integer_readsBack_iff (varint : Int) :
    integerSerialization.ReadsBack varint ↔ 0 ≤ varint := by
  constructor
  · rintro ⟨written, done, reads⟩
    cases done
    by_contra negative
    have other := readInteger_reads (varint % 2 ^ 7).toNat []
    rw [← writeInteger_negative (by omega)] at other
    have same := Except.ok.inj ((reads []).symm.trans other)
    have value := congrArg Prod.fst same
    simp only at value
    omega
  · intro natural
    obtain ⟨size, rfl⟩ := Int.eq_ofNat_of_zero_le natural
    exact ⟨_, rfl, readInteger_reads size⟩

/-- `gzochi:boolean-serialization`. -/
def booleanSerialization : PortSerialization Bool :=
  ⟨fun val => .ok (writeBoolean val), readBoolean⟩

theorem boolean_readsBack (val : Bool) : booleanSerialization.ReadsBack val :=
  ⟨_, rfl, readBoolean_reads val⟩

/-- `gzochi:string-serialization`. -/
def stringSerialization : PortSerialization String :=
  ⟨fun str => .ok (writeString str), readString⟩

/-- `gzochi:symbol-serialization`.  A symbol is given by its name. -/
def symbolSerialization : PortSerialization String :=
  ⟨fun sym => .ok (writeSymbol sym), readSymbol⟩

theorem string_readsBack_iff (str : String) : stringSerialization.ReadsBack str ↔ Ascii str := by
  constructor
  · rintro ⟨written, done, reads⟩
    cases done
    by_contra wide
    exact readString_other wide (reads []) rfl
  · intro ascii
    exact ⟨_, rfl, readString_reads ascii⟩

theorem symbol_readsBack_iff (sym : String) : symbolSerialization.ReadsBack sym ↔ Ascii sym :=
  string_readsBack_iff sym

/-- `get-bytevector-n`.  At the end of the port the end-of-file object, here `none`, unless
no byte is asked for. -/
def getBytevectorOrEof (count : Nat) : Port (Option Bytes) := fun input =>
  if 0 < count ∧ input = [] then .ok (none, input)
  else .ok (some (input.take count), input.drop count)

/-- `gzochi:write-bytevector`. -/
def writeBytevector (bv : Bytes) : Bytes := writeVarint bv.length ++ bv

/-- `gzochi:read-bytevector`. -/
def readBytevector : Port (Option Bytes) := do
  let count ← readVarint
  getBytevectorOrEof count

/-- `gzochi:bytevector-serialization`.  Only a bytevector can be written. -/
def bytevectorSerialization : PortSerialization (Option Bytes) where
  serializer
    | some bv => .ok (writeBytevector bv)
    | none => .error "Wrong type argument"
  deserializer := readBytevector

theorem getBytevectorOrEof_reads (bytes : Bytes) :
    (getBytevectorOrEof bytes.length).Reads bytes (some bytes) := by
  intro rest
  unfold getBytevectorOrEof
  rw [if_neg, List.take_left, List.drop_left]
  rintro ⟨positive, ended⟩
  rw [List.append_eq_nil_iff] at ended
  rw [ended.1] at positive
  exact absurd positive (by decide)

theorem bytevector_readsBack (bv : Bytes) : bytevectorSerialization.ReadsBack (some bv) :=
  ⟨_, rfl, (readVarint_reads bv.length).bind (getBytevectorOrEof_reads bv)⟩

/-- The `for-each` of the serializer of a uniform list. -/
def writeElements (serializer : Value → Except String Bytes) : List Value → Except String Bytes
  | [] => .ok []
  | value :: lst => do
      let written ← serializer value
      let more ← writeElements serializer lst
      .ok (written ++ more)

/-- The loop of the deserializer of a uniform list, with the number of rounds to go. -/
def readElements (deserializer : Port Value) : Nat → List Value → Port (List Value)
  | 0, lst => pure lst.reverse
  | rounds + 1, lst => do
      let value ← deserializer
      readElements deserializer rounds (value :: lst)

/-- `gzochi:make-uniform-list-serialization`. -/
def makeUniformListSerialization (serialization : PortSerialization Value) :
    PortSerialization (List Value) where
  serializer lst := do
    let elements ← writeElements serialization.serializer lst
    .ok (writeInteger lst.length ++ elements)
  deserializer := do
    let length ← readInteger
    readElements serialization.deserializer length.toNat []

variable {serialization : PortSerialization Value} {lst : List Value}

/-- The elements are written one after the other and read in that order. -/
theorem elements_read (readsBack : ∀ value ∈ lst, serialization.ReadsBack value)
    (earlier : List Value) :
    ∃ written, writeElements serialization.serializer lst = .ok written ∧
      (readElements serialization.deserializer lst.length earlier).Reads written
        (earlier.reverse ++ lst) := by
  induction lst generalizing earlier with
  | nil =>
    refine ⟨[], rfl, ?_⟩
    rw [List.append_nil]
    exact Reader.Reads.pure _
  | cons value lst ih =>
    obtain ⟨written, done, reads⟩ := readsBack value List.mem_cons_self
    obtain ⟨more, others, readsMore⟩ :=
      ih (fun other member => readsBack other (List.mem_cons_of_mem _ member)) (value :: earlier)
    refine ⟨written ++ more, ?_, ?_⟩
    · rw [writeElements, done]
      show (writeElements serialization.serializer lst >>= _) = _
      rw [others]
      rfl
    · rw [List.reverse_cons, List.append_assoc] at readsMore
      exact reads.bind readsMore

theorem uniformList_readsBack (readsBack : ∀ value ∈ lst, serialization.ReadsBack value) :
    (makeUniformListSerialization serialization).ReadsBack lst := by
  obtain ⟨written, done, reads⟩ := elements_read readsBack []
  refine ⟨writeInteger lst.length ++ written, ?_, (readInteger_reads lst.length).bind reads⟩
  show (writeElements serialization.serializer lst >>= _) = _
  rw [done]
  rfl

/-- The integers that are read back are the natural numbers, and the strings and symbols
those in ASCII; booleans and bytevectors all are, and so is a list of values that are. -/
theorem primitives_read_back (varint : Int) (val : Bool) (str sym : String) (bv : Bytes) :
    (integerSerialization.ReadsBack varint ↔ 0 ≤ varint) ∧
    booleanSerialization.ReadsBack val ∧
    (stringSerialization.ReadsBack str ↔ Ascii str) ∧
    (symbolSerialization.ReadsBack sym ↔ Ascii sym) ∧
    bytevectorSerialization.ReadsBack (some bv) ∧
    ∀ {Value : Type} (serialization : PortSerialization Value) (lst : List Value),
      (∀ value ∈ lst, serialization.ReadsBack value) →
      (makeUniformListSerialization serialization).ReadsBack lst := by
  refine ⟨integer_readsBack_iff varint, boolean_readsBack val, string_readsBack_iff str,
    symbol_readsBack_iff sym, bytevector_readsBack bv, ?_⟩
  intro Value serialization lst readsBack
  exact uniformList_readsBack readsBack

/-- A list of lists of names, through the element serialization for such lists. -/
theorem primitives_read_back_nested :
    (makeUniformListSerialization (makeUniformListSerialization stringSerialization)).ReadsBack
      [["merlin", "morgan"], []] := by
  have ascii : ∀ str ∈ ["merlin", "morgan"], Ascii str := by
    simp [Ascii]
  apply (primitives_read_back 0 true "" "" []).2.2.2.2.2
  intro lst member
  apply (primitives_read_back 0 true "" "" []).2.2.2.2.2
  intro str inside
  rw [string_readsBack_iff]
  rcases List.mem_pair.mp member with rfl | rfl
  · exact ascii str inside
  · exact absurd inside List.not_mem_nil

/-- Minus one comes back as 127, and a string of one Greek letter not at all. -/
theorem minus_one_and_lambda_not_read_back :
    ¬ integerSerialization.ReadsBack (-1) ∧ ¬ stringSerialization.ReadsBack "λ" := by
  refine ⟨?_, ?_⟩
  · rw [integer_readsBack_iff]
    decide
  · rw [string_readsBack_iff]
    simp [Ascii]

end Gzochi.Managed
