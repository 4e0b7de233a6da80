import Gzochi.Lib.Reader
import Mathlib.Data.List.Basic
import Mathlib.Tactic.Ring

/-!
# The input and output procedures of the Scheme side

The procedures of `(gzochi io)` that managed records are written with: integers in groups
of seven bits with the lowest first, booleans, strings and symbols.  What is written is
the list of bytes put to the port; reading takes bytes off the port and fails as the
procedures raise.
-/

namespace Gzochi.Managed

open List

open Gzochi.Lib (Reader)

abbrev Bytes := List UInt8

/-- A procedure that reads from a port. -/
abbrev Port := Reader UInt8 String

/-- `write-varint`. -/
def writeVarint (varint : Nat) : Bytes :=
  if varint > 127 then
    UInt8.ofNat (1 <<< 7 ||| varint % 2 ^ 7) :: writeVarint (varint >>> 7)
  else
    [UInt8.ofNat (varint % 2 ^ 7)]
termination_by varint
decreasing_by
  rw [Nat.shiftRight_eq_div_pow]
  exact Nat.div_lt_self (by omega) (by decide)

/-- `read-varint-inner`.  `get-u8` gives no byte at the end of the port, and the bit
procedures raise then. -/
def readVarintInner (tally septets : Nat) : Bytes → Except String (Nat × Bytes)
  | [] => .error "Wrong type argument"
  | b :: rest =>
      let tally := (b.toNat % 2 ^ 7) <<< (septets * 7) ||| tally
      if b.toNat.testBit 7 then readVarintInner tally (septets + 1) rest else .ok (tally, rest)

/-- `read-varint`. -/
def readVarint : Port Nat := readVarintInner 0 0

theorem toNat_continued (low : Nat) (small : low < 2 ^ 7) :
    (UInt8.ofNat (1 <<< 7 ||| low)).toNat = 2 ^ 7 + low := by
  have joined : 1 <<< 7 ||| low = 2 ^ 7 + low := by
    have apart := Nat.two_pow_add_eq_or_of_lt small 1
    simpa using apart.symm
  rw [joined, UInt8.toNat_ofNat']
  omega

theorem toNat_last (low : Nat) (small : low < 2 ^ 7) : (UInt8.ofNat low).toNat = low := by
  rw [UInt8.toNat_ofNat']
  omega

/-- A group of bits goes above those tallied so far. -/
theorem tally_next (group tally septets : Nat) (below : tally < 2 ^ (septets * 7)) :
    group <<< (septets * 7) ||| tally = tally + group * 2 ^ (septets * 7) := by
  have apart := Nat.two_pow_add_eq_or_of_lt below group
  rw [Nat.shiftLeft_eq, Nat.mul_comm group]
  rw [← apart, Nat.add_comm]

theorem readVarintInner_writeVarint (varint : Nat) (rest : Bytes) (tally septets : Nat)
    (below : tally < 2 ^ (septets * 7)) :
    readVarintInner tally septets (writeVarint varint ++ rest) =
      .ok (tally + varint * 2 ^ (septets * 7), rest) := by
  induction varint using Nat.strongRecOn generalizing tally septets with
  | ind varint ih =>
    have small : varint % 2 ^ 7 < 2 ^ 7 := Nat.mod_lt _ (by decide)
    rw [writeVarint]
    split
    · rename_i more
      have bit : (2 ^ 7 + varint % 2 ^ 7).testBit 7 = true := by
        rw [Nat.testBit_eq_decide_div_mod_eq, decide_eq_true_iff]
        omega
      have group : (2 ^ 7 + varint % 2 ^ 7) % 2 ^ 7 = varint % 2 ^ 7 := by omega
      have step : (2 : Nat) ^ ((septets + 1) * 7) = 2 ^ (septets * 7) * 2 ^ 7 := by
        rw [Nat.add_mul, Nat.one_mul, Nat.pow_add]
      have inside : tally + varint % 2 ^ 7 * 2 ^ (septets * 7) < 2 ^ ((septets + 1) * 7) := by
        have most : varint % 2 ^ 7 * 2 ^ (septets * 7) ≤ (2 ^ 7 - 1) * 2 ^ (septets * 7) :=
          Nat.mul_le_mul_right _ (by omega)
        rw [step]
        omega
      simp only [cons_append, readVarintInner, toNat_continued _ small, bit, group, if_true,
        tally_next _ _ _ below]
      rw [ih (varint >>> 7) (by rw [Nat.shiftRight_eq_div_pow]; omega) _ _ inside,
        Nat.shiftRight_eq_div_pow, step]
      have parts : varint = varint % 2 ^ 7 + varint / 2 ^ 7 * 2 ^ 7 := by omega
      have sum : tally + varint % 2 ^ 7 * 2 ^ (septets * 7) +
          varint / 2 ^ 7 * (2 ^ (septets * 7) * 2 ^ 7) = tally + varint * 2 ^ (septets * 7) := by
        nth_rewrite 3 [parts]
        ring
      rw [sum]
    · have bit : (varint % 2 ^ 7).testBit 7 = false := by
        rw [Nat.testBit_eq_decide_div_mod_eq, decide_eq_false_iff_not]
        omega
      have group : varint % 2 ^ 7 = varint := by omega
      rw [group] at bit small
      simp only [cons_append, nil_append, readVarintInner, group, toNat_last _ small,
        bit, Bool.false_eq_true, if_false, tally_next _ _ _ below]

theorem readVarint_reads (varint : Nat) : readVarint.Reads (writeVarint varint) varint := by
  intro rest
  have read := readVarintInner_writeVarint varint rest 0 0 (by decide)
  simpa [readVarint] using read

/-- `gzochi:write-boolean`. -/
def writeBoolean (val : Bool) : Bytes := writeVarint (if val then 1 else 0)

/-- `gzochi:read-boolean`. -/
def readBoolean : Port Bool := do
  let varint ← readVarint
  pure (if varint = 0 then false else true)

theorem readBoolean_reads (val : Bool) : readBoolean.Reads (writeBoolean val) val := by
  have read := (readVarint_reads (if val then 1 else 0)).map fun varint =>
    if varint = 0 then false else true
  cases val with
  | false => exact read
  | true => exact read

/-- `string->utf8`. -/
def stringToUtf8 (str : String) : Bytes := str.toList.flatMap String.utf8EncodeChar

/-- `utf8->string`, which raises on bytes that encode no string. -/
def utf8ToString (bytes : Bytes) : Except String String :=
  match String.fromUTF8? bytes.toByteArray with
  | some str => .ok str
  | none => .error "Input string contains invalid UTF-8"

/-- `get-bytevector-n`, as `utf8->string` takes its result: at the end of the port it is
not a bytevector, unless no byte is asked for. -/
def getBytevectorN (count : Nat) : Port Bytes := fun input =>
  if 0 < count ∧ input = [] then .error "Wrong type argument"
  else .ok (input.take count, input.drop count)

/-- `gzochi:write-string`.  The length is that of the string, in characters. -/
def writeString (str : String) : Bytes := writeVarint str.length ++ stringToUtf8 str

/-- `gzochi:read-string`.  The length is taken as a number of bytes. -/
def readString : Port String := do
  let count ← readVarint
  let bytes ← getBytevectorN count
  utf8ToString bytes

/-- `gzochi:write-symbol`. -/
def writeSymbol (sym : String) : Bytes := writeString sym

/-- `gzochi:read-symbol`. -/
def readSymbol : Port String := readString

theorem getBytevectorN_reads (bytes : Bytes) : (getBytevectorN bytes.length).Reads bytes bytes := by
  intro rest
  unfold getBytevectorN
  rw [if_neg, take_left, drop_left]
  rintro ⟨some_byte, ended⟩
  rw [append_eq_nil_iff] at ended
  rw [ended.1] at some_byte
  exact absurd some_byte (by decide)

theorem toByteArray_stringToUtf8 (str : String) :
    (stringToUtf8 str).toByteArray = str.toByteArray := by
  have same : (String.ofList str.toList).toByteArray = str.toByteArray := by
    rw [String.ofList_toList]
  exact same

@[simp] theorem utf8ToString_stringToUtf8 (str : String) :
    utf8ToString (stringToUtf8 str) = .ok str := by
  have decoded : String.fromUTF8? (stringToUtf8 str).toByteArray = some str := by
    unfold String.fromUTF8?
    rw [toByteArray_stringToUtf8, dif_pos str.isValidUTF8]
    rfl
  unfold utf8ToString
  rw [decoded]

/-- Only the encoding of a string is read as that string. -/
theorem utf8ToString_ok {bytes : Bytes} {str : String} (read : utf8ToString bytes = .ok str) :
    bytes = stringToUtf8 str := by
  unfold utf8ToString at read
  split at read
  · rename_i found decoded
    cases read
    unfold String.fromUTF8? at decoded
    split at decoded
    · rename_i valid
      cases decoded
      have same : (stringToUtf8 (String.fromUTF8 bytes.toByteArray valid)).toByteArray =
          bytes.toByteArray := toByteArray_stringToUtf8 _
      have data := congrArg (fun array : ByteArray => array.data.toList) same
      simpa using data.symm
    · cases decoded
  · cases read

/-- The characters of a string that UTF-8 encodes as one byte each. -/
def Ascii (str : String) : Prop := ∀ c ∈ str.toList, c.toNat < 128

theorem utf8Size_eq_one (c : Char) : c.utf8Size = 1 ↔ c.toNat < 128 := by
  rw [Char.utf8Size_eq_one_iff, UInt32.le_iff_toNat_le]
  have bound : (127 : UInt32).toNat = 127 := rfl
  have value : c.toNat = c.val.toNat := rfl
  omega

/-- A string has as many bytes as characters exactly if it is ASCII. -/
theorem length_stringToUtf8 (str : String) : str.length ≤ (stringToUtf8 str).length ∧
      ((stringToUtf8 str).length = str.length ↔ Ascii str) := by
  have main : ∀ chars : List Char, chars.length ≤ (chars.flatMap String.utf8EncodeChar).length ∧
        ((chars.flatMap String.utf8EncodeChar).length = chars.length ↔
          ∀ c ∈ chars, c.toNat < 128) := by
    intro chars
    induction chars with
    | nil => simp
    | cons c chars ih =>
      have positive := c.utf8Size_pos
      have one := utf8Size_eq_one c
      simp only [flatMap_cons, length_append, String.length_utf8EncodeChar,
        length_cons, forall_mem_cons]
      refine ⟨by omega, ?_⟩
      rw [← ih.2, ← one]
      omega
  exact main str.toList

theorem readString_reads {str : String} (ascii : Ascii str) :
    readString.Reads (writeString str) str := by
  have size := (length_stringToUtf8 str).2.2 ascii
  have counted : (getBytevectorN str.length).Reads (stringToUtf8 str) (stringToUtf8 str) := by
    have read := getBytevectorN_reads (stringToUtf8 str)
    rwa [size] at read
  have decoded : Reader.Reads (utf8ToString (stringToUtf8 str) : Port String) [] str := by
    intro rest
    rw [utf8ToString_stringToUtf8]
    rfl
  have body : Reader.Reads
      (do let bytes ← getBytevectorN str.length; utf8ToString bytes : Port String)
      (stringToUtf8 str ++ []) str := counted.bind decoded
  rw [append_nil] at body
  exact (readVarint_reads str.length).bind body

/-- A string that is not ASCII is not read back. -/
theorem readString_other {str read : String} {rest remaining : Bytes} (wide : ¬ Ascii str)
    (ended : readString (writeString str ++ rest) = .ok (read, remaining)) : read ≠ str := by
  have count := readVarint_reads str.length (stringToUtf8 str ++ rest)
  rw [← append_assoc] at count
  obtain ⟨size, bytes, first, second⟩ := Reader.bind_ok ended
  have parts : (size, bytes) = (str.length, stringToUtf8 str ++ rest) :=
    Except.ok.inj (first.symm.trans count)
  cases parts
  obtain ⟨taken, left, third, last⟩ := Reader.bind_ok second
  have fewer := length_stringToUtf8 str
  have short : taken = (stringToUtf8 str ++ rest).take str.length := by
    unfold getBytevectorN at third
    split at third
    · cases third
    · cases third
      rfl
  have decoded : utf8ToString taken = .ok read := by
    cases result : utf8ToString taken with
    | error failure =>
      rw [result] at last
      cases last
    | ok found =>
      rw [result] at last
      cases last
      rfl
  rintro rfl
  have whole := congrArg List.length ((utf8ToString_ok decoded).symm.trans short)
  rw [length_take, length_append] at whole
  exact wide (fewer.2.1 (by omega))

end Gzochi.Managed
