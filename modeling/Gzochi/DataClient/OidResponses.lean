import Gzochi.Data.Oids
import Gzochi.DataClient.Protocol
import Gzochi.Queue.Storage
import Mathlib.Data.List.TakeWhile

/-!
# Responses with a block of object ids

The meta server answers a request for object ids with the name of the application, the first id
of a block and the size of the block.  The data client takes the length of the name off the
bytes that are left twice, the second time in the place of that of the id, so that what it
accepts depends on how long the name is.
-/

namespace Gzochi.DataClient

open List

open Data (OidsBlock)
open Queue (gzochiCommonIoWriteLong gzochiCommonIoReadLong gzochiCommonIoReadLong_reads)

/-- `gzochid_data_reserve_oids_response`. -/
structure ReserveOidsResponse where
  app : Bytes
  block : OidsBlock
  deriving DecidableEq

/-- `gzochid_data_protocol_reserve_oids_response_write`. -/
def reserveOidsResponseWrite (response : ReserveOidsResponse) : Bytes :=
  writeStr response.app ++ (gzochiCommonIoWriteLong response.block.blockStart ++
    writeShort response.block.blockSize)

/-- What comes of bytes that are read: there may be fewer than are looked at. -/
inductive Decoded where
  | rejected
  | pastEnd
  | response (response : ReserveOidsResponse)
  deriving DecidableEq

/-- The difference of two values of type `size_t`. -/
def sizeSub (len count : Nat) : Nat :=
  if count ≤ len then len - count else len + 2 ^ 64 - count

/-- `read_oid`, with the value of `str_len`; nothing where it reads past the end. -/
def readOid (bytes : Bytes) (len : Nat) : Option (Nat × Nat) :=
  if len < 8 then some (0, 0)
  else
    match gzochiCommonIoReadLong bytes with
    | .error _ => none
    | .ok (oid, _) => some (oid, 8)

/-- `gzochid_data_protocol_reserve_oids_response_read`. -/
def reserveOidsResponseRead (bytes : Bytes) : Decoded :=
  match readStr bytes with
  | none => .rejected
  | some (app, rest) =>
      let strLen := app.length + 1
      let len := sizeSub bytes.length strLen
      match readOid rest len with
      | none => .pastEnd
      | some (oid, oidLen) =>
          if oidLen = 0 then .rejected
          else
            -- the length of the id is never taken off
            let len := sizeSub len strLen
            if 1 < strLen ∧ 2 ≤ len then
              match rest.drop oidLen with
              | high :: low :: _ =>
                  .response ⟨app, ⟨oid, (readShort high low % 65536).toNat⟩⟩
              | _ => .pastEnd
            else .rejected

/-! ## What is read of the first bytes of a response -/

variable {app : Name} {start size count : Nat} {bytes : Bytes}

theorem readStr_unterminated (unterminated : 0 ∉ bytes) : readStr bytes = none := by
  have all : ∀ byte ∈ bytes, decide (byte ≠ 0) = true := by
    intro byte member
    exact decide_eq_true fun zero => unterminated (zero ▸ member)
  unfold readStr
  rw [dropWhile_eq_nil_iff.mpr all]

theorem writeLong_length : (gzochiCommonIoWriteLong start).length = 8 := rfl

theorem readOid_short (short : count < 8) : readOid bytes count = some (0, 0) := if_pos short

/-- The id is read where its eight bytes are there. -/
theorem readOid_take (small : start < 2 ^ 64) (rest : Bytes) :
    readOid (gzochiCommonIoWriteLong start ++ rest) (8 + rest.length) = some (start, 8) := by
  have read := gzochiCommonIoReadLong_reads small rest
  unfold readOid
  rw [if_neg (by omega), read]

/-- The bytes of a block of which `count` are there. -/
def blockBytes (start size count : Nat) : Bytes :=
  (gzochiCommonIoWriteLong start ++ writeShort size).take count

theorem blockBytes_length (le : count ≤ 10) : (blockBytes start size count).length = count := by
  have long : (gzochiCommonIoWriteLong start ++ writeShort size).length = 10 := rfl
  rw [blockBytes, length_take, long]
  omega

theorem blockBytes_of_le (le : 8 ≤ count) : blockBytes start size count =
      gzochiCommonIoWriteLong start ++ (writeShort size).take (count - 8) := by
  rw [blockBytes, take_append, writeLong_length, take_of_length_le (writeLong_length.trans_le le)]

/-- The decision after the second subtraction. -/
theorem accepted_iff (memory : app.bytes.length + 11 < 2 ^ 64) (le : count ≤ 10) :
    (1 < app.bytes.length + 1 ∧ 2 ≤ sizeSub count (app.bytes.length + 1)) ↔
      app.bytes.length ≠ 0 ∧ ¬(app.bytes.length < count ∧ count ≤ app.bytes.length + 2) := by
  unfold sizeSub
  split <;> omega

/-- What is left after the second subtraction is `count - (length + 1)`, modulo the size of a
word, and it is compared with the two bytes of the size. -/
theorem read_block (small : start < 2 ^ 64) (fits : size < 65536)
    (memory : app.bytes.length + 11 < 2 ^ 64) (le : count ≤ 10) :
    reserveOidsResponseRead (writeStr app.bytes ++ blockBytes start size count) =
      if count < 8 ∨ app.bytes.length = 0 ∨
          (app.bytes.length < count ∧ count ≤ app.bytes.length + 2) then .rejected
      else if count = 10 then .response ⟨app.bytes, ⟨start, size⟩⟩
      else .pastEnd := by
  have total : (writeStr app.bytes ++ blockBytes start size count).length =
      app.bytes.length + 1 + count := by
    rw [length_append, blockBytes_length le]
    simp [writeStr]
  have first : sizeSub (app.bytes.length + 1 + count) (app.bytes.length + 1) = count := by
    rw [sizeSub, if_pos (Nat.le_add_right _ _), Nat.add_sub_cancel_left]
  unfold reserveOidsResponseRead
  rw [total, readStr_writeStr app.terminated]
  dsimp only
  rw [first]
  by_cases short : count < 8
  · simp only [readOid_short short, short, true_or, if_true]
  · have tail : ((writeShort size).take (count - 8)).length = count - 8 := by
      rw [length_take]
      simp only [writeShort, length_cons, length_nil]
      omega
    have oid : readOid (blockBytes start size count) count = some (start, 8) := by
      have read := readOid_take small ((writeShort size).take (count - 8))
      rw [tail, show 8 + (count - 8) = count by omega] at read
      rwa [blockBytes_of_le (by omega)]
    have rest : (blockBytes start size count).drop 8 = (writeShort size).take (count - 8) := by
      rw [blockBytes_of_le (by omega)]
      exact drop_left' writeLong_length
    rw [oid]
    dsimp only
    rw [if_neg (by decide), rest]
    by_cases accepted : 1 < app.bytes.length + 1 ∧ 2 ≤ sizeSub count (app.bytes.length + 1)
    · obtain ⟨named, remaining⟩ := (accepted_iff memory le).mp accepted
      rw [if_pos accepted, if_neg (by tauto)]
      by_cases whole : count = 10
      · subst whole
        simp only [writeShort, take_succ_cons, take_zero,
          readShort_writeShort_unsigned fits, if_true]
      · have fewer : count = 8 ∨ count = 9 := by omega
        rw [if_neg whole]
        cases fewer with
        | inl eight => simp only [eight, Nat.sub_self, take_zero]
        | inr nine => simp only [nine, writeShort, take_succ_cons, take_zero]
    · have refused := fun both => accepted ((accepted_iff memory le).mpr both)
      rw [if_neg accepted, if_pos]
      tauto

/-! ## Responses and their prefixes -/

/-- A prefix ends in the name or in the block. -/
theorem prefix_cases {response : ReserveOidsResponse}
    (first : bytes <+: reserveOidsResponseWrite response) :
    bytes <+: response.app ∨ ∃ count ≤ 10, bytes = writeStr response.app ++
      blockBytes response.block.blockStart response.block.blockSize count := by
  have taken := prefix_iff_eq_take.mp first
  have long : (reserveOidsResponseWrite response).length = response.app.length + 11 := by
    simp [reserveOidsResponseWrite, writeStr, writeLong_length, writeShort]
  have bound := first.length_le
  rw [reserveOidsResponseWrite, writeStr] at taken
  by_cases inName : bytes.length ≤ response.app.length
  · left
    rw [append_assoc, take_append_of_le_length inName] at taken
    exact prefix_iff_eq_take.mpr taken
  · right
    have named : (response.app ++ [0]).length = response.app.length + 1 := by simp
    refine ⟨bytes.length - (response.app.length + 1), by omega, ?_⟩
    rw [take_append, take_of_length_le (by omega), named] at taken
    exact taken

theorem write_blockBytes (response : ReserveOidsResponse) :
    reserveOidsResponseWrite response = writeStr response.app ++
      blockBytes response.block.blockStart response.block.blockSize 10 := rfl

theorem writeStr_blockBytes_length (le : count ≤ 10) :
    (writeStr app.bytes ++ blockBytes start size count).length = app.bytes.length + 1 + count := by
  rw [length_append, blockBytes_length le]
  simp [writeStr]

/-- The response is read back, and of no proper prefix is anything read. -/
structure ReserveOidsResponse.Decodes (response : ReserveOidsResponse) : Prop where
  whole : reserveOidsResponseRead (reserveOidsResponseWrite response) = .response response
  proper : ∀ bytes, bytes <+: reserveOidsResponseWrite response →
    bytes ≠ reserveOidsResponseWrite response → reserveOidsResponseRead bytes = .rejected

/-- A response of a block, as the types of its fields have it. -/
def responseOf (app : Name) (start : UInt64) (size : UInt16) : ReserveOidsResponse :=
  ⟨app.bytes, ⟨start.toNat, size.toNat⟩⟩

section Response

variable (app : Name) (start : UInt64) (size : UInt16) (memory : app.bytes.length + 11 < 2 ^ 64)

include memory

theorem whole_iff : reserveOidsResponseRead (reserveOidsResponseWrite (responseOf app start size)) =
        .response (responseOf app start size) ↔
      (1 ≤ app.bytes.length ∧ app.bytes.length ≤ 7) ∨ 10 ≤ app.bytes.length := by
  have read := read_block start.toNat_lt size.toNat_lt memory (Nat.le_refl 10)
  rw [write_blockBytes]
  show reserveOidsResponseRead (writeStr app.bytes ++ blockBytes start.toNat size.toNat 10) = _ ↔ _
  rw [read]
  split
  case isTrue refused =>
    simp only [reduceCtorEq, false_iff]
    omega
  case isFalse accepted =>
    simp only [if_true, responseOf, true_iff]
    omega

theorem proper_iff {bytes : Bytes}
    (first : bytes <+: reserveOidsResponseWrite (responseOf app start size))
    (proper : bytes ≠ reserveOidsResponseWrite (responseOf app start size)) :
    reserveOidsResponseRead bytes = .rejected ↔
      bytes.length ≤ app.bytes.length + 8 ∨ app.bytes.length = 0 ∨ app.bytes.length = 7 ∨
      (bytes.length = app.bytes.length + 9 ∧ app.bytes.length = 6) ∨
      (bytes.length = app.bytes.length + 10 ∧ app.bytes.length = 8) := by
  cases prefix_cases first with
  | inl inName =>
    have unterminated : 0 ∉ bytes := fun zero => app.terminated (inName.subset zero)
    have bound : bytes.length ≤ app.bytes.length := inName.length_le
    unfold reserveOidsResponseRead
    rw [readStr_unterminated unterminated]
    simp only [true_iff]
    omega
  | inr inBlock =>
    obtain ⟨count, le, written⟩ := inBlock
    have partly : count ≠ 10 := by
      intro whole
      apply proper
      rw [written, whole]
      rfl
    have read := read_block start.toNat_lt size.toNat_lt memory le
    subst written
    show reserveOidsResponseRead
      (writeStr app.bytes ++ blockBytes start.toNat size.toNat count) = _ ↔ _
    rw [read]
    have long : (writeStr (responseOf app start size).app ++
        blockBytes (responseOf app start size).block.blockStart
          (responseOf app start size).block.blockSize count).length =
        app.bytes.length + 1 + count := writeStr_blockBytes_length le
    rw [long]
    split
    case isTrue refused =>
      simp only [true_iff]
      omega
    case isFalse accepted =>
      simp only [reduceCtorEq, false_iff]
      omega

/-- A response is read back when the name has one to seven or at least ten bytes.  The decoder
rejects its proper prefixes except those with eight or nine bytes of the block, of which it
rejects some, by the length of the name; all of this is well for names of seven bytes alone. -/
theorem reserve_oids_response_decodes_iff :
    (reserveOidsResponseRead (reserveOidsResponseWrite (responseOf app start size)) =
        .response (responseOf app start size) ↔
      (1 ≤ app.bytes.length ∧ app.bytes.length ≤ 7) ∨ 10 ≤ app.bytes.length) ∧
    (∀ bytes, bytes <+: reserveOidsResponseWrite (responseOf app start size) →
      bytes ≠ reserveOidsResponseWrite (responseOf app start size) →
      (reserveOidsResponseRead bytes = .rejected ↔
        bytes.length ≤ app.bytes.length + 8 ∨ app.bytes.length = 0 ∨ app.bytes.length = 7 ∨
        (bytes.length = app.bytes.length + 9 ∧ app.bytes.length = 6) ∨
        (bytes.length = app.bytes.length + 10 ∧ app.bytes.length = 8))) ∧
    ((responseOf app start size).Decodes ↔ app.bytes.length = 7) := by
  have whole := whole_iff app start size memory
  refine ⟨whole, fun bytes => proper_iff app start size memory, ?_⟩
  constructor
  · intro decodes
    -- all bytes but the last one
    have fewer : writeStr app.bytes ++ blockBytes start.toNat size.toNat 9 <+:
        reserveOidsResponseWrite (responseOf app start size) := by
      rw [write_blockBytes]
      apply (prefix_append_right_inj _).mpr
      exact take_prefix_take_left (by decide)
    have shorter : (writeStr app.bytes ++ blockBytes start.toNat size.toNat 9).length =
        app.bytes.length + 1 + 9 := writeStr_blockBytes_length (by decide)
    have proper : writeStr app.bytes ++ blockBytes start.toNat size.toNat 9 ≠
        reserveOidsResponseWrite (responseOf app start size) := by
      intro same
      have longer : (reserveOidsResponseWrite (responseOf app start size)).length =
          app.bytes.length + 1 + 10 := writeStr_blockBytes_length (Nat.le_refl 10)
      rw [← same, shorter] at longer
      omega
    have named := whole.mp decodes.whole
    have refused := (proper_iff app start size memory fewer proper).mp
      (decodes.proper _ fewer proper)
    omega
  · intro seven
    constructor
    · exact whole.mpr (by omega)
    · intro bytes first proper
      exact (proper_iff app start size memory first proper).mpr (by omega)

end Response

/-- Names of seven and of eight bytes. -/
def sevenBytes : Name := ⟨[103, 122, 111, 99, 104, 105, 97], by decide⟩

def eightBytes : Name := ⟨[103, 122, 111, 99, 104, 105, 97, 98], by decide⟩

def fourBytes : Name := ⟨[116, 101, 115, 116], by decide⟩

theorem seven_bytes_decode : (responseOf sevenBytes 1 100).Decodes :=
  (reserve_oids_response_decodes_iff sevenBytes 1 100 (by decide)).2.2.mpr rfl

/-- A response with a name of eight bytes is rejected.  With one of four bytes and without the
last two bytes, the size is read past the end. -/
theorem eight_bytes_rejected :
    reserveOidsResponseRead (reserveOidsResponseWrite (responseOf eightBytes 1 100)) = .rejected ∧
    ∃ bytes, bytes <+: reserveOidsResponseWrite (responseOf fourBytes 123 100) ∧
      bytes ≠ reserveOidsResponseWrite (responseOf fourBytes 123 100) ∧
      reserveOidsResponseRead bytes = .pastEnd := by
  constructor
  · decide +kernel
  · refine ⟨writeStr fourBytes.bytes ++ gzochiCommonIoWriteLong 123, ?_, ?_, ?_⟩
    · decide +kernel
    · decide +kernel
    · decide +kernel

end Gzochi.DataClient
