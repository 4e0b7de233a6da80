import Gzochi.DataClient.Values

/-!
# Changesets on the wire

A changeset is sent as the name of its application, the number of its changes and the
changes one after the other.  Names end with a zero byte; keys and values come after a
length of two bytes, which is written as a `short` and read as one.  The meta server reads
a value of no bytes as a deletion.
-/

namespace Gzochi.DataClient

open List

/-- The bytes of a C string, without the zero byte at its end. -/
structure Name where
  bytes : Bytes
  terminated : 0 ∉ bytes
  deriving DecidableEq

/-- `gzochi_common_io_write_short`. -/
def writeShort (value : Nat) : Bytes := [UInt8.ofNat (value / 256), UInt8.ofNat value]

/-- `gzochi_common_io_read_short`; two's complement. -/
def readShort (high low : UInt8) : Int :=
  let value := high.toNat * 256 + low.toNat
  if value < 32768 then value else (value : Int) - 65536

/-- `write_bytes`. -/
def writeBytes (data : Bytes) : Bytes := writeShort data.length ++ data

/-- The bytes of a name on the wire. -/
def writeStr (name : Bytes) : Bytes := name ++ [0]

/-- `change_write`. -/
def changeWrite (change : Change) : Bytes :=
  writeStr change.key.store ++ writeBytes change.key.key ++
    match change.data with
    | none => [0, 0]
    | some data => writeBytes data

/-- `gzochid_data_protocol_changeset_write`. -/
def changesetWrite (app : Name) (changes : List Change) : Bytes :=
  writeStr app.bytes ++ writeShort changes.length ++ changes.flatMap changeWrite

/-- `gzochid_protocol_read_str`, with what follows the string. -/
def readStr (bytes : Bytes) : Option (Bytes × Bytes) :=
  match bytes.dropWhile (· ≠ 0) with
  | [] => none
  | _ :: rest => some (bytes.takeWhile (· ≠ 0), rest)

/-- `gzochid_protocol_read_bytes`, with what follows the bytes.  A negative length becomes
a large one when it is compared with the bytes that are left. -/
def readBytes : Bytes → Option (Bytes × Bytes)
  | high :: low :: rest =>
      let length := readShort high low
      if length < 0 ∨ rest.length < length.toNat then none
      else some (rest.take length.toNat, rest.drop length.toNat)
  | _ => none

/-- `change_read`, with what follows the change. -/
def changeRead (bytes : Bytes) : Option (Change × Bytes) :=
  match readStr bytes with
  | none => none
  | some (store, afterStore) =>
      if store = [] then none
      else
        match readBytes afterStore with
        | none => none
        | some (key, afterKey) =>
            if key = [] then none
            else
              match readBytes afterKey with
              | none => none
              | some (data, rest) =>
                  some (⟨⟨store, key⟩, if data = [] then none else some data⟩, rest)

/-- The loop of `gzochid_data_protocol_changeset_read`.  When the bytes end too early, the
remaining records stay as they were allocated, with nothing in them. -/
def readChanges : Nat → Bytes → Option (List (Option Change))
  | 0, _ => some []
  | count + 1, bytes =>
      if bytes = [] then some (List.replicate (count + 1) none)
      else
        match changeRead bytes with
        | none => none
        | some (change, rest) => (readChanges count rest).map (some change :: ·)

/-- `gzochid_data_changeset`, as it is read. -/
structure Changeset where
  app : Bytes
  changes : List (Option Change)
  deriving DecidableEq

/-- `gzochid_data_protocol_changeset_read`. -/
def changesetRead (bytes : Bytes) : Option Changeset :=
  match readStr bytes with
  | none => none
  | some (app, rest) =>
      match rest with
      | high :: low :: body =>
          if body = [] then none
          else (readChanges (readShort high low).toNat body).map (Changeset.mk app)
      | _ => none

/-- `GZOCHID_DATA_PROTOCOL_SUBMIT_CHANGESET`. -/
def submitChangesetOpcode : UInt8 := 0x30

/-- `MAX_MESSAGE_LENGTH`. -/
def maxMessageLength : Nat := 0xffff - 3

/-- `format_message`. -/
def formatMessage (opcode : UInt8) (payload : Bytes) : Bytes :=
  writeShort payload.length ++ [opcode] ++ payload

/-- `dispatch_message` of the meta server, on a message that asks for a changeset. -/
def dispatchSubmitChangeset : Bytes → Option Changeset
  | high :: low :: opcode :: rest =>
      if opcode = submitChangesetOpcode then
        changesetRead (rest.take ((readShort high low) % 65536).toNat)
      else none
  | _ => none

/-! ## Round trips -/

variable {change : Change} {changes : List Change} {app : Name}

theorem high_low {value : Nat} (fits : value < 65536) :
    (UInt8.ofNat (value / 256)).toNat * 256 + (UInt8.ofNat value).toNat = value := by
  rw [UInt8.toNat_ofNat', UInt8.toNat_ofNat']
  omega

theorem readShort_writeShort {value : Nat} (fits : value < 32768) :
    readShort (UInt8.ofNat (value / 256)) (UInt8.ofNat value) = value := by
  simp only [readShort, high_low (Nat.lt_trans fits (by decide)), if_pos fits]

theorem readShort_writeShort_unsigned {value : Nat} (fits : value < 65536) :
    (readShort (UInt8.ofNat (value / 256)) (UInt8.ofNat value) % 65536).toNat = value := by
  simp only [readShort, high_low fits]
  split <;> omega

theorem readStr_writeStr {name : Bytes} (terminated : 0 ∉ name) (rest : Bytes) :
    readStr (writeStr name ++ rest) = some (name, rest) := by
  have all : ∀ byte ∈ name, decide (byte ≠ 0) = true := by
    intro byte member
    exact decide_eq_true fun zero => terminated (zero ▸ member)
  unfold readStr writeStr
  rw [append_assoc, dropWhile_append_of_pos all, takeWhile_append_of_pos all]
  simp

theorem readBytes_writeBytes {data : Bytes} (fits : data.length < 32768) (rest : Bytes) :
    readBytes (writeBytes data ++ rest) = some (data, rest) := by
  unfold writeBytes writeShort
  simp only [cons_append, nil_append, readBytes, readShort_writeShort fits,
    Int.toNat_natCast, length_append]
  rw [if_neg (by omega), take_left, drop_left]

/-- A change that can be read again. -/
structure Change.Encodable (change : Change) : Prop where
  store : change.key.store ≠ []
  key : change.key.key ≠ []
  keyFits : change.key.key.length < 32768
  data : ∀ data ∈ change.data, data ≠ [] ∧ data.length < 32768

theorem readBytes_zero (rest : Bytes) : readBytes (0 :: 0 :: rest) = some ([], rest) := by
  simp [readBytes, readShort]

theorem changeRead_changeWrite (encodable : change.Encodable) (terminated : 0 ∉ change.key.store)
    (rest : Bytes) : changeRead (changeWrite change ++ rest) = some (change, rest) := by
  obtain ⟨⟨store, key⟩, data⟩ := change
  have stored := readStr_writeStr terminated
  have keyed := readBytes_writeBytes encodable.keyFits
  unfold changeRead changeWrite
  simp only [append_assoc, stored, if_neg encodable.store, keyed, if_neg encodable.key]
  cases data with
  | none => simp [readBytes_zero]
  | some data =>
    obtain ⟨there, fits⟩ := encodable.data data rfl
    simp [readBytes_writeBytes fits, there]

theorem changeWrite_length (change : Change) : 3 ≤ (changeWrite change).length := by
  simp only [changeWrite, writeStr, writeBytes, writeShort, length_append, length_cons, length_nil]
  omega

/-- The loop reads what has been written, and goes without the records that are missing. -/
theorem readChanges_write {missing : Nat} {rest : Bytes}
    (ended : missing ≠ 0 → rest = [])
    (each : ∀ change ∈ changes, change.Encodable ∧ 0 ∉ change.key.store) :
    readChanges (changes.length + missing) (changes.flatMap changeWrite ++ rest) =
      some (changes.map some ++ replicate missing none) := by
  induction changes with
  | nil =>
    cases missing with
    | zero => simp [readChanges]
    | succ missing => simp [readChanges, ended]
  | cons change changes ih =>
    obtain ⟨⟨encodable, terminated⟩, others⟩ := forall_mem_cons.mp each
    have filled : changeWrite change ++ (changes.flatMap changeWrite ++ rest) ≠ [] := by
      intro empty
      have long := changeWrite_length change
      rw [(append_eq_nil_iff.mp empty).1] at long
      exact absurd long (by decide)
    rw [length_cons, Nat.add_right_comm, flatMap_cons, append_assoc, readChanges, if_neg filled,
      changeRead_changeWrite encodable terminated]
    simp [ih others]

/-- A changeset that the client submits, and that the meta server can read. -/
structure Encodable (app : Name) (changes : List Change) : Prop where
  fits : (changesetWrite app changes).length ≤ maxMessageLength
  each : ∀ change ∈ changes, change.Encodable

theorem length_le_flatMap (changes : List Change) :
    3 * changes.length ≤ (changes.flatMap changeWrite).length := by
  induction changes with
  | nil => exact Nat.zero_le _
  | cons change changes ih =>
    have long := changeWrite_length change
    simp only [length_cons, flatMap_cons, length_append]
    omega

variable (encodable : Encodable app changes)
include encodable

theorem Encodable.length_lt : changes.length < 32768 := by
  have long := length_le_flatMap changes
  have fits := encodable.fits
  simp only [changesetWrite, length_append, maxMessageLength] at fits
  omega

theorem changesetRead_changesetWrite
    (terminated : ∀ change ∈ changes, 0 ∉ change.key.store) (filled : changes ≠ []) :
    changesetRead (changesetWrite app changes) = some ⟨app.bytes, changes.map some⟩ := by
  have body : changes.flatMap changeWrite ≠ [] := by
    intro empty
    have long := length_le_flatMap changes
    rw [empty, length_nil] at long
    exact filled (length_eq_zero_iff.mp (by omega))
  unfold changesetRead changesetWrite
  rw [append_assoc, readStr_writeStr app.terminated]
  simp only [writeShort, cons_append, nil_append, if_neg body,
    readShort_writeShort encodable.length_lt, Int.toNat_natCast]
  have all := readChanges_write (absurd rfl : 0 ≠ 0 → ([] : Bytes) = [])
    fun change member => ⟨encodable.each change member, terminated change member⟩
  simp only [append_nil, Nat.add_zero, replicate_zero] at all
  simp [all]

/-- What is submitted is read as it was. -/
theorem dispatchSubmitChangeset_formatMessage
    (terminated : ∀ change ∈ changes, 0 ∉ change.key.store) (filled : changes ≠ []) :
    dispatchSubmitChangeset (formatMessage submitChangesetOpcode (changesetWrite app changes)) =
      some ⟨app.bytes, changes.map some⟩ := by
  have fits : (changesetWrite app changes).length < 65536 :=
    Nat.lt_of_le_of_lt encodable.fits (by decide)
  unfold formatMessage writeShort
  simp only [cons_append, nil_append, dispatchSubmitChangeset, if_true,
    readShort_writeShort_unsigned fits, take_length]
  exact changesetRead_changesetWrite encodable terminated filled

omit encodable

/-! ## What is accepted -/

variable {bytes data name rest : Bytes}

theorem eq_of_readStr (read : readStr bytes = some (name, rest)) :
    0 ∉ name ∧ bytes = writeStr name ++ rest := by
  unfold readStr at read
  have whole := takeWhile_append_dropWhile (p := (· ≠ (0 : UInt8))) (l := bytes)
  cases ends : bytes.dropWhile (· ≠ 0) with
  | nil =>
    rw [ends] at read
    cases read
  | cons zero after =>
    have isZero := head_dropWhile_not (· ≠ (0 : UInt8)) (by rw [ends]; exact cons_ne_nil _ _)
    simp only [ends, head_cons, decide_eq_false_iff_not, not_not] at isZero
    rw [ends] at read whole
    cases read
    rw [isZero] at whole
    refine ⟨fun member => ?_, by simpa [writeStr] using whole.symm⟩
    have nonzero := all_eq_true.mp (all_takeWhile (p := (· ≠ (0 : UInt8))) (l := bytes)) 0 member
    cases nonzero

theorem shortBytes_readShort {high low : UInt8} (positive : 0 ≤ readShort high low) :
    [high, low] = writeShort (readShort high low).toNat ∧ (readShort high low).toNat < 32768 := by
  have above := high.toNat_lt
  have below := low.toNat_lt
  unfold readShort at positive ⊢
  dsimp only at positive ⊢
  split at positive
  next small =>
    rw [if_pos small, Int.toNat_natCast, writeShort]
    refine ⟨?_, small⟩
    congr
    · rw [Nat.mul_comm, Nat.mul_add_div (by decide), Nat.div_eq_of_lt below]
      simp
    · rw [← UInt8.toNat_inj, UInt8.toNat_ofNat']
      omega
  next large => omega

theorem eq_of_readBytes (read : readBytes bytes = some (data, rest)) :
    data.length < 32768 ∧ bytes = writeBytes data ++ rest := by
  match bytes, read with
  | high :: low :: after, read =>
    unfold readBytes at read
    dsimp only at read
    split at read
    next => cases read
    next fits =>
      rw [not_or, Int.not_lt, Nat.not_lt] at fits
      obtain ⟨written, small⟩ := shortBytes_readShort fits.1
      cases read
      have long := length_take_of_le fits.2
      refine ⟨by rwa [long], ?_⟩
      rw [writeBytes, long, ← written, append_assoc, take_append_drop]
      rfl

theorem eq_of_changeRead (read : changeRead bytes = some (change, rest)) :
    change.Encodable ∧ 0 ∉ change.key.store ∧ bytes = changeWrite change ++ rest := by
  unfold changeRead at read
  split at read
  next => cases read
  next store afterStore stored =>
    split at read
    next => cases read
    next someStore =>
      split at read
      next => cases read
      next key afterKey keyed =>
        split at read
        next => cases read
        next someKey =>
          split at read
          next => cases read
          next data after valued =>
            obtain ⟨terminated, isStore⟩ := eq_of_readStr stored
            obtain ⟨keyFits, isKey⟩ := eq_of_readBytes keyed
            obtain ⟨fits, isData⟩ := eq_of_readBytes valued
            cases read
            refine ⟨⟨someStore, someKey, keyFits, ?_⟩, terminated, ?_⟩
            · intro value isValue
              obtain ⟨filled, same⟩ := Option.ite_none_left_eq_some.mp isValue
              cases same
              exact ⟨filled, fits⟩
            · rw [isStore, isKey, isData, changeWrite]
              by_cases empty : data = []
              · simp [empty, writeBytes, writeShort]
              · simp [empty]

theorem eq_of_readChanges {count : Nat} {records : List (Option Change)}
    (read : readChanges count bytes = some records) :
    ∃ (changes : List Change) (missing : Nat) (rest : Bytes),
      bytes = changes.flatMap changeWrite ++ rest ∧
      count = changes.length + missing ∧ (missing ≠ 0 → rest = []) ∧
      (∀ change ∈ changes, change.Encodable ∧ 0 ∉ change.key.store) ∧
      records = changes.map some ++ replicate missing none := by
  induction count generalizing bytes records with
  | zero =>
    cases read
    exact ⟨[], 0, bytes, rfl, rfl, absurd rfl, by simp, rfl⟩
  | succ count ih =>
    unfold readChanges at read
    split at read
    next empty =>
      cases read
      exact ⟨[], count + 1, [], by simpa using empty, by simp, fun _ => rfl, by simp, rfl⟩
    next =>
      split at read
      next => cases read
      next change after first =>
        obtain ⟨later, others, rfl⟩ := Option.map_eq_some_iff.mp read
        obtain ⟨encodable, terminated, split⟩ := eq_of_changeRead first
        obtain ⟨changes, missing, rest, rfl, rfl, ended, each, rfl⟩ := ih others
        refine ⟨change :: changes, missing, rest, ?_, ?_, ended, ?_, rfl⟩
        · rw [split, flatMap_cons, append_assoc]
        · rw [length_cons, Nat.add_right_comm]
        · exact forall_mem_cons.mpr ⟨⟨encodable, terminated⟩, each⟩

/-- Whatever the bytes, a changeset is read just when they hold the changes it has, as they
are written, with the announced number or fewer; fewer only where the bytes end with them,
and records with nothing in them then stand for those that are missing. -/
theorem changesetRead_eq_some_iff (bytes : Bytes) (changeset : Changeset) :
    changesetRead bytes = some changeset ↔
      ∃ (app : Name) (high low : UInt8) (changes : List Change) (missing : Nat) (rest : Bytes),
        bytes = writeStr app.bytes ++ high :: low :: (changes.flatMap changeWrite ++ rest) ∧
        changes.flatMap changeWrite ++ rest ≠ [] ∧
        (readShort high low).toNat = changes.length + missing ∧ (missing ≠ 0 → rest = []) ∧
        (∀ change ∈ changes, change.Encodable ∧ 0 ∉ change.key.store) ∧
        changeset = ⟨app.bytes, changes.map some ++ replicate missing none⟩ := by
  constructor
  · intro read
    unfold changesetRead at read
    split at read
    next => cases read
    next app after named =>
      obtain ⟨terminated, isApp⟩ := eq_of_readStr named
      split at read
      next high low body =>
        obtain ⟨filled, there⟩ := Option.ite_none_left_eq_some.mp read
        obtain ⟨records, listed, rfl⟩ := Option.map_eq_some_iff.mp there
        obtain ⟨changes, missing, rest, rfl, count, ended, each, rfl⟩ := eq_of_readChanges listed
        exact ⟨⟨app, terminated⟩, high, low, changes, missing, rest, isApp, filled, count, ended,
          each, rfl⟩
      next => cases read
  · rintro ⟨app, high, low, changes, missing, rest, rfl, filled, count, ended, each, rfl⟩
    unfold changesetRead
    rw [readStr_writeStr app.terminated]
    simp only [if_neg filled, count, readChanges_write ended each, Option.map_some]

end Gzochi.DataClient
