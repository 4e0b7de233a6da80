import Gzochi.DataClient.Changesets
import Mathlib.Algebra.Group.Int.Defs
import Mathlib.Algebra.Group.Nat.Defs

/-!
# Round trips of the data protocol

What the meta server and the data client read of the changesets and responses that the
other one has written.  Two zeros in the place of a length stand for a deletion or for the
absence of a value, so values of no bytes do not come back.  A length is read as a `short`;
nothing is said here about keys and values for which it is negative.
-/

namespace Gzochi.DataClient

open List

variable {app : Name} {change : Change} {changes : List Change}

/-! ## Changesets -/

/-- The change as it is read: nothing in the place of the data is a deletion. -/
def Change.asRead (change : Change) : Change := { change with data := change.data.filter (· ≠ []) }

/-- A change that `change_read` does not reject. -/
def Change.Accepted (change : Change) : Prop := change.key.store ≠ [] ∧ change.key.key ≠ []

instance (change : Change) : Decidable change.Accepted := inferInstanceAs (Decidable (_ ∧ _))

/-- The lengths of the key and the data are positive as a `short`. -/
structure Change.Short (change : Change) : Prop where
  key : change.key.key.length < 32768
  data : ∀ data ∈ change.data, data.length < 32768

theorem changeRead_written (terminated : 0 ∉ change.key.store) (short : change.Short)
    (rest : Bytes) :
    changeRead (changeWrite change ++ rest) =
      if change.Accepted then some (change.asRead, rest) else none := by
  obtain ⟨⟨store, key⟩, data⟩ := change
  have stored := readStr_writeStr terminated
  have keyed := readBytes_writeBytes short.key
  unfold changeRead changeWrite
  simp only [append_assoc, stored, keyed, Change.Accepted]
  by_cases noStore : store = []
  · simp [noStore]
  · by_cases noKey : key = []
    · simp [noStore, noKey]
    · simp only [noStore, noKey, if_false, ne_eq, not_false_eq_true, and_self, if_true]
      cases data with
      | none => simp [readBytes_zero, Change.asRead]
      | some data =>
        simp only [readBytes_writeBytes (short.data data rfl), Change.asRead]
        by_cases empty : data = []
        · simp [empty, Option.filter]
        · simp [empty, Option.filter]

theorem readChanges_written (terminated : ∀ change ∈ changes, 0 ∉ change.key.store)
    (short : ∀ change ∈ changes, change.Short) :
    readChanges changes.length (changes.flatMap changeWrite) =
      if ∀ change ∈ changes, change.Accepted then
        some (changes.map fun change => some change.asRead)
      else none := by
  induction changes with
  | nil => simp [readChanges]
  | cons change changes ih =>
    have filled : changeWrite change ++ changes.flatMap changeWrite ≠ [] := by
      intro empty
      have long := changeWrite_length change
      rw [(append_eq_nil_iff.mp empty).1] at long
      exact absurd long (by decide)
    have others := ih (fun other member => terminated other (mem_cons_of_mem _ member))
      fun other member => short other (mem_cons_of_mem _ member)
    rw [length_cons, flatMap_cons, readChanges, if_neg filled,
      changeRead_written (terminated change mem_cons_self) (short change mem_cons_self)]
    simp only [forall_mem_cons, map_cons]
    by_cases accepted : change.Accepted
    · rw [if_pos accepted]
      simp only [others, accepted, true_and]
      by_cases rest : ∀ other ∈ changes, other.Accepted
      · rw [if_pos rest, if_pos rest]
        rfl
      · rw [if_neg rest, if_neg rest]
        rfl
    · simp [accepted]

theorem changesetRead_written (filled : changes ≠ [])
    (fits : (changesetWrite app changes).length ≤ 65535)
    (terminated : ∀ change ∈ changes, 0 ∉ change.key.store)
    (short : ∀ change ∈ changes, change.Short) :
    changesetRead (changesetWrite app changes) =
      if ∀ change ∈ changes, change.Accepted then
        some ⟨app.bytes, changes.map fun change => some change.asRead⟩
      else none := by
  have long := length_le_flatMap changes
  have few : changes.length < 32768 := by
    simp only [changesetWrite, length_append] at fits
    omega
  have body : changes.flatMap changeWrite ≠ [] := by
    intro empty
    rw [empty, length_nil] at long
    exact filled (length_eq_zero_iff.mp (by omega))
  unfold changesetRead changesetWrite
  rw [append_assoc, readStr_writeStr app.terminated]
  simp only [writeShort, cons_append, nil_append, if_neg body, readShort_writeShort few,
    Int.toNat_natCast]
  rw [readChanges_written terminated short]
  split
  · rfl
  · rfl

/-- A changeset with changes is read as it was written, with a deletion for every put of no
bytes; one with an empty store name or key is rejected. -/
theorem changeset_roundtrip (app : Name) (changes : List Change) (filled : changes ≠ [])
    (fits : (changesetWrite app changes).length ≤ 65535)
    (terminated : ∀ change ∈ changes, 0 ∉ change.key.store)
    (short : ∀ change ∈ changes, change.key.key.length < 32768 ∧
      ∀ data ∈ change.data, data.length < 32768) :
    changesetRead (changesetWrite app changes) =
      if ∀ change ∈ changes, change.key.store ≠ [] ∧ change.key.key ≠ [] then
        some ⟨app.bytes, changes.map fun change =>
          some { change with data := change.data.filter (· ≠ []) }⟩
      else none :=
  changesetRead_written filled fits terminated fun change member =>
    ⟨(short change member).1, (short change member).2⟩

/-- A put, a put of nothing and a deletion. -/
def threeChanges : List Change :=
  [⟨⟨someStore.bytes, [7]⟩, some [5, 6]⟩, ⟨⟨someStore.bytes, [8]⟩, some []⟩,
    ⟨⟨someStore.bytes, [9]⟩, none⟩]

theorem changeset_roundtrip_three : changesetRead (changesetWrite someApp threeChanges) =
      some ⟨someApp.bytes, [some ⟨⟨someStore.bytes, [7]⟩, some [5, 6]⟩,
        some ⟨⟨someStore.bytes, [8]⟩, none⟩, some ⟨⟨someStore.bytes, [9]⟩, none⟩]⟩ :=
  changeset_roundtrip someApp threeChanges (by decide) (by decide) (by decide) (by decide)

theorem empty_put_read_as_deletion :
    (changesetWrite someApp [⟨⟨someStore.bytes, [8]⟩, some []⟩]).length ≤ 65535 ∧
    changesetRead (changesetWrite someApp [⟨⟨someStore.bytes, [8]⟩, some []⟩]) =
      some ⟨someApp.bytes, [some ⟨⟨someStore.bytes, [8]⟩, none⟩]⟩ ∧
    (some ⟨someApp.bytes, [some ⟨⟨someStore.bytes, [8]⟩, none⟩]⟩ : Option Changeset) ≠
      some ⟨someApp.bytes, [some ⟨⟨someStore.bytes, [8]⟩, some []⟩]⟩ := by
  refine ⟨by decide, by decide +kernel, by decide⟩

/-! ## Responses -/

/-- `struct timeval`. -/
structure Timeval where
  tvSec : Int
  tvUsec : Int
  deriving DecidableEq

/-- What a response says: the data, if there is any, or the time to wait. -/
inductive Result where
  | success (data : Option Bytes)
  | denied (timeout : Timeval)
  deriving DecidableEq

/-- `gzochid_data_response`. -/
structure Response where
  app : Bytes
  store : Bytes
  result : Result
  deriving DecidableEq

/-- `gzochi_common_io_write_int`. -/
def writeInt (value : Int) : Bytes :=
  [UInt8.ofNat (value / 2 ^ 24 % 256).toNat, UInt8.ofNat (value / 2 ^ 16 % 256).toNat,
    UInt8.ofNat (value / 2 ^ 8 % 256).toNat, UInt8.ofNat (value % 256).toNat]

/-- `gzochi_common_io_read_int`; two's complement. -/
def readInt (first second third fourth : UInt8) : Int :=
  let value : Nat := first.toNat * 2 ^ 24 + second.toNat * 2 ^ 16 + third.toNat * 2 ^ 8 +
    fourth.toNat
  if value < 2 ^ 31 then value else (value : Int) - 2 ^ 32

/-- `write_timeval`. -/
def writeTimeval (timeval : Timeval) : Bytes := writeInt timeval.tvSec ++ writeInt timeval.tvUsec

/-- `read_timeval`. -/
def readTimeval : Bytes → Option Timeval
  | a :: b :: c :: d :: e :: f :: g :: h :: _ => some ⟨readInt a b c d, readInt e f g h⟩
  | _ => none

/-- `gzochid_data_protocol_response_write`. -/
def responseWrite (response : Response) : Bytes :=
  writeStr response.app ++ writeStr response.store ++
    match response.result with
    | .success none => 1 :: [0, 0]
    | .success (some data) => 1 :: writeBytes data
    | .denied timeout => 0 :: writeTimeval timeout

/-- `gzochid_data_protocol_response_read`. -/
def responseRead (bytes : Bytes) : Option Response :=
  match readStr bytes with
  | none => none
  | some (app, afterApp) =>
      match readStr afterApp with
      | none => none
      | some (store, afterStore) =>
          match afterStore with
          | [] => none
          | flag :: rest =>
              if flag ≠ 0 then
                match readBytes rest with
                | none => none
                | some (data, _) =>
                    some ⟨app, store, .success (if data = [] then none else some data)⟩
              else (readTimeval rest).map fun timeout => ⟨app, store, .denied timeout⟩

theorem readInt_writeInt {value : Int} (low : -2 ^ 31 ≤ value) (high : value < 2 ^ 31) :
    readInt (UInt8.ofNat (value / 2 ^ 24 % 256).toNat) (UInt8.ofNat (value / 2 ^ 16 % 256).toNat)
      (UInt8.ofNat (value / 2 ^ 8 % 256).toNat) (UInt8.ofNat (value % 256).toNat) = value := by
  simp only [readInt, UInt8.toNat_ofNat']
  split <;> omega

theorem readTimeval_writeTimeval {timeval : Timeval}
    (sec : -2 ^ 31 ≤ timeval.tvSec ∧ timeval.tvSec < 2 ^ 31)
    (usec : -2 ^ 31 ≤ timeval.tvUsec ∧ timeval.tvUsec < 2 ^ 31) :
    readTimeval (writeTimeval timeval) = some timeval := by
  simp only [writeTimeval, writeInt, cons_append, nil_append, readTimeval,
    readInt_writeInt sec.1 sec.2, readInt_writeInt usec.1 usec.2]

/-- The data or the times of a result can be read again. -/
def Result.Representable : Result → Prop
  | .success data => ∀ bytes ∈ data, bytes.length < 32768
  | .denied timeout => (-2 ^ 31 ≤ timeout.tvSec ∧ timeout.tvSec < 2 ^ 31) ∧
      -2 ^ 31 ≤ timeout.tvUsec ∧ timeout.tvUsec < 2 ^ 31

/-- The result as it is read: no bytes are no data. -/
def Result.asRead : Result → Result
  | .success data => .success (data.filter (· ≠ []))
  | .denied timeout => .denied timeout

/-- A response is read as it was written, with no data in the place of data of no bytes. -/
theorem response_roundtrip (response : Response) (app : 0 ∉ response.app)
    (store : 0 ∉ response.store) (representable : response.result.Representable) :
    responseRead (responseWrite response) =
      some { response with result := response.result.asRead } := by
  obtain ⟨appName, storeName, result⟩ := response
  unfold responseRead responseWrite
  simp only [append_assoc, readStr_writeStr app, readStr_writeStr store]
  cases result with
  | success data =>
      cases data with
      | none => simp [readBytes_zero, Result.asRead]
      | some data =>
          have read := readBytes_writeBytes (representable data rfl) []
          rw [append_nil] at read
          have present : (1 : UInt8) ≠ 0 := by decide
          simp only [if_pos present, read, Result.asRead]
          by_cases empty : data = []
          · simp [empty, Option.filter]
          · simp [empty, Option.filter]
  | denied timeout =>
      simp [readTimeval_writeTimeval representable.1 representable.2, Result.asRead]

theorem response_roundtrip_denied :
    responseRead (responseWrite ⟨someApp.bytes, someStore.bytes, .denied ⟨0, -1⟩⟩) =
      some ⟨someApp.bytes, someStore.bytes, .denied ⟨0, -1⟩⟩ :=
  response_roundtrip ⟨someApp.bytes, someStore.bytes, .denied ⟨0, -1⟩⟩ (by decide) (by decide)
    ⟨by decide, by decide⟩

theorem empty_value_read_as_absent :
    (responseWrite ⟨someApp.bytes, someStore.bytes, .success (some [])⟩).length ≤ 65535 ∧
    responseRead (responseWrite ⟨someApp.bytes, someStore.bytes, .success (some [])⟩) =
      some ⟨someApp.bytes, someStore.bytes, .success none⟩ ∧
    (some ⟨someApp.bytes, someStore.bytes, .success none⟩ : Option Response) ≠
      some ⟨someApp.bytes, someStore.bytes, .success (some [])⟩ := by
  refine ⟨by decide, by decide +kernel, by decide⟩

end Gzochi.DataClient
