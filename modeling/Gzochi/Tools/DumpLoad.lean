import Gzochi.DataClient.LockTable
import Gzochi.Btree.Page

/-!
# Dumping and loading a store

`gzochi-dump` writes the keys and values of a store as text, in lines of hexadecimal
digits after a space, and `gzochi-load` puts what it reads of such a text into a store.
The two agree on every key and value that has bytes.  A line without digits is malformed
for `gzochi-load`, which then ends; what it has put up to there stays.

The storage engine is taken as a map of byte strings with an order in which its keys are
visited.
-/

namespace Gzochi.Tools

open List

open Gzochi.DataClient (Bytes)

abbrev Text := List Char

/-- What a store has under each key. -/
abbrev Contents := Bytes → Option Bytes

/-- A store, as the storage engine goes through it: its entries, each key once. -/
structure Store where
  entries : List (Bytes × Bytes)
  distinct : (entries.map Prod.fst).Nodup

namespace Store

/-- `transaction_first_key`. -/
def transactionFirstKey (store : Store) : Option Bytes := (store.entries.map Prod.fst).head?

/-- `transaction_next_key`. -/
def transactionNextKey (store : Store) (key : Bytes) : Option Bytes :=
  ((store.entries.map Prod.fst).dropWhile (· ≠ key)).tail.head?

/-- `transaction_get`. -/
def transactionGet (store : Store) (key : Bytes) : Option Bytes :=
  (store.entries.find? fun entry => entry.1 = key).map Prod.snd

end Store

/-- A digit of `%x`. -/
def hexDigit (value : Nat) : Char :=
  if value < 10 then Char.ofNat (48 + value) else Char.ofNat (87 + value)

/-- `%.2hhx`. -/
def hexByte (byte : UInt8) : Text := [hexDigit (byte.toNat / 16), hexDigit (byte.toNat % 16)]

/-- `dump_header`. -/
def dumpHeader : Text :=
  "VERSION=3\n".toList ++ "format=bytevalue\n".toList ++ "type=btree\n".toList ++
    "HEADER=END\n".toList

/-- `dump_key_value`. -/
def dumpKeyValue (key value : Bytes) : Text :=
  ' ' :: key.flatMap hexByte ++ '\n' :: ' ' :: value.flatMap hexByte ++ ['\n']

/-- The loop of `dump_store`, in at most `bound` rounds.  There is no text when a value is
missing, since `dump_key_value` asserts that there is one. -/
def dumpKeys (store : Store) : Nat → Option Bytes → Option Text
  | _, none => some []
  | 0, some _ => none
  | bound + 1, some key =>
      match store.transactionGet key with
      | none => none
      | some value =>
          (dumpKeys store bound (store.transactionNextKey key)).map (dumpKeyValue key value ++ ·)

/-- `dump_store`. -/
def dumpStore (store : Store) : Option Text :=
  (dumpKeys store store.entries.length store.transactionFirstKey).map fun data =>
    dumpHeader ++ data ++ "DATA=END\n".toList

/-- The lines that `getline` reads one after the other, with their ends. -/
def getLines : Text → List Text
  | [] => []
  | char :: rest =>
      if char = '\n' then ['\n'] :: getLines rest
      else
        match getLines rest with
        | [] => [[char]]
        | line :: lines => (char :: line) :: lines

/-- The characters of a C string. -/
def cString (text : Text) : Text := text.takeWhile (· ≠ '\x00')

/-- The value of a digit that `%x` reads. -/
def hexValue (char : Char) : Option Nat :=
  if '0' ≤ char ∧ char ≤ '9' then some (char.toNat - 48)
  else if 'a' ≤ char ∧ char ≤ 'f' then some (char.toNat - 87)
  else if 'A' ≤ char ∧ char ≤ 'F' then some (char.toNat - 55)
  else none

/-- `sscanf` with `%2hhx`: white space is skipped; then a sign and a digit, or one or two
digits, but no `0x` that no digit follows. -/
def scanByte (text : Text) : Option UInt8 :=
  match text.dropWhile (fun char => char = ' ' ∨ '\t' ≤ char ∧ char ≤ '\r') with
  | [] => none
  | first :: rest =>
      if first = '+' ∨ first = '-' then
        (rest.head?.bind hexValue).map fun value =>
          if first = '-' then UInt8.ofNat (256 - value) else UInt8.ofNat value
      else if first = '0' ∧ (rest.head? = some 'x' ∨ rest.head? = some 'X') then none
      else
        (hexValue first).map fun high =>
          match rest.head?.bind hexValue with
          | none => UInt8.ofNat high
          | some low => UInt8.ofNat (high * 16 + low)

/-- The loop of `pack_line`. -/
def packLine : Nat → Text → Option Bytes
  | 0, _ => some []
  | bytes + 1, line =>
      match scanByte line with
      | none => none
      | some byte => (packLine bytes (line.drop 2)).map (byte :: ·)

/-- `read_line`; `line_len -= 2` is on a `size_t`. -/
def readLine (line : Text) : Option Bytes :=
  let lineLen := if line.length < 2 then 2 ^ 64 + line.length - 2 else line.length - 2
  if lineLen = 0 ∨ lineLen % 2 ≠ 0 then none else packLine (lineLen / 2) (line.drop 1)

/-- How `gzochi-load` ends. -/
inductive Outcome where
  | finished
  | malformedLine (row : Nat)
  | noHeader
  deriving DecidableEq

/-- The first loop of `load_data`: the number of the line after the header, and the lines. -/
def skipHeader : Nat → List Text → Option (Nat × List Text)
  | _, [] => none
  | row, line :: lines =>
      if cString line = "HEADER=END\n".toList then some (row + 1, lines)
      else skipHeader (row + 1) lines

/-- The second loop of `load_data`, with the key that has been read, if any.  Every put is
a transaction of its own. -/
def loadLines (contents : Contents) (key : Option Bytes) (row : Nat) :
    List Text → Contents × Outcome
  | [] => (contents, .finished)
  | line :: lines =>
      if cString line = "DATA=END\n".toList then (contents, .finished)
      else
        match readLine line with
        | none => (contents, .malformedLine row)
        | some data =>
            match key with
            | none => loadLines contents (some data) (row + 1) lines
            | some key => loadLines (Function.update contents key (some data)) none (row + 1) lines

/-- `load_data`, into a store with some contents. -/
def loadData (contents : Contents) (input : Text) : Contents × Outcome :=
  match skipHeader 1 (getLines input) with
  | none => (contents, .noHeader)
  | some (row, lines) => loadLines contents none row lines

variable {store : Store} {data : Bytes} {contents : Contents} {row : Nat} {lines : List Text}

/-- The line of a key or a value. -/
def lineOf (data : Bytes) : Text := ' ' :: data.flatMap hexByte ++ ['\n']

variable {entries : List (Bytes × Bytes)}

theorem find?_fresh {key : Bytes} (fresh : key ∉ entries.map Prod.fst) :
    entries.find? (fun entry => decide (entry.1 = key)) = none := by
  rw [List.find?_eq_none]
  intro entry member same
  exact fresh (of_decide_eq_true same ▸ mem_map_of_mem member)

variable {before rest : List (Bytes × Bytes)} {entry : Bytes × Bytes}

variable (split : store.entries = before ++ entry :: rest)
include split

/-- The keys before an entry differ from its own. -/
theorem key_fresh : entry.1 ∉ before.map Prod.fst := by
  have distinct := store.distinct
  rw [split, map_append, map_cons] at distinct
  exact fun member => (nodup_append.mp distinct).2.2 _ member _ mem_cons_self rfl

theorem transactionGet_entry : store.transactionGet entry.1 = some entry.2 := by
  unfold Store.transactionGet
  rw [split, List.find?_append, find?_fresh (key_fresh split), Option.none_or,
    List.find?_cons_of_pos (by simp)]
  rfl

theorem transactionNextKey_entry :
    store.transactionNextKey entry.1 = (rest.map Prod.fst).head? := by
  have passed : ∀ key ∈ before.map Prod.fst, decide (key ≠ entry.1) = true := by
    intro key member
    exact decide_eq_true fun same => key_fresh split (same ▸ member)
  unfold Store.transactionNextKey
  rw [split, map_append, map_cons, dropWhile_append_of_pos passed, dropWhile_cons_of_neg (by simp)]
  rfl

omit split

theorem dumpKeys_rest (split : store.entries = before ++ rest) :
    dumpKeys store rest.length (rest.map Prod.fst).head? =
      some (rest.flatMap fun entry => dumpKeyValue entry.1 entry.2) := by
  induction rest generalizing before with
  | nil => rfl
  | cons entry rest ih =>
    have further : store.entries = (before ++ [entry]) ++ rest := by
      rw [split, append_assoc]
      rfl
    have others := ih further
    simp only [map_cons, List.head?_cons, length_cons, dumpKeys,
      transactionGet_entry split, transactionNextKey_entry split, others, Option.map_some,
      flatMap_cons]

/-- A dump has every entry of the store. -/
theorem dumpStore_eq (store : Store) : dumpStore store =
      some (dumpHeader ++ (store.entries.flatMap fun entry => lineOf entry.1 ++ lineOf entry.2) ++
        "DATA=END\n".toList) := by
  have all := dumpKeys_rest (show store.entries = [] ++ store.entries from rfl)
  have same : (fun entry : Bytes × Bytes => dumpKeyValue entry.1 entry.2) =
      fun entry => lineOf entry.1 ++ lineOf entry.2 := by
    funext entry
    simp [dumpKeyValue, lineOf]
  unfold dumpStore Store.transactionFirstKey
  rw [all, Option.map_some, same]

theorem getLines_line {body : Text} (inside : '\n' ∉ body) (rest : Text) :
    getLines (body ++ '\n' :: rest) = (body ++ ['\n']) :: getLines rest := by
  induction body with
  | nil => simp [getLines]
  | cons char body ih =>
    have other : char ≠ '\n' := fun same => inside (same ▸ mem_cons_self)
    have others := ih fun member => inside (mem_cons_of_mem _ member)
    simp only [cons_append, getLines, if_neg other, others]

theorem hexDigit_values : ∀ value < 16, hexValue (hexDigit value) = some value ∧
    ¬(hexDigit value = ' ' ∨ '\t' ≤ hexDigit value ∧ hexDigit value ≤ '\r') ∧
    hexDigit value ≠ '+' ∧ hexDigit value ≠ '-' ∧ hexDigit value ≠ 'x' ∧ hexDigit value ≠ 'X' ∧
    hexDigit value ≠ '\n' := by
  decide

theorem scanByte_hexByte (byte : UInt8) (rest : Text) :
    scanByte (hexByte byte ++ rest) = some byte := by
  have bound := byte.toNat_lt
  obtain ⟨highValue, highSpace, highPlus, highMinus, -⟩ :=
    hexDigit_values (byte.toNat / 16) (by omega)
  obtain ⟨lowValue, -, -, -, lowX, lowUpperX, -⟩ := hexDigit_values (byte.toNat % 16) (by omega)
  unfold scanByte hexByte
  rw [cons_append, dropWhile_cons_of_neg (by simpa using highSpace)]
  simp only [highPlus, highMinus, or_self, if_false, cons_append, nil_append,
    List.head?_cons, Option.some.injEq, lowX, lowUpperX, and_false, highValue, Option.map_some,
    Option.bind_some, lowValue]
  rw [show byte.toNat / 16 * 16 + byte.toNat % 16 = byte.toNat by omega]
  simp

theorem packLine_hex (data : Bytes) (rest : Text) :
    packLine data.length (data.flatMap hexByte ++ rest) = some data := by
  induction data with
  | nil => rfl
  | cons byte data ih =>
    simp only [length_cons, flatMap_cons, append_assoc, packLine, scanByte_hexByte]
    rw [show (hexByte byte ++ (data.flatMap hexByte ++ rest)).drop 2 =
      data.flatMap hexByte ++ rest from rfl, ih]
    rfl

theorem length_hex (data : Bytes) : (data.flatMap hexByte).length = 2 * data.length := by
  induction data with
  | nil => rfl
  | cons byte data ih =>
    rw [flatMap_cons, length_append, ih, length_cons]
    change 2 + _ = _
    omega

/-- A line can be read if there is something in it. -/
theorem readLine_lineOf (data : Bytes) :
    readLine (lineOf data) = if data = [] then none else some data := by
  have length : (lineOf data).length = 2 * data.length + 2 := by
    simp only [lineOf, length_cons, length_append, length_hex, length_nil]
  have lineLen : (if (lineOf data).length < 2 then 2 ^ 64 + (lineOf data).length - 2
      else (lineOf data).length - 2) = 2 * data.length := by
    rw [length, if_neg (by omega)]
    omega
  have body : (lineOf data).drop 1 = data.flatMap hexByte ++ ['\n'] := rfl
  unfold readLine
  simp only [lineLen]
  by_cases empty : data = []
  · subst empty
    rfl
  · have positive : 0 < data.length := length_pos_iff.mpr empty
    rw [if_neg (by omega), if_neg empty, body,
      show 2 * data.length / 2 = data.length by omega, packLine_hex]

theorem cString_lineOf (data : Bytes) : cString (lineOf data) ≠ "DATA=END\n".toList := by
  unfold cString lineOf
  rw [cons_append, takeWhile_cons_of_pos (by decide)]
  intro same
  exact absurd (List.cons.inj same).1 (by decide)

/-- A line with no bytes ends the load. -/
theorem loadLines_empty (contents : Contents) (key : Option Bytes) (row : Nat) (lines : List Text) :
    loadLines contents key row (lineOf [] :: lines) = (contents, .malformedLine row) := by
  rw [loadLines, if_neg (cString_lineOf []), readLine_lineOf, if_pos rfl]

theorem loadLines_key (filled : data ≠ []) : loadLines contents none row (lineOf data :: lines) =
      loadLines contents (some data) (row + 1) lines := by
  rw [loadLines, if_neg (cString_lineOf data), readLine_lineOf, if_neg filled]

theorem loadLines_value {key : Bytes} (filled : data ≠ []) :
    loadLines contents (some key) row (lineOf data :: lines) =
      loadLines (Function.update contents key (some data)) none (row + 1) lines := by
  rw [loadLines, if_neg (cString_lineOf data), readLine_lineOf, if_neg filled]

/-- The contents after some entries have been put one after the other. -/
def putEntries (contents : Contents) (entries : List (Bytes × Bytes)) : Contents :=
  entries.foldl (fun contents entry => Function.update contents entry.1 (some entry.2)) contents

/-- The lines of some entries. -/
def entryLines (entries : List (Bytes × Bytes)) : List Text :=
  entries.flatMap fun entry => [lineOf entry.1, lineOf entry.2]

theorem loadLines_entries (filled : ∀ entry ∈ entries, entry.1 ≠ [] ∧ entry.2 ≠ []) :
    loadLines contents none row (entryLines entries ++ lines) =
      loadLines (putEntries contents entries) none (row + 2 * entries.length) lines := by
  induction entries generalizing contents row with
  | nil => rfl
  | cons entry entries ih =>
    obtain ⟨key, value⟩ := filled entry mem_cons_self
    have others : loadLines (Function.update contents entry.1 (some entry.2)) none (row + 1 + 1)
        (entryLines entries ++ lines) = _ :=
      ih fun other member => filled other (mem_cons_of_mem _ member)
    change loadLines contents none row
      (lineOf entry.1 :: lineOf entry.2 :: (entryLines entries ++ lines)) = _
    rw [loadLines_key key, loadLines_value value, others, length_cons,
      show row + 1 + 1 + 2 * entries.length = row + 2 * (entries.length + 1) by omega]
    rfl

theorem hex_no_newline (data : Bytes) : '\n' ∉ ' ' :: data.flatMap hexByte := by
  intro member
  rcases mem_cons.mp member with same | member
  · cases same
  · obtain ⟨byte, -, digit⟩ := mem_flatMap.mp member
    have bound := byte.toNat_lt
    rcases mem_cons.mp digit with high | low
    · exact (hexDigit_values (byte.toNat / 16) (by omega)).2.2.2.2.2.2 high.symm
    · exact (hexDigit_values (byte.toNat % 16) (by omega)).2.2.2.2.2.2 (mem_singleton.mp low).symm

theorem getLines_lineOf (data : Bytes) (rest : Text) :
    getLines (lineOf data ++ rest) = lineOf data :: getLines rest := by
  have line := getLines_line (hex_no_newline data) rest
  rwa [append_cons] at line

theorem getLines_entries (entries : List (Bytes × Bytes)) (rest : Text) :
    getLines ((entries.flatMap fun entry => lineOf entry.1 ++ lineOf entry.2) ++ rest) =
      entryLines entries ++ getLines rest := by
  induction entries with
  | nil => rfl
  | cons entry entries ih =>
    rw [flatMap_cons, append_assoc, append_assoc, getLines_lineOf, getLines_lineOf, ih]
    rfl

/-- What `gzochi-load` gets to read of a dump. -/
theorem loadData_dump (contents : Contents) (entries : List (Bytes × Bytes)) : loadData contents
        (dumpHeader ++ (entries.flatMap fun entry => lineOf entry.1 ++ lineOf entry.2) ++
          "DATA=END\n".toList) =
      loadLines contents none 5 (entryLines entries ++ ["DATA=END\n".toList]) := by
  have last : getLines "DATA=END\n".toList = ["DATA=END\n".toList] := by decide
  have header : ∀ rest, getLines (dumpHeader ++ rest) =
      ["VERSION=3\n".toList, "format=bytevalue\n".toList, "type=btree\n".toList,
        "HEADER=END\n".toList] ++ getLines rest := by
    intro rest
    rfl
  unfold loadData
  rw [append_assoc, header, getLines_entries, last]
  rfl

theorem putEntries_apply (distinct : (entries.map Prod.fst).Nodup) (contents : Contents)
    (key : Bytes) :
    putEntries contents entries key =
      ((entries.find? fun entry => entry.1 = key).map Prod.snd).or (contents key) := by
  induction entries generalizing contents with
  | nil => rfl
  | cons entry entries ih =>
    rw [map_cons, nodup_cons] at distinct
    change putEntries (Function.update contents entry.1 (some entry.2)) entries key = _
    rw [ih distinct.2]
    by_cases same : entry.1 = key
    · rw [find?_fresh (same ▸ distinct.1), List.find?_cons_of_pos (by simpa using same), same,
        Function.update_self]
      rfl
    · rw [List.find?_cons_of_neg (by simpa using same), Function.update_of_ne (Ne.symm same)]

theorem transactionGet_eq (store : Store) :
    putEntries (fun _ => none) store.entries = store.transactionGet := by
  funext key
  rw [putEntries_apply store.distinct, Option.or_none]
  rfl

/-- The entries before the first one with an empty key or value have been put, and the
load has ended there. -/
theorem loadLines_until {early late : List (Bytes × Bytes)} {bad : Bytes × Bytes}
    (filled : ∀ entry ∈ early, entry.1 ≠ [] ∧ entry.2 ≠ []) (empty : bad.1 = [] ∨ bad.2 = []) :
    (loadLines contents none row (entryLines (early ++ bad :: late) ++ lines)).1 =
      putEntries contents early := by
  have split : entryLines (early ++ bad :: late) ++ lines =
      entryLines early ++ lineOf bad.1 :: lineOf bad.2 :: (entryLines late ++ lines) := by
    simp only [entryLines, flatMap_append, flatMap_cons, append_assoc, cons_append, nil_append]
  rw [split, loadLines_entries filled]
  by_cases noKey : bad.1 = []
  · rw [noKey, loadLines_empty]
  · have noValue := empty.resolve_left noKey
    rw [loadLines_key noKey, noValue, loadLines_empty]

/-- Loading a dump of a store into an empty store recreates it exactly when no key and no
value is empty, and then the load ends without an error. -/
theorem load_dump_iff (store : Store) : ∃ text, dumpStore store = some text ∧
      ((loadData (fun _ => none) text).1 = store.transactionGet ↔
        ∀ entry ∈ store.entries, entry.1 ≠ [] ∧ entry.2 ≠ []) ∧
      ((∀ entry ∈ store.entries, entry.1 ≠ [] ∧ entry.2 ≠ []) →
        (loadData (fun _ => none) text).2 = .finished) := by
  refine ⟨_, dumpStore_eq store, ?_⟩
  rw [loadData_dump]
  have success : (∀ entry ∈ store.entries, entry.1 ≠ [] ∧ entry.2 ≠ []) →
      loadLines (fun _ => none) none 5 (entryLines store.entries ++ ["DATA=END\n".toList]) =
        (store.transactionGet, .finished) := by
    intro filled
    rw [loadLines_entries filled, transactionGet_eq]
    rfl
  refine ⟨⟨?_, fun filled => by rw [success filled]⟩, fun filled => by rw [success filled]⟩
  intro recreated
  by_contra some
  -- The first entry that cannot be read back is missing in what has been loaded.
  have found : (store.entries.find? fun entry => entry.1 = [] ∨ entry.2 = []).isSome := by
    rw [List.find?_isSome]
    push Not at some
    obtain ⟨entry, member, empty⟩ := some
    refine ⟨entry, member, decide_eq_true ?_⟩
    by_cases noKey : entry.1 = []
    · exact .inl noKey
    · exact .inr (empty noKey)
  obtain ⟨bad, first⟩ := Option.isSome_iff_exists.mp found
  obtain ⟨empty, early, late, split, others⟩ := List.find?_eq_some_iff_append.mp first
  have filled : ∀ entry ∈ early, entry.1 ≠ [] ∧ entry.2 ≠ [] := by
    intro entry member
    simpa using others entry member
  have distinct : (early.map Prod.fst).Nodup := by
    have all := store.distinct
    rw [split, map_append] at all
    exact (nodup_append.mp all).1
  have loaded := congrFun recreated bad.1
  rw [transactionGet_entry split, split, loadLines_until filled (of_decide_eq_true empty),
    putEntries_apply distinct, find?_fresh (key_fresh split)] at loaded
  cases loaded

/-- A store with an empty value. -/
def emptyValueStore : Store where
  entries := [([1], [10]), ([2], []), ([3], [30])]
  distinct := by decide

theorem load_stops_at_empty_value : ∃ text, dumpStore emptyValueStore = some text ∧
      (loadData (fun _ => none) text).2 = .malformedLine 8 ∧
      (loadData (fun _ => none) text).1 [2] = none ∧
      (loadData (fun _ => none) text).1 [3] = none ∧
      emptyValueStore.transactionGet [2] = some [] ∧
      (loadData (fun _ => none) text).1 ≠ emptyValueStore.transactionGet := by
  refine ⟨_, dumpStore_eq emptyValueStore, by decide +kernel, by decide +kernel,
    by decide +kernel, by decide +kernel, fun same => ?_⟩
  have third := congrFun same [3]
  exact absurd third (by decide +kernel)

end Gzochi.Tools
