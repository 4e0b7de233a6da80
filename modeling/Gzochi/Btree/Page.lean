import Mathlib.Data.List.Lex
import Mathlib.Algebra.GroupWithZero.Nat

/-!
# Keys and pages

Keys and values are byte strings.  A page of the source is a block of at most 4096
bytes that holds records one after the other, each with two lengths of two bytes; it
is modelled by the list of its records.  The place of a record, an offset in the
source, is its position in the list.
-/

namespace Gzochi.Btree

/-- `unsigned char`. -/
abbrev Byte := Fin 256

instance byteValues : NeZero 256 := ⟨by decide⟩

abbrev Bytes := List Byte

/-- `btree_datum`: nothing where the data pointer is `NULL`. -/
abbrev Datum := Option Bytes

/-- The sign of `memcmp` over the length of the shorter string. -/
def memcmp : Bytes → Bytes → Ordering
  | [], _ => .eq
  | _ :: _, [] => .eq
  | first :: firsts, second :: seconds =>
      if first < second then .lt
      else if second < first then .gt
      else memcmp firsts seconds

/-- `compare_datum`. -/
def compareDatum : Bytes → Bytes → Ordering
  | [], [] => .eq
  | [], _ :: _ => .lt
  | _ :: _, [] => .gt
  | first :: firsts, second :: seconds =>
      if first < second then .lt
      else if second < first then .gt
      else compareDatum firsts seconds

/-- `key_after`. -/
def keyAfter (key : Bytes) : Bytes := key ++ [0]

structure Record where
  key : Bytes
  value : Bytes
  deriving DecidableEq

/-- What the record takes up of its page. -/
def Record.size (record : Record) : Nat := record.key.length + record.value.length + 4

abbrev Page := List Record

/-- `page_size`. -/
def pageSize (page : Page) : Nat := (page.map Record.size).sum

/-- `MAX_PAGE_SIZE`. -/
def maxPageSize : Nat := 4096

/-- `compare_page_datum_to_key` where there is a record at the offset. -/
def compareRecordToKey (record : Record) (key : Bytes) : Ordering :=
  match memcmp record.key key with
  | .eq =>
      if record.key.length = key.length then .eq
      else if record.key.length < key.length then .lt
      else .gt
  | other => other

/-- `compare_page_datum_to_key`. -/
def comparePageDatumToKey (page : Page) (offset : Nat) (key : Bytes) : Ordering :=
  match page[offset]? with
  | none => .lt
  | some record => compareRecordToKey record key

/-- `page_key_offset`: where the key is stored, or would be. -/
def pageKeyOffset (page : Page) (key : Bytes) : Nat :=
  page.findIdx fun record => compareRecordToKey record key != .lt

/-- `lookup_page_value`. -/
def lookupPageValue : Page → Bytes → Option Bytes
  | [], _ => none
  | record :: rest, key =>
      match memcmp key record.key with
      | .eq => if record.key.length = key.length then some record.value else none
      | .gt => lookupPageValue rest key
      | .lt => none

/-- The loop of `find_key_gte` over a page. -/
def firstKeyGte : Page → Bytes → Option Bytes
  | [], _ => none
  | record :: rest, key =>
      match memcmp key record.key with
      | .lt => some record.key
      | .eq => if record.key.length ≥ key.length then some record.key else firstKeyGte rest key
      | .gt => firstKeyGte rest key

end Gzochi.Btree
