import Gzochi.Btree.PageOrder

/-!
# The bytes of a page

A page as the source keeps it: a block of bytes of which the first `page_size` are
occupied.  A record is written as two lengths of two bytes, each before its string.
An access outside of the block and a failed assertion leave no result.
-/

namespace Gzochi.Btree

open List

/-- `gzochi_common_io_write_short`, the bytes it writes. -/
def shortBytes (value : Nat) : Bytes := [Fin.ofNat 256 (value / 256), Fin.ofNat 256 value]

/-- `gzochi_common_io_read_short`, taken as an `unsigned short`. -/
def readShort (data : Bytes) (offset : Nat) : Option Nat := do
  let high ← data[offset]?
  let low ← data[offset + 1]?
  pure (high.val * 256 + low.val)

/-- What `memcmp`, `memcpy` and `memmove` read. -/
def readBlock (data : Bytes) (offset length : Nat) : Option Bytes :=
  if offset + length ≤ data.length then some ((data.drop offset).take length) else none

/-- What `memcpy` and `memmove` write. -/
def writeBlock (data : Bytes) (offset : Nat) (block : Bytes) : Option Bytes :=
  if offset + block.length ≤ data.length then
    some (data.take offset ++ block ++ data.drop (offset + block.length))
  else none

/-- `btree_page`. -/
structure BtreePage where
  pageSize : Nat
  data : Bytes

namespace BtreePage

/-- `compare_page_datum_to_key`. -/
def comparePageDatumToKey (page : BtreePage) (offset : Nat) (key : Bytes) : Option Ordering :=
  if page.pageSize ≤ offset then some .lt
  else do
    let len ← readShort page.data offset
    let datum ← readBlock page.data (offset + 2) (min len key.length)
    match memcmp datum key with
    | .eq => pure (if len = key.length then .eq else if len < key.length then .lt else .gt)
    | other => pure other

/-- The loop of `page_key_offset`, and the assertion after it. -/
def keyOffsetFrom (page : BtreePage) (key : Bytes) (offset : Nat) : Option Nat :=
  if offset < page.pageSize then do
    let pageKeyLen ← readShort page.data offset
    match ← page.comparePageDatumToKey offset key with
    | .lt =>
        let pageValueLen ← readShort page.data (offset + pageKeyLen + 2)
        page.keyOffsetFrom key (offset + (pageKeyLen + pageValueLen + 4))
    | .eq | .gt => some offset
  else if offset = page.pageSize then some offset
  else none
termination_by page.pageSize - offset

/-- `page_key_offset`. -/
def pageKeyOffset (page : BtreePage) (key : Bytes) : Option Nat := page.keyOffsetFrom key 0

/-- Moves subsequent data if necessary. -/
def moveSubsequent (page : BtreePage) (source target : Nat) : Option Bytes :=
  if source < page.pageSize then do
    let moved ← readBlock page.data source (page.pageSize - source)
    writeBlock page.data target moved
  else some page.data

/-- `insert_page_record`, what it does to the page. -/
def insertPageRecord (page : BtreePage) (offset : Nat) (key value : Bytes) :
    Option BtreePage := do
  let totalLen := key.length + value.length + 4
  guard (page.pageSize + totalLen ≤ maxPageSize)
  let data ← page.moveSubsequent offset (offset + totalLen)
  let data ← writeBlock data offset (shortBytes key.length)
  let data ← writeBlock data (offset + 2) key
  let data ← writeBlock data (offset + key.length + 2) (shortBytes value.length)
  let data ← writeBlock data (offset + key.length + 4) value
  pure ⟨page.pageSize + totalLen, data⟩

/-- `remove_page_record`, what it does to the page. -/
def removePageRecord (page : BtreePage) (offset : Nat) : Option BtreePage := do
  let keyLen ← readShort page.data offset
  let valueLen ← readShort page.data (offset + keyLen + 2)
  let recordLen := keyLen + valueLen + 4
  let data ← page.moveSubsequent (offset + recordLen) offset
  pure ⟨page.pageSize - recordLen, data⟩

/-- The pages that come from the empty one; `effective_page` copies what is occupied. -/
inductive Reached : BtreePage → Prop
  | empty {data : Bytes} (block : data.length = maxPageSize) : Reached ⟨0, data⟩
  | copy {page : BtreePage} {data : Bytes} (reached : Reached page)
      (block : data.length = maxPageSize)
      (copied : data.take page.pageSize = page.data.take page.pageSize) :
      Reached ⟨page.pageSize, data⟩
  | insert {page after : BtreePage} {offset : Nat} {key value : Bytes} (reached : Reached page)
      (place : page.pageKeyOffset key = some offset)
      (missing : page.comparePageDatumToKey offset key ≠ some .eq)
      (inserted : page.insertPageRecord offset key value = some after) : Reached after
  | remove {page after : BtreePage} {offset : Nat} {key : Bytes} (reached : Reached page)
      (place : page.pageKeyOffset key = some offset)
      (found : page.comparePageDatumToKey offset key = some .eq)
      (removed : page.removePageRecord offset = some after) : Reached after

end BtreePage

theorem readShort_shortBytes {offset value : Nat} {early : Bytes} (late : Bytes)
    (place : offset = early.length) (fits : value < 65536) :
    readShort (early ++ (shortBytes value ++ late)) offset = some value := by
  subst place
  simp [readShort, shortBytes]
  omega

theorem readBlock_append {offset length : Nat} {early block : Bytes} (late : Bytes)
    (place : offset = early.length) (within : length ≤ block.length) :
    readBlock (early ++ (block ++ late)) offset length = some (block.take length) := by
  simp [readBlock, place, take_append_of_le_length within]
  omega

theorem writeBlock_append {offset : Nat} {early late block : Bytes}
    (place : offset = early.length) (room : block.length ≤ late.length) :
    writeBlock (early ++ late) offset block =
      some (early ++ (block ++ late.drop block.length)) := by
  simp [writeBlock, place, room, drop_append]

/-- `memcmp` reads no further than the shorter string. -/
theorem memcmp_take (first second : Bytes) :
    memcmp (first.take (min first.length second.length)) second = memcmp first second := by
  induction first generalizing second with
  | nil => rfl
  | cons head tail ih =>
    cases second with
    | nil => rfl
    | cons head' tail' =>
      rw [length_cons, length_cons, Nat.succ_min_succ, take_succ_cons, memcmp, memcmp, ih]

def encodeRecord (record : Record) : Bytes :=
  shortBytes record.key.length ++ (record.key ++
    (shortBytes record.value.length ++ record.value))

def encodePage (page : Page) : Bytes := page.flatMap encodeRecord

theorem encodeRecord_length (record : Record) :
    (encodeRecord record).length = record.key.length + record.value.length + 4 := by
  simp [encodeRecord, shortBytes]
  omega

theorem encodePage_append (early late : Page) :
    encodePage (early ++ late) = encodePage early ++ encodePage late := flatMap_append

theorem encodePage_cons (record : Record) (rest : Page) :
    encodePage (record :: rest) = encodeRecord record ++ encodePage rest := rfl

namespace BtreePage

/-- The occupied part of the block are the records, under ascending keys. -/
structure Holds (block : BtreePage) (page : Page) : Prop where
  whole : block.data.length = maxPageSize
  size : block.pageSize = (encodePage page).length
  occupied : block.data.take block.pageSize = encodePage page
  ascending : Ascending page

variable {block after : BtreePage} {page early late smaller greater : Page} {record : Record}
  {offset : Nat} {key value : Bytes}

theorem Holds.split (holds : Holds block (early ++ late)) :
    ∃ rest, block.data = encodePage early ++ (encodePage late ++ rest) ∧
      block.pageSize = (encodePage early).length + (encodePage late).length ∧
      block.pageSize + rest.length = maxPageSize := by
  have size := holds.size
  have shape := take_append_drop block.pageSize block.data
  have total := holds.whole
  rw [holds.occupied, encodePage_append, append_assoc] at shape
  rw [encodePage_append, length_append] at size
  refine ⟨_, shape.symm, size, ?_⟩
  rw [← shape, length_append, length_append] at total
  omega

/-- The two lengths of a record are read where they were written. -/
theorem Holds.lengths (holds : Holds block (early ++ record :: late))
    (place : offset = (encodePage early).length) :
    readShort block.data offset = some record.key.length ∧
      readShort block.data (offset + record.key.length + 2) = some record.value.length := by
  obtain ⟨rest, shape, size, total⟩ := holds.split
  rw [encodePage_cons, length_append, encodeRecord_length] at size
  rw [shape, encodePage_cons, encodeRecord]
  simp only [append_assoc]
  rw [maxPageSize] at total
  refine ⟨readShort_shortBytes _ place (by omega), ?_⟩
  rw [← append_assoc, ← append_assoc (encodePage early ++ _)]
  apply readShort_shortBytes _ _ (by omega)
  simp [place, shortBytes]
  omega

theorem Holds.compare (holds : Holds block (early ++ record :: late))
    (place : offset = (encodePage early).length) (key : Bytes) :
    block.comparePageDatumToKey offset key = some (compareRecordToKey record key) := by
  obtain ⟨rest, shape, size, total⟩ := holds.split
  rw [encodePage_cons, length_append, encodeRecord_length] at size
  have datum : readBlock block.data (offset + 2) (min record.key.length key.length) =
      some (record.key.take (min record.key.length key.length)) := by
    rw [shape, encodePage_cons, encodeRecord]
    simp only [append_assoc]
    rw [← append_assoc]
    exact readBlock_append _ (by simp [place, shortBytes]) (Nat.min_le_left _ _)
  rw [comparePageDatumToKey, if_neg (by omega), (holds.lengths place).1]
  simp only [Option.bind_eq_bind, Option.bind_some, datum, memcmp_take, compareRecordToKey]
  cases memcmp record.key key <;> rfl

/-- From any record on, the loop stops before the first one that is not smaller. -/
theorem Holds.keyOffsetFrom (holds : Holds block (early ++ late)) (key : Bytes) :
    block.keyOffsetFrom key (encodePage early).length =
      some (encodePage (early ++ late.take (Btree.pageKeyOffset late key))).length := by
  induction late generalizing early with
  | nil =>
    have size := holds.size
    rw [append_nil] at size
    rw [BtreePage.keyOffsetFrom, if_neg (by omega), if_pos size.symm, take_nil, append_nil]
  | cons record rest ih =>
    obtain ⟨_, _, size, _⟩ := holds.split
    rw [encodePage_cons, length_append, encodeRecord_length] at size
    obtain ⟨keyLen, valueLen⟩ := holds.lengths rfl
    rw [BtreePage.keyOffsetFrom, if_pos (by omega), keyLen]
    simp only [Option.bind_eq_bind, Option.bind_some, holds.compare rfl]
    rw [Btree.pageKeyOffset, findIdx_cons]
    cases compareRecordToKey record key with
    | lt =>
      have next := @ih (early ++ [record]) (by simpa using holds)
      have passed : (encodePage (early ++ [record])).length =
          (encodePage early).length + (record.key.length + record.value.length + 4) := by
        simp [encodePage, encodeRecord_length]
      rw [passed, append_assoc] at next
      simpa [valueLen, Btree.pageKeyOffset] using next
    | eq | gt => exact congrArg (fun page => some (encodePage page).length) (append_nil _).symm

/-- The offset separates the smaller records from the greater ones, and the comparison
there tells whether the key is on the page. -/
theorem Holds.around (holds : Holds block page) (key : Bytes) :
    ∃ smaller greater, (∀ record ∈ smaller, record.key < key) ∧
      (∀ record ∈ greater, key < record.key) ∧
      block.pageKeyOffset key = some (encodePage smaller).length ∧
      (page = smaller ++ greater ∧
          block.comparePageDatumToKey (encodePage smaller).length key ≠ some .eq ∨
        ∃ old, old.key = key ∧ page = smaller ++ old :: greater ∧
          block.comparePageDatumToKey (encodePage smaller).length key = some .eq) := by
  obtain ⟨smaller, greater, below, above, place, shape⟩ := page_around holds.ascending key
  have offset := @Holds.keyOffsetFrom block [] page holds key
  rw [place, nil_append] at offset
  refine ⟨smaller, greater, below, above, ?_, ?_⟩
  · rcases shape with shape | ⟨old, same, shape⟩ <;>
      simpa [shape, pageKeyOffset, encodePage] using offset
  · rcases shape with shape | ⟨old, same, shape⟩
    · refine .inl ⟨shape, ?_⟩
      subst shape
      cases greater with
      | nil =>
        have size := holds.size
        rw [append_nil] at size
        simp [comparePageDatumToKey, size]
      | cons next rest =>
        rw [holds.compare rfl, ne_eq, Option.some_inj, compareRecordToKey_eq_iff]
        exact ne_of_gt (above next mem_cons_self)
    · refine .inr ⟨old, same, shape, ?_⟩
      subst shape
      rw [holds.compare rfl, Option.some_inj, compareRecordToKey_eq_iff]
      exact same

/-- What a block has to be to hold its records. -/
theorem holds_of {data rest : Bytes} (shape : data = encodePage page ++ rest)
    (whole : data.length = maxPageSize) (ascending : Ascending page)
    (size : offset = (encodePage page).length) : Holds ⟨offset, data⟩ page :=
  ⟨whole, size, by rw [shape, size, take_left], ascending⟩

/-- What is behind the source, if anything, then stands at the target. -/
theorem moveSubsequent_moved {before moving rest early late : Bytes} {source target : Nat}
    (start : source = before.length) (shape : block.data = before ++ (moving ++ rest))
    (place : target = early.length) (split : block.data = early ++ late)
    (occupied : block.pageSize = before.length + moving.length)
    (room : moving.length ≤ late.length) :
    block.moveSubsequent source target =
      some (early ++ (moving ++ late.drop moving.length)) := by
  rw [moveSubsequent, start]
  by_cases more : before.length < block.pageSize
  · have here : block.pageSize - before.length = moving.length := by omega
    have read := readBlock_append rest (@rfl _ before.length) (Nat.le_refl moving.length)
    rw [if_pos more, here, shape, read, take_length, ← shape, split]
    exact writeBlock_append place room
  · have nothing : moving = [] := length_eq_zero_iff.mp (by omega)
    rw [if_neg more, split, nothing]
    rfl

/-- The four writes of a record fill a gap of its size. -/
theorem record_written {early gap late : Bytes} (next : Bytes → Option BtreePage)
    (fits : gap.length = key.length + value.length + 4) :
    (do
      let data ← writeBlock (early ++ (gap ++ late)) early.length (shortBytes key.length)
      let data ← writeBlock data (early.length + 2) key
      let data ← writeBlock data (early.length + key.length + 2) (shortBytes value.length)
      let data ← writeBlock data (early.length + key.length + 4) value
      next data) = next (early ++ (encodeRecord ⟨key, value⟩ ++ late)) := by
  have short : ∀ value, (shortBytes value).length = 2 := fun _ => rfl
  simp only [Option.bind_eq_bind]
  rw [writeBlock_append rfl (by simp [short]; omega), Option.bind_some, short, ← append_assoc,
    writeBlock_append (by simp [short]) (by simp; omega), Option.bind_some, ← append_assoc,
    writeBlock_append (by simp [short]; omega) (by simp [short]; omega), Option.bind_some,
    ← append_assoc, writeBlock_append (by simp [short]; omega) (by simp [short]; omega), short,
    drop_drop, drop_drop, drop_drop, drop_left' (by omega), Option.bind_some]
  simp [encodeRecord]

theorem Holds.insert (holds : Holds block (smaller ++ greater))
    (below : ∀ record ∈ smaller, record.key < key)
    (above : ∀ record ∈ greater, key < record.key)
    (room : block.pageSize + (key.length + value.length + 4) ≤ maxPageSize) :
    ∃ after, block.insertPageRecord (encodePage smaller).length key value = some after ∧
      Holds after (smaller ++ ⟨key, value⟩ :: greater) := by
  obtain ⟨rest, shape, size, total⟩ := holds.split
  have ascending := ascending_around holds.ascending ⟨key, value⟩ below above
  -- The gap for the record is as long as the record.
  have cut := take_append_drop (key.length + value.length + 4) (encodePage greater ++ rest)
  generalize gap : (encodePage greater ++ rest).take (key.length + value.length + 4) = front at cut
  generalize (encodePage greater ++ rest).drop (key.length + value.length + 4) = late at cut
  have fits : front.length = key.length + value.length + 4 := by
    rw [← gap]
    simp
    omega
  have lengths := congrArg List.length cut
  rw [length_append, length_append] at lengths
  have moved := moveSubsequent_moved rfl shape
    (show _ = (encodePage smaller ++ front).length by rw [length_append, fits])
    (by rw [shape, ← cut, append_assoc]) size (by omega)
  have done : block.insertPageRecord (encodePage smaller).length key value =
      some ⟨block.pageSize + (key.length + value.length + 4), encodePage smaller ++
        (encodeRecord ⟨key, value⟩ ++
          (encodePage greater ++ late.drop (encodePage greater).length))⟩ := by
    rw [insertPageRecord, guard, if_pos room]
    simp only [Option.bind_eq_bind, Option.pure_def, Option.bind_some, moved, append_assoc]
    exact record_written (fun data => some ⟨_, data⟩) fits
  refine ⟨_, done, holds_of (?_ : _ = _ ++ late.drop (encodePage greater).length) ?_ ascending ?_⟩
  · simp [encodePage]
  · simp [encodeRecord_length]
    omega
  · simp [encodePage_append, encodePage_cons, encodeRecord_length]
    omega

theorem Holds.remove (holds : Holds block (smaller ++ record :: greater)) :
    ∃ after, block.removePageRecord (encodePage smaller).length = some after ∧
      Holds after (smaller ++ greater) := by
  obtain ⟨rest, shape, size, total⟩ := holds.split
  obtain ⟨keyLen, valueLen⟩ := holds.lengths rfl
  have ascending : Ascending (smaller ++ greater) :=
    holds.ascending.sublist ((sublist_cons_self record greater).append_left smaller)
  rw [encodePage_cons, append_assoc] at shape
  rw [encodePage_cons, length_append, encodeRecord_length] at size
  have moved := moveSubsequent_moved
    (show _ = (encodePage smaller ++ encodeRecord record).length by
      rw [length_append, encodeRecord_length]) (by rw [shape, append_assoc]) rfl shape (by
      rw [length_append, encodeRecord_length]; omega) (by simp; omega)
  rw [← append_assoc (encodePage smaller), ← encodePage_append] at moved
  generalize written : encodePage (smaller ++ greater) ++ _ = data at moved
  have done : block.removePageRecord (encodePage smaller).length =
      some ⟨block.pageSize - (record.key.length + record.value.length + 4), data⟩ := by
    rw [removePageRecord]
    simp only [keyLen, valueLen, Option.bind_eq_bind, Option.pure_def, Option.bind_some, moved]
  refine ⟨_, done, holds_of written.symm ?_ ascending ?_⟩
  · rw [← written]
    simp [encodePage_append, encodeRecord_length]
    omega
  · rw [encodePage_append, length_append]
    omega

/-- Every page that comes from the empty one holds its records, in ascending order. -/
theorem Reached.holds (reached : Reached block) : ∃ page, Holds block page := by
  induction reached with
  | empty whole => exact ⟨[], whole, rfl, rfl, Pairwise.nil⟩
  | copy _ whole copied ih =>
    obtain ⟨page, holds⟩ := ih
    exact ⟨page, whole, holds.size, copied.trans holds.occupied, holds.ascending⟩
  | @insert block after offset key value _ place missing inserted ih =>
    obtain ⟨page, holds⟩ := ih
    obtain ⟨smaller, greater, below, above, here, shape⟩ := holds.around key
    cases place.symm.trans here
    rcases shape with ⟨shape, _⟩ | ⟨_, _, _, found⟩
    · subst shape
      by_cases room : block.pageSize + (key.length + value.length + 4) ≤ maxPageSize
      · obtain ⟨next, done, holds⟩ := holds.insert below above room
        cases inserted.symm.trans done
        exact ⟨_, holds⟩
      · rw [insertPageRecord, guard, if_neg room] at inserted
        cases inserted
    · exact absurd found missing
  | @remove block after offset key _ place found removed ih =>
    obtain ⟨page, holds⟩ := ih
    obtain ⟨smaller, greater, below, above, here, shape⟩ := holds.around key
    cases place.symm.trans here
    rcases shape with ⟨_, missing⟩ | ⟨old, _, shape, _⟩
    · exact absurd found missing
    · subst shape
      obtain ⟨next, done, holds⟩ := holds.remove
      cases removed.symm.trans done
      exact ⟨_, holds⟩

/-- A reached page is a list of records in ascending order: its occupied bytes are their
encodings, an offset separates the smaller ones from the others, and the two operations are
insertion and deletion. -/
theorem reached_refines (reached : Reached block) :
    ∃ page, Holds block page ∧
      (∀ key, ∃ smaller others, page = smaller ++ others ∧
        (∀ record ∈ smaller, record.key < key) ∧ (∀ record ∈ others, key ≤ record.key) ∧
        block.pageKeyOffset key = some (encodePage smaller).length) ∧
      (∀ key value, (∀ record ∈ page, record.key ≠ key) →
        block.pageSize + (key.length + value.length + 4) ≤ maxPageSize →
        ∃ offset after next, block.pageKeyOffset key = some offset ∧
          block.insertPageRecord offset key value = some after ∧ Holds after next ∧
          next.Perm (⟨key, value⟩ :: page)) ∧
      ∀ record ∈ page, ∃ offset after, block.pageKeyOffset record.key = some offset ∧
        block.removePageRecord offset = some after ∧
        Holds after (otherRecords record.key page) := by
  obtain ⟨page, holds⟩ := reached.holds
  refine ⟨page, holds, ?_, ?_, ?_⟩
  · intro key
    obtain ⟨smaller, greater, below, above, place, shape⟩ := holds.around key
    rcases shape with ⟨shape, _⟩ | ⟨old, same, shape, _⟩
    · exact ⟨smaller, greater, shape, below, fun record member => (above record member).le, place⟩
    · refine ⟨smaller, old :: greater, shape, below, ?_, place⟩
      intro record member
      rcases mem_cons.mp member with rfl | member
      · exact same.ge
      · exact (above record member).le
  · intro key value missing room
    obtain ⟨smaller, greater, below, above, place, shape⟩ := holds.around key
    rcases shape with ⟨rfl, _⟩ | ⟨old, same, rfl, _⟩
    · obtain ⟨after, done, next⟩ := holds.insert below above room
      exact ⟨_, after, _, place, done, next, perm_middle⟩
    · exact absurd same (missing old (by simp))
  · intro record member
    obtain ⟨smaller, greater, below, above, place, shape⟩ := holds.around record.key
    rcases shape with ⟨rfl, _⟩ | ⟨old, same, rfl, _⟩
    · rcases mem_append.mp member with member | member
      · exact absurd (below record member) (lt_irrefl _)
      · exact absurd (above record member) (lt_irrefl _)
    · rw [otherRecords_around below above old same]
      obtain ⟨after, done, next⟩ := holds.remove
      exact ⟨_, after, place, done, next⟩

/-- An insertion into an empty page. -/
theorem reached_refines_first :
    ∃ offset after next,
      (⟨0, replicate maxPageSize 0⟩ : BtreePage).insertPageRecord offset [1] [2] = some after ∧
        Holds after next ∧ next.Perm [⟨[1], [2]⟩] := by
  obtain ⟨page, holds, _, insert, _⟩ :=
    reached_refines (.empty (length_replicate : (replicate maxPageSize (0 : Byte)).length = _))
  have nothing : page = [] := by
    cases page with
    | nil => rfl
    | cons record rest => cases holds.occupied
  subst nothing
  obtain ⟨offset, after, next, _, rest⟩ := insert [1] [2] (by simp) (by decide)
  exact ⟨offset, after, next, rest⟩

end BtreePage

end Gzochi.Btree
