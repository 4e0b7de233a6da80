import Gzochi.Lib.Recency
import Gzochi.Lib.Runs
import Mathlib.Data.List.AList
import Mathlib.Data.List.Sort
import Mathlib.Algebra.Group.Nat.Defs

/-!
# The cache of `lrucache.c`

A hash table leads from keys to structs; the structs are the elements of a sequence that is
sorted by the access counter of each.  A struct lives as long as the sequence has it, so
the sequence is also the memory in which the pointers of the table are looked up: a
pointer to a struct that is not there is a fault.

Keys are taken up to the key equality of the table, so the copy of a key that the value
generator may make is that key.  The access counter is a number of 64 bits.
-/

namespace Gzochi.Lru

abbrev Address := Nat

/-- `gzochid_lru_cache_value`. -/
structure CacheValue (Key Value : Type) where
  key : Key
  value : Value
  accessCounter : UInt64
  deriving DecidableEq

/-- An element of the sequence: a pointer, and what it points to. -/
structure Element (Key Value : Type) where
  address : Address
  target : CacheValue Key Value
  deriving DecidableEq

/-- `gzochid_lru_cache`; `nextAddress` is where the next struct will be allocated. -/
structure LruCache (Key Value : Type) where
  cache : AList (fun _ : Key => Address)
  lruIndex : List (Element Key Value)
  maxSize : Nat
  nextAccessCounter : UInt64
  hasValueEvictFunc : Bool
  nextAddress : Address

/-- What can be observed of a lookup: the value returned, whether the value generator has
been called, and what the value eviction function has been called with. -/
structure Observation (Value : Type) where
  value : Value
  generated : Bool
  evicted : List Value
  deriving DecidableEq

variable {Key Value : Type} [DecidableEq Key]

/-- `gzochid_lru_cache_new_full`. -/
def LruCache.new (maxSize : Nat) (hasValueEvictFunc : Bool) : LruCache Key Value where
  cache := ∅
  lruIndex := []
  maxSize := maxSize
  nextAccessCounter := 0
  hasValueEvictFunc := hasValueEvictFunc
  nextAddress := 0

/-- `lru_cache_value_compare`. -/
def compare (a b : CacheValue Key Value) : Int :=
  if a.accessCounter < b.accessCounter then -1
  else if b.accessCounter < a.accessCounter then 1
  else 0

/-! ## The sequence -/

/-- `g_sequence_lookup`, in a sorted sequence: the position of an element that compares
equal. -/
def sequenceLookup (sequence : List (Element Key Value)) (data : CacheValue Key Value) :
    Option Nat :=
  sequence.findIdx? fun element => compare element.target data = 0

/-- `g_sequence_insert_sorted`: the new element comes before those that compare greater. -/
def insertSorted (sequence : List (Element Key Value)) (element : Element Key Value) :
    List (Element Key Value) :=
  sequence.orderedInsert (fun new old => compare old.target new.target > 0) element

/-- `g_sequence_sort_changed`: the element at the position is moved to its place. -/
def sortChanged (sequence : List (Element Key Value)) (position : Nat) :
    Option (List (Element Key Value)) := do
  let element ← sequence[position]?
  some (insertSorted (sequence.eraseIdx position) element)

/-- The struct a pointer leads to. -/
def deref (sequence : List (Element Key Value)) (address : Address) :
    Option (CacheValue Key Value) :=
  (sequence.find? (·.address = address)).map (·.target)

/-- An assignment to the access counter of a struct. -/
def Element.access (element : Element Key Value) (accessCounter : UInt64) : Element Key Value :=
  ⟨element.address, ⟨element.target.key, element.target.value, accessCounter⟩⟩

/-- The assignment through a pointer. -/
def setAccessCounter (sequence : List (Element Key Value)) (address : Address)
    (accessCounter : UInt64) : List (Element Key Value) :=
  sequence.map fun element =>
    if element.address = address then element.access accessCounter else element

/-! ## Lookups -/

namespace LruCache

/-- The first branch of `gzochid_lru_cache_lookup`. -/
def hit (cache : LruCache Key Value) (address : Address) :
    Option (LruCache Key Value × Observation Value) := do
  let value ← deref cache.lruIndex address
  let iter ← sequenceLookup cache.lruIndex value
  let lruIndex := setAccessCounter cache.lruIndex address cache.nextAccessCounter
  let lruIndex ← sortChanged lruIndex iter
  some ({ cache with
    lruIndex := lruIndex
    nextAccessCounter := cache.nextAccessCounter + 1 }, ⟨value.value, false, []⟩)

/-- The end of `gzochid_lru_cache_lookup`: the first value of the sequence is evicted if there
are too many. -/
def evict (cache : LruCache Key Value) : Option (LruCache Key Value × List Value) :=
  if cache.cache.keys.length > cache.maxSize then do
    let oldValue ← cache.lruIndex.head?
    some ({ cache with
      cache := cache.cache.erase oldValue.target.key
      lruIndex := cache.lruIndex.tail },
      if cache.hasValueEvictFunc then [oldValue.target.value] else [])
  else some (cache, [])

/-- The second branch of `gzochid_lru_cache_lookup`, up to the eviction. -/
def add (newFunc : Nat → Key → Value) (cache : LruCache Key Value) (key : Key) :
    LruCache Key Value :=
  let value := ⟨key, newFunc cache.nextAddress key, cache.nextAccessCounter⟩
  { cache with
    lruIndex := insertSorted cache.lruIndex ⟨cache.nextAddress, value⟩
    cache := cache.cache.insert key cache.nextAddress
    nextAccessCounter := cache.nextAccessCounter + 1
    nextAddress := cache.nextAddress + 1 }

/-- `gzochid_lru_cache_lookup`.  The value generator may give another value on each of its
calls. -/
def lookup (newFunc : Nat → Key → Value) (cache : LruCache Key Value) (key : Key) :
    Option (LruCache Key Value × Observation Value) :=
  match cache.cache.lookup key with
  | some address => cache.hit address
  | none => do
      let (after, evicted) ← (cache.add newFunc key).evict
      some (after, ⟨newFunc cache.nextAddress key, true, evicted⟩)

end LruCache

end Gzochi.Lru
