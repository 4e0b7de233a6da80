import Gzochi.Lru.Model

/-!
# Lookups in the cache

The cache is described by the history of its lookups: the keys it has are the ones looked
up last, their structs stand in the order of the last lookup, and every value made so far
is in the cache or has been evicted.  This holds as long as the access counter has not
passed its largest value.
-/

namespace Gzochi.Lru

open Lib List

variable {Key Value : Type}

theorem compare_eq_zero {a b : CacheValue Key Value} :
    compare a b = 0 ↔ a.accessCounter = b.accessCounter := by
  unfold compare
  rw [← UInt64.toNat_inj]
  split
  · rename_i less
    rw [UInt64.lt_iff_toNat_lt] at less
    omega
  · rename_i notLess
    rw [UInt64.lt_iff_toNat_lt] at notLess
    split <;> rename_i greater <;> rw [UInt64.lt_iff_toNat_lt] at greater <;> omega

theorem compare_pos {a b : CacheValue Key Value} :
    compare a b > 0 ↔ b.accessCounter < a.accessCounter := by
  unfold compare
  split
  · rename_i less
    rw [UInt64.lt_iff_toNat_lt] at less ⊢
    omega
  · split <;> rename_i greater <;> simp [greater]

variable {element : Element Key Value}

/-- An element with the largest counter goes to the end. -/
theorem insertSorted_last {sequence : List (Element Key Value)}
    (largest : ∀ old ∈ sequence, old.target.accessCounter < element.target.accessCounter) :
    insertSorted sequence element = sequence ++ [element] := by
  unfold insertSorted
  induction sequence with
  | nil => rfl
  | cons first rest ih =>
    have less := largest first mem_cons_self
    have notGreater : ¬ compare first.target element.target > 0 := by
      rw [compare_pos]
      exact UInt64.lt_asymm less
    rw [orderedInsert_cons, if_neg notGreater,
      ih fun old member => largest old (mem_cons_of_mem _ member)]
    rfl

variable {before after : List (Element Key Value)}

/-- The counters tell the elements apart. -/
theorem sequenceLookup_eq (sorted : (before ++ element :: after).Pairwise fun a b =>
      a.target.accessCounter < b.target.accessCounter) :
    sequenceLookup (before ++ element :: after) element.target = some before.length := by
  have earlier : ∀ old ∈ before, ¬ compare old.target element.target = 0 := by
    intro old member
    have less := (pairwise_append.mp sorted).2.2 old member element mem_cons_self
    rw [compare_eq_zero]
    exact UInt64.ne_of_lt less
  unfold sequenceLookup
  rw [List.findIdx?_append, List.findIdx?_eq_none_iff.mpr (by simpa using earlier)]
  have found : compare element.target element.target = 0 := compare_eq_zero.mpr rfl
  simp [List.findIdx?_cons, found]

/-- An address leads to its element. -/
theorem deref_eq (distinct : ((before ++ element :: after).map (·.address)).Nodup) :
    deref (before ++ element :: after) element.address = some element.target := by
  have apart : ∀ old ∈ before, ¬ old.address = element.address := by
    rw [map_append, nodup_append] at distinct
    intro old member
    exact distinct.2.2 _ (mem_map_of_mem member) _ (by simp)
  unfold deref
  rw [List.find?_append, List.find?_eq_none.mpr (by simpa using apart)]
  simp

theorem setAccessCounter_eq (distinct : ((before ++ element :: after).map (·.address)).Nodup)
    (accessCounter : UInt64) :
    setAccessCounter (before ++ element :: after) element.address accessCounter =
      before ++ element.access accessCounter :: after := by
  have others : ∀ sequence : List (Element Key Value),
      (∀ old ∈ sequence, ¬ old.address = element.address) →
      setAccessCounter sequence element.address accessCounter = sequence := by
    intro sequence apart
    unfold setAccessCounter
    have same : ∀ old ∈ sequence,
        (if old.address = element.address then old.access accessCounter else old) = old :=
      fun old member => if_neg (apart old member)
    rw [map_congr_left same, map_id']
  rw [map_append, map_cons, nodup_append, nodup_cons] at distinct
  have before_apart : ∀ old ∈ before, ¬ old.address = element.address := fun old member =>
    distinct.2.2 _ (mem_map_of_mem member) _ mem_cons_self
  have after_apart : ∀ old ∈ after, ¬ old.address = element.address := by
    intro old member same
    exact distinct.2.1.1 (same ▸ mem_map_of_mem member)
  have parts : setAccessCounter (before ++ element :: after) element.address accessCounter =
      setAccessCounter before element.address accessCounter ++
        element.access accessCounter :: setAccessCounter after element.address accessCounter := by
    simp [setAccessCounter]
  rw [parts, others before before_apart, others after after_apart]

section

variable [DecidableEq Key]

/-- The value returned by the last lookup of the key. -/
def lastValue (trace : List (Key × Observation Value)) (key : Key) : Option Value :=
  (trace.reverse.find? (·.1 = key)).map (·.2.value)

theorem lastValue_snoc (trace : List (Key × Observation Value)) (key other : Key)
    (observation : Observation Value) :
    lastValue (trace ++ [(key, observation)]) other =
      if key = other then some observation.value else lastValue trace other := by
  unfold lastValue
  rw [reverse_append, reverse_singleton, singleton_append, List.find?_cons]
  by_cases same : key = other
  · simp [same]
  · simp [same]

/-- The values the generator has made. -/
def generatedValues (trace : List (Key × Observation Value)) : List Value :=
  trace.filterMap fun step => if step.2.generated then some step.2.value else none

/-- The values that the eviction function has been called with. -/
def evictedValues (trace : List (Key × Observation Value)) : List Value :=
  trace.flatMap (·.2.evicted)

/-- What the table leads to, read off the sequence. -/
def Element.entry (element : Element Key Value) : Sigma fun _ : Key => Address :=
  ⟨element.target.key, element.address⟩

/-- The state of the cache after the lookups of a trace. -/
structure Sound (cache : LruCache Key Value) (trace : List (Key × Observation Value)) : Prop where
  keys : cache.lruIndex.map (·.target.key) = mostRecent cache.maxSize (trace.map Prod.fst)
  sorted : cache.lruIndex.Pairwise fun a b => a.target.accessCounter < b.target.accessCounter
  below : ∀ element ∈ cache.lruIndex, element.target.accessCounter.toNat < trace.length
  next : cache.nextAccessCounter = UInt64.ofNat trace.length
  indexed : cache.cache.entries.Perm (cache.lruIndex.map Element.entry)
  distinct : (cache.lruIndex.map (·.address)).Nodup
  allocated : ∀ element ∈ cache.lruIndex, element.address < cache.nextAddress
  last : ∀ element ∈ cache.lruIndex, lastValue trace element.target.key = some element.target.value
  values : cache.hasValueEvictFunc = true →
    (generatedValues trace).Perm (evictedValues trace ++ cache.lruIndex.map (·.target.value))

theorem new_sound (maxSize : Nat) (hasValueEvictFunc : Bool) :
    Sound (LruCache.new maxSize hasValueEvictFunc : LruCache Key Value) [] where
  keys := by simp [LruCache.new, mostRecent, byLastUse, List.rtake]
  sorted := List.Pairwise.nil
  below := nofun
  next := rfl
  indexed := List.Perm.nil
  distinct := nodup_nil
  allocated := nofun
  last := nofun
  values := fun _ => List.Perm.nil

namespace Sound

variable {cache : LruCache Key Value} {trace : List (Key × Observation Value)}

variable (sound : Sound cache trace)
include sound

theorem lookup_eq_some {key : Key} {address : Address}
    (found : cache.cache.lookup key = some address) :
    ∃ element ∈ cache.lruIndex, element.target.key = key ∧ element.address = address := by
  have entry := sound.indexed.mem_iff.mp (AList.mem_lookup_iff.mp found)
  obtain ⟨element, member, same⟩ := mem_map.mp entry
  cases same
  exact ⟨element, member, rfl, rfl⟩

theorem keys_perm : cache.cache.keys.Perm (mostRecent cache.maxSize (trace.map Prod.fst)) := by
  have moved := sound.indexed.map Sigma.fst
  rw [map_map] at moved
  rw [← sound.keys]
  exact moved

theorem mem_cache (key : Key) :
    key ∈ cache.cache ↔ key ∈ mostRecent cache.maxSize (trace.map Prod.fst) := by
  rw [AList.mem_keys]
  exact sound.keys_perm.mem_iff

theorem few_elements : cache.lruIndex.length ≤ cache.maxSize := by
  have size := congrArg List.length sound.keys
  rw [length_map, length_mostRecent] at size
  omega

end Sound

end

theorem generatedValues_snoc (trace : List (Key × Observation Value)) (key : Key)
    (observation : Observation Value) :
    generatedValues (trace ++ [(key, observation)]) =
      generatedValues trace ++ if observation.generated then [observation.value] else [] := by
  obtain ⟨value, generated, evicted⟩ := observation
  unfold generatedValues
  rw [filterMap_append]
  cases generated <;> simp

theorem evictedValues_snoc (trace : List (Key × Observation Value)) (key : Key)
    (observation : Observation Value) :
    evictedValues (trace ++ [(key, observation)]) = evictedValues trace ++ observation.evicted := by
  unfold evictedValues
  rw [flatMap_append, flatMap_singleton]

section

variable [DecidableEq Key] {cache next : LruCache Key Value}
  {trace : List (Key × Observation Value)} {before after kept : List (Element Key Value)}
  {element : Element Key Value} {observation : Observation Value}

/-- The next counter is one that no element has reached. -/
theorem Sound.largest (sound : Sound cache trace) (few : trace.length < 2 ^ 64) :
    cache.nextAccessCounter.toNat = trace.length ∧
      ∀ element ∈ cache.lruIndex, element.target.accessCounter < cache.nextAccessCounter := by
  have counter : cache.nextAccessCounter.toNat = trace.length := by
    rw [sound.next, UInt64.toNat_ofNat']
    exact Nat.mod_eq_of_lt few
  refine ⟨counter, ?_⟩
  intro element member
  rw [UInt64.lt_iff_toNat_lt, counter]
  exact sound.below element member

/-- What every lookup has in common: the struct looked up ends behind those that are kept. -/
theorem Sound.advance (sound : Sound cache trace) (new : Element Key Value)
    (few : trace.length < 2 ^ 64) (sublist : kept.Sublist cache.lruIndex)
    (index : next.lruIndex = kept ++ [new])
    (counter : new.target.accessCounter = cache.nextAccessCounter)
    (counted : next.nextAccessCounter = cache.nextAccessCounter + 1)
    (returned : new.target.value = observation.value)
    (keys : next.lruIndex.map (·.target.key) =
      mostRecent next.maxSize (trace.map Prod.fst ++ [new.target.key]))
    (indexed : next.cache.entries.Perm (next.lruIndex.map Element.entry))
    (distinct : (next.lruIndex.map (·.address)).Nodup)
    (allocated : ∀ element ∈ next.lruIndex, element.address < next.nextAddress)
    (values : next.hasValueEvictFunc = true →
      (generatedValues (trace ++ [(new.target.key, observation)])).Perm
        (evictedValues (trace ++ [(new.target.key, observation)]) ++
          next.lruIndex.map (·.target.value))) :
    Sound next (trace ++ [(new.target.key, observation)]) := by
  obtain ⟨size, largest⟩ := sound.largest few
  have other : ∀ element ∈ kept, ¬ new.target.key = element.target.key := by
    have once := mostRecent_nodup next.maxSize (trace.map Prod.fst ++ [new.target.key])
    rw [← keys, index, map_append, nodup_append] at once
    intro element member same
    exact once.2.2 _ (mem_map_of_mem member) _ (by simp) same.symm
  refine ⟨?_, ?_, ?_, ?_, indexed, distinct, allocated, ?_, values⟩
  · rw [keys, map_append]
    rfl
  · rw [index, pairwise_append]
    refine ⟨sound.sorted.sublist sublist, pairwise_singleton _ _, ?_⟩
    intro old member last single
    rw [mem_singleton.mp single, counter]
    exact largest old (sublist.mem member)
  · intro old member
    rw [index] at member
    rw [length_append, length_singleton]
    rcases mem_append.mp member with earlier | last
    · exact Nat.lt_succ_of_lt (sound.below old (sublist.mem earlier))
    · rw [mem_singleton.mp last, counter, size]
      exact Nat.lt_succ_self _
  · rw [counted, sound.next, length_append, length_singleton, UInt64.ofNat_add]
    rfl
  · intro old member
    rw [index] at member
    rw [lastValue_snoc]
    rcases mem_append.mp member with earlier | last
    · rw [if_neg (other old earlier)]
      exact sound.last old (sublist.mem earlier)
    · rw [mem_singleton.mp last, if_pos rfl, returned]

omit [DecidableEq Key] in
/-- The struct that is found is moved to where its new counter belongs. -/
theorem hit_eq (split : cache.lruIndex = before ++ element :: after)
    (sorted : cache.lruIndex.Pairwise fun a b => a.target.accessCounter < b.target.accessCounter)
    (distinct : (cache.lruIndex.map (·.address)).Nodup) :
    cache.hit element.address = some ({ cache with
        lruIndex := insertSorted (before ++ after) (element.access cache.nextAccessCounter)
        nextAccessCounter := cache.nextAccessCounter + 1 },
        ⟨element.target.value, false, []⟩) := by
  rw [split] at sorted distinct
  unfold LruCache.hit sortChanged
  rw [split, deref_eq distinct]
  simp only [Option.bind_eq_bind, Option.bind_some, sequenceLookup_eq sorted,
    setAccessCounter_eq distinct]
  rw [List.getElem?_append_right (Nat.le_refl _), Nat.sub_self, List.getElem?_cons_zero,
    Option.bind_some, eraseIdx_append_of_length_le (Nat.le_refl _), Nat.sub_self,
    eraseIdx_cons_zero]
  rfl

theorem Sound.hit (sound : Sound cache trace) (few : trace.length < 2 ^ 64)
    (split : cache.lruIndex = before ++ element :: after)
    (found : cache.hit element.address = some (next, observation)) :
    next.maxSize = cache.maxSize ∧ next.hasValueEvictFunc = cache.hasValueEvictFunc ∧
      Sound next (trace ++ [(element.target.key, observation)]) := by
  rw [hit_eq split sound.sorted sound.distinct] at found
  cases found
  have kept : (before ++ after).Sublist cache.lruIndex := by
    rw [split]
    exact (sublist_cons_self element after).append_left before
  have index : insertSorted (before ++ after) (element.access cache.nextAccessCounter) =
      before ++ after ++ [element.access cache.nextAccessCounter] :=
    insertSorted_last fun old member => (sound.largest few).2 old (kept.mem member)
  have perm : cache.lruIndex.Perm (before ++ after ++ [element]) := by
    rw [split]
    refine perm_middle.trans ?_
    exact (perm_append_singleton _ _).symm
  have keyed := sound.keys
  rw [split, map_append, map_cons] at keyed
  have recent : element.target.key ∈ mostRecent cache.maxSize (trace.map Prod.fst) := by
    rw [← keyed]
    exact mem_append_right _ mem_cons_self
  have once := mostRecent_nodup cache.maxSize (trace.map Prod.fst)
  rw [← keyed, nodup_append] at once
  have elsewhere : element.target.key ∉ before.map (·.target.key) := fun member =>
    once.2.2 _ member _ mem_cons_self rfl
  have addresses := perm.map (·.address)
  have inside : element ∈ cache.lruIndex := by
    rw [split]
    exact mem_append_right _ mem_cons_self
  refine ⟨rfl, rfl, sound.advance (element.access cache.nextAccessCounter) few kept index rfl
    rfl rfl ?_ ?_ ?_ ?_ ?_⟩
  · show List.map _ (insertSorted _ _) = mostRecent cache.maxSize _
    rw [index, map_append, map_append]
    show _ = mostRecent cache.maxSize (trace.map Prod.fst ++ [element.target.key])
    rw [mostRecent_hit recent, ← keyed, erase_append_right _ elsewhere, erase_cons_head]
    rfl
  · show cache.cache.entries.Perm (List.map _ (insertSorted _ _))
    rw [index]
    refine (sound.indexed.trans (perm.map Element.entry)).trans ?_
    simp only [map_append]
    exact List.Perm.refl _
  · show (List.map _ (insertSorted _ _)).Nodup
    rw [index, map_append]
    rw [map_append] at addresses
    exact addresses.nodup_iff.mp sound.distinct
  · show ∀ old ∈ insertSorted _ _, old.address < cache.nextAddress
    rw [index]
    intro old member
    rcases mem_append.mp member with earlier | last
    · exact sound.allocated old (kept.mem earlier)
    · rw [mem_singleton.mp last]
      exact sound.allocated element inside
  · intro evicts
    rw [generatedValues_snoc, evictedValues_snoc]
    show (generatedValues trace ++ []).Perm
      (evictedValues trace ++ [] ++ List.map _ (insertSorted _ _))
    rw [index, append_nil, append_nil]
    refine (sound.values evicts).trans (List.Perm.append_left _ ?_)
    refine (perm.map (·.target.value)).trans ?_
    simp only [map_append]
    exact List.Perm.refl _

/-- The struct that a miss adds. -/
def LruCache.newElement (newFunc : Nat → Key → Value) (cache : LruCache Key Value) (key : Key) :
    Element Key Value :=
  ⟨cache.nextAddress, ⟨key, newFunc cache.nextAddress key, cache.nextAccessCounter⟩⟩

variable {key : Key}

variable (sound : Sound cache trace)
include sound

variable (few : trace.length < 2 ^ 64)
include few

variable (positive : 0 < cache.maxSize)
include positive

variable (newFunc : Nat → Key → Value)
include newFunc

/-- A miss while there is room evicts nothing; otherwise it evicts the first struct. -/
theorem evict_eq (missing : cache.cache.lookup key = none) :
    (cache.lruIndex.length < cache.maxSize ∧
      (cache.add newFunc key).evict = some ({ cache.add newFunc key with
        lruIndex := cache.lruIndex ++ [cache.newElement newFunc key] }, [])) ∨
    ∃ first rest, cache.lruIndex = first :: rest ∧ cache.lruIndex.length = cache.maxSize ∧
      (cache.add newFunc key).evict = some ({ cache.add newFunc key with
        cache := (cache.add newFunc key).cache.erase first.target.key
        lruIndex := rest ++ [cache.newElement newFunc key] },
        if cache.hasValueEvictFunc then [first.target.value] else []) := by
  have index : (cache.add newFunc key).lruIndex =
      cache.lruIndex ++ [cache.newElement newFunc key] :=
    insertSorted_last (sound.largest few).2
  have absent : key ∉ cache.cache := AList.lookup_eq_none.mp missing
  have size : (cache.add newFunc key).cache.keys.length = cache.lruIndex.length + 1 := by
    have same := sound.indexed.length_eq
    rw [length_map] at same
    show (cache.cache.insert key cache.nextAddress).keys.length = _
    rw [AList.keys_insert, length_cons, erase_of_not_mem absent, ← same]
    exact congrArg (· + 1) (length_map _)
  have limit : (cache.add newFunc key).maxSize = cache.maxSize := rfl
  unfold LruCache.evict
  rw [index, size, limit]
  by_cases room : cache.lruIndex.length < cache.maxSize
  · left
    refine ⟨room, ?_⟩
    rw [if_neg (by omega), ← index]
  · right
    have full : cache.lruIndex.length = cache.maxSize := by
      have most := sound.few_elements
      omega
    rw [if_pos (by omega)]
    cases elements : cache.lruIndex with
    | nil =>
      rw [elements, length_nil] at full
      omega
    | cons first rest =>
      rw [elements] at full
      exact ⟨first, rest, rfl, full, rfl⟩

theorem Sound.miss (missing : cache.cache.lookup key = none) {evicted : List Value}
    (ended : (cache.add newFunc key).evict = some (next, evicted)) :
    next.maxSize = cache.maxSize ∧ next.hasValueEvictFunc = cache.hasValueEvictFunc ∧
      Sound next (trace ++ [(key, ⟨newFunc cache.nextAddress key, true, evicted⟩)]) := by
  have absent : key ∉ cache.cache := AList.lookup_eq_none.mp missing
  have other : key ∉ mostRecent cache.maxSize (trace.map Prod.fst) := by
    rwa [← sound.mem_cache]
  have entries : (cache.add newFunc key).cache.entries.Perm
      (((cache.newElement newFunc key).entry :: cache.lruIndex.map Element.entry)) := by
    show (cache.cache.insert key cache.nextAddress).entries.Perm _
    rw [AList.entries_insert_of_notMem absent]
    exact sound.indexed.cons _
  have fresh : cache.nextAddress ∉ cache.lruIndex.map (·.address) := by
    intro member
    obtain ⟨element, inside, same⟩ := mem_map.mp member
    exact Nat.lt_irrefl _ (same ▸ sound.allocated element inside)
  have below : ∀ element ∈ cache.lruIndex ++ [cache.newElement newFunc key],
      element.address < cache.nextAddress + 1 := by
    intro element member
    rcases mem_append.mp member with earlier | last
    · exact Nat.lt_succ_of_lt (sound.allocated element earlier)
    · rw [mem_singleton.mp last]
      exact Nat.lt_succ_self _
  have size := congrArg List.length sound.keys
  rw [length_map] at size
  rcases evict_eq sound few positive newFunc missing with
    ⟨room, kept⟩ | ⟨first, rest, split, full, dropped⟩
  · rw [ended] at kept
    cases kept
    refine ⟨rfl, rfl, sound.advance (cache.newElement newFunc key) few
      (List.Sublist.refl cache.lruIndex) rfl rfl rfl rfl ?_ ?_ ?_ below ?_⟩
    · show List.map _ (_ ++ _) = mostRecent cache.maxSize (trace.map Prod.fst ++ [key])
      rw [mostRecent_room other (by omega), ← sound.keys, map_append]
      rfl
    · show (cache.add newFunc key).cache.entries.Perm (List.map _ (_ ++ _))
      rw [map_append]
      exact entries.trans (perm_append_singleton _ _).symm
    · show (List.map _ (_ ++ _)).Nodup
      rw [map_append, nodup_append]
      refine ⟨sound.distinct, nodup_singleton _, ?_⟩
      intro address member other single same
      rw [mem_singleton.mp single] at same
      rw [same] at member
      exact fresh member
    · intro evicts
      rw [generatedValues_snoc, evictedValues_snoc]
      show (_ ++ [_]).Perm (_ ++ [] ++ List.map _ (_ ++ _))
      rw [append_nil, map_append, ← append_assoc]
      exact (sound.values evicts).append_right _
  · rw [ended] at dropped
    cases dropped
    have kept : rest.Sublist cache.lruIndex := by
      rw [split]
      exact sublist_cons_self first rest
    have keyed := sound.keys
    rw [split, map_cons] at keyed
    have first_other : ¬ key = first.target.key := by
      intro same
      apply other
      rw [← keyed, same]
      exact mem_cons_self
    rw [split, map_cons] at fresh
    have distinct := sound.distinct
    rw [split, map_cons, nodup_cons] at distinct
    refine ⟨rfl, rfl, sound.advance (cache.newElement newFunc key) few kept rfl rfl rfl rfl
      ?_ ?_ ?_ ?_ ?_⟩
    · show List.map _ (rest ++ _) = mostRecent cache.maxSize (trace.map Prod.fst ++ [key])
      rw [mostRecent_full other keyed.symm, map_append]
      · rfl
      · rw [keyed, ← size]
        exact full
    · show ((cache.add newFunc key).cache.erase first.target.key).entries.Perm
        (List.map _ (rest ++ _))
      have erased := entries.kerase (a := first.target.key) (cache.add newFunc key).cache.nodupKeys
      have head : first.target.key = first.entry.1 := rfl
      refine erased.trans ?_
      rw [kerase_cons_ne (fun same => first_other same.symm), split, map_cons,
        kerase_cons_eq head, map_append]
      exact (perm_append_singleton _ _).symm
    · show (List.map _ (rest ++ _)).Nodup
      rw [map_append, nodup_append]
      refine ⟨distinct.2, nodup_singleton _, ?_⟩
      intro address member other single same
      rw [mem_singleton.mp single] at same
      rw [same] at member
      exact fresh (mem_cons_of_mem _ member)
    · intro element member
      apply below
      rw [split]
      exact mem_cons_of_mem _ member
    · intro evicts
      have values := sound.values evicts
      have has : cache.hasValueEvictFunc = true := evicts
      rw [generatedValues_snoc, evictedValues_snoc]
      show (_ ++ [_]).Perm (_ ++ (if cache.hasValueEvictFunc then _ else _) ++
        List.map _ (rest ++ _))
      rw [if_pos has, map_append, ← append_assoc]
      refine List.Perm.append_right _ (values.trans ?_)
      rw [split, map_cons, append_assoc]
      exact List.Perm.refl _

/-- A lookup always ends, and what it returns depends on whether the key is there. -/
theorem lookup_ends (key : Key) :
    ∃ next observation, cache.lookup newFunc key = some (next, observation) ∧
      (key ∈ cache.cache → observation.generated = false ∧ observation.evicted = [] ∧
        lastValue trace key = some observation.value) ∧
      (key ∉ cache.cache → observation.generated = true) := by
  cases found : cache.cache.lookup key with
  | some address =>
    obtain ⟨element, inside, rfl, rfl⟩ := sound.lookup_eq_some found
    obtain ⟨before, after, split⟩ := append_of_mem inside
    obtain ⟨next, hit⟩ : ∃ next, cache.hit element.address =
        some (next, ⟨element.target.value, false, []⟩) :=
      ⟨_, hit_eq split sound.sorted sound.distinct⟩
    refine ⟨next, ⟨element.target.value, false, []⟩, ?_, ?_, ?_⟩
    · unfold LruCache.lookup
      rw [found]
      exact hit
    · intro _
      exact ⟨rfl, rfl, sound.last element inside⟩
    · intro absent
      rw [AList.lookup_eq_none.mpr absent] at found
      cases found
  | none =>
    have absent : key ∉ cache.cache := AList.lookup_eq_none.mp found
    have ended : ∃ next evicted, (cache.add newFunc key).evict = some (next, evicted) := by
      rcases evict_eq sound few positive newFunc found with ⟨_, kept⟩ | ⟨_, _, _, _, dropped⟩
      · exact ⟨_, _, kept⟩
      · exact ⟨_, _, dropped⟩
    obtain ⟨next, evicted, ended⟩ := ended
    refine ⟨next, ⟨newFunc cache.nextAddress key, true, evicted⟩, ?_, ?_, ?_⟩
    · unfold LruCache.lookup
      rw [found, ended]
      rfl
    · exact fun there => absurd there absent
    · exact fun _ => rfl

/-- One lookup keeps the invariant. -/
theorem Sound.lookup (looked : cache.lookup newFunc key = some (next, observation)) :
    next.maxSize = cache.maxSize ∧ next.hasValueEvictFunc = cache.hasValueEvictFunc ∧
      Sound next (trace ++ [(key, observation)]) := by
  unfold LruCache.lookup at looked
  cases found : cache.cache.lookup key with
  | some address =>
    rw [found] at looked
    obtain ⟨element, inside, rfl, rfl⟩ := sound.lookup_eq_some found
    obtain ⟨before, after, split⟩ := append_of_mem inside
    exact sound.hit few split looked
  | none =>
    rw [found] at looked
    obtain ⟨⟨next, evicted⟩, ended, same⟩ := Option.bind_eq_some_iff.mp looked
    cases same
    exact sound.miss few positive newFunc found ended

omit newFunc
omit positive few sound

/-- The invariant holds after every run that the access counter can count. -/
theorem run_sound {newFunc : Nat → Key → Value} {maxSize : Nat} (positive : 0 < maxSize)
    {hasValueEvictFunc : Bool}
    (run : Run (LruCache.lookup newFunc) anyAction (.new maxSize hasValueEvictFunc) trace cache)
    (few : trace.length ≤ 2 ^ 64) :
    cache.maxSize = maxSize ∧ cache.hasValueEvictFunc = hasValueEvictFunc ∧ Sound cache trace := by
  induction run with
  | nil => exact ⟨rfl, rfl, new_sound maxSize hasValueEvictFunc⟩
  | snoc run _ looked ih =>
    rw [length_append, length_singleton] at few
    obtain ⟨size, evicts, sound⟩ := ih (by omega)
    rw [← size] at positive
    obtain ⟨same, still, after⟩ := sound.lookup (by omega) positive newFunc looked
    exact ⟨same.trans size, still.trans evicts, after⟩

/-- After any lookups, at most as many as the access counter can count, the cache has the
keys looked up last, the table and the sequence have the same entries, every value made is
in the cache or has been evicted once, and the next lookup returns the value of a key that
is there without making another. -/
theorem lru_cache_keeps_most_recent (newFunc : Nat → Key → Value) {maxSize : Nat}
    (positive : 0 < maxSize) {hasValueEvictFunc : Bool}
    (run : Run (LruCache.lookup newFunc) anyAction (.new maxSize hasValueEvictFunc) trace cache)
    (few : trace.length ≤ 2 ^ 64) :
    (∀ key, key ∈ cache.cache ↔ key ∈ mostRecent maxSize (trace.map Prod.fst)) ∧
    cache.cache.keys.length = min (trace.map Prod.fst).dedup.length maxSize ∧
    cache.cache.entries.Perm (cache.lruIndex.map Element.entry) ∧
    (hasValueEvictFunc = true → (generatedValues trace).Perm
      (evictedValues trace ++ cache.lruIndex.map (·.target.value))) ∧
    (trace.length < 2 ^ 64 → ∀ key, ∃ next observation,
      cache.lookup newFunc key = some (next, observation) ∧
      (key ∈ cache.cache → observation.generated = false ∧ observation.evicted = [] ∧
        lastValue trace key = some observation.value) ∧
      (key ∉ cache.cache → observation.generated = true)) := by
  obtain ⟨rfl, rfl, sound⟩ := run_sound positive run few
  refine ⟨sound.mem_cache, ?_, sound.indexed, sound.values, ?_⟩
  · rw [sound.keys_perm.length_eq, length_mostRecent]
    rfl
  · intro more key
    exact lookup_ends sound more positive newFunc key

/-- A cache of two: the key 1 is looked up again, so the key 2 makes room for the key 3. -/
theorem lru_cache_keeps_most_recent_two :
    ∃ (cache : LruCache Nat Nat) (trace : List (Nat × Observation Nat)),
      Run (LruCache.lookup fun serial _ => serial) anyAction (.new 2 true) trace cache ∧
      trace.map Prod.fst = [1, 2, 1, 3] ∧ evictedValues trace = [1] ∧
      ∀ key, key ∈ cache.cache ↔ key ∈ mostRecent 2 [1, 2, 1, 3] := by
  have run : Run (LruCache.lookup fun serial _ => serial) anyAction
      (.new 2 true : LruCache Nat Nat) _ _ :=
    run_of_exec (show exec _ _ [1, 2, 1, 3] = some (_, _) from rfl)
  refine ⟨_, _, run, rfl, rfl, ?_⟩
  exact (lru_cache_keeps_most_recent _ (by decide) run (by decide)).1

end

/-- The cache after `count + 1` lookups of the key 0. -/
def lookedUpAgain (count : Nat) : LruCache Nat Nat where
  cache := AList.singleton 0 0
  lruIndex := [⟨0, ⟨0, 0, UInt64.ofNat count⟩⟩]
  maxSize := 1
  nextAccessCounter := UInt64.ofNat (count + 1)
  hasValueEvictFunc := true
  nextAddress := 1

theorem lookup_again (count : Nat) : (lookedUpAgain count).lookup (fun serial _ => serial) 0 =
      some (lookedUpAgain (count + 1), ⟨0, false, []⟩) := by
  have found : (lookedUpAgain count).cache.lookup 0 = some 0 := rfl
  have split : (lookedUpAgain count).lruIndex = [] ++ ⟨0, ⟨0, 0, UInt64.ofNat count⟩⟩ :: [] := rfl
  unfold LruCache.lookup
  rw [found]
  refine (hit_eq split (pairwise_singleton _ _) (nodup_singleton _)).trans ?_
  have next : (lookedUpAgain count).nextAccessCounter + 1 = UInt64.ofNat (count + 1 + 1) := by
    rw [UInt64.ofNat_add]
    rfl
  rw [next]
  rfl

/-- The key 0 is looked up as often as the counter can count. -/
theorem lookups_again (count : Nat) :
    ∃ trace, Run (LruCache.lookup fun serial _ => serial) anyAction
      (.new 1 true : LruCache Nat Nat) trace (lookedUpAgain count) ∧
      trace.map Prod.fst = List.replicate (count + 1) 0 := by
  induction count with
  | zero =>
    exact ⟨[(0, ⟨0, true, []⟩)], (Run.nil.snoc trivial rfl : Run _ _ _ ([] ++ _) _), rfl⟩
  | succ count ih =>
    obtain ⟨trace, run, keys⟩ := ih
    refine ⟨_, run.snoc trivial (lookup_again count), ?_⟩
    rw [map_append, keys]
    exact replicate_succ'.symm

/-- The lookup number 2 ^ 64 + 1 has the counter 0 again: the key looked up last is not in the
cache, and the value returned has been evicted. -/
theorem counter_wraps : ∃ (trace : List (Nat × Observation Nat)) (cache : LruCache Nat Nat),
      Run (LruCache.lookup fun serial _ => serial) anyAction (.new 1 true) trace cache ∧
      trace.map Prod.fst = List.replicate (2 ^ 64) 0 ++ [1] ∧
      ¬ ∀ key, key ∈ cache.cache ↔ key ∈ mostRecent 1 (trace.map Prod.fst) := by
  obtain ⟨trace, run, keys⟩ := lookups_again (2 ^ 64 - 1)
  have wrapped : (lookedUpAgain (2 ^ 64 - 1)).lookup (fun serial _ => serial) 1 =
      some ({ lookedUpAgain (2 ^ 64 - 1) with
        nextAccessCounter := 1, nextAddress := 2 }, ⟨1, true, [1]⟩) := rfl
  have history : (trace ++ [(1, (⟨1, true, [1]⟩ : Observation Nat))]).map Prod.fst =
      List.replicate (2 ^ 64) 0 ++ [1] := by
    rw [map_append, keys]
    rfl
  refine ⟨_, _, run.snoc trivial wrapped, history, ?_⟩
  intro agree
  have recent : 1 ∈ mostRecent 1 (List.replicate (2 ^ 64) 0 ++ [1]) := by
    have last : mostRecent 1 (List.replicate (2 ^ 64) 0 ++ [1]) = [1] :=
      mostRecent_eq (byLastUse_snoc _ 1) (Nat.le_refl _) (Or.inr rfl)
    rw [last]
    exact mem_singleton_self 1
  rw [← history] at recent
  have inside := (agree 1).mpr recent
  exact absurd inside (by decide)

end Gzochi.Lru
