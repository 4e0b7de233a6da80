import Mathlib.Data.List.Basic
import Mathlib.Data.List.TakeWhile
import Mathlib.Algebra.Group.Int.Defs
import Mathlib.Algebra.Group.Nat.Defs

/-!
# The password file authenticator

`auth/password_file.c` loads a table of names and passwords from the lines of a file
and compares credentials with it.  The credentials are a pointer into a buffer and a
`short`, so the functions below read from a memory in which the credentials are
followed by bytes that are no part of them.
-/

namespace Gzochi.Auth

open List

abbrev Bytes := List UInt8

/-- The bytes from a pointer on. -/
abbrev Memory := Nat → UInt8

/-- A line of the file, which fits into the address space. -/
abbrev Line := { bytes : Bytes // bytes.length < 2 ^ 63 }

/-- The names with their passwords, the latest insertion first. -/
abbrev Passwords := List (Bytes × Bytes)

inductive PluginError where
  | init (message : String)
  | auth (message : String)
  | file (message : String)
  deriving DecidableEq

/-- What `authenticate` returns, and what it stores in its `error` argument. -/
structure Answer where
  identity : Option Bytes
  error : Option PluginError
  deriving DecidableEq

/-- A length passed as a `short`. -/
def shortOf (length : Nat) : Int := Int.bmod length (2 ^ 16)

/-- A length stored in an `int`. -/
def intOf (length : Nat) : Int := Int.bmod length (2 ^ 32)

/-- A signed number passed as a `size_t`. -/
def sizeOf (number : Int) : Nat := (number % 2 ^ 64).toNat

/-- `memchr` for a zero byte: its offset. -/
def memchr (memory : Memory) (offset : Nat) : Nat → Option Nat
  | 0 => none
  | count + 1 =>
      if memory offset = 0 then some offset else memchr memory (offset + 1) count

/-- `strncmp` of a C string with memory: whether it finds no difference. -/
def strncmp : Bytes → Memory → Nat → Bool
  | _, _, 0 => true
  | [], memory, _ + 1 => memory 0 == 0
  | byte :: rest, memory, count + 1 =>
      byte == memory 0 && strncmp rest (fun offset => memory (offset + 1)) count

/-- `g_ascii_isspace`. -/
def isSpace (byte : UInt8) : Bool :=
  byte == 32 || byte == 9 || byte == 10 || byte == 12 || byte == 13

/-- `g_strchomp`. -/
def strchomp (text : Bytes) : Bytes := (text.reverse.dropWhile isSpace).reverse

/-- `g_strsplit` at `=`, into at most two parts. -/
def strsplit (text : Bytes) : List Bytes :=
  match text with
  | [] => []
  | _ =>
      match text.dropWhile (· ≠ 61) with
      | [] => [text]
      | _ :: rest => [text.takeWhile (· ≠ 61), rest]

/-- The C string at the head of some bytes. -/
def cString (bytes : Bytes) : Bytes := bytes.takeWhile (· ≠ 0)

/-- One turn of the loop of `initialize`. -/
def loadLine (passwords : Passwords) (line : Line) : Passwords :=
  match strsplit (cString line.1) with
  | name :: password :: _ => (name, strchomp password) :: passwords
  | _ => passwords

/-- `initialize`.  Opening the file gives the lines that can be read from it, or the
message of an error. -/
def initializePlugin (properties : String → Option String)
    (newFile : String → Except String (List Line)) : Except PluginError Passwords :=
  match properties "path" with
  | none => .error (.init "Required 'path' property not set.")
  | some path =>
      match newFile path with
      | .error message => .error (.file message)
      | .ok lines => .ok (lines.foldl loadLine [])

/-- `authenticate`.  The pointer to the credentials, read as a C string, ends at the
byte `memchr` finds. -/
def authenticate (credentials : Memory) (len : Int) (passwords : Passwords) : Answer :=
  match memchr credentials 0 (sizeOf len) with
  | none => ⟨none, some (.auth "Improperly formatted credentials.")⟩
  | some pivot =>
      let name := (List.range pivot).map credentials
      match passwords.lookup name with
      | none => ⟨none, none⟩
      | some password =>
          -- `MIN` compares a `ptrdiff_t` with a `size_t`
          let cmplen := intOf (min (sizeOf (len - pivot)) password.length)
          if strncmp password (fun offset => credentials (pivot + 1 + offset))
              (sizeOf cmplen) then
            ⟨some name, none⟩
          else
            ⟨none, none⟩

/-- Some bytes in memory, and what follows them there. -/
def load (bytes : Bytes) (beyond : Memory) : Memory := fun offset =>
  if inside : offset < bytes.length then bytes[offset] else beyond (offset - bytes.length)

/-- The credentials are a name, a zero byte and the password of that name. -/
def Valid (passwords : Passwords) (credentials name : Bytes) : Prop :=
  ∃ password, credentials = name ++ 0 :: password ∧ 0 ∉ name ∧
    passwords.lookup name = some password

/-- Whatever follows the credentials in memory, the names of the identities they are
given are the valid ones. -/
def Exact (passwords : Passwords) (credentials : Bytes) : Prop :=
  ∀ beyond name,
    (authenticate (load credentials beyond) (shortOf credentials.length) passwords).identity =
      some name ↔ Valid passwords credentials name

/-- Two byte strings differ at a place that lies in both. -/
def Differ (first second : Bytes) : Prop :=
  ∃ (place : Nat) (one two : UInt8),
    first[place]? = some one ∧ second[place]? = some two ∧ one ≠ two

/-- What a comparison can reach of a stored password.  Credentials whose length does not
fit into a `short` leave the length of the password to count, as an `int`. -/
def reached (credentials stored : Bytes) : Bytes :=
  if credentials.length < 2 ^ 15 then stored
  else (stored ++ [0]).take (sizeOf (intOf stored.length))

/-- The credentials cannot be mistaken for others. -/
structure Discernible (passwords : Passwords) (credentials : Bytes) : Prop where
  /-- Without a zero byte, they are short enough, or the beginning of no name. -/
  terminated : 0 ∉ credentials → credentials.length < 2 ^ 15 ∨
    ∀ name stored, passwords.lookup name = some stored → ¬credentials <+: name
  /-- The password supplied is the one stored, or differs from it in a byte of both. -/
  password : ∀ name supplied stored, credentials = name ++ 0 :: supplied → 0 ∉ name →
    passwords.lookup name = some stored →
    supplied = stored ∨ Differ (reached credentials stored) supplied

variable {memory beyond : Memory} {passwords : Passwords}
  {credentials name supplied stored : Bytes} {count : Nat}

theorem sizeOf_natCast (small : count < 2 ^ 64) : sizeOf (count : Int) = count := by
  unfold sizeOf
  omega

theorem intOf_of_lt (small : count < 2 ^ 31) : intOf count = count := by
  apply Int.bmod_eq_of_le
  · omega
  · omega

theorem shortOf_of_lt (short : count < 2 ^ 15) : shortOf count = count := by
  apply Int.bmod_eq_of_le
  · omega
  · omega

theorem shortOf_of_le (long : 2 ^ 15 ≤ count) (bounded : count < 2 ^ 16) :
    shortOf count = count - 2 ^ 16 := by
  have same : shortOf count = Int.bmod (count - (2 ^ 16 : Nat)) (2 ^ 16) :=
    (Int.sub_bmod_right _ _).symm
  rw [same]
  apply Int.bmod_eq_of_le
  · omega
  · omega

theorem sizeOf_shortOf_of_lt (short : count < 2 ^ 15) : sizeOf (shortOf count) = count := by
  rw [shortOf_of_lt short, sizeOf_natCast (by omega)]

/-- A length too large for a `short` makes `memchr` search all there is. -/
theorem sizeOf_shortOf_of_le (long : 2 ^ 15 ≤ count) (bounded : count < 2 ^ 16) :
    2 ^ 63 ≤ sizeOf (shortOf count) := by
  rw [shortOf_of_le long bounded]
  unfold sizeOf
  omega

theorem le_sizeOf_shortOf (bounded : count < 2 ^ 16) : count ≤ sizeOf (shortOf count) := by
  rcases Nat.lt_or_ge count (2 ^ 15) with short | long
  · exact Nat.le_of_eq (sizeOf_shortOf_of_lt short).symm
  · have large := sizeOf_shortOf_of_le long bounded
    omega

/-- What `strncmp` is told to compare, the supplied password having `rest` bytes. -/
theorem sizeOf_cmplen {pivot rest length : Nat} (bounded : pivot + 1 + rest < 2 ^ 16)
    (fits : length < 2 ^ 63) :
    sizeOf (intOf (min (sizeOf (shortOf (pivot + 1 + rest) - pivot)) length)) =
      if pivot + 1 + rest < 2 ^ 15 then min (rest + 1) length
      else sizeOf (intOf length) := by
  split
  next short =>
    have remaining : shortOf (pivot + 1 + rest) - pivot = ((rest + 1 : Nat) : Int) := by
      rw [shortOf_of_lt short]
      omega
    rw [remaining, sizeOf_natCast (by omega), intOf_of_lt (by omega), sizeOf_natCast (by omega)]
  next long =>
    have remaining : length ≤ sizeOf (shortOf (pivot + 1 + rest) - pivot) := by
      rw [shortOf_of_le (by omega) bounded]
      unfold sizeOf
      omega
    rw [Nat.min_eq_right remaining]

/-- No more is compared than a stored password of the same length. -/
theorem sizeOf_cmplen_le {pivot rest : Nat} (bounded : pivot + 1 + rest < 2 ^ 16) :
    sizeOf (intOf (min (sizeOf (shortOf (pivot + 1 + rest) - pivot)) rest)) ≤ rest := by
  rw [sizeOf_cmplen bounded (by omega)]
  split
  · exact Nat.min_le_right _ _
  · rw [intOf_of_lt (by omega), sizeOf_natCast (by omega)]

theorem memchr_eq_some {offset place : Nat} : memchr memory offset count = some place ↔
      offset ≤ place ∧ place < offset + count ∧ memory place = 0 ∧
        ∀ earlier, offset ≤ earlier → earlier < place → memory earlier ≠ 0 := by
  induction count generalizing offset with
  | zero =>
    simp only [memchr, reduceCtorEq, false_iff]
    rintro ⟨after, before, -⟩
    omega
  | succ count ih =>
    rw [memchr]
    split
    next zero =>
      simp only [Option.some.injEq]
      constructor
      · intro here
        subst here
        exact ⟨Nat.le_refl _, by omega, zero, fun _ after before => by omega⟩
      · rintro ⟨after, -, -, nonzero⟩
        by_contra different
        exact nonzero offset (Nat.le_refl _) (by omega) zero
    next nonzero =>
      rw [ih]
      constructor
      · rintro ⟨after, before, zero, earlier⟩
        refine ⟨by omega, by omega, zero, ?_⟩
        intro place low high
        rcases Nat.eq_or_lt_of_le low with here | later
        · exact here ▸ nonzero
        · exact earlier place later high
      · rintro ⟨after, before, zero, earlier⟩
        have later : offset ≠ place := by
          intro here
          exact nonzero (here ▸ zero)
        exact ⟨by omega, by omega, zero, fun place low => earlier place (by omega)⟩

/-- Two strings in a row are one string. -/
theorem load_append (first second : Bytes) (beyond : Memory) :
    load (first ++ second) beyond = load first (load second beyond) := by
  funext offset
  simp only [load, length_append, getElem_append]
  grind

theorem load_length_add (first : Bytes) (beyond : Memory) (offset : Nat) :
    load first beyond (first.length + offset) = beyond offset := by
  rw [load, dif_neg (by omega), Nat.add_sub_cancel_left]

theorem load_of_getElem? {bytes : Bytes} {offset : Nat} {byte : UInt8} (beyond : Memory)
    (found : bytes[offset]? = some byte) : load bytes beyond offset = byte := by
  obtain ⟨inside, equal⟩ := List.getElem?_eq_some_iff.mp found
  rw [load, dif_pos inside, equal]

/-- The C string at a pointer to a name. -/
theorem map_range_load (name : Bytes) (beyond : Memory) :
    (List.range name.length).map (load name beyond) = name := by
  apply ext_getElem
  · simp
  · intro place _ inside
    simp [load, inside]

/-- `strncmp` finds no difference when the memory agrees with the string and its
terminator as far as it looks. -/
theorem strncmp_iff : strncmp stored memory count = true ↔ ∀ (place : Nat) (byte : UInt8),
        ((stored ++ [0]).take count)[place]? = some byte → memory place = byte := by
  induction stored generalizing memory count with
  | nil =>
    cases count with
    | zero => simp [strncmp]
    | succ count => simp [strncmp, List.getElem?_singleton]
  | cons head rest ih =>
    cases count with
    | zero => simp [strncmp]
    | succ count =>
      simp only [strncmp, Bool.and_eq_true, beq_iff_eq, ih, cons_append, take_succ_cons]
      constructor
      · rintro ⟨first, later⟩ place byte found
        cases place with
        | zero => simpa [← first] using found
        | succ place => exact later place byte (by simpa using found)
      · intro every
        exact ⟨(every 0 head rfl).symm, fun place byte found =>
          every (place + 1) byte (by simpa using found)⟩

/-- Names are C strings, and nothing in the table is longer than a line. -/
def Loaded (passwords : Passwords) : Prop :=
  ∀ name stored, (name, stored) ∈ passwords →
    0 ∉ name ∧ name.length < 2 ^ 63 ∧ stored.length < 2 ^ 63

theorem length_strchomp_le (text : Bytes) : (strchomp text).length ≤ text.length := by
  have shorter := (dropWhile_sublist (l := text.reverse) isSpace).length_le
  simpa [strchomp] using shorter

theorem strsplit_parts {text first second : Bytes} {more : List Bytes}
    (split : strsplit text = first :: second :: more) :
    first = text.takeWhile (· ≠ 61) ∧ second.length ≤ text.length := by
  unfold strsplit at split
  split at split
  next => cases split
  next =>
    split at split
    next => cases split
    next byte rest dropped =>
      injection split with front back
      injection back with back _
      have shorter := (dropWhile_sublist (l := text) (· ≠ 61)).length_le
      rw [dropped, length_cons] at shorter
      subst back
      exact ⟨front.symm, by omega⟩

theorem Loaded.loadLine (loaded : Loaded passwords) (line : Line) :
    Loaded (loadLine passwords line) := by
  unfold Auth.loadLine
  split
  next name password more split =>
    obtain ⟨front, shorter⟩ := strsplit_parts split
    have within : (cString line.1).length < 2 ^ 63 :=
      Nat.lt_of_le_of_lt (takeWhile_sublist _).length_le line.2
    have part := takeWhile_sublist (l := cString line.1) (· ≠ 61)
    intro other stored member
    rcases mem_cons.mp member with here | earlier
    · cases here
      refine ⟨?_, ?_, ?_⟩
      · intro zero
        rw [front] at zero
        have within := mem_takeWhile_imp (part.subset zero)
        simp at within
      · rw [front]
        exact Nat.lt_of_le_of_lt part.length_le within
      · exact Nat.lt_of_le_of_lt (Nat.le_trans (length_strchomp_le _) shorter) within
    · exact loaded other stored earlier
  next => exact loaded

/-- Every table the plugin starts with. -/
theorem loaded_of_initializePlugin {properties : String → Option String}
    {newFile : String → Except String (List Line)}
    (started : initializePlugin properties newFile = .ok passwords) : Loaded passwords := by
  have lines : ∀ (lines : List Line) (table : Passwords), Loaded table →
      Loaded (lines.foldl loadLine table) := by
    intro lines
    induction lines with
    | nil => exact fun table loaded => loaded
    | cons line rest ih => exact fun table loaded => ih _ (loaded.loadLine line)
  unfold initializePlugin at started
  split at started
  next => cases started
  next =>
    split at started
    next => cases started
    next read _ =>
      cases started
      exact lines read [] (fun _ _ member => absurd member not_mem_nil)

theorem Loaded.of_lookup (loaded : Loaded passwords) (found : passwords.lookup name = some stored) :
    0 ∉ name ∧ name.length < 2 ^ 63 ∧ stored.length < 2 ^ 63 := by
  obtain ⟨early, late, same, -⟩ := lookup_eq_some_iff.mp found
  apply loaded name stored
  rw [same]
  exact mem_append_right early mem_cons_self

variable (terminated : 0 ∉ name)
include terminated

/-- The first zero byte ends the name. -/
theorem cString_append (rest : Bytes) : cString (name ++ 0 :: rest) = name := by
  have every : ∀ byte ∈ name, decide (byte ≠ 0) = true := by
    intro byte member
    rw [decide_eq_true_eq]
    intro zero
    exact terminated (zero ▸ member)
  unfold cString
  rw [takeWhile_append_of_pos every]
  simp

theorem eq_of_append_zero {other password : Bytes}
    (whole : 0 ∉ other) (same : name ++ 0 :: supplied = other ++ 0 :: password) :
    other = name ∧ password = supplied := by
  have names : name = other := by
    rw [← cString_append terminated supplied, same, cString_append whole password]
  subst names
  have rests := append_cancel_left same
  injection rests with _ rests
  exact ⟨rfl, rests.symm⟩

theorem valid_iff {other : Bytes} : Valid passwords (name ++ 0 :: supplied) other ↔
      other = name ∧ passwords.lookup name = some supplied := by
  constructor
  · rintro ⟨password, same, whole, found⟩
    obtain ⟨names, rests⟩ := eq_of_append_zero terminated whole same
    subst names rests
    exact ⟨rfl, found⟩
  · rintro ⟨rfl, found⟩
    exact ⟨supplied, rfl, terminated, found⟩

/-- `authenticate` finds the name and compares what follows it. -/
theorem authenticate_load {len : Int} (room : name.length < sizeOf len) :
    authenticate (load (name ++ 0 :: supplied) beyond) len passwords =
      match passwords.lookup name with
      | none => ⟨none, none⟩
      | some stored =>
        if strncmp stored (load supplied beyond)
            (sizeOf (intOf (min (sizeOf (len - name.length)) stored.length))) then
          ⟨some name, none⟩
        else
          ⟨none, none⟩ := by
  have pivot : memchr (load (name ++ 0 :: supplied) beyond) 0 (sizeOf len) = some name.length := by
    rw [memchr_eq_some]
    refine ⟨Nat.zero_le _, by omega, load_of_getElem? beyond (by simp), ?_⟩
    intro place _ inside zero
    have found : (name ++ 0 :: supplied)[place]? = some name[place] := by
      rw [List.getElem?_append_left inside, List.getElem?_eq_getElem inside]
    rw [load_of_getElem? beyond found] at zero
    exact terminated (zero ▸ getElem_mem inside)
  have front : (List.range name.length).map (load (name ++ 0 :: supplied) beyond) = name := by
    rw [load_append]
    exact map_range_load name _
  have rest : (fun offset => load (name ++ 0 :: supplied) beyond (name.length + 1 + offset)) =
      load supplied beyond := by
    funext offset
    have split : name ++ 0 :: supplied = (name ++ [0]) ++ supplied := by simp
    have after := load_length_add (name ++ [0]) (load supplied beyond) offset
    rw [length_append, length_singleton] at after
    rw [split, load_append, after]
  unfold authenticate
  simp only [pivot, front, rest]

omit terminated

/-- No difference is found for any memory behind the supplied password when it is the
stored one. -/
theorem strncmp_self (within : count ≤ stored.length) :
    strncmp stored (load stored beyond) count = true := by
  rw [strncmp_iff]
  intro place byte found
  rw [take_append_of_le_length within] at found
  apply load_of_getElem?
  obtain ⟨inside, equal⟩ := List.getElem?_eq_some_iff.mp found
  rw [getElem_take] at equal
  rw [List.getElem?_eq_some_iff]
  exact ⟨by rw [length_take] at inside; omega, equal⟩

/-- A difference is found for every memory behind the supplied password when there is
one inside it. -/
theorem strncmp_differ : (∀ beyond, strncmp stored (load supplied beyond) count = false) ↔
      Differ ((stored ++ [0]).take count) supplied := by
  constructor
  · intro refused
    by_contra same
    let rest : Memory := fun offset =>
      (((stored ++ [0]).take count)[supplied.length + offset]?).getD 0
    have accepted : strncmp stored (load supplied rest) count = true := by
      rw [strncmp_iff]
      intro place byte found
      rcases Nat.lt_or_ge place supplied.length with inside | outside
      · have given : supplied[place]? = some supplied[place] :=
          List.getElem?_eq_getElem inside
        rw [load_of_getElem? rest given]
        by_contra different
        exact same ⟨place, byte, supplied[place], found, given, Ne.symm different⟩
      · obtain ⟨offset, rfl⟩ := Nat.exists_eq_add_of_le outside
        rw [load_length_add]
        simp only [rest, found, Option.getD_some]
    rw [refused rest] at accepted
    cases accepted
  · rintro ⟨place, one, two, left, right, different⟩ beyond
    by_contra accepted
    rw [Bool.not_eq_false, strncmp_iff] at accepted
    have equal := accepted place one left
    rw [load_of_getElem? beyond right] at equal
    exact different equal.symm

/-- How far the comparison looks decides nothing more than `reached` says. -/
theorem differ_reached (bounded : name.length + 1 + supplied.length < 2 ^ 16)
    (fits : stored.length < 2 ^ 63) :
    Differ ((stored ++ [0]).take (sizeOf (intOf (min (sizeOf (shortOf
        (name.length + 1 + supplied.length) - name.length)) stored.length)))) supplied ↔
      Differ (reached (name ++ 0 :: supplied) stored) supplied := by
  have length : (name ++ 0 :: supplied).length = name.length + 1 + supplied.length := by
    simp
    omega
  rw [sizeOf_cmplen bounded fits, reached, length]
  split
  next short =>
    have agree : ∀ place, place < supplied.length →
        ((stored ++ [0]).take (min (supplied.length + 1) stored.length))[place]? =
          stored[place]? := by
      intro place inside
      rw [take_append_of_le_length (by omega), List.getElem?_take]
      split
      next => rfl
      next outside => rw [List.getElem?_eq_none (by omega)]
    constructor
    · rintro ⟨place, one, two, left, right, different⟩
      have inside := (List.getElem?_eq_some_iff.mp right).1
      exact ⟨place, one, two, agree place inside ▸ left, right, different⟩
    · rintro ⟨place, one, two, left, right, different⟩
      have inside := (List.getElem?_eq_some_iff.mp right).1
      exact ⟨place, one, two, (agree place inside).symm ▸ left, right, different⟩
  next => exact Iff.rfl

/-- With a name in front, the comparison decides. -/
theorem exact_iff_of_terminated (loaded : Loaded passwords)
    (bounded : (name ++ 0 :: supplied).length < 2 ^ 16) (terminated : 0 ∉ name) :
    Exact passwords (name ++ 0 :: supplied) ↔ ∀ stored, passwords.lookup name = some stored →
        supplied = stored ∨ Differ (reached (name ++ 0 :: supplied) stored) supplied := by
  have length : (name ++ 0 :: supplied).length = name.length + 1 + supplied.length := by
    simp
    omega
  rw [length] at bounded
  have room : name.length < sizeOf (shortOf (name ++ 0 :: supplied).length) := by
    rw [length]
    have fits := le_sizeOf_shortOf bounded
    omega
  unfold Exact
  simp only [authenticate_load terminated room, valid_iff terminated]
  cases found : passwords.lookup name with
  | none => simp
  | some stored =>
    have fits := (loaded.of_lookup found).2.2
    simp only [length, Option.some.injEq]
    constructor
    · intro exact password same
      subst same
      rcases Classical.em (supplied = stored) with equal | different
      · exact .inl equal
      · right
        rw [← differ_reached bounded fits, ← strncmp_differ]
        intro beyond
        by_contra accepted
        have answer := exact beyond name
        rw [Bool.not_eq_false] at accepted
        rw [if_pos accepted] at answer
        exact different (answer.mp rfl).2.symm
    · intro decided beyond other
      rcases decided stored rfl with equal | differ
      · subst equal
        rw [if_pos (strncmp_self (sizeOf_cmplen_le bounded))]
        simp [eq_comm]
      · rw [← differ_reached bounded fits, ← strncmp_differ] at differ
        rw [if_neg (by simp [differ beyond])]
        simp only [reduceCtorEq, false_iff, not_and]
        intro _ equal
        subst equal
        have accepted := differ beyond
        rw [strncmp_self (sizeOf_cmplen_le bounded)] at accepted
        cases accepted

/-- An identity is the name of some password, read up to a zero byte. -/
theorem authenticate_named {len : Int}
    (named : (authenticate memory len passwords).identity = some name) :
    ∃ pivot stored, memchr memory 0 (sizeOf len) = some pivot ∧
      passwords.lookup ((List.range pivot).map memory) = some stored := by
  unfold authenticate at named
  split at named
  next => cases named
  next pivot found =>
    dsimp only at named
    split at named
    next => cases named
    next stored listed => exact ⟨pivot, stored, found, listed⟩

/-- The zero byte found lies behind the credentials. -/
theorem le_of_memchr {pivot : Nat} (unterminated : 0 ∉ credentials)
    (found : memchr (load credentials beyond) 0 count = some pivot) :
    credentials.length ≤ pivot := by
  obtain ⟨-, -, zero, -⟩ := memchr_eq_some.mp found
  by_contra inside
  rw [Nat.not_le] at inside
  have given : credentials[pivot]? = some credentials[pivot] := List.getElem?_eq_getElem inside
  rw [load_of_getElem? beyond given] at zero
  exact unterminated (zero ▸ getElem_mem inside)

/-- A name read past the end of the credentials begins with them. -/
theorem prefix_map_range {pivot : Nat} (behind : credentials.length ≤ pivot) :
    credentials <+: (List.range pivot).map (load credentials beyond) := by
  rw [prefix_iff_eq_take, ← map_take, take_range, Nat.min_eq_left behind]
  exact (map_range_load credentials beyond).symm

/-- A stored password is found where it stands in memory with its terminator. -/
theorem strncmp_terminated (count : Nat) :
    strncmp stored (load stored fun _ => 0) count = true := by
  rw [strncmp_iff]
  intro place byte found
  rw [List.getElem?_take] at found
  split at found
  next =>
    rcases Nat.lt_or_ge place stored.length with inside | outside
    · rw [List.getElem?_append_left inside] at found
      exact load_of_getElem? _ found
    · rw [load, dif_neg (Nat.not_lt.mpr outside)]
      rw [List.getElem?_append_right outside] at found
      simpa using (mem_singleton.mp (mem_of_getElem? found)).symm
  next => cases found

theorem exact_iff_of_unterminated (loaded : Loaded passwords)
    (bounded : credentials.length < 2 ^ 16) (unterminated : 0 ∉ credentials) :
    Exact passwords credentials ↔ credentials.length < 2 ^ 15 ∨
      ∀ name stored, passwords.lookup name = some stored → ¬credentials <+: name := by
  have invalid : ∀ name, ¬Valid passwords credentials name := by
    rintro name ⟨password, same, -⟩
    apply unterminated
    rw [same]
    simp
  constructor
  · intro exact
    rcases Nat.lt_or_ge credentials.length (2 ^ 15) with short | long
    · exact .inl short
    · right
      rintro name stored found ⟨rest, same⟩
      obtain ⟨whole, fits, -⟩ := loaded.of_lookup found
      have room : name.length < sizeOf (shortOf credentials.length) :=
        Nat.lt_of_lt_of_le fits (sizeOf_shortOf_of_le long bounded)
      -- the memory continues with the rest of the name, a zero byte and the password
      have answer := exact (load (rest ++ 0 :: stored) fun _ => 0) name
      rw [← load_append, ← append_assoc, same, authenticate_load whole room, found] at answer
      dsimp only at answer
      rw [if_pos (strncmp_terminated _)] at answer
      exact invalid name (answer.mp rfl)
  · intro excluded beyond name
    simp only [invalid, iff_false]
    intro named
    obtain ⟨pivot, stored, found, listed⟩ := authenticate_named named
    have behind := le_of_memchr unterminated found
    rcases excluded with short | unnamed
    · have inside := (memchr_eq_some.mp found).2.1
      rw [sizeOf_shortOf_of_lt short] at inside
      omega
    · exact unnamed _ stored listed (prefix_map_range behind)

/-- The authenticator gives exactly the right identities for some credentials, whatever
follows them in memory, if and only if they cannot be mistaken for others. -/
theorem authenticate_exact_iff {properties : String → Option String}
    {newFile : String → Except String (List Line)}
    (started : initializePlugin properties newFile = .ok passwords)
    (bounded : credentials.length < 2 ^ 16) :
    Exact passwords credentials ↔ Discernible passwords credentials := by
  have loaded := loaded_of_initializePlugin started
  rcases Classical.em (0 ∈ credentials) with zero | unterminated
  · obtain ⟨name, supplied, rfl, whole⟩ := eq_append_cons_of_mem zero
    rw [exact_iff_of_terminated loaded bounded whole]
    constructor
    · intro decided
      refine ⟨fun absent => absurd zero absent, ?_⟩
      intro other password stored same terminated found
      obtain ⟨names, rests⟩ := eq_of_append_zero whole terminated same
      subst names rests
      exact decided stored found
    · intro discernible stored found
      exact discernible.password name supplied stored rfl whole found
  · rw [exact_iff_of_unterminated loaded bounded unterminated]
    constructor
    · intro excluded
      refine ⟨fun _ => excluded, ?_⟩
      intro name supplied stored same
      exfalso
      apply unterminated
      rw [same]
      simp
    · intro discernible
      exact discernible.terminated unterminated

/-- The table of the single line `foo=bar`. -/
def fooBar : Passwords := [([102, 111, 111], [98, 97, 114])]

theorem fooBar_loaded : initializePlugin (fun _ => some "passwords.txt")
      (fun _ => .ok [⟨[102, 111, 111, 61, 98, 97, 114, 10], by decide⟩]) = .ok fooBar := rfl

theorem authenticate_exact_iff_fooBar : Exact fooBar [102, 111, 111, 0, 98, 97, 114] := by
  apply (authenticate_exact_iff fooBar_loaded (by decide)).mpr
  constructor
  · intro unterminated
    exact absurd (by decide) unterminated
  · intro name supplied stored same terminated found
    have split : 0 ∉ ([102, 111, 111] : Bytes) := by decide
    obtain ⟨names, rests⟩ := eq_of_append_zero split terminated same
    subst names rests
    injection found with bar
    exact .inl bar

/-- A password that goes on after the stored one is accepted. -/
theorem longer_password_accepted : ¬∀ properties newFile passwords credentials,
      initializePlugin properties newFile = .ok passwords →
      credentials.length < 2 ^ 16 → Exact passwords credentials := by
  intro claimed
  have exact := claimed _ _ fooBar [102, 111, 111, 0, 98, 97, 114, 98, 97, 122] fooBar_loaded
    (by decide)
  have valid := (exact (fun _ => 0) [102, 111, 111]).mp (by decide)
  have split : 0 ∉ ([102, 111, 111] : Bytes) := by decide
  obtain ⟨-, found⟩ := (valid_iff split).mp valid
  revert found
  decide

end Gzochi.Auth
