import Mathlib.Data.List.Sort

/-!
# Polling the selectors of a main loop

Selectors and the ports that are ready are sorted by the hash values of the ports, and the
events are handed out in one pass over both.
-/

namespace Gzochi.MainLoop

open List

universe u

/-- `gzochi:selector-event`. -/
inductive SelectorEvent
  | read
  | write
  | error
deriving DecidableEq

/-- `gzochi:selector`, without the events it is found to be ready for. -/
structure Selector (Port : Type u) where
  portFd : Port
  events : SelectorEvent → Bool

/-- Sorting with a procedure for less, which leaves equal items in their order. -/
def sort {α : Type u} (less : α → α → Bool) (items : List α) : List α :=
  items.insertionSort fun first second => less second first = false

variable {Port : Type u} (hash : Port → Nat) (hashv : Port → Nat → Nat)
variable (selectors : List (Selector Port)) (ready : SelectorEvent → List Port)

/-- The ports to be polled for an event. -/
def asked (event : SelectorEvent) : List Port :=
  (selectors.filter (Selector.events · event)).map Selector.portFd

theorem pairwise_sort {α : Type u} (key : α → Nat) (items : List α) :
    (sort (fun a b => key a < key b) items).Pairwise fun a b => key a ≤ key b := by
  have total : Std.Total fun a b => decide (key b < key a) = false := ⟨by simp [Nat.le_total]⟩
  have trans : IsTrans α fun a b => decide (key b < key a) = false :=
    ⟨by simpa using fun a b c => Nat.le_trans⟩
  simpa [sort] using pairwise_insertionSort (fun a b => decide (key b < key a) = false) items

/-- The ports that come before a selector come before the later ones, too. -/
theorem dropWhile_dropWhile {early late : Nat} (before : early ≤ late) (ports : List Port) :
    (ports.dropWhile (hash · < early)).dropWhile (hash · < late) =
      ports.dropWhile (hash · < late) := by
  induction ports with
  | nil => rfl
  | cons port ports ih =>
    by_cases small : hash port < early
    · have isBefore : hash port < late := by omega
      simpa [small, isBefore] using ih
    · simp [small]

/-- The first port that does not come before one that is there has the same hash value. -/
theorem exists_head_dropWhile {ports : List Port} {port : Port} (member : port ∈ ports)
    (sorted : ports.Pairwise fun a b => hash a ≤ hash b) :
    ∃ first ∈ ports, hash first = hash port ∧
      (ports.dropWhile (hash · < hash port)).head? = some first := by
  induction ports with
  | nil => cases member
  | cons other ports ih =>
    rw [pairwise_cons] at sorted
    by_cases small : hash other < hash port
    · have inside : port ∈ ports :=
        (mem_cons.mp member).resolve_left fun same => Nat.ne_of_gt small (congrArg hash same)
      obtain ⟨first, there, same, found⟩ := ih inside sorted.2
      exact ⟨first, mem_cons_of_mem _ there, same, by simpa [small] using found⟩
    · refine ⟨other, mem_cons_self, ?_, by simp [small]⟩
      rcases mem_cons.mp member with rfl | inside
      · rfl
      · exact Nat.le_antisymm (sorted.1 port inside) (Nat.le_of_not_lt small)

variable [DecidableEq Port]

/-- The loop over the selectors: the events that are added, each with its selector. -/
def loop (ready : SelectorEvent → List Port) :
    List (Selector Port) → List (Selector Port × SelectorEvent)
  | [] => []
  | selector :: selectors =>
      let ready event := (ready event).dropWhile fun port => hash port < hash selector.portFd
      if ready .read = [] ∧ ready .write = [] ∧ ready .error = [] then []
      else
        ([.read, .write, .error].filter fun event =>
            (ready event).head? = some selector.portFd).map (selector, ·) ++
          loop ready selectors

/-- `gzochi:poll`, when `select` has answered. -/
def poll : List (Selector Port × SelectorEvent) :=
  let len := selectors.length
  loop (hashv · len) (fun event => sort (fun a b => hashv a len < hashv b len) (ready event))
    (sort (fun a b => hashv a.portFd len < hashv b.portFd len) selectors)

/-- A selector gets an event when its port is the first one that does not come before it. -/
theorem mem_loop_iff (sorted : selectors.Pairwise fun a b => hash a.portFd ≤ hash b.portFd)
    (selector : Selector Port) (event : SelectorEvent) :
    (selector, event) ∈ loop hash ready selectors ↔ selector ∈ selectors ∧
      ((ready event).dropWhile (hash · < hash selector.portFd)).head? = some selector.portFd := by
  induction selectors generalizing ready with
  | nil => simp [loop]
  | cons first selectors ih =>
    rw [pairwise_cons] at sorted
    have later : ∀ other ∈ first :: selectors,
        ((ready event).dropWhile (hash · < hash first.portFd)).dropWhile
          (hash · < hash other.portFd) = (ready event).dropWhile (hash · < hash other.portFd) := by
      intro other member
      refine dropWhile_dropWhile hash ?_ _
      rcases mem_cons.mp member with rfl | member
      · exact Nat.le_refl _
      · exact sorted.1 other member
    rw [loop]
    split
    next nothing =>
      refine iff_of_false not_mem_nil fun found => ?_
      have none : (ready event).dropWhile (hash · < hash first.portFd) = [] := by
        cases event <;> simp only [nothing]
      rw [← later selector found.1, none] at found
      cases found.2
    next =>
      have every : event ∈ [.read, .write, .error] := by cases event <;> simp
      rw [mem_append, ih _ sorted.2, mem_cons]
      constructor
      · rintro (here | ⟨member, found⟩)
        · obtain ⟨_, inside, same⟩ := mem_map.mp here
          cases same
          exact ⟨.inl rfl, of_decide_eq_true (mem_filter.mp inside).2⟩
        · exact ⟨.inr member, later selector (mem_cons_of_mem _ member) ▸ found⟩
      · rintro ⟨rfl | member, found⟩
        · exact .inl (mem_map.mpr ⟨event, mem_filter.mpr ⟨every, decide_eq_true found⟩, rfl⟩)
        · exact .inr ⟨member, (later selector (mem_cons_of_mem _ member)).symm ▸ found⟩

/-- Each selector gets the events that its port is ready for exactly when no two of the ports
that are ready for an event have the same hash value. -/
theorem poll_reports_iff (hashv : Port → Nat → Nat) (selectors : List (Selector Port))
    (ready : SelectorEvent → List Port) (subset : ∀ event, ready event ⊆ asked selectors event) :
    (∀ selector ∈ selectors, ∀ event,
      (selector, event) ∈ poll hashv selectors ready ↔ selector.portFd ∈ ready event) ↔
    ∀ event, ∀ first ∈ ready event, ∀ second ∈ ready event,
      hashv first selectors.length = hashv second selectors.length → first = second := by
  have gets := mem_loop_iff (hashv · selectors.length) _ (fun event => sort (fun a b =>
    hashv a selectors.length < hashv b selectors.length) (ready event))
    (pairwise_sort (fun s : Selector Port => hashv s.portFd selectors.length) selectors)
  constructor
  · intro reports event first inFirst second inSecond same
    obtain ⟨one, isOne, rfl⟩ := mem_map.mp (subset event inFirst)
    obtain ⟨other, isOther, rfl⟩ := mem_map.mp (subset event inSecond)
    have found := ((gets one event).mp
      ((reports one (mem_filter.mp isOne).1 event).mpr inFirst)).2
    have another := ((gets other event).mp
      ((reports other (mem_filter.mp isOther).1 event).mpr inSecond)).2
    rw [same, another] at found
    exact (Option.some.inj found).symm
  · intro apart selector member event
    refine (gets selector event).trans ⟨?_, fun inside => ?_⟩
    · rintro ⟨_, found⟩
      exact (mem_insertionSort _).mp ((dropWhile_sublist _).subset (mem_of_mem_head? found))
    · obtain ⟨first, isThere, same, found⟩ := exists_head_dropWhile (hashv · selectors.length)
        ((mem_insertionSort _).mpr inside) (pairwise_sort (hashv · selectors.length) (ready event))
      cases apart event first ((mem_insertionSort _).mp isThere) _ inside same
      exact ⟨(mem_insertionSort _).mpr member, found⟩

/-- Two ports with different hash values, both ready. -/
theorem poll_reports_apart : (⟨5, fun _ => true⟩, .read) ∈
    poll (fun port size => port % size) [⟨6, fun _ => true⟩, ⟨5, fun _ => true⟩] fun _ => [5, 6] :=
  ((poll_reports_iff _ _ _ (by simp [asked])).mpr (by simp) _ (by simp) _).mpr (by simp)

/-- Two ports with the same hash value, both ready. -/
theorem colliding_port_missed : ¬ ∀ hashv : Nat → Nat → Nat, ∀ selectors ready,
    (∀ event, ready event ⊆ asked selectors event) → ∀ selector ∈ selectors, ∀ event,
      (selector, event) ∈ poll hashv selectors ready ↔ selector.portFd ∈ ready event := by
  intro reports
  have found := reports (fun _ _ => 0) [⟨5, fun _ => true⟩, ⟨6, fun _ => true⟩] (fun _ => [5, 6])
    (by simp [asked]) ⟨6, fun _ => true⟩ (by simp) .read
  simp [poll, loop, sort] at found

end Gzochi.MainLoop
