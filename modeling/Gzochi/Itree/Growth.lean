import Gzochi.Itree.Search
import Gzochi.Itree.Insert

/-!
# Trees that only grow

As long as nothing is removed, a node has the balance factor that its own children account
for, and no insertion takes it out of its bounds: the code never climbs, and never rotates.
-/

namespace Gzochi.IntervalTree

open Gzochi.Lib

universe u v w x

variable {Bound : Type u} {Lower : Type v} {Upper : Type w} {Data : Type x}
variable [LinearOrder Lower] {order : Comparators Bound Lower Upper}
  {tree : Itree Bound Data} {shape : Shape NodeId} {contents : Contents Lower Upper Data}
  {id : NodeId} {lower upper : Bound} {data : Data}

/-- What a child adds to the balance factor of its parent. -/
def weight (child : Option NodeId) : Int := if child.isSome then 1 else 0

/-- Every node has the balance factor of the children it has been given. -/
def Grown (tree : Itree Bound Data) : Prop :=
  ∀ id, id < tree.allocated →
    (tree.node id).balanceFactor = weight (tree.node id).left - weight (tree.node id).right

omit [LinearOrder Lower] in
theorem grown_new (garbage : Node Bound Data) : Grown (gzochidItreeNew garbage) := by
  intro id allocated
  cases allocated

/-- An insertion does not take the seat out of its bounds. -/
theorem Grown.seatBalance (grown : Grown tree) (allocated : id < tree.allocated)
    (free : if order.lower lower < lowerKey order tree id then (tree.node id).left = none
      else (tree.node id).right = none) :
    ¬(seatBalance order tree id lower < -1 ∨ seatBalance order tree id lower > 1) := by
  have balanced := grown id allocated
  have light : ∀ child : Option NodeId, 0 ≤ weight child ∧ weight child ≤ 1 := by
    intro child
    cases child with
    | none => exact ⟨by decide, by decide⟩
    | some other => exact ⟨Int.zero_le_ofNat 1, Int.le_refl 1⟩
  have leftLight := light (tree.node id).left
  have rightLight := light (tree.node id).right
  unfold IntervalTree.seatBalance
  split
  next below =>
    rw [if_pos below] at free
    rw [free] at balanced
    change _ = (0 : Int) - _ at balanced
    omega
  next above =>
    rw [if_neg above] at free
    rw [free] at balanced
    change _ = _ - (0 : Int) at balanced
    omega

theorem Grown.attach (grown : Grown tree) (allocated : id < tree.allocated)
    (free : if order.lower lower < lowerKey order tree id then (tree.node id).left = none
      else (tree.node id).right = none) :
    Grown (attach order tree id lower upper data) := by
  have different := Nat.ne_of_lt allocated
  intro other inside
  by_cases fresh : other = tree.allocated
  · subst fresh
    rw [attach_node_fresh different]
    rfl
  · have old : other < tree.allocated := Nat.lt_of_le_of_ne (Nat.lt_succ_iff.mp inside) fresh
    have balanced := grown other old
    by_cases same : other = id
    · subst same
      rw [attach_node_seat different]
      split
      next below =>
        rw [if_pos below] at free
        rw [free] at balanced
        change (tree.node other).balanceFactor + 1 = 1 - weight (tree.node other).right
        change _ = (0 : Int) - _ at balanced
        omega
      next above =>
        rw [if_neg above] at free
        rw [free] at balanced
        change (tree.node other).balanceFactor - 1 = weight (tree.node other).left - 1
        change _ = _ - (0 : Int) at balanced
        omega
    · rw [attach_node_of_ne fresh same]
      exact balanced

omit [LinearOrder Lower] in
theorem Grown.first (grown : Grown tree) (lower upper : Bound) (data : Data) :
    Grown (first tree lower upper data) := by
  intro other inside
  by_cases fresh : other = tree.allocated
  · subst fresh
    simp [IntervalTree.first, itreeNodeNew, weight]
  · have old : other < tree.allocated := Nat.lt_of_le_of_ne (Nat.lt_succ_iff.mp inside) fresh
    simpa [IntervalTree.first, Itree.modify, fresh] using grown other old

omit [LinearOrder Lower] in
theorem Grown.replace (grown : Grown tree) (id : NodeId) (data : Data) :
    Grown (tree.modify id fun node => { node with data := data }) := by
  intro other inside
  rw [tree.modify_data_node id data]
  exact grown other inside

omit [LinearOrder Lower] in
theorem Grown.alike {later : Itree Bound Data} (grown : Grown tree) (alike : Alike tree later)
    (balance : ∀ id, (later.node id).balanceFactor = (tree.node id).balanceFactor) :
    Grown later := by
  intro other inside
  rw [alike.allocated] at inside
  rw [balance other, alike.node other]
  exact grown other inside

variable [LinearOrder Upper] [DecidableEq Bound]

/-- Inserting into a tree that has only grown puts the interval into the map, and keeps the
tree in order and its maximum upper bounds up to date. -/
theorem Sound.grow (sound : Sound order tree shape contents) (covered : Covered order tree shape)
    (grown : Grown tree) (lower upper : Bound) (data : Data) :
    ∃ result shape', IntervalTree.gzochidItreeInsert order tree lower upper data = some result ∧
      Sound order result shape' (contents.insert (order.lower lower) (order.upper upper) data) ∧
      Covered order result shape' ∧ Grown result ∧
      ((∀ id ∈ shape.ids, Attained tree id) → ∀ id ∈ shape'.ids, Attained result id) := by
  have unclimbed : ∀ seat, itreeLocation order tree lower upper = some (some seat) →
      matches? order tree seat lower upper = false →
      ¬(IntervalTree.seatBalance order tree seat lower < -1 ∨
        IntervalTree.seatBalance order tree seat lower > 1) := by
    intro seat located miss
    rcases sound.itreeLocation_spec lower upper with ⟨nowhere, _, _⟩ | ⟨found, there, spec⟩
    · rw [nowhere] at located
      cases located
    · rw [there] at located
      injection located with located
      cases located
      rcases spec.outcome with hit | ⟨_, seated⟩
      · rw [miss] at hit
        cases hit
      · exact grown.seatBalance (sound.allocated _ spec.member) (sound.linked.seat_free seated)
  have keeps : InsertKeeps order tree lower upper :=
    fun seat located miss leans => absurd leans (unclimbed seat located miss)
  have covers : InsertCovers order tree lower upper :=
    fun seat located miss leans => absurd leans (unclimbed seat located miss)
  rcases sound.gzochidItreeInsert data keeps with
    ⟨result, shape', inserted, kept, covering, attaining⟩
  refine ⟨result, shape', inserted, kept, covering covered covers, ?_, attaining⟩
  simp only [IntervalTree.gzochidItreeInsert] at inserted
  rcases sound.itreeLocation_spec lower upper with ⟨nowhere, _, _⟩ | ⟨found, located, spec⟩
  · rw [nowhere] at inserted
    injection inserted with same
    exact same ▸ grown.first lower upper data
  · rw [located] at inserted
    rcases spec.outcome with hit | ⟨miss, seated⟩
    · simp only [hit, if_true] at inserted
      injection inserted with same
      exact same ▸ grown.replace found data
    · have allocated := sound.allocated found spec.member
      have free := sound.linked.seat_free seated
      have attached := sound.attach data miss seated
      have inside : found ∈ (attachedShape order tree shape found lower upper data).ids :=
        Shape.mem_ids_place.mpr (.inr spec.member)
      simp only [miss found spec.member, Bool.false_eq_true, if_false,
        IntervalTree.itreeRetraceInsert, attach_balance (Nat.ne_of_lt allocated),
        if_neg (grown.seatBalance allocated free)] at inserted
      rcases attached.toPointerTree.updateMaxUppers order inside with
        ⟨later, equal, alike, balance, _⟩
      cases equal.symm.trans inserted
      exact (grown.attach allocated free).alike alike balance

omit [LinearOrder Lower] in
/-- The loop that recomputes maximum upper bounds makes none smaller than what was attained. -/
theorem updateMaxUppers_le (order : Comparators Bound Lower Upper)
    {base later result : Itree Bound Data} {fuel : Nat}
    {start : Option NodeId} (pointers : PointerTree base shape)
    (attained : ∀ id ∈ shape.ids, Attained base id) (alike : Alike base later)
    (inside : ∀ id, start = some id → id ∈ shape.ids)
    (least : ∀ id, order.upper (base.node id).maxUpper ≤ order.upper (later.node id).maxUpper)
    (ended : updateMaxUppers order fuel later start = some result) (id : NodeId) :
    order.upper (base.node id).maxUpper ≤ order.upper (result.node id).maxUpper := by
  induction fuel generalizing later start with
  | zero => cases ended
  | succ fuel ih =>
    cases start with
    | none =>
      cases ended
      exact least id
    | some current =>
      have here := inside current rfl
      simp only [updateMaxUppers] at ended
      split at ended
      next =>
        refine ih (alike.trans (alike_updateMaxUpper order later current)) ?_ ?_ ended
        · intro parent up
          rw [(alike_updateMaxUpper order later current).parent, alike.parent] at up
          exact (pointers.parent_spec here up).1
        · intro other
          by_cases same : other = current
          · subst same
            rw [updateMaxUpper_node_self]
            have fields := alike.node other
            rcases attained other here with own | ⟨child, points, equal⟩
            · rw [own, show (base.node other).upper = (later.node other).upper by rw [fields]]
              exact newMaxUpper_own later other
            · rw [equal]
              refine (least child).trans ?_
              rcases points with isLeft | isRight
              · exact newMaxUpper_left (by rw [fields]; exact isLeft)
              · exact newMaxUpper_right (by rw [fields]; exact isRight)
          · rw [updateMaxUpper_node_of_ne later same]
            exact least other
      next =>
        cases ended
        exact least id

/-- A search that comes to the seat of an interval, and goes on below it, comes to the interval
once it has been inserted. -/
theorem Sound.insert_visited {result : Itree Bound Data} {pruned : Node Bound Data → Bool}
    (sound : Sound order tree shape contents) (grown : Grown tree)
    (attained : ∀ id ∈ shape.ids, Attained tree id)
    (greater : ∀ first second : Node Bound Data,
      order.upper first.maxUpper ≤ order.upper second.maxUpper →
      pruned first = false → pruned second = false)
    (reached : ∀ seat, itreeLocation order tree lower upper = some (some seat) →
      Visited tree pruned seat ∧
        (matches? order tree seat lower upper = true ∨ pruned (tree.node seat) = false))
    (inserted : IntervalTree.gzochidItreeInsert order tree lower upper data = some result) :
    ∃ id, Visited result pruned id ∧ (result.node id).data = data ∧
      order.lower (result.node id).lower = order.lower lower := by
  simp only [IntervalTree.gzochidItreeInsert] at inserted
  rcases sound.itreeLocation_spec lower upper with ⟨nowhere, _, _⟩ | ⟨found, located, spec⟩
  · rw [nowhere] at inserted
    injection inserted with same
    exact ⟨tree.allocated, .root (same ▸ rfl), by simp [← same, itreeNodeNew],
      by simp [← same, itreeNodeNew]⟩
  · rw [located] at inserted
    obtain ⟨visit, below⟩ := reached found located
    rcases spec.outcome with hit | ⟨miss, seated⟩
    · simp only [hit, if_true] at inserted
      injection inserted with same
      have fields := tree.modify_data_node found data
      refine ⟨found, ?_, by simp [← same], ?_⟩
      · refine visit.transfer (same ▸ rfl) fun id _ => ?_
        rw [← same, fields]
        exact ⟨greater _ _ (le_refl _), fun _ points => points, fun _ points => points⟩
      · rw [← same, fields]
        exact (matches?_iff.mp hit).1
    · have missHere : matches? order tree found lower upper = false := by
        simpa using miss found spec.member
      have allocated := sound.allocated found spec.member
      have different := Nat.ne_of_lt allocated
      have free := sound.linked.seat_free seated
      have open_ := below.resolve_left (by rw [missHere]; exact Bool.false_ne_true)
      have attached := sound.attach data miss seated
      have inside : found ∈ (attachedShape order tree shape found lower upper data).ids :=
        Shape.mem_ids_place.mpr (.inr spec.member)
      simp only [missHere, Bool.false_eq_true, if_false, IntervalTree.itreeRetraceInsert,
        attach_balance different, if_neg (grown.seatBalance allocated free)] at inserted
      rcases attached.toPointerTree.updateMaxUppers order inside with
        ⟨later, equal, alike, _, _⟩
      cases equal.symm.trans inserted
      have least := updateMaxUppers_le order attached.toPointerTree
        (attained_attach sound.toPointerTree seated attained) (.refl _)
        (fun _ same => Option.some.inj same ▸ inside) (fun _ => le_refl _) equal
      have old : ∀ id, Visited tree pruned id → id ≠ tree.allocated := fun id visit =>
        Nat.ne_of_lt (sound.allocated id (mem_ids_of_visited (visit.mem sound.toPointerTree)))
      have wider : ∀ id, Visited tree pruned id → pruned (tree.node id) = false →
          pruned (result.node id) = false := by
        intro id visit
        apply greater
        have kept : ((IntervalTree.attach order tree found lower upper data).node id).maxUpper =
            (tree.node id).maxUpper := (attach_node_old (old id visit)).2.2.2.1
        rw [← kept]
        exact least id
      simp only [Itree.links] at free
      have came : Visited result pruned found := by
        have root : result.root = tree.root := alike.root
        refine visit.transfer root fun id before => ⟨wider id before, ?_, ?_⟩
        · intro child points
          rw [alike.node id]
          by_cases same : id = found
          · subst same
            rw [attach_node_seat different]
            split
            next isBelow =>
              rw [if_pos isBelow, points] at free
              cases free
            next => exact points
          · rw [attach_node_of_ne (old id before) same]
            exact points
        · intro child points
          rw [alike.node id]
          by_cases same : id = found
          · subst same
            rw [attach_node_seat different]
            split
            next => exact points
            next isAbove =>
              rw [if_neg isAbove, points] at free
              cases free
          · rw [attach_node_of_ne (old id before) same]
            exact points
      have fresh :
          (IntervalTree.attach order tree found lower upper data).node tree.allocated = _ :=
        attach_node_fresh different
      refine ⟨tree.allocated, ?_, ?_, ?_⟩
      · have seat : (IntervalTree.attach order tree found lower upper data).node found = _ :=
          attach_node_seat different
        by_cases isBelow : order.lower lower < lowerKey order tree found
        · rw [if_pos isBelow] at seat
          exact .left came (wider found visit open_) (by rw [alike.node found, seat])
        · rw [if_neg isBelow] at seat
          exact .right came (wider found visit open_) (by rw [alike.node found, seat])
      · rw [alike.node tree.allocated, fresh]
        rfl
      · rw [alike.node tree.allocated, fresh]
        rfl

end Gzochi.IntervalTree
