import LeafPaths.Proofs.Ast.Preorder
import LeafPaths.Proofs.Ast.Route
import LeafPaths.Proofs.Context.Pairs

/-!
Trees inside trees. When every node of a tree has a counterpart in another, with the same kind and
value and with the counterparts of its children as children, then the way between two nodes is the
way between their counterparts: what is above the counterpart of the root is on neither.
-/

namespace LeafPaths.Ast

/-- `f` gives the counterpart in `u` of each node of `t`. -/
structure Embeds (t u : Ast) (f : Nat → Nat) : Prop where
  present : ∀ {x}, x < t.size → f x < u.size
  injective : ∀ {x y}, x < t.size → y < t.size → f x = f y → x = y
  kind : ∀ {x}, x < t.size → u.kind (f x) = t.kind x
  value? : ∀ {x}, x < t.size → u.value? (f x) = t.value? x
  children : ∀ {x}, x < t.size → u.children (f x) = (t.children x).map f

variable {t u : Ast} {f : Nat → Nat} {x p top start finish : Nat} {xs up down : List Nat}

/-! ### Nodes of a climb -/

theorem Arranged.lt_size_of_climb (arranged : t.Arranged) (climb : t.Climb top x xs)
    (present : x < t.size) : top < t.size ∧ ∀ y ∈ xs, y < t.size := by
  induction climb with
  | here => exact ⟨present, fun _ member => nomatch member⟩
  | step link _ ih =>
    obtain ⟨reached, passed⟩ := ih (Nat.lt_trans (arranged.parent_lt link) present)
    exact ⟨reached, List.forall_mem_cons.mpr ⟨present, passed⟩⟩

/-! ### Links and climbs -/

namespace Embeds

variable (embeds : t.Embeds u f) (ht : t.Arranged) (hu : u.Arranged)
include embeds ht hu

theorem child (link : t.parent? x = some p) :
    u.parent? (f x) = some (f p) ∧ u.rank (f x) = t.rank x := by
  have present : p < t.size := Nat.lt_trans (ht.parent_lt link) (lt_size_of_parent? link)
  have listed : (t.children p)[t.rank x]? = some x := ht.getElem?_children.mpr ⟨link, rfl⟩
  apply hu.getElem?_children.mp
  rw [embeds.children present, List.getElem?_map, listed]
  rfl

theorem climb (climb : t.Climb top x xs) : u.Climb (f top) (f x) (xs.map f) := by
  induction climb with
  | here => exact .here
  | step link _ ih => exact .step (embeds.child ht hu link).1 ih

theorem turn (hs : start < t.size) (hf : finish < t.size) (turn : t.Turn top start finish) :
    u.Turn (f top) (f start) (f finish) := by
  obtain ⟨up, climb⟩ := turn.above_start.exists_climb
  obtain ⟨down, climb'⟩ := turn.above_finish.exists_climb
  apply hu.turn_of_climbs (embeds.climb ht hu climb) (embeds.climb ht hu climb')
  intro c image image'
  rw [List.getLast?_map] at image image'
  obtain ⟨a, last, rfl⟩ := Option.map_eq_some_iff.mp image
  obtain ⟨b, last', same⟩ := Option.map_eq_some_iff.mp image'
  -- Different children have different counterparts.
  have inside := (ht.lt_size_of_climb climb hs).2 a (List.mem_of_getLast? last)
  have inside' := (ht.lt_size_of_climb climb' hf).2 b (List.mem_of_getLast? last')
  obtain rfl := embeds.injective inside' inside same
  exact ht.getLast?_ne_of_turn turn climb climb' last last'

/-! ### Forks and paths -/

theorem length_fork (hs : start < t.size) (hf : finish < t.size) :
    (u.fork (f start) (f finish)).length = (t.fork start finish).length := by
  obtain ⟨top, up, down, turn, climb, climb'⟩ := ht.exists_climbs hs hf
  rw [ht.length_fork_of_climb turn climb climb',
    hu.length_fork_of_climb (embeds.turn ht hu hs hf turn) (embeds.climb ht hu climb)
      (embeds.climb ht hu climb'), List.length_map, List.length_map]

theorem width?_fork (hs : start < t.size) (hf : finish < t.size) :
    (u.fork (f start) (f finish)).width? u = (t.fork start finish).width? t := by
  obtain ⟨top, up, down, turn, climb, climb'⟩ := ht.exists_climbs hs hf
  have rank : ∀ {x xs c}, t.Climb top x xs → xs.getLast? = some c → u.rank (f c) = t.rank c := by
    intro x xs c climb last
    exact (embeds.child ht hu (climb.getLast? last).1).2
  apply Option.ext
  intro width
  rw [ht.width?_fork_of_climb turn climb climb',
    hu.width?_fork_of_climb (embeds.turn ht hu hs hf turn) (embeds.climb ht hu climb)
      (embeds.climb ht hu climb'), List.getLast?_map, List.getLast?_map]
  constructor
  · rintro ⟨_, _, image, image', apart⟩
    obtain ⟨a, last, rfl⟩ := Option.map_eq_some_iff.mp image
    obtain ⟨b, last', rfl⟩ := Option.map_eq_some_iff.mp image'
    rw [rank climb last, rank climb' last'] at apart
    exact ⟨a, b, last, last', apart⟩
  · rintro ⟨a, b, last, last', apart⟩
    rw [← rank climb last, ← rank climb' last'] at apart
    exact ⟨f a, f b, by rw [last]; rfl, by rw [last']; rfl, apart⟩

theorem path?_fork (hs : start < t.size) (hf : finish < t.size) :
    (u.fork (f start) (f finish)).path? u = (t.fork start finish).path? t := by
  obtain ⟨top, up, down, turn, climb, climb'⟩ := ht.exists_climbs hs hf
  have kinds : ∀ {xs : List Nat}, (∀ y ∈ xs, y < t.size) → (xs.map f).map u.kind = xs.map t.kind := by
    intro xs inside
    rw [List.map_map]
    exact List.map_congr_left fun y member => embeds.kind (inside y member)
  obtain ⟨inside, passed⟩ := ht.lt_size_of_climb climb hs
  have passed' := (ht.lt_size_of_climb climb' hf).2
  rw [ht.path?_fork turn climb climb',
    hu.path?_fork (embeds.turn ht hu hs hf turn) (embeds.climb ht hu climb)
      (embeds.climb ht hu climb'), embeds.kind inside, kinds passed, ← List.map_reverse,
    kinds fun y member => passed' y (List.mem_reverse.mp member)]

theorem path? (limits : Limits) (hs : start < t.size) (hf : finish < t.size) :
    u.path? limits (f start) (f finish) = t.path? limits start finish := by
  have same : f start = f finish ↔ start = finish := ⟨embeds.injective hs hf, congrArg f⟩
  have within : (u.fork (f start) (f finish)).within u limits =
      (t.fork start finish).within t limits := by
    rw [Fork.within, Fork.within, embeds.length_fork ht hu hs hf, embeds.width?_fork ht hu hs hf]
  rw [Ast.path?, Ast.path?, within, embeds.path?_fork ht hu hs hf]
  simp only [same]

/-! ### Nodes in order, and contexts -/

theorem preorder (present : x < t.size) : u.preorder (f x) = (t.preorder x).map f := by
  induction x using ht.induction_on_children with
  | step x ih =>
    rw [hu.preorder_eq, ht.preorder_eq, embeds.children present, List.map_cons, List.flatMap_map,
      List.map_flatMap]
    congr 1
    apply List.flatMap_congr
    intro c member
    exact ih c member (ht.lt_of_mem_children member).2

theorem context? (limits : Limits) (hs : start < t.size) (hf : finish < t.size) :
    u.context? limits (f start) (f finish) = t.context? limits start finish := by
  rw [Ast.context?, Ast.context?, embeds.path? ht hu limits hs hf, embeds.value? hs,
    embeds.value? hf]

theorem contexts (limits : Limits) {nodes : List Nat} (present : ∀ x ∈ nodes, x < t.size) :
    (orderedPairs (nodes.map f)).filterMap (fun ends => u.context? limits ends.1 ends.2) =
      (orderedPairs nodes).filterMap fun ends => t.context? limits ends.1 ends.2 := by
  rw [orderedPairs_map, List.filterMap_map]
  apply List.filterMap_congr
  intro ends member
  obtain ⟨first, second⟩ := mem_of_mem_orderedPairs member
  exact embeds.context? ht hu limits (present _ first) (present _ second)

end Embeds
end LeafPaths.Ast
