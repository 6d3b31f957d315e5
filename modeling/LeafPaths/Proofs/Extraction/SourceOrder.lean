import LeafPaths.Proofs.Extraction
import LeafPaths.Proofs.Extraction.Subtree

/-!
The order of the leaves is the order of the text. Nothing is built below a node with a value, so no
leaf is above another, and where siblings stand one after the other in the text, so do the leaves.
A context therefore reads forward: its path climbs from the earlier word to a node above both and
goes down to the later one, and its width is always held to the limit.
-/

namespace LeafPaths

/-- The nodes lie within their parents, and siblings end before the next of them begins. -/
inductive Cst.Ordered : Cst → Prop where
  | intro {t : Cst}
      (within : ∀ c ∈ t.children,
        t.info.firstByte ≤ c.info.firstByte ∧ c.info.endByte ≤ t.info.endByte)
      (apart : t.children.Pairwise fun c d => c.info.endByte ≤ d.info.firstByte)
      (below : ∀ c ∈ t.children, c.Ordered) : Ordered t

variable {code : ByteArray} {p q c : Place}

/-! ### The places of an outline in the text -/

namespace Place

theorem ordered_of_mem_keptChildren (ordered : p.here.Ordered) (child : c ∈ p.keptChildren) :
    c.here.Ordered := by
  obtain ⟨-, -, below⟩ := ordered
  exact below _ (here_mem_children child)

theorem within_of_mem_keptChildren (ordered : p.here.Ordered) (child : c ∈ p.keptChildren) :
    p.here.info.firstByte ≤ c.here.info.firstByte ∧
      c.here.info.endByte ≤ p.here.info.endByte := by
  obtain ⟨within, -, -⟩ := ordered
  exact within _ (here_mem_children child)

theorem apart_keptChildren (ordered : p.here.Ordered) :
    p.keptChildren.Pairwise fun c d => c.here.info.endByte ≤ d.here.info.firstByte := by
  obtain ⟨-, apart, -⟩ := ordered
  have kept := apart.filter (·.kept)
  rw [← map_here_keptChildren, List.pairwise_map] at kept
  exact kept

theorem within_of_mem_outline (ordered : p.here.Ordered) (member : q ∈ (p.outline code).preorder) :
    p.here.info.firstByte ≤ q.here.info.firstByte ∧
      q.here.info.endByte ≤ p.here.info.endByte := by
  induction p using induction_on_keptChildren with
  | step p ih =>
    rw [preorder_outline_eq] at member
    rcases List.mem_cons.mp member with rfl | member
    · exact ⟨Nat.le_refl _, Nat.le_refl _⟩
    · split at member
      · cases member
      · obtain ⟨c, child, below⟩ := List.mem_flatMap.mp member
        obtain ⟨first, last⟩ := within_of_mem_keptChildren ordered child
        obtain ⟨first', last'⟩ := ih c child (ordered_of_mem_keptChildren ordered child) below
        exact ⟨Nat.le_trans first first', Nat.le_trans last' last⟩

/-- In pre-order, all that comes after a place with a value begins where that place has ended. -/
theorem pairwise_preorder_outline (ordered : p.here.Ordered) :
    (p.outline code).preorder.Pairwise fun q r =>
      (q.value? code).isSome → q.here.info.endByte ≤ r.here.info.firstByte := by
  induction p using induction_on_keptChildren with
  | step p ih =>
    rw [preorder_outline_eq]
    split
    · exact List.pairwise_singleton _ _
    · rename_i valueless
      rw [List.pairwise_cons, List.pairwise_flatMap]
      refine ⟨fun _ _ valued => (valueless valued).elim, ?_, ?_⟩
      · intro c child
        exact ih c child (ordered_of_mem_keptChildren ordered child)
      · -- Places below two children keep within the ranges of the children, which are apart.
        apply (apart_keptChildren ordered).imp_of_mem
        intro c d child child' apart q below r below' _
        have last := (within_of_mem_outline (ordered_of_mem_keptChildren ordered child) below).2
        have first := (within_of_mem_outline (ordered_of_mem_keptChildren ordered child') below').1
        omega

end Place

namespace Ast

/-! ### Paths that climb and go down -/

/-- The path from `start` to `finish` turns at a node above both, and is no wider than it may be. -/
structure Bent (t : Ast) (limits : Limits) (start finish : Nat) : Prop where
  turn : ∃ top, t.Turn top start finish ∧ top ≠ start ∧ top ≠ finish
  path : ∃ path, t.path? limits start finish = some path ∧ path.up ≠ [] ∧ path.down ≠ []
  width : ∃ width, (t.fork start finish).width? t = some width ∧ width ≤ limits.width

variable {t : Ast} {limits : Limits} {start finish : Nat}

/-- A path is bent if neither of its ends is above the other. -/
theorem Arranged.bent_of_path? (arranged : t.Arranged) (hs : start < t.size) (hf : finish < t.size)
    (not_above : ¬ t.Above start finish) (not_below : ¬ t.Above finish start)
    (found : (t.path? limits start finish).isSome) : t.Bent limits start finish := by
  obtain ⟨top, up, down, turn, climb, climb'⟩ := arranged.exists_climbs hs hf
  -- The turning point is above both ends, and no end is above the other.
  have above_start : top ≠ start := by
    rintro rfl
    exact not_above turn.above_finish
  have above_finish : top ≠ finish := by
    rintro rfl
    exact not_below turn.above_start
  have up_ne_nil : up ≠ [] := by
    rintro rfl
    cases climb
    exact above_start rfl
  have down_ne_nil : down ≠ [] := by
    rintro rfl
    cases climb'
    exact above_finish rfl
  obtain ⟨none_of, some_of⟩ := arranged.path?_of_turn turn climb climb' limits
  have accepted : ¬ t.Refused limits top start finish := by
    intro refused
    rw [none_of refused] at found
    cases found
  have width := (arranged.width?_fork_of_climb turn climb climb').mpr
    ⟨_, _, List.getLast?_eq_some_getLast up_ne_nil, List.getLast?_eq_some_getLast down_ne_nil, rfl⟩
  refine ⟨⟨top, turn, above_start, above_finish⟩, ⟨_, some_of accepted, ?_, ?_⟩, _, width, ?_⟩
  · simpa using up_ne_nil
  · simpa using down_ne_nil
  · apply Nat.le_of_not_lt
    intro wide
    exact accepted (Or.inr (Or.inr ((arranged.tooWide_iff turn).mpr ⟨_, width, wide⟩)))

/-! ### The leaves of a place -/

/-- The words that two nodes stand for follow one another in the text. -/
def Precedes (code : ByteArray) (p : Place) (x y : Nat) : Prop :=
  ∃ q r, (p.outline code).preorder[x]? = some q ∧ (ofPlace code p).value? x = q.value? code ∧
    (p.outline code).preorder[y]? = some r ∧ (ofPlace code p).value? y = r.value? code ∧
    q.here.info.endByte ≤ r.here.info.firstByte

theorem mem_leaves_ofPlace {x : Nat} (member : x ∈ (ofPlace code p).leaves) :
    x < (ofPlace code p).size ∧ ((ofPlace code p).value? x).isSome := by
  rw [leaves_ofPlace, List.mem_filter, List.mem_range] at member
  exact member

theorem leaves_increasing (code : ByteArray) (p : Place) :
    (ofPlace code p).leaves.Pairwise (· < ·) := by
  rw [leaves_ofPlace]
  exact List.pairwise_lt_range.filter _

/-- Nothing is built below a leaf. -/
theorem eq_of_above_leaf {x y : Nat} (leaf : x ∈ (ofPlace code p).leaves)
    (above : (ofPlace code p).Above x y) : x = y := by
  rcases above.eq_or_child with same | ⟨c, link, -⟩
  · exact same
  · have child := ((grown_ofPlace code p).arranged.mem_children_iff).mpr link
    rw [children_ofPlace_of_valued (mem_leaves_ofPlace leaf).2] at child
    cases child

theorem precedes_of_lt (ordered : p.here.Ordered) {x y : Nat} (leaf : x ∈ (ofPlace code p).leaves)
    (leaf' : y ∈ (ofPlace code p).leaves) (before : x < y) : Precedes code p x y := by
  obtain ⟨present, valued⟩ := mem_leaves_ofPlace leaf
  obtain ⟨q, first, value⟩ := exists_place code p present
  obtain ⟨r, second, value'⟩ := exists_place code p (mem_leaves_ofPlace leaf').1
  refine ⟨q, r, first, value, second, value', ?_⟩
  obtain ⟨inside, rfl⟩ := List.getElem?_eq_some_iff.mp first
  obtain ⟨inside', rfl⟩ := List.getElem?_eq_some_iff.mp second
  rw [value] at valued
  exact List.pairwise_iff_getElem.mp (Place.pairwise_preorder_outline ordered) x y inside inside'
    before valued

/-- The leaves of a place whose nodes are in the order of the text are in it too, and none is above
another. All contexts lead forward in the text, over a node above both ends. -/
theorem leaves_in_source_order (code : ByteArray) (ordered : p.here.Ordered) :
    let t := ofPlace code p
    t.leaves.Pairwise (· < ·) ∧
    (∀ x ∈ t.leaves, ∀ y ∈ t.leaves, t.Above x y → x = y) ∧
    t.leaves.Pairwise (Precedes code p) ∧
    ∀ settings : Settings,
      t.extract settings =
        ((t.acceptedPairs settings.limits t.leaves).take settings.maxContexts.toNat).map
          (t.contextOf settings.limits) ∧
      ∀ ends ∈ t.acceptedPairs settings.limits t.leaves,
        Precedes code p ends.1 ends.2 ∧ t.Bent settings.limits ends.1 ends.2 := by
  intro t
  have arranged := (grown_ofPlace code p).arranged
  have increasing := leaves_increasing code p
  refine ⟨increasing, fun x leaf y _ => eq_of_above_leaf leaf, ?_, ?_⟩
  · exact increasing.imp_of_mem fun leaf leaf' => precedes_of_lt ordered leaf leaf'
  · intro settings
    refine ⟨?_, ?_⟩
    · rw [extract_eq_take, remaining_of_valued fun x leaf => (mem_leaves_ofPlace leaf).2,
        List.map_take]
    · intro ends member
      rw [acceptedPairs_eq, List.mem_filter] at member
      obtain ⟨listed, found⟩ := member
      obtain ⟨leaf, leaf'⟩ := mem_of_mem_orderedPairs listed
      have before : ends.1 < ends.2 := forall_mem_orderedPairs.mpr increasing ends listed
      refine ⟨precedes_of_lt ordered leaf leaf' before, ?_⟩
      apply arranged.bent_of_path? (mem_leaves_ofPlace leaf).1 (mem_leaves_ofPlace leaf').1
      · intro above
        exact Nat.ne_of_lt before (eq_of_above_leaf leaf above)
      · intro above
        exact Nat.ne_of_lt before (eq_of_above_leaf leaf' above).symm
      · exact found

theorem ordered_leafAt (kind : String) (named : Bool) (firstByte endByte : Nat) :
    (leafAt kind named firstByte endByte).Ordered :=
  .intro (by simp [leafAt]) .nil (by simp [leafAt])

theorem ordered_argumentsCst : argumentsCst.Ordered := by
  refine .intro (by decide) (by decide) ?_
  simp only [argumentsCst, Cst.children_node, List.forall_mem_cons, ordered_leafAt, true_and]
  exact List.forall_mem_nil _

theorem ordered_callCst : callCst.Ordered := by
  refine .intro (by decide) (by decide) ?_
  simp only [callCst, Cst.children_node, List.forall_mem_cons, ordered_leafAt, ordered_argumentsCst, true_and]
  exact List.forall_mem_nil _

theorem leaves_in_source_order_of_call :
    callCst.Ordered ∧
      (ofPlace "f(a, 1)".toUTF8 (.root callCst)).extract ⟨8, 2, 2⟩ =
        [⟨"f", "(identifier)^(call)_(argument_list)_(identifier)", "a"⟩,
          ⟨"f", "(identifier)^(call)_(argument_list)_(integer)", "1"⟩] ∧
      ∀ ends ∈ [(1, 3), (1, 4), (3, 4)],
        Precedes "f(a, 1)".toUTF8 (.root callCst) ends.1 ends.2 ∧
          (ofPlace "f(a, 1)".toUTF8 (.root callCst)).Bent ⟨8, 2⟩ ends.1 ends.2 := by
  have pairs : (ofPlace "f(a, 1)".toUTF8 (.root callCst)).acceptedPairs ⟨8, 2⟩
      (ofPlace "f(a, 1)".toUTF8 (.root callCst)).leaves = [(1, 3), (1, 4), (3, 4)] := by
    decide +kernel
  have ordered : (Place.root callCst).here.Ordered := ordered_callCst
  obtain ⟨-, -, -, contexts⟩ := leaves_in_source_order "f(a, 1)".toUTF8 ordered
  obtain ⟨extracted, forward⟩ := contexts ⟨8, 2, 2⟩
  rw [show (⟨8, 2, 2⟩ : Settings).limits = ⟨8, 2⟩ from rfl, pairs] at extracted forward
  refine ⟨ordered_callCst, ?_, forward⟩
  rw [extracted]
  decide +kernel

end Ast
end LeafPaths
