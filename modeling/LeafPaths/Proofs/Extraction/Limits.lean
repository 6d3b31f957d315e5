import LeafPaths.Proofs.Ast.Route
import LeafPaths.Proofs.Extraction

/-!
Extraction under different limits. Stricter limits on length and width take contexts away and leave
the others as they are and where they are; a smaller cap then cuts the list off earlier.
-/

namespace LeafPaths

/-- Limits that admit no more than others. -/
instance : LE Limits := ⟨fun strict loose => strict.length ≤ loose.length ∧ strict.width ≤ loose.width⟩

theorem Settings.limits_le {strict loose : Settings} (length : strict.maxLength ≤ loose.maxLength)
    (width : strict.maxWidth ≤ loose.maxWidth) : strict.limits ≤ loose.limits :=
  ⟨UInt64.le_iff_toNat_le.mp length, UInt64.le_iff_toNat_le.mp width⟩

namespace Ast

variable {t : Ast} {strict loose limits : Limits} {start finish : Nat} {path : Path}

/-- The way between two nodes has more edges than the limits admit, or leaves its turning point by
children that are too far apart. -/
def Exceeds (t : Ast) (limits : Limits) (start finish : Nat) : Prop :=
  ∃ top, t.Turn top start finish ∧
    (limits.length < t.depth start + t.depth finish - 2 * t.depth top ∨
      t.TooWide limits.width top start finish)

/-! ### One pair -/

theorem Fork.within_mono (le : strict ≤ loose) {f : Fork} (inside : f.within t strict = true) :
    f.within t loose = true := by
  obtain ⟨shorter, narrower⟩ := le
  rw [within, Bool.and_eq_true, decide_eq_true_eq] at inside ⊢
  refine ⟨Nat.le_trans inside.1 shorter, ?_⟩
  cases wide : f.width? t with
  | none => rfl
  | some width =>
    rw [wide, Option.all_some, decide_eq_true_eq] at inside
    exact decide_eq_true (Nat.le_trans inside.2 narrower)

theorem path?_eq_some_iff :
    t.path? limits start finish = some path ↔
      start ≠ finish ∧ (t.fork start finish).within t limits = true ∧
        (t.fork start finish).path? t = some path := by
  rw [path?]
  by_cases same : start = finish
  · simp [same]
  · rw [if_neg same]
    split <;> simp_all

theorem path?_mono (le : strict ≤ loose) (found : t.path? strict start finish = some path) :
    t.path? loose start finish = some path := by
  obtain ⟨apart, inside, same⟩ := path?_eq_some_iff.mp found
  exact path?_eq_some_iff.mpr ⟨apart, Fork.within_mono le inside, same⟩

theorem isSome_path?_of_le (le : strict ≤ loose) :
    (t.path? strict start finish).isSome =
      ((t.fork start finish).within t strict && (t.path? loose start finish).isSome) := by
  rw [Bool.eq_iff_iff, Bool.and_eq_true, Option.isSome_iff_exists, Option.isSome_iff_exists]
  constructor
  · rintro ⟨path, found⟩
    exact ⟨(path?_eq_some_iff.mp found).2.1, path, path?_mono le found⟩
  · rintro ⟨inside, path, found⟩
    obtain ⟨apart, -, same⟩ := path?_eq_some_iff.mp found
    exact ⟨path, path?_eq_some_iff.mpr ⟨apart, inside, same⟩⟩

theorem Arranged.exceeds_iff (arranged : t.Arranged) (hs : start < t.size) (hf : finish < t.size) :
    t.Exceeds limits start finish ↔ (t.fork start finish).within t limits = false := by
  rw [← Bool.not_eq_true]
  constructor
  · rintro ⟨top, turn, exceeded⟩
    rw [arranged.within_fork_iff turn, ← not_or]
    exact not_not_intro exceeded
  · intro outside
    obtain ⟨top, turn⟩ := arranged.exists_turn hs hf
    rw [arranged.within_fork_iff turn, ← not_or, not_not] at outside
    exact ⟨top, turn, outside⟩

/-! ### All pairs -/

theorem acceptedPairs_of_le (le : strict ≤ loose) (nodes : List Nat) :
    t.acceptedPairs strict nodes =
      (t.acceptedPairs loose nodes).filter fun ends => (t.fork ends.1 ends.2).within t strict := by
  simp only [acceptedPairs_eq, List.filter_filter, isSome_path?_of_le le]

theorem contextOf_of_le (le : strict ≤ loose) {ends : Nat × Nat}
    (accepted : (t.path? strict ends.1 ends.2).isSome) :
    t.contextOf strict ends = t.contextOf loose ends := by
  obtain ⟨path, found⟩ := Option.isSome_iff_exists.mp accepted
  rw [contextOf, contextOf, found, path?_mono le found]

theorem map_contextOf_of_le (le : strict ≤ loose) (nodes : List Nat) :
    (t.acceptedPairs strict nodes).map (t.contextOf strict) =
      (t.acceptedPairs strict nodes).map (t.contextOf loose) := by
  apply List.map_congr_left
  intro ends member
  rw [acceptedPairs_eq] at member
  exact contextOf_of_le le (List.mem_filter.mp member).2

theorem lt_size_of_mem_acceptedPairs (arranged : t.Arranged) {ends : Nat × Nat}
    (member : ends ∈ t.acceptedPairs limits t.valuedNodes) :
    ends.1 < t.size ∧ ends.2 < t.size := by
  rw [acceptedPairs_eq] at member
  obtain ⟨first, second⟩ := mem_of_mem_orderedPairs (List.mem_filter.mp member).1
  exact ⟨arranged.mem_preorder_root_iff.mp (List.mem_filter.mp first).1,
    arranged.mem_preorder_root_iff.mp (List.mem_filter.mp second).1⟩

open Classical in
theorem acceptedPairs_valuedNodes_of_le (arranged : t.Arranged) (le : strict ≤ loose) :
    t.acceptedPairs strict t.valuedNodes =
      (t.acceptedPairs loose t.valuedNodes).filter fun ends =>
        ¬ t.Exceeds strict ends.1 ends.2 := by
  rw [acceptedPairs_of_le le]
  apply List.filter_congr
  intro ends member
  obtain ⟨hs, hf⟩ := lt_size_of_mem_acceptedPairs arranged member
  rw [arranged.exceeds_iff hs hf]
  simp

theorem rest_leaves (arranged : t.Arranged) (limits : Limits) :
    (Pairs.of t.leaves).rest t limits =
      (t.acceptedPairs limits t.valuedNodes).map (t.contextOf limits) := by
  rw [Pairs.rest_of, ← Pairs.remaining_of, remaining_leaves arranged]

/-! ### Whole extractions -/

theorem extract_eq_take_rest (t : Ast) (settings : Settings) :
    t.extract settings =
      ((Pairs.of t.leaves).rest t settings.limits).take settings.maxContexts.toNat := by
  rw [extract_eq_take, Pairs.rest_of, Pairs.remaining_of]

theorem length_extract (arranged : t.Arranged) (settings : Settings) :
    (t.extract settings).length =
      min settings.maxContexts.toNat (t.acceptedPairs settings.limits t.valuedNodes).length := by
  rw [extract_eq_take_rest, rest_leaves arranged, List.length_take, List.length_map]

theorem extract_of_cap_le (t : Ast) (settings : Settings) {cap cap' : UInt64} (le : cap ≤ cap') :
    t.extract { settings with maxContexts := cap } =
      (t.extract { settings with maxContexts := cap' }).take cap.toNat := by
  rw [extract_eq_take_rest, extract_eq_take_rest, List.take_take,
    Nat.min_eq_left (UInt64.le_iff_toNat_le.mp le)]
  rfl

theorem extract_of_length_le (t : Ast) (settings : Settings) {cap : UInt64}
    (enough : ((Pairs.of t.leaves).rest t settings.limits).length ≤ cap.toNat) :
    t.extract { settings with maxContexts := cap } = (Pairs.of t.leaves).rest t settings.limits := by
  rw [extract_eq_take_rest]
  exact List.take_of_length_le enough

open Classical in
/-- Of the pairs that looser limits accept, stricter ones take away those that exceed them, and
nothing else is changed. -/
theorem contexts_of_stricter_limits (grown : t.Grown) (strict loose : Settings)
    (length : strict.maxLength ≤ loose.maxLength) (width : strict.maxWidth ≤ loose.maxWidth) :
    let accepted := t.acceptedPairs loose.limits t.valuedNodes
    let kept := accepted.filter fun ends => ¬ t.Exceeds strict.limits ends.1 ends.2
    let contexts (settings : Settings) := (Pairs.of t.leaves).rest t settings.limits
    (∀ start finish path, t.path? strict.limits start finish = some path →
        t.path? loose.limits start finish = some path) ∧
      contexts loose = accepted.map (t.contextOf loose.limits) ∧
      contexts strict = kept.map (t.contextOf loose.limits) ∧
      (∀ (settings : Settings) (cap cap' : UInt64), cap ≤ cap' →
        t.extract { settings with maxContexts := cap } =
          (t.extract { settings with maxContexts := cap' }).take cap.toNat) ∧
      ∀ cap : UInt64, accepted.length ≤ cap.toNat →
        t.extract { strict with maxContexts := cap } = contexts strict ∧
          t.extract { loose with maxContexts := cap } = contexts loose ∧
          (t.extract { strict with maxContexts := cap }).Sublist
            (t.extract { loose with maxContexts := cap }) := by
  intro accepted kept contexts
  have arranged := grown.arranged
  have le := Settings.limits_le length width
  have looser : contexts loose = accepted.map (t.contextOf loose.limits) :=
    rest_leaves arranged loose.limits
  have stricter : contexts strict = kept.map (t.contextOf loose.limits) := by
    show (Pairs.of t.leaves).rest t strict.limits = _
    rw [rest_leaves arranged, map_contextOf_of_le le, acceptedPairs_valuedNodes_of_le arranged le]
  have sublist : (contexts strict).Sublist (contexts loose) := by
    rw [looser, stricter]
    exact List.filter_sublist.map _
  refine ⟨fun _ _ _ => path?_mono le, looser, stricter,
    fun settings _ _ => t.extract_of_cap_le settings, ?_⟩
  intro cap enough
  have enough_loose : (contexts loose).length ≤ cap.toNat := by
    rwa [looser, List.length_map]
  have all := t.extract_of_length_le loose enough_loose
  have all_strict := t.extract_of_length_le strict (Nat.le_trans sublist.length_le enough_loose)
  exact ⟨all_strict, all, by rwa [all_strict, all]⟩

theorem contexts_of_stricter_limits_of_arguments :
    argumentsTree.Grown ∧ (8 : UInt64) ≤ 8 ∧ (1 : UInt64) ≤ 2 ∧
      (argumentsTree.extract ⟨8, 1, 200⟩).length = 3 ∧
      (argumentsTree.extract ⟨8, 2, 200⟩).length = 5 ∧
      (argumentsTree.extract ⟨8, 1, 200⟩).Sublist (argumentsTree.extract ⟨8, 2, 200⟩) := by
  have lengths : (argumentsTree.extract ⟨8, 1, 200⟩).length = 3 ∧
      (argumentsTree.extract ⟨8, 2, 200⟩).length = 5 := by
    rw [length_extract grown_argumentsTree.arranged, length_extract grown_argumentsTree.arranged]
    decide +kernel
  obtain ⟨-, -, -, -, enough⟩ := contexts_of_stricter_limits grown_argumentsTree ⟨8, 1, 200⟩
    ⟨8, 2, 200⟩ (by decide) (by decide)
  exact ⟨grown_argumentsTree, by decide, by decide, lengths.1, lengths.2,
    (enough 200 (by decide +kernel)).2.2⟩

end Ast
end LeafPaths
