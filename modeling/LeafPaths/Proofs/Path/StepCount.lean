import LeafPaths.Proofs.Ast.Walk
import LeafPaths.Proofs.Context.Schedule
import LeafPaths.Proofs.Extraction.Tokens
import LeafPaths.Proofs.Text.Bytes

/-!
The steps of a context, counted by the marks in the text of its path. A kind may hold `_`, even at
its end, as no `_` counts but right before `(`; so the count is the number of edges on the way.
-/

namespace LeafPaths

/-! ### Counting marks -/

namespace Context

/-- The count of steps by bytes: from the byte after each `_` on the text is looked at again. -/
def stepsAtBytes? (c : Context) : Option Nat :=
  ((Text.offsets '_' c.path).mapM fun i =>
    (Text.from? c.path (i + 1)).map (·.toList.head? == some '(')).map fun downs =>
      (Text.offsets '^' c.path).length + downs.count true

theorem countSteps_cons (x : Char) (cs : List Char) :
    countSteps (x :: cs) =
      (if x = '^' ∨ x = '_' ∧ cs.head? = some '(' then 1 else 0) + countSteps cs := rfl

theorem exists_downs {s : String} (before : String) (cs : List Char) (whole : s = before ++ String.ofList cs) :
    ∃ downs, ((Text.offsetsFrom '_' before.utf8ByteSize cs).mapM fun i =>
        (Text.from? s (i + 1)).map (·.toList.head? == some '(')) = some downs ∧
      (Text.offsetsFrom '^' before.utf8ByteSize cs).length + downs.count true = countSteps cs := by
  induction cs generalizing before with
  | nil => exact ⟨[], rfl, rfl⟩
  | cons x cs ih =>
    have behind : s = before ++ String.singleton x ++ String.ofList cs := by
      rw [whole, String.ofList_cons, String.append_assoc]
    obtain ⟨downs, found, count⟩ := ih _ behind
    rw [String.utf8ByteSize_append, String.utf8ByteSize_singleton] at found count
    rw [countSteps_cons, ← count, Text.offsetsFrom, Text.offsetsFrom]
    by_cases mark : x = '_'
    · -- `_` is one byte, so the next character begins with the byte behind it.
      subst mark
      have next := Text.from?_append (before ++ String.singleton '_') (String.ofList cs)
      rw [← behind, String.utf8ByteSize_append, String.utf8ByteSize_singleton,
        show '_'.utf8Size = 1 from rfl] at next
      refine ⟨(cs.head? == some '(') :: downs, ?_, ?_⟩
      · rw [if_pos rfl, List.mapM_cons, next, found]
        simp
      · simp [List.count_cons, Nat.add_assoc, Nat.add_comm, Nat.add_left_comm]
    · refine ⟨downs, by rw [if_neg mark, found], ?_⟩
      by_cases caret : x = '^' <;> simp [caret, mark, Nat.add_right_comm, Nat.add_comm 1]

/-- Reading on behind a mark never begins inside a character. -/
theorem stepsAtBytes?_eq (c : Context) : c.stepsAtBytes? = some c.steps := by
  have whole : c.path = "" ++ String.ofList c.path.toList := by simp
  obtain ⟨downs, found, count⟩ := exists_downs "" c.path.toList whole
  rw [stepsAtBytes?, Text.offsets, Text.offsets, steps, ← count]
  simp only [String.utf8ByteSize_empty] at found
  rw [found]
  rfl

theorem countSteps_kind {cs : List Char} (opening : '(' ∉ cs) (caret : '^' ∉ cs) (rest : List Char) :
    countSteps (cs ++ ')' :: rest) = countSteps rest := by
  induction cs with
  | nil => simp [countSteps_cons]
  | cons c cs ih =>
    obtain ⟨plain, later⟩ := List.ne_and_not_mem_of_not_mem_cons caret
    obtain ⟨-, open_later⟩ := List.ne_and_not_mem_of_not_mem_cons opening
    have next : (cs ++ ')' :: rest).head? ≠ some '(' := by
      cases cs with
      | nil => simp
      | cons d cs => simpa using (List.ne_and_not_mem_of_not_mem_cons open_later).1.symm
    have no_step : ¬ (c = '^' ∨ c = '_' ∧ (cs ++ ')' :: rest).head? = some '(') := by
      rintro (rfl | ⟨-, opens⟩)
      · exact plain rfl
      · exact next opens
    rw [List.cons_append, countSteps_cons, if_neg no_step, ih open_later later, Nat.zero_add]

end Context

namespace Path

open Context (countSteps countSteps_cons countSteps_kind)

variable {p : Path} {kind top : String} {up down : List String}

/-- The kind has none of the characters that begin a segment or end a step up. -/
def Plain (kind : String) : Prop := '(' ∉ kind.toList ∧ '^' ∉ kind.toList

theorem countSteps_segment (plain : Plain kind) (rest : List Char) :
    countSteps ('(' :: (kind.toList ++ ')' :: rest)) = countSteps rest := by
  rw [countSteps_cons, countSteps_kind plain.1 plain.2]
  simp

theorem countSteps_descent (plain : ∀ kind ∈ down, Plain kind) :
    countSteps (descent down) = down.length := by
  induction down with
  | nil => rfl
  | cons kind down ih =>
    obtain ⟨first, later⟩ := List.forall_mem_cons.mp plain
    have shape : descent (kind :: down) = '_' :: '(' :: (kind.toList ++ ')' :: descent down) := by
      simp [descent]
    rw [shape, countSteps_cons, countSteps_segment first, ih later]
    simp [Nat.add_comm]

theorem countSteps_text (plain : ∀ kind ∈ p.up ++ p.top :: p.down, Plain kind) :
    countSteps p.text.toList = p.length := by
  obtain ⟨up, top, down⟩ := p
  induction up with
  | nil =>
    obtain ⟨first, later⟩ := List.forall_mem_cons.mp plain
    rw [toList_text_nil, countSteps_segment first, countSteps_descent later]
    simp [length]
  | cons kind up ih =>
    obtain ⟨first, later⟩ := List.forall_mem_cons.mp plain
    rw [toList_text_cons, countSteps_segment first, countSteps_cons, ih later]
    simp [length, Nat.add_comm, Nat.add_assoc]

end Path

/-! ### The contexts of a tree -/

namespace Ast

variable {t : Ast} {limits : Limits} {start finish : Nat} {path : Path} {c : Context}

def Plain (t : Ast) : Prop := ∀ n ∈ t.nodes, Path.Plain n.kind

theorem Plain.of_passes (plain : t.Plain) (passes : t.Passes start finish path) :
    ∀ kind ∈ path.up ++ path.top :: path.down, Path.Plain kind :=
  passes.forall_kind Path.Plain (forall_kind Path.Plain plain ⟨by simp, by simp⟩)

theorem Arranged.distance_of_path? (arranged : t.Arranged) (hs : start < t.size)
    (hf : finish < t.size) (found : t.path? limits start finish = some path) :
    t.Distance start finish path.length ∧ path.length ≤ limits.length := by
  obtain ⟨top, up, down, turn, climb, climb'⟩ := arranged.exists_climbs hs hf
  obtain ⟨none_of, some_of⟩ := arranged.path?_of_turn turn climb climb' limits
  have accepted : ¬ t.Refused limits top start finish := fun refused => by
    rw [none_of refused] at found
    cases found
  rw [some_of accepted] at found
  obtain rfl := Option.some.inj found
  have first := arranged.depth_of_climb climb
  have second := arranged.depth_of_climb climb'
  have short : ¬ limits.length < t.depth start + t.depth finish - 2 * t.depth top := fun long =>
    accepted (Or.inr (Or.inl long))
  simp only [Path.length, List.length_map, List.length_reverse]
  exact ⟨arranged.distance_of_turn turn climb climb', by omega⟩

theorem Distance.pos {n : Nat} (distance : t.Distance start finish n) (apart : start ≠ finish) :
    0 < n := by
  obtain ⟨⟨steps, walk, rfl⟩, -⟩ := distance
  cases walk with
  | here => exact (apart rfl).elim
  | up => simp
  | down => simp

theorem steps_of_context? (grown : t.Grown) (plain : t.Plain)
    (found : t.context? limits start finish = some c) :
    t.Distance start finish c.steps ∧ 1 ≤ c.steps ∧ c.steps ≤ limits.length := by
  obtain ⟨path, a, b, way, first, last, rfl⟩ := context?_eq_some_iff.mp found
  obtain ⟨n, present, -⟩ := Option.bind_eq_some_iff.mp first
  obtain ⟨m, present', -⟩ := Option.bind_eq_some_iff.mp last
  have hs := lt_size_of_node? present
  have hf := lt_size_of_node? present'
  have passes := grown.arranged.passes_of_path? hs hf way
  have steps : (Context.mk a path.text b).steps = path.length :=
    Path.countSteps_text (plain.of_passes passes)
  obtain ⟨distance, short⟩ := grown.arranged.distance_of_path? hs hf way
  rw [steps]
  exact ⟨distance, distance.pos (ne_of_path? way), short⟩

/-- The steps of a context are the edges of the shortest walk between its two nodes, so there is at
least one and there are no more than the limit admits. They can be counted in every context, as
what is looked at begins with a whole character. -/
theorem steps_eq_distance (grown : t.Grown) (plain : t.Plain) :
    (∀ limits start finish c, t.context? limits start finish = some c →
      t.Distance start finish c.steps) ∧
    (∀ settings : Settings, ∀ c ∈ t.extract settings,
      1 ≤ c.steps ∧ c.steps ≤ settings.maxLength.toNat) ∧
    ∀ c : Context, c.stepsAtBytes? = some c.steps := by
  refine ⟨?_, ?_, Context.stepsAtBytes?_eq⟩
  · intro limits start finish c found
    exact (steps_of_context? grown plain found).1
  · intro settings c member
    obtain ⟨start, -, finish, -, found⟩ := exists_ends_of_mem_extract member
    exact (steps_of_context? grown plain found).2

/-- The lists of `passes_of_text_of_lists` have `_` at both ends of their kinds. -/
theorem steps_eq_distance_of_lists :
    nestedListTree.Grown ∧ nestedListTree.Plain ∧
      nestedListTree.context? ⟨8, 2⟩ 2 4 = some ⟨"x", "(_name)^(list_)_(_name)", "y"⟩ ∧
      nestedListTree.Distance 2 4 2 := by
  have grown : nestedListTree.Grown :=
    .push (.push (.push (.push (.new _ _) (by decide) _ _) (by decide) _ _) (by decide) _ _)
      (by decide) _ _
  have plain : nestedListTree.Plain := by unfold Plain Path.Plain; decide +kernel
  have found : nestedListTree.context? ⟨8, 2⟩ 2 4 = some ⟨"x", "(_name)^(list_)_(_name)", "y"⟩ := by
    decide +kernel
  have distance := (steps_eq_distance grown plain).1 _ _ _ _ found
  rw [show (Context.mk "x" "(_name)^(list_)_(_name)" "y").steps = 2 by decide +kernel] at distance
  exact ⟨grown, plain, found, distance⟩

end Ast
end LeafPaths
