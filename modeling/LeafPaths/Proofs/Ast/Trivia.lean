import LeafPaths.Extraction
import LeafPaths.Proofs.Ast.OfPlace

/-!
Comments and tokens without a role leave no trace in the abstract tree. Which nodes are kept, which
of them carry values and which words are labels is told by the other nodes alone, so a concrete
tree from which some of them are taken has the same abstract tree.
-/

namespace LeafPaths

namespace Cst

/-- A comment, or a token to which the rule of its parent gives no role. -/
structure IsTrivia (c : Cst) : Prop where
  outside : c.info.extra = true ∨ c.named = false
  roleless : c.info.field = none
  plain : c.named = true → c.kind ∉ ["string", "string_content", "interpolation"]

/-- Siblings before and after some trivia were taken from them, the others being related. -/
inductive Thinned (R : Cst → Cst → Prop) : List Cst → List Cst → Prop where
  | nil : Thinned R [] []
  | keep {c d : Cst} {cs ds : List Cst} (related : R c d) (later : Thinned R cs ds) :
      Thinned R (c :: cs) (d :: ds)
  | drop {c : Cst} {cs ds : List Cst} (trivia : c.IsTrivia) (later : Thinned R cs ds) :
      Thinned R (c :: cs) ds

/-- The second tree is the first without some subtrees that begin with trivia. -/
inductive Sheds : Cst → Cst → Prop where
  | node {info : Info} {cs ds : List Cst} (children : Thinned Sheds cs ds) :
      Sheds (.node info cs) (.node info ds)

variable {c d : Cst} {cs ds : List Cst} {p : Info → Bool} {code : ByteArray}

theorem Sheds.info_eq (sheds : c.Sheds d) : d.info = c.info := by
  cases sheds
  rfl

theorem Sheds.children (sheds : c.Sheds d) : Thinned Sheds c.children d.children := by
  cases sheds
  assumption

/-! ### What is blind to trivia -/

theorem Thinned.any_eq (thinned : Thinned Sheds cs ds)
    (blind : ∀ c, IsTrivia c → p c.info = false) :
    ds.any (fun c => p c.info) = cs.any fun c => p c.info := by
  induction thinned with
  | nil => rfl
  | keep related _ ih => rw [List.any_cons, List.any_cons, ih, related.info_eq]
  | drop trivia _ ih => rw [List.any_cons, ih, blind _ trivia, Bool.false_or]

theorem Thinned.forall₂_filter (thinned : Thinned Sheds cs ds)
    (blind : ∀ c, IsTrivia c → p c.info = false) :
    List.Forall₂ Sheds (cs.filter fun c => p c.info) (ds.filter fun c => p c.info) := by
  induction thinned with
  | nil => exact .nil
  | keep related _ ih =>
    rw [List.filter_cons, List.filter_cons, related.info_eq]
    split
    · exact .cons related ih
    · exact ih
  | drop trivia _ ih => rwa [List.filter_cons, blind _ trivia, if_neg Bool.false_ne_true]

theorem IsTrivia.not_kept (trivia : c.IsTrivia) : (c.info.named && !c.info.extra) = false := by
  rcases trivia.outside with extra | anonymous
  · rw [extra, Bool.not_true, Bool.and_false]
  · rw [show c.info.named = false from anonymous, Bool.false_and]

theorem IsTrivia.not_part (trivia : c.IsTrivia) {part : String}
    (isPart : part ∈ ["string", "string_content", "interpolation"]) :
    (c.info.kind == part && c.info.named) = false := by
  rw [Bool.and_eq_false_iff]
  cases named : c.info.named with
  | false => exact Or.inr rfl
  | true =>
    left
    rw [beq_eq_false_iff_ne]
    rintro rfl
    exact trivia.plain named isPart

theorem map_eq_of_forall₂ {α β γ : Type} {R : α → β → Prop} {f : α → γ} {g : β → γ} {as : List α}
    {bs : List β} (related : List.Forall₂ R as bs) (same : ∀ a ∈ as, ∀ b, R a b → g b = f a) :
    bs.map g = as.map f := by
  induction related with
  | nil => rfl
  | cons first _ ih =>
    rw [List.forall_mem_cons] at same
    rw [List.map_cons, List.map_cons, same.1 _ first, ih same.2]

theorem Sheds.mapM_parts_eq (sheds : c.Sheds d) {part : String}
    (isPart : part ∈ ["string", "string_content", "interpolation"]) {f : Cst → Option String}
    (same : ∀ a b, a.Sheds b → f b = f a) :
    (d.namedChildren.filter (·.kind == part)).mapM f =
      (c.namedChildren.filter (·.kind == part)).mapM f := by
  have related := sheds.children.forall₂_filter (p := fun i => i.kind == part && i.named)
    fun _ trivia => trivia.not_part isPart
  have gathered : ∀ as : List Cst, as.mapM f = (as.map f).mapM id := by
    intro as
    rw [List.mapM_map]
    rfl
  rw [namedChildren, namedChildren, List.filter_filter, List.filter_filter, gathered, gathered]
  exact congrArg (List.mapM id) (map_eq_of_forall₂ related fun a _ b => same a b)

theorem Sheds.text?_eq (sheds : c.Sheds d) : d.text? code = c.text? code := by
  rw [text?, text?, sheds.info_eq]

theorem Sheds.quoted?_eq (sheds : c.Sheds d) : d.quoted? code = c.quoted? code := by
  have same : d.namedChildren.any (·.kind == "interpolation") =
      c.namedChildren.any (·.kind == "interpolation") := by
    rw [namedChildren, namedChildren, List.any_filter, List.any_filter]
    apply sheds.children.any_eq (p := fun i => i.named && i.kind == "interpolation")
    intro c trivia
    rw [Bool.and_comm]
    exact trivia.not_part (by decide)
  rw [quoted?, quoted?, same, sheds.mapM_parts_eq (by decide) fun _ _ sheds => sheds.text?_eq]

theorem Sheds.joined?_eq (sheds : c.Sheds d) : d.joined? code = c.joined? code := by
  rw [joined?, joined?, sheds.mapM_parts_eq (by decide) fun _ _ sheds => sheds.quoted?_eq]

end Cst

/-! ### Places -/

namespace Place

structure Step.Sheds (s s' : Step) : Prop where
  parent_eq : s'.parent = s.parent
  left : Cst.Thinned Cst.Sheds s.left s'.left

structure Sheds (p q : Place) : Prop where
  here : p.here.Sheds q.here
  above : List.Forall₂ Step.Sheds p.above q.above

variable {p q : Place} {above above' : List Step} {code : ByteArray}

theorem Sheds.isField_eq (sheds : p.Sheds q) (name : String) : q.isField name = p.isField name := by
  obtain ⟨here, above⟩ := p
  obtain ⟨here', above'⟩ := q
  obtain ⟨same, steps⟩ := sheds
  cases steps with
  | nil => rfl
  | cons step _ =>
    have sole := step.left.any_eq (p := fun i => i.field == some name) fun c trivia => by
      rw [trivia.roleless]
      rfl
    simp only [isField, same.info_eq, bne, ← List.not_any_eq_all_not, sole]

theorem leadsToImport_eq (steps : List.Forall₂ Step.Sheds above above') :
    leadsToImport above' = leadsToImport above := by
  induction steps with
  | nil => rfl
  | cons step _ ih => rw [leadsToImport, leadsToImport, step.parent_eq, ih]

theorem Sheds.isLabel_eq (sheds : p.Sheds q) : q.isLabel = p.isLabel := by
  have sameField := sheds.isField_eq
  obtain ⟨here, above⟩ := p
  obtain ⟨here', above'⟩ := q
  obtain ⟨-, steps⟩ := sheds
  cases steps with
  | nil => rfl
  | cons step later =>
    rw [isLabel, isLabel]
    dsimp only
    rw [step.parent_eq, sameField, sameField, leadsToImport_eq later]

theorem Sheds.value?_eq (sheds : p.Sheds q) : q.value? code = p.value? code := by
  have rules : q.applyRule? code = p.applyRule? code := by
    funext rule
    cases rule with
    | word => rw [applyRule?, applyRule?, sheds.isLabel_eq, sheds.here.text?_eq]
    | text => exact sheds.here.text?_eq
    | fixed value => rfl
    | quoted => exact sheds.here.quoted?_eq
    | joined => exact sheds.here.joined?_eq
  rw [value?, value?, rules, Cst.kind, Cst.kind, sheds.here.info_eq]

theorem forall₂_siblings (parent : Cst.Info) (steps : List.Forall₂ Step.Sheds above above')
    {left left' right right' : List Cst} (before : Cst.Thinned Cst.Sheds left left')
    (after : Cst.Thinned Cst.Sheds right right') :
    List.Forall₂ Sheds ((siblings parent above left right).filter (·.here.kept))
      ((siblings parent above' left' right').filter (·.here.kept)) := by
  -- What is dropped stands among the siblings before those that follow it.
  induction after generalizing left left' with
  | nil => exact .nil
  | @keep c d cs ds related later ih =>
    have rest := ih (.keep related before)
    rw [siblings, siblings, List.filter_cons, List.filter_cons, Cst.kept, Cst.kept, related.info_eq]
    split
    · exact .cons ⟨related, .cons ⟨rfl, before⟩ steps⟩ rest
    · exact rest
  | @drop c cs ds trivia later ih =>
    have rest := ih (.drop trivia before)
    rwa [siblings, List.filter_cons, Cst.kept, trivia.not_kept, if_neg Bool.false_ne_true]

theorem Sheds.keptChildren (sheds : p.Sheds q) :
    List.Forall₂ Sheds p.keptChildren q.keptChildren := by
  rw [Place.keptChildren, Place.keptChildren, sheds.here.info_eq]
  exact forall₂_siblings _ sheds.above .nil sheds.here.children

theorem Sheds.sketch_eq (sheds : p.Sheds q) : q.sketch code = p.sketch code := by
  induction p using induction_on_keptChildren generalizing q with
  | step p ih =>
    have label : q.label code = p.label code := by
      rw [Place.label, Place.label, sheds.value?_eq, Cst.kind, Cst.kind, sheds.here.info_eq]
    have children := Cst.map_eq_of_forall₂ (f := Place.sketch code) sheds.keptChildren
      fun c member _ => ih c member
    rw [Place.sketch_eq, Place.sketch_eq, label, sheds.value?_eq, children]

end Place

namespace Ast

theorem ofPlace_eq_of_sheds {p q : Place} (sheds : p.Sheds q) (code : ByteArray) :
    ofPlace code q = ofPlace code p := by
  have nodes : (ofPlace code q).nodes = (ofPlace code p).nodes := by
    rw [← Array.toList_inj, toList_ofPlace, toList_ofPlace, sheds.sketch_eq]
  exact congrArg Ast.mk nodes

/-- A tree from which trivia are taken has the same abstract tree, and so the same contexts. -/
theorem ofCst_eq_of_sheds {t t' : Cst} (sheds : t.Sheds t') (code : ByteArray) :
    ofCst code t' = ofCst code t ∧
      ∀ settings, (ofCst code t').extract settings = (ofCst code t).extract settings := by
  have same : ofCst code t' = ofCst code t := ofPlace_eq_of_sheds ⟨sheds, .nil⟩ code
  exact ⟨same, fun settings => congrArg (extract · settings) same⟩

def nodeAt (kind : String) (named extra : Bool) (firstByte endByte : Nat) (field : Option String)
    (children : List Cst) : Cst :=
  .node { (default : Cst.Info) with kind, named, extra, firstByte, endByte, field } children

def callOf (arguments : List Cst) : Cst :=
  nodeAt "call" true false 0 15 none
    [nodeAt "identifier" true false 0 1 (some "function") [],
      nodeAt "argument_list" true false 1 15 (some "arguments") arguments]

def keywordArgument : Cst :=
  nodeAt "keyword_argument" true false 2 5 none
    [nodeAt "identifier" true false 2 3 (some "name") [],
      nodeAt "=" false false 3 4 none [],
      nodeAt "integer" true false 4 5 (some "value") []]

def argumentA : Cst := nodeAt "identifier" true false 13 14 none []

def commentedCall : Cst :=
  callOf [nodeAt "(" false false 1 2 none [], keywordArgument, nodeAt "," false false 5 6 none [],
    nodeAt "comment" true true 7 10 none [], argumentA, nodeAt ")" false false 14 15 none []]

theorem sheds_commentedCall : commentedCall.Sheds (callOf [keywordArgument, argumentA]) := by
  have token : ∀ kind firstByte endByte,
      (nodeAt kind false false firstByte endByte none []).IsTrivia := fun _ _ _ =>
    ⟨Or.inr rfl, rfl, nofun⟩
  have comment : (nodeAt "comment" true true 7 10 none []).IsTrivia :=
    ⟨Or.inl rfl, rfl, fun _ => by decide⟩
  have keyword : keywordArgument.Sheds keywordArgument :=
    .node (.keep (.node .nil) (.keep (.node .nil) (.keep (.node .nil) .nil)))
  refine .node (.keep (.node .nil) (.keep (.node ?_) .nil))
  exact .drop (token _ _ _) (.keep keyword (.drop (token _ _ _) (.drop comment
    (.keep (.node .nil) (.drop (token _ _ _) .nil)))))

theorem ofCst_eq_of_sheds_commentedCall :
    commentedCall.Sheds (callOf [keywordArgument, argumentA]) ∧
      (ofCst "f(k=1, # n\n  a)".toUTF8 (callOf [keywordArgument, argumentA])).extract ⟨8, 2, 200⟩ =
        (ofCst "f(k=1, # n\n  a)".toUTF8 commentedCall).extract ⟨8, 2, 200⟩ :=
  ⟨sheds_commentedCall, (ofCst_eq_of_sheds sheds_commentedCall _).2 _⟩

end Ast
end LeafPaths
