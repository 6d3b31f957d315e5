import LeafPaths.Snippet.Diagnosis
import LeafPaths.Proofs.Cst.Nodes
import LeafPaths.Proofs.Snippet.Violations
import LeafPaths.Proofs.Text.Trim

/-!
The complaint about a tree with an error. The search goes below none but nodes that the parser has
marked; as long as it marks each node with an error at or below it, the search finds what going
through all nodes in pre-order finds.
-/

namespace LeafPaths.Cst

/-- The parser put the node in, or could not place its text. -/
def inError (n : Cst) : Bool := n.info.missing || n.info.erroneous

/-- Every node with an error at or below it is marked. -/
def Marked (t : Cst) : Prop :=
  ∀ n, t.Contains n → ∀ m, n.Contains m → m.inError → n.info.hasError

/-- What is said about a node in error. -/
inductive Reports (code : String) (n : Cst) : (text : String) → Prop where
  | missing (inserted : n.info.missing) : Reports code n ("missing `" ++ n.kind ++ "`")
  | blank (present : ¬ n.info.missing) {text : String} (spans : n.Spans code text)
      (blank : ∀ c ∈ text.toList, Text.isBlank c) : Reports code n "unexpected end of input"
  | short (present : ¬ n.info.missing) {text middle : String} (spans : n.Spans code text)
      (trimmed : Text.Trimmed text middle) (more : middle ≠ "") (fits : middle.length ≤ 32) :
      Reports code n ("unexpected `" ++ middle ++ "`")
  | long (present : ¬ n.info.missing) {text head tail : String} (spans : n.Spans code text)
      (trimmed : Text.Trimmed text (head ++ tail)) (cut : head.length = 32) (more : tail ≠ "") :
      Reports code n ("unexpected `" ++ head ++ "…" ++ "`")

variable {t n : Cst} {code text : String} {bytes : ByteArray}

/-! ### The search -/

theorem complaint?_eq_none_iff : n.complaint? bytes = none ↔ n.inError = false := by
  rw [complaint?, inError]
  cases n.info.missing
  · cases n.info.erroneous
    · simp
    · simp only [Bool.false_eq_true, if_false, if_true]
      split <;> simp
  · simp

theorem Marked.of_child {c : Cst} (marked : t.Marked) (child : c ∈ t.children) : c.Marked :=
  fun n contains => marked n (.step child contains)

/-- Nothing is in error below a node that is passed over. -/
theorem findSome?_eq_none_of_untroubled (marked : t.Marked) (untroubled : ¬ t.troubled) :
    t.nodes.findSome? (fault? bytes) = none := by
  rw [List.findSome?_eq_none_iff]
  intro n member
  rw [fault?, Option.map_eq_none_iff, complaint?_eq_none_iff, ← Bool.not_eq_true]
  intro error
  have flagged := marked t .here n (mem_nodes_iff.mp member) error
  exact untroubled (by simp [troubled, flagged])

/-- What the search does not enter has nothing to find in it. -/
theorem findSome?_troubled {children : List Cst} (marked : ∀ c ∈ children, c.Marked) :
    ((children.filter troubled).flatMap nodes).findSome? (fault? bytes) =
      (children.flatMap nodes).findSome? (fault? bytes) := by
  induction children with
  | nil => rfl
  | cons c later ih =>
    obtain ⟨first, rest⟩ := List.forall_mem_cons.mp marked
    rw [List.filter_cons, List.flatMap_cons, List.findSome?_append, ← ih rest]
    split
    next => rw [List.flatMap_cons, List.findSome?_append]
    next untroubled => rw [findSome?_eq_none_of_untroubled first untroubled, Option.none_or]

theorem firstError?_eq_findSome? (marked : t.Marked) :
    t.firstError? bytes = t.nodes.findSome? (fault? bytes) := by
  have step : ∀ t : Cst, t.Marked → t.nodes.findSome? (fault? bytes) =
      (t.fault? bytes).or
        (((t.children.filter troubled).flatMap nodes).findSome? (fault? bytes)) := by
    intro t marked
    rw [findSome?_troubled fun c child => marked.of_child child, nodes_eq, List.findSome?_cons]
    cases t.fault? bytes <;> rfl
  rw [firstError?, search_eq_findSome? (fun t marked c child => marked.of_child child) step
    fun c member => List.mem_singleton.mp member ▸ marked, List.flatMap_singleton]

theorem diagnose_of_none (marked : t.Marked) (sound : t.nodes.find? inError = none) :
    t.diagnose bytes = .on t .invalid := by
  have found : t.nodes.findSome? (fault? bytes) = none := by
    rw [List.findSome?_eq_none_iff]
    intro n member
    rw [fault?, Option.map_eq_none_iff, complaint?_eq_none_iff]
    simpa using List.find?_eq_none.mp sound n member
  rw [diagnose, firstError?_eq_findSome? marked, found]
  rfl

theorem exists_complaint_of_find? (marked : t.Marked) (first : t.nodes.find? inError = some n) :
    ∃ complaint, n.complaint? bytes = some complaint ∧ t.diagnose bytes = .on n complaint := by
  obtain ⟨error, earlier, later, split, sound⟩ := List.find?_eq_some_iff_append.mp first
  have passed : earlier.findSome? (fault? bytes) = none := by
    rw [List.findSome?_eq_none_iff]
    intro m member
    rw [fault?, Option.map_eq_none_iff, complaint?_eq_none_iff]
    simpa using sound m member
  cases own : n.complaint? bytes with
  | none =>
    rw [complaint?_eq_none_iff, error] at own
    cases own
  | some complaint =>
    refine ⟨complaint, rfl, ?_⟩
    rw [diagnose, firstError?_eq_findSome? marked, split, List.findSome?_append, passed,
      List.findSome?_cons, fault?, own]
    rfl

/-! ### What is said -/

theorem shorten_of_le (fits : text.length ≤ maxQuoted) : shorten text = text :=
  if_neg (Nat.not_lt.mpr fits)

theorem shorten_append {head tail : String} (cut : head.length = maxQuoted) (more : tail ≠ "") :
    shorten (head ++ tail) = head ++ "…" := by
  have longer : maxQuoted < (head ++ tail).length := by
    have rest : 0 < tail.toList.length := List.length_pos_iff.mpr (by simpa using more)
    rw [String.length_append, ← String.length_toList (s := tail)]
    omega
  rw [shorten, if_pos longer, String.toList_append, ← cut, ← String.length_toList, List.take_left,
    String.ofList_toList]

theorem complaint?_of_spans (error : n.inError) (present : ¬ n.info.missing)
    (spans : n.Spans code text) :
    n.complaint? code.toUTF8 =
      if Text.trim text = "" then some .endOfInput
      else some (.unexpected (shorten (Text.trim text))) := by
  have erroneous : n.info.erroneous := by simpa [inError, present] using error
  rw [complaint?, if_neg present, if_pos erroneous, spans.text?_eq, Option.getD_some]
  simp only [String.isEmpty_iff]

theorem Reports.message_eq (reports : n.Reports code text) (error : n.inError)
    {complaint : Complaint} (own : n.complaint? code.toUTF8 = some complaint) :
    text = complaint.message := by
  cases reports with
  | missing inserted =>
    rw [complaint?, if_pos inserted] at own
    obtain rfl := Option.some.inj own
    rfl
  | blank present spans blank =>
    rw [complaint?_of_spans error present spans, if_pos (Text.trim_eq_empty_iff.mpr blank)] at own
    obtain rfl := Option.some.inj own
    rfl
  | short present spans trimmed more fits =>
    rw [complaint?_of_spans error present spans, trimmed.trim_eq, if_neg more,
      shorten_of_le fits] at own
    obtain rfl := Option.some.inj own
    rfl
  | @long present text head tail spans trimmed cut more =>
    have longer : head ++ tail ≠ "" := by simp [more]
    rw [complaint?_of_spans error present spans, trimmed.trim_eq, if_neg longer,
      shorten_append cut more] at own
    obtain rfl := Option.some.inj own
    rw [Complaint.message, ← String.append_assoc]

theorem exists_reports (spans : n.Spans code text) : ∃ said, n.Reports code said := by
  by_cases present : n.info.missing
  · exact ⟨_, .missing present⟩
  · have trimmed := Text.trimmed_trim text
    by_cases nothing : Text.trim text = ""
    · exact ⟨_, .blank present spans (Text.trim_eq_empty_iff.mp nothing)⟩
    · by_cases fits : (Text.trim text).length ≤ 32
      · exact ⟨_, .short present spans trimmed nothing fits⟩
      · have parts : Text.trim text = String.ofList ((Text.trim text).toList.take 32) ++
            String.ofList ((Text.trim text).toList.drop 32) := by
          rw [← String.ofList_append, List.take_append_drop, String.ofList_toList]
        rw [← String.length_toList] at fits
        rw [parts] at trimmed
        refine ⟨_, .long present spans trimmed ?_ ?_⟩
        · simp only [String.length_ofList, List.length_take]
          omega
        · intro none_left
          have rest := congrArg (·.toList.length) none_left
          simp only [String.toList_ofList, List.length_drop, String.toList_empty,
            List.length_nil] at rest
          omega

/-- The complaint about a tree is that about the first node in error, of all its nodes in pre-order,
and where that node begins. If none is, it is about the tree. -/
theorem diagnose_first_in_error (marked : t.Marked)
    (whole : ∀ n, t.Contains n → ∃ text, n.Spans code text) :
    (∀ n, n ∈ t.nodes ↔ t.Contains n) ∧
    (t.nodes.find? inError = none →
      (t.diagnose code.toUTF8).shown = t.shows "invalid syntax") ∧
    ∀ n, t.nodes.find? inError = some n →
      ∃ text, (∀ said, n.Reports code said ↔ said = text) ∧
        (t.diagnose code.toUTF8).shown = n.shows text := by
  refine ⟨fun n => mem_nodes_iff, ?_, ?_⟩
  · intro sound
    rw [diagnose_of_none marked sound]
    rfl
  · intro n first
    have error : n.inError := List.find?_some first
    obtain ⟨complaint, own, found⟩ := exists_complaint_of_find? marked first
    obtain ⟨text, spans⟩ := whole n (mem_nodes_iff.mp (List.mem_of_find?_eq_some first))
    obtain ⟨said, reports⟩ := exists_reports spans
    have same := reports.message_eq error own
    refine ⟨complaint.message, ?_, by rw [found]; rfl⟩
    intro other
    constructor
    · intro reports'
      exact reports'.message_eq error own
    · rintro rfl
      rwa [same] at reports

/-- Text without a place behind the word `a`: 32 characters of two bytes each, and one more. -/
def accented : String := String.ofList (List.replicate 32 'é')

def accentedCode : String := "a " ++ (accented ++ "b")

def markedAt (kind : String) (erroneous : Bool) (firstByte endByte : Nat) (children : List Cst) : Cst :=
  .node ⟨kind, true, false, false, erroneous, true, firstByte, endByte, 0, firstByte, none⟩ children

def accentedCst : Cst :=
  markedAt "module" false 0 67
    [markedAt "expression_statement" false 0 1 [markedAt "identifier" false 0 1 []],
      markedAt "ERROR" true 2 67 []]

theorem diagnose_first_in_error_of_accented :
    accentedCst.Marked ∧ (∀ n, accentedCst.Contains n → ∃ text, n.Spans accentedCode text) ∧
      (accentedCst.diagnose accentedCode.toUTF8).shown =
        (1, 3, "unexpected `" ++ accented ++ "…" ++ "`") := by
  have all : ∀ n, accentedCst.Contains n → n ∈ accentedCst.nodes := fun n => mem_nodes_iff.mpr
  have word : ∀ n : Cst, n.info.firstByte = 0 → n.info.endByte = 1 → n.Spans accentedCode "a" :=
    fun n first last => ⟨"", " " ++ (accented ++ "b"), by decide +kernel, first, last⟩
  have error : (markedAt "ERROR" true 2 67 []).Spans accentedCode (accented ++ "b") :=
    ⟨"a ", "", by decide +kernel, rfl, by decide +kernel⟩
  have marked : accentedCst.Marked := by
    intro n contains m _ _
    have flagged : ∀ n ∈ accentedCst.nodes, n.info.hasError = true := by decide
    exact flagged n (all n contains)
  have whole : ∀ n, accentedCst.Contains n → ∃ text, n.Spans accentedCode text := by
    intro n contains
    have listed : n ∈ [accentedCst, markedAt "expression_statement" false 0 1
        [markedAt "identifier" false 0 1 []], markedAt "identifier" false 0 1 [],
        markedAt "ERROR" true 2 67 []] := all n contains
    simp only [List.mem_cons, List.not_mem_nil, or_false] at listed
    rcases listed with rfl | rfl | rfl | rfl
    · exact ⟨accentedCode, "", "", by simp, rfl, by decide +kernel⟩
    · exact ⟨_, word _ rfl rfl⟩
    · exact ⟨_, word _ rfl rfl⟩
    · exact ⟨_, error⟩
  obtain ⟨-, -, first⟩ := diagnose_first_in_error marked whole
  obtain ⟨text, reports, found⟩ := first (markedAt "ERROR" true 2 67 []) rfl
  have trimmed : Text.Trimmed (accented ++ "b") (accented ++ "b") := by
    refine ⟨⟨"", "", by simp, by simp, by simp⟩, ?_, ?_⟩
    · intro c head
      rw [show (accented ++ "b").toList.head? = some 'é' by decide +kernel] at head
      cases head
      decide
    · intro c last
      rw [show (accented ++ "b").toList.getLast? = some 'b' by decide +kernel] at last
      cases last
      decide
  obtain rfl := (reports _).mp (.long (by decide) error trimmed (by decide +kernel) (by decide))
  exact ⟨marked, whole, found⟩

end LeafPaths.Cst
