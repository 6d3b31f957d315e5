import LeafPaths.Proofs.Snippet.Layout
import LeafPaths.Snippet

/-!
The two attempts at a snippet. Which of them counts is told by two tests on the two trees, and when
both fail the fault is that of the first tree: a complaint about one of its nodes.
-/

namespace LeafPaths

namespace Cst

def Sound (t : Cst) : Prop := t.info.hasError = false ∧ t.checkLayout? = none

def refusal? (code : ByteArray) (t : Cst) : Option Fault :=
  if t.info.hasError then some (t.diagnose code) else t.checkLayout?

/-- The fault is a complaint about the node, where the node begins. -/
def Blames (f : Fault) (n : Cst) : Prop := ∃ complaint, f = .on n complaint

variable {t : Cst} {code : ByteArray} {f : Fault}

theorem refusal?_eq_none_iff : t.refusal? code = none ↔ t.Sound := by
  rw [refusal?, Sound]
  cases t.info.hasError <;> simp

theorem sound_iff :
    t.Sound ↔ t.info.hasError = false ∧ t.reached.findSome? layoutFault? = none := by
  rw [Sound, checkLayout?_eq_findSome?]

/-! ### What a fault blames -/

theorem mem_of_mem_lineOpeners {before : Option Cst} {children : List Cst} {c : Cst}
    (member : c ∈ lineOpeners before children) : c ∈ children := by
  induction children generalizing before with
  | nil => cases member
  | cons first later ih =>
    rw [lineOpeners] at member
    split at member
    · rcases List.mem_cons.mp member with rfl | member
      · exact List.mem_cons_self
      · exact List.mem_cons_of_mem _ (ih member)
    · exact List.mem_cons_of_mem _ (ih member)

theorem checkColumns?_blames {column : Option Nat} {before : Option Cst} {children : List Cst}
    (found : checkColumns? column before children = some f) : ∃ c ∈ children, Blames f c := by
  have held : ∀ {column}, checkColumns? (some column) before children = some f →
      ∃ c ∈ children, Blames f c := by
    intro column found
    rw [checkColumns?_some] at found
    obtain ⟨c, first, rfl⟩ := Option.map_eq_some_iff.mp found
    exact ⟨c, mem_of_mem_lineOpeners (List.mem_of_find?_eq_some first), _, rfl⟩
  cases column with
  | some column => exact held found
  | none =>
    rw [checkColumns?_none] at found
    obtain ⟨_, -, found⟩ := Option.bind_eq_some_iff.mp found
    exact held found

theorem layoutFault?_blames (found : t.layoutFault? = some f) : ∃ n, t.Contains n ∧ Blames f n := by
  -- Only the check of columns blames a child; all others blame the node itself.
  have itself : ∀ complaint, some (Fault.on t complaint) = some f →
      ∃ n, t.Contains n ∧ Blames f n := fun complaint same =>
    ⟨t, .here, complaint, (Option.some.inj same).symm⟩
  have child : (∃ c ∈ t.children, Blames f c) → ∃ n, t.Contains n ∧ Blames f n := by
    rintro ⟨c, member, blamed⟩
    exact ⟨c, .step member .here, blamed⟩
  rw [layoutFault?] at found
  split at found
  · exact itself _ found
  split at found
  · exact itself _ found
  split at found
  · exact child (checkColumns?_blames found)
  split at found
  · split at found
    · exact itself _ found
    · exact child (checkColumns?_blames found)
  · cases found

theorem search_blames {look : Cst → Option Fault} {enters : Cst → Bool}
    (each : ∀ n, look n = some f → ∃ m, n.Contains m ∧ Blames f m)
    (found : search look enters [t] = some f) : ∃ n, t.Contains n ∧ Blames f n := by
  obtain ⟨r, member, n, contains, seen⟩ := exists_of_search found
  obtain rfl := List.mem_singleton.mp member
  obtain ⟨m, below, blamed⟩ := each n seen
  exact ⟨m, contains.trans below, blamed⟩

theorem checkLayout?_blames (found : t.checkLayout? = some f) :
    ∃ n, t.Contains n ∧ Blames f n :=
  search_blames (fun _ => layoutFault?_blames) found

theorem firstError?_blames (found : t.firstError? code = some f) :
    ∃ n, t.Contains n ∧ Blames f n := by
  refine search_blames (fun n seen => ⟨n, .here, ?_⟩) found
  obtain ⟨complaint, -, same⟩ := Option.map_eq_some_iff.mp seen
  exact ⟨complaint, same.symm⟩

theorem diagnose_blames (code : ByteArray) (t : Cst) :
    ∃ n, t.Contains n ∧ Blames (t.diagnose code) n := by
  rw [diagnose]
  cases found : t.firstError? code with
  | none => exact ⟨t, .here, .invalid, rfl⟩
  | some f => exact firstError?_blames found

theorem refusal?_blames (refused : t.refusal? code = some f) :
    ∃ n, t.Contains n ∧ Blames f n := by
  rw [refusal?] at refused
  split at refused
  · obtain rfl := Option.some.inj refused
    exact diagnose_blames code t
  · exact checkLayout?_blames refused

end Cst

namespace Grammar

variable {grammar : Grammar} {source : String} {fault : Fault}

/-! ### The attempts -/

theorem parseModule_eq (grammar : Grammar) (code : String) :
    grammar.parseModule code =
      match (grammar code).refusal? code.toUTF8 with
      | some fault => .error fault
      | none => .ok (grammar code) := by
  rw [parseModule, Cst.refusal?]
  cases (grammar code).info.hasError <;> rfl

theorem parseModule_of_sound {code : String} (sound : (grammar code).Sound) :
    grammar.parseModule code = .ok (grammar code) := by
  rw [parseModule_eq, Cst.refusal?_eq_none_iff.mpr sound]

theorem parseModule_of_refused {code : String}
    (refused : (grammar code).refusal? code.toUTF8 = some fault) :
    grammar.parseModule code = .error fault := by
  rw [parseModule_eq, refused]

theorem exists_refusal {code : String} (unsound : ¬ (grammar code).Sound) :
    ∃ fault, (grammar code).refusal? code.toUTF8 = some fault :=
  Option.ne_none_iff_exists'.mp fun sound => unsound (Cst.refusal?_eq_none_iff.mp sound)

theorem parse_of_sound (sound : (grammar source).Sound) :
    grammar.parse source = .ok ⟨grammar source, source, false⟩ := by
  rw [parse, parseModule_of_sound sound]

theorem parse_of_sound_wrapped (unsound : ¬ (grammar source).Sound)
    (sound : (grammar (Snippet.wrap source)).Sound) :
    grammar.parse source =
      .ok ⟨grammar (Snippet.wrap source), Snippet.wrap source, true⟩ := by
  obtain ⟨fault, refused⟩ := exists_refusal unsound
  rw [parse, parseModule_of_refused refused, parseModule_of_sound sound]

theorem parse_of_refused (refused : (grammar source).refusal? source.toUTF8 = some fault)
    (unsound : ¬ (grammar (Snippet.wrap source)).Sound) :
    grammar.parse source = .error fault := by
  obtain ⟨second, refused'⟩ := exists_refusal unsound
  rw [parse, parseModule_of_refused refused, parseModule_of_refused refused']

theorem parse_eq_ok_iff {s : Snippet} :
    grammar.parse source = .ok s ↔
      (grammar source).Sound ∧ s = ⟨grammar source, source, false⟩ ∨
        ¬ (grammar source).Sound ∧ (grammar (Snippet.wrap source)).Sound ∧
          s = ⟨grammar (Snippet.wrap source), Snippet.wrap source, true⟩ := by
  by_cases sound : (grammar source).Sound
  · simp [parse_of_sound sound, sound, eq_comm]
  · by_cases sound' : (grammar (Snippet.wrap source)).Sound
    · simp [parse_of_sound_wrapped sound sound', sound, sound', eq_comm]
    · obtain ⟨fault, refused⟩ := exists_refusal sound
      simp [parse_of_refused refused sound', sound, sound']

theorem parse_eq_error_iff :
    grammar.parse source = .error fault ↔
      ¬ (grammar (Snippet.wrap source)).Sound ∧
        (grammar source).refusal? source.toUTF8 = some fault := by
  constructor
  · intro failed
    by_cases sound : (grammar source).Sound
    · rw [parse_of_sound sound] at failed
      cases failed
    · by_cases sound' : (grammar (Snippet.wrap source)).Sound
      · rw [parse_of_sound_wrapped sound sound'] at failed
        cases failed
      · obtain ⟨first, refused⟩ := exists_refusal sound
        rw [parse_of_refused refused sound'] at failed
        exact ⟨sound', refused.trans (congrArg some (Except.error.inj failed))⟩
  · rintro ⟨unsound, refused⟩
    exact parse_of_refused refused unsound

/-- The second tree counts only if it is sound and the first is not. -/
theorem parse_congr {other : Grammar} (same : other source = grammar source)
    (unused : (grammar source).Sound ∨
      ¬ (grammar (Snippet.wrap source)).Sound ∧ ¬ (other (Snippet.wrap source)).Sound) :
    other.parse source = grammar.parse source := by
  by_cases sound : (grammar source).Sound
  · rw [parse_of_sound sound, parse_of_sound (same ▸ sound), same]
  · obtain ⟨unsound, unsound'⟩ := unused.resolve_left sound
    obtain ⟨fault, refused⟩ := exists_refusal sound
    rw [parse_of_refused refused unsound, parse_of_refused (same ▸ refused) unsound']

/-- The first tree is taken if it is sound, whatever the second; else the second if it is sound;
else the fault is that of the first, and blames one of its nodes. -/
theorem parse_iff_attempts (grammar : Grammar) (source : String) :
    let first := grammar source
    let second := grammar ("def wrapper():\n" ++ source)
    (∀ s, grammar.parse source = .ok s ↔
      first.Sound ∧ s = ⟨first, source, false⟩ ∨
        ¬ first.Sound ∧ second.Sound ∧ s = ⟨second, "def wrapper():\n" ++ source, true⟩) ∧
    (∀ fault, grammar.parse source = .error fault ↔
      ¬ second.Sound ∧ first.refusal? source.toUTF8 = some fault) ∧
    (∀ other : Grammar, other source = first →
      first.Sound ∨ ¬ second.Sound ∧ ¬ (other ("def wrapper():\n" ++ source)).Sound →
        other.parse source = grammar.parse source) ∧
    (∀ fault, grammar.parse source = .error fault →
      ∃ n, first.Contains n ∧ fault.line = n.info.row + 1 ∧ fault.column = n.info.column + 1) := by
  intro first second
  refine ⟨fun s => parse_eq_ok_iff, fun fault => parse_eq_error_iff,
    fun other same unused => parse_congr same unused, ?_⟩
  intro fault failed
  obtain ⟨n, contained, complaint, rfl⟩ := Cst.refusal?_blames (parse_eq_error_iff.mp failed).2
  exact ⟨n, contained, rfl, rfl⟩

end Grammar
end LeafPaths
