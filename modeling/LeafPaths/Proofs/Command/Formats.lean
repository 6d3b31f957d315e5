import LeafPaths.Command.Run
import LeafPaths.Proofs.Dataset.Format

/-!
The two formats of an extraction. Arguments that differ in the format only are accepted alike, the
run fails alike before anything is printed, and what is printed holds the same contexts.
-/

namespace LeafPaths.Command

/-! ### One argument after the other -/

inductive Step where
  | next (pending : Option Flag) (given : Values)
  | help
  | refused
  /-- The two dashes, which nothing may follow. -/
  | last (given : Values)

def Step.of (flags : List Flag) (given : Values) : Option Flag → String → Step
  | some flag, argument =>
    if argument = "--" || (Opening.of? argument).isSome || !flag.kind.accepts argument then .refused
    else .next none ((flag.name, argument) :: given)
  | none, argument =>
    if argument = "--" then .last given
    else
      match (Opening.of? argument).map fun opening => (opening, opening.flag? flags) with
      | none => .refused
      | some (opening, none) => if opening.asksHelp then .help else .refused
      | some (opening, some flag) =>
        if (given.lookup flag.name).isSome then .refused
        else
          match opening.value? with
          | none => .next (some flag) given
          | some value =>
            if flag.kind.accepts value then .next none ((flag.name, value) :: given) else .refused

def Step.resume (flags : List Flag) (rest : List String) : Step → Outcome
  | next pending given => readOptions flags pending given rest
  | help => .help
  | refused => .refused
  | last given => if rest.isEmpty then .values given else .refused

variable {flags : List Flag} {pending : Option Flag} {json lines : Values} {name : String}

theorem readOptions_cons (given : Values) (argument : String) (rest : List String) :
    readOptions flags pending given (argument :: rest) =
      (Step.of flags given pending argument).resume flags rest := by
  cases pending with
  | some flag =>
    rw [readOptions, Step.of]
    split <;> rfl
  | none =>
    rw [readOptions, Step.of]
    split
    · rfl
    cases Opening.of? argument with
    | none => rfl
    | some opening =>
      dsimp only [Option.map_some]
      cases opening.flag? flags with
      | none =>
        dsimp only
        split <;> rfl
      | some flag =>
        dsimp only
        split
        · rfl
        cases opening.value? with
        | none => rfl
        | some value =>
          dsimp only
          split <;> rfl

/-- Arguments are read without a look at those that come after, as long as there are any. -/
theorem readOptions_append (before : List String) (pending : Option Flag) (given : Values) :
    (∃ outcome, (outcome = .help ∨ outcome = .refused) ∧
        ∀ rest ≠ [], readOptions flags pending given (before ++ rest) = outcome) ∨
      ∃ pending' given', ∀ rest ≠ [],
        readOptions flags pending given (before ++ rest) = readOptions flags pending' given' rest := by
  induction before generalizing pending given with
  | nil => exact Or.inr ⟨pending, given, fun _ _ => rfl⟩
  | cons argument before ih =>
    simp only [List.cons_append, readOptions_cons]
    cases Step.of flags given pending argument with
    | next pending' given' => exact ih pending' given'
    | help => exact Or.inl ⟨.help, Or.inl rfl, fun _ _ => rfl⟩
    | refused => exact Or.inl ⟨.refused, Or.inr rfl, fun _ _ => rfl⟩
    | last given' =>
      refine Or.inl ⟨.refused, Or.inr rfl, fun rest more => if_neg ?_⟩
      simp [more]

/-! ### Options that differ in the format -/

structure Values.Twins (json lines : Values) : Prop where
  json_format : json.lookup "format" = some "json"
  lines_format : lines.lookup "format" = some "lines"
  lookup_eq {name : String} : name ≠ "format" → json.lookup name = lines.lookup name

inductive Step.Twins : Step → Step → Prop where
  | next {pending : Option Flag} {json lines : Values} (twins : json.Twins lines)
      (other : ∀ flag ∈ pending, flag.name ≠ "format") :
      Twins (.next pending json) (.next pending lines)
  | help : Twins .help .help
  | refused : Twins .refused .refused
  | last {json lines : Values} (twins : json.Twins lines) : Twins (.last json) (.last lines)

inductive Outcome.Twins : Outcome → Outcome → Prop where
  | values {json lines : Values} (twins : json.Twins lines) : Twins (.values json) (.values lines)
  | help : Twins .help .help
  | refused : Twins .refused .refused

theorem Values.Twins.isSome_lookup (twins : json.Twins lines) (name : String) :
    (json.lookup name).isSome = (lines.lookup name).isSome := by
  by_cases format : name = "format"
  · rw [format, twins.json_format, twins.lines_format]
    rfl
  · rw [twins.lookup_eq format]

theorem Values.Twins.ne_format (twins : json.Twins lines) (absent : ¬ (json.lookup name).isSome) :
    name ≠ "format" := by
  rintro rfl
  rw [twins.json_format] at absent
  exact absent rfl

theorem Values.Twins.cons (twins : json.Twins lines) (other : name ≠ "format") (value : String) :
    Values.Twins ((name, value) :: json) ((name, value) :: lines) where
  json_format := by
    rw [List.lookup_cons, beq_false_of_ne other.symm]
    exact twins.json_format
  lines_format := by
    rw [List.lookup_cons, beq_false_of_ne other.symm]
    exact twins.lines_format
  lookup_eq := by
    intro wanted different
    rw [List.lookup_cons, List.lookup_cons, twins.lookup_eq different]

theorem Values.twins_format (given : Values) :
    Values.Twins (("format", "json") :: given) (("format", "lines") :: given) where
  json_format := rfl
  lines_format := rfl
  lookup_eq := by
    intro wanted different
    rw [List.lookup_cons, List.lookup_cons, beq_false_of_ne different]

/-- Of the options before it, an argument is only affected by which ones are given. -/
theorem Step.twins_of (twins : json.Twins lines) (other : ∀ flag ∈ pending, flag.name ≠ "format")
    (argument : String) :
    Step.Twins (Step.of flags json pending argument) (Step.of flags lines pending argument) := by
  cases pending with
  | some flag =>
    rw [Step.of, Step.of]
    split
    · exact .refused
    · exact .next (twins.cons (other flag rfl) argument) (fun _ => nofun)
  | none =>
    rw [Step.of, Step.of]
    split
    · exact .last twins
    -- A plain word, an option of no such name, an option of the command.
    split
    · exact .refused
    · split
      · exact .help
      · exact .refused
    next opening flag _ =>
      rw [← twins.isSome_lookup]
      split
      · exact .refused
      next absent =>
        have different := twins.ne_format absent
        split
        · exact .next twins (fun f member => by cases member; exact different)
        · split
          · exact .next (twins.cons different _) (fun _ => nofun)
          · exact .refused

theorem Step.Twins.resume {first second : Step} (twins : first.Twins second) {rest : List String}
    (later : ∀ {pending : Option Flag} {json lines : Values}, json.Twins lines →
      (∀ flag ∈ pending, flag.name ≠ "format") →
      Outcome.Twins (readOptions flags pending json rest) (readOptions flags pending lines rest)) :
    Outcome.Twins (first.resume flags rest) (second.resume flags rest) := by
  cases twins with
  | next twins other => exact later twins other
  | help => exact .help
  | refused => exact .refused
  | last twins =>
    rw [Step.resume, Step.resume]
    split
    · exact .values twins
    · exact .refused

theorem readOptions_twins (twins : json.Twins lines) (other : ∀ flag ∈ pending, flag.name ≠ "format")
    (arguments : List String) :
    Outcome.Twins (readOptions flags pending json arguments)
      (readOptions flags pending lines arguments) := by
  induction arguments generalizing pending json lines with
  | nil =>
    cases pending with
    | none => exact .values twins
    | some flag => exact .refused
  | cons argument rest ih =>
    rw [readOptions_cons, readOptions_cons]
    exact (Step.twins_of twins other argument).resume ih

/-! ### The option of the format -/

theorem readOptions_format_pending (flag : Flag) (given : Values) (rest : List String) :
    readOptions flags (some flag) given ("--format" :: rest) = .refused := by
  have opens : (Opening.of? "--format").isSome = true := by decide +kernel
  rw [readOptions, opens, Bool.or_true, Bool.true_or, if_pos rfl]

/-- An option in its long form takes the next argument as its value. -/
theorem readOptions_long {argument name : String} {flag : Flag} (dashes : argument ≠ "--")
    (opens : Opening.of? argument = some (.long name none))
    (known : (Opening.long name none).flag? flags = some flag) (given : Values) (value : String)
    (rest : List String) :
    readOptions flags none given (argument :: value :: rest) =
      if (given.lookup flag.name).isSome || (value = "--" || (Opening.of? value).isSome ||
        !flag.kind.accepts value) then .refused
      else readOptions flags none ((flag.name, value) :: given) rest := by
  rw [readOptions, if_neg dashes, opens]
  dsimp only
  rw [known]
  dsimp only [Opening.value?]
  cases (given.lookup flag.name).isSome with
  | true => rfl
  | false =>
    rw [if_neg Bool.false_ne_true, readOptions, Bool.false_or]

theorem readOptions_format {word : String} {format : Format} (known : Format.of? word = some format)
    (plain : Opening.of? word = none) (given : Values) (rest : List String) :
    readOptions extractFlags none given ("--format" :: word :: rest) =
      if (given.lookup "format").isSome then .refused
      else readOptions extractFlags none (("format", word) :: given) rest := by
  have opens : Opening.of? "--format" = some (.long "format" none) := by decide +kernel
  have flag : (Opening.long "format" none).flag? extractFlags =
      some ⟨"format", some 'f', .format⟩ := rfl
  have other : word ≠ "--" := by
    rintro rfl
    exact absurd plain (by decide +kernel)
  have taken : (word = "--" || (Opening.of? word).isSome ||
      !ValueKind.format.accepts word) = false := by
    simp [other, plain, ValueKind.accepts, known]
  rw [readOptions_long (by decide) opens flag, taken, Bool.or_false]

theorem readOptions_formats (before after : List String) :
    Outcome.Twins (readOptions extractFlags none [] (before ++ "--format" :: "json" :: after))
      (readOptions extractFlags none [] (before ++ "--format" :: "lines" :: after)) := by
  rcases readOptions_append before none [] with ⟨outcome, early, same⟩ | ⟨pending, given, reached⟩
  · rw [same _ (List.cons_ne_nil _ _), same _ (List.cons_ne_nil _ _)]
    rcases early with rfl | rfl
    · exact .help
    · exact .refused
  rw [reached _ (List.cons_ne_nil _ _), reached _ (List.cons_ne_nil _ _)]
  cases pending with
  | some flag =>
    rw [readOptions_format_pending, readOptions_format_pending]
    exact .refused
  | none =>
    have json : Format.of? "json" = some .json := rfl
    have lines : Format.of? "lines" = some .lines := rfl
    rw [readOptions_format json (by decide +kernel), readOptions_format lines (by decide +kernel)]
    split
    · exact .refused
    · exact readOptions_twins (Values.twins_format given) (by simp) after

/-! ### Requests -/

def extractArguments (before : List String) (format : String) (after : List String) : List String :=
  "extract" :: (before ++ "--format" :: format :: after)

theorem Outcome.Twins.requests {first second : Outcome} (twins : first.Twins second) :
    first.request? extractOf = none ∧ second.request? extractOf = none ∨
      first.request? extractOf = some .help ∨
      ∃ input, first.request? extractOf = some (.action (.extract input .json)) ∧
        second.request? extractOf = some (.action (.extract input .lines)) := by
  cases twins with
  | @values json lines twins =>
    refine Or.inr (Or.inr ⟨json.lookup "input", ?_, ?_⟩)
    · rw [request?, extractOf, twins.json_format]
      rfl
    · rw [request?, extractOf, twins.lines_format, twins.lookup_eq (by decide)]
      rfl
  | help => exact Or.inr (Or.inl rfl)
  | refused => exact Or.inl ⟨rfl, rfl⟩

theorem request_formats (before after : List String)
    (extraction : Request.of? (extractArguments before "json" after) ≠ some .help) :
    Request.of? (extractArguments before "json" after) = none ∧
        Request.of? (extractArguments before "lines" after) = none ∨
      ∃ input,
        Request.of? (extractArguments before "json" after) =
            some (.action (.extract input .json)) ∧
          Request.of? (extractArguments before "lines" after) =
            some (.action (.extract input .lines)) := by
  rcases (readOptions_formats before after).requests with refused | help | accepted
  · exact Or.inl refused
  · exact (extraction help).elim
  · exact Or.inr accepted

/-! ### Runs -/

def Host.contexts (host : Host) (input : Option String) : Except Failure (List Context) :=
  match host.settings with
  | .error e => .error (.ofSettings e)
  | .ok settings => extracted host settings input

theorem run_of_extract (host : Host) {arguments : List String} {input : Option String}
    {format : Format} (asked : Request.of? arguments = some (.action (.extract input format))) :
    run host arguments =
      match host.contexts input with
      | .ok contexts => ⟨0, format.print contexts, "", host.files⟩
      | .error failure => fail host.files failure := by
  rw [run, asked, Host.contexts]
  dsimp only
  cases host.settings with
  | error e => rfl
  | ok settings => rfl

theorem decode_json_print (contexts : List Context) :
    (Json.readList Context.read).decode (Format.json.print contexts) = .ok contexts := by
  have newline : Json.Blank (.ofString "\n") := by
    unfold Json.Blank
    decide +kernel
  exact Json.decode_print_append (Json.takes_readList (Context.takes_read 125))
    (Json.writes_list_map Context.writes contexts) (.indented 2) newline

/-- Both runs fail alike; or both succeed, and the lines of the one are those of the records that
are read from the JSON of the other. -/
def Exit.Agree (json lines : Exit) : Prop :=
  (json.code ≠ 0 ∧ lines = json) ∨
    (json.code = 0 ∧ ∃ contexts, (Json.readList Context.read).decode json.stdout = .ok contexts ∧
      lines = { json with
        stdout := String.join (contexts.map fun c =>
          c.start ++ "," ++ c.path ++ "," ++ c.finish ++ "\n") })

theorem agree_of_requests (host : Host) {arguments arguments' : List String} {input : Option String}
    (json : Request.of? arguments = some (.action (.extract input .json)))
    (lines : Request.of? arguments' = some (.action (.extract input .lines))) :
    (run host arguments).Agree (run host arguments') := by
  rw [run_of_extract host json, run_of_extract host lines]
  cases host.contexts input with
  | error failure => exact Or.inl ⟨(by decide : (1 : UInt32) ≠ 0), rfl⟩
  | ok contexts => exact Or.inr ⟨rfl, contexts, decode_json_print contexts, rfl⟩

theorem agree_of_refused (host : Host) {arguments arguments' : List String}
    (json : Request.of? arguments = none) (lines : Request.of? arguments' = none) :
    (run host arguments).Agree (run host arguments') := by
  rw [run, run, json, lines]
  exact Or.inl ⟨(by decide : (2 : UInt32) ≠ 0), rfl⟩

def inputOption (input : Option String) : List String :=
  input.toList.flatMap fun path => ["--input", path]

def takesInput (input : Option String) : Bool :=
  input.all fun path => (Opening.of? path).isNone && ValueKind.path.accepts path

theorem readOptions_input (path : String) (rest : List String) :
    readOptions extractFlags none [] ("--input" :: path :: rest) =
      if takesInput (some path) then readOptions extractFlags none [("input", path)] rest
      else .refused := by
  have opens : Opening.of? "--input" = some (.long "input" none) := by decide +kernel
  have flag : (Opening.long "input" none).flag? extractFlags =
      some ⟨"input", some 'i', .path⟩ := rfl
  have dashes : (Opening.of? "--").isSome = true := by decide +kernel
  have taken : ((path = "--" || (Opening.of? path).isSome || !ValueKind.path.accepts path) : Bool) =
      !takesInput (some path) := by
    by_cases same : path = "--"
    · simp [same, takesInput, dashes]
    · simp [same, takesInput, Bool.not_and]
  rw [readOptions_long (by decide) opens flag, taken]
  cases takesInput (some path) <;> rfl

theorem request_of_input {word : String} {format : Format} (known : Format.of? word = some format)
    (plain : Opening.of? word = none) (input : Option String) :
    Request.of? (extractArguments (inputOption input) word []) =
      if takesInput input then some (.action (.extract input format)) else none := by
  show (readOptions extractFlags none [] (inputOption input ++ ["--format", word])).request?
    extractOf = _
  cases input with
  | none =>
    show (readOptions extractFlags none [] ["--format", word]).request? extractOf = _
    rw [readOptions_format known plain]
    simp [readOptions, Outcome.request?, extractOf, takesInput, known]
  | some path =>
    show (readOptions extractFlags none [] ["--input", path, "--format", word]).request?
      extractOf = _
    rw [readOptions_input]
    split
    · rw [readOptions_format known plain]
      simp [readOptions, Outcome.request?, extractOf, known, List.lookup_cons]
    · rfl

/-- A run succeeds with the contexts that it finds and with no others. -/
theorem prints_iff (host : Host) (input : Option String) (contexts : List Context) :
    ((run host (extractArguments (inputOption input) "json" [])).code = 0 ∧
        (Json.readList Context.read).decode
          (run host (extractArguments (inputOption input) "json" [])).stdout = .ok contexts) ↔
      takesInput input = true ∧ host.contexts input = .ok contexts := by
  have known : Format.of? "json" = some .json := rfl
  have asked := request_of_input known (by decide +kernel) input
  cases taken : takesInput input with
  | false =>
    rw [taken, if_neg Bool.false_ne_true] at asked
    simp [run, asked]
  | true =>
    rw [taken, if_pos rfl] at asked
    rw [run_of_extract host asked]
    cases host.contexts input with
    | error failure => simp [fail]
    | ok found => simp [decode_json_print]

/-- Both formats of an extraction end alike, for an input file or none, and with any options around
the format that do not ask for help. They end well when the arguments name an input in which the
contexts are found, and those are printed. -/
theorem extract_formats_agree (host : Host) :
    (∀ input,
      (run host (extractArguments (inputOption input) "json" [])).Agree
          (run host (extractArguments (inputOption input) "lines" [])) ∧
        ∀ contexts,
          ((run host (extractArguments (inputOption input) "json" [])).code = 0 ∧
              (Json.readList Context.read).decode
                (run host (extractArguments (inputOption input) "json" [])).stdout =
                  .ok contexts) ↔
            takesInput input = true ∧ host.contexts input = .ok contexts) ∧
      ∀ before after, Request.of? (extractArguments before "json" after) ≠ some .help →
        (run host (extractArguments before "json" after)).Agree
          (run host (extractArguments before "lines" after)) := by
  have agree : ∀ before after,
      Request.of? (extractArguments before "json" after) ≠ some .help →
        (run host (extractArguments before "json" after)).Agree
          (run host (extractArguments before "lines" after)) := by
    intro before after extraction
    rcases request_formats before after extraction with ⟨json, lines⟩ | ⟨input, json, lines⟩
    · exact agree_of_refused host json lines
    · exact agree_of_requests host json lines
  have known : Format.of? "json" = some .json := rfl
  refine ⟨fun input => ⟨agree _ _ ?_, prints_iff host input⟩, agree⟩
  rw [request_of_input known (by decide +kernel)]
  split <;> simp

end LeafPaths.Command
