import StateText.Proofs.Arranged

/-!
# Both streams

A run writes on two streams as it goes on, and `run` only says what has been written in the end. Its
course has the writes one by one, so that a failure could come behind a text that is already on
standard output. None does: `run_whole` says that a run prints all or nothing, when the command that
shows a state succeeds and what stands on both streams then, and what is reported before a walk is
stopped.
-/

namespace StateText.Command

inductive Write where
  | print (text : String)
  | report (r : Report)

namespace Write

def printed : Write → String
  | print text => text
  | report _ => ""

def reported : Write → List Report
  | print _ => []
  | report r => [r]

end Write

/-- What is written one after the other, and what comes of it. -/
structure Course (α : Type) where
  writes : List Write
  result : Except RunError α

namespace Course

variable {α β : Type}

def printed (c : Course α) : String := String.join (c.writes.map Write.printed)

def reports (c : Course α) : List Report := c.writes.flatMap Write.reported

def outcome (c : Course Unit) : Outcome := ⟨c.reports, c.result.map fun _ => c.printed⟩

/-- A failure ends the course; what has been written stays. -/
protected def bind (c : Course α) (f : α → Course β) : Course β :=
  match c.result with
  | .ok a => ⟨c.writes ++ (f a).writes, (f a).result⟩
  | .error e => ⟨c.writes, .error e⟩

instance : Monad Course where
  pure a := ⟨[], .ok a⟩
  bind := Course.bind

def write (ws : List Write) : Course Unit := ⟨ws, .ok ()⟩

def ofExcept (result : Except RunError α) : Course α := ⟨[], result⟩

theorem bind_of_ok {c : Course α} {a : α} (h : c.result = .ok a) (f : α → Course β) :
    c >>= f = ⟨c.writes ++ (f a).writes, (f a).result⟩ := by
  change c.bind f = _
  rw [Course.bind, h]

theorem bind_of_error {c : Course α} {e : RunError} (h : c.result = .error e)
    (f : α → Course β) : c >>= f = ⟨c.writes, .error e⟩ := by
  change c.bind f = _
  rw [Course.bind, h]

@[simp] theorem ofExcept_ok_bind (a : α) (f : α → Course β) : ofExcept (.ok a) >>= f = f a := rfl

@[simp] theorem ofExcept_error_bind (e : RunError) (f : α → Course β) :
    ofExcept (.error e) >>= f = ofExcept (.error e) := rfl

@[simp] theorem write_bind (ws : List Write) (f : Unit → Course β) :
    write ws >>= f = ⟨ws ++ (f ()).writes, (f ()).result⟩ := rfl

def Silent (c : Course α) : Prop := c.printed = ""

/-- If the course fails, then it has not printed anything. -/
def Whole (c : Course α) : Prop := ∀ e, c.result = .error e → c.Silent

theorem Silent.whole {c : Course α} (h : c.Silent) : c.Whole := fun _ _ => h

theorem silent_ofExcept (result : Except RunError α) : (ofExcept result).Silent := rfl

theorem whole_write (ws : List Write) : (write ws).Whole := fun _ h => nomatch h

@[simp] theorem outcome_write (ws : List Write) : (write ws).outcome =
    ⟨ws.flatMap Write.reported, .ok (String.join (ws.map Write.printed))⟩ := rfl

theorem printed_append (ws : List Write) (c : Course α) :
    (Course.mk (ws ++ c.writes) c.result).printed =
      String.join (ws.map Write.printed) ++ c.printed := by
  rw [printed, List.map_append, String.join_append, printed]

/-- What comes before a course that prints all or nothing must be silent. -/
theorem Silent.bind {c : Course α} (hc : c.Silent) {f : α → Course β} (hf : ∀ a, (f a).Whole) :
    (c >>= f).Whole := by
  intro e he
  cases hresult : c.result with
  | error d =>
    rw [bind_of_error hresult]
    exact hc
  | ok a =>
    rw [bind_of_ok hresult] at he ⊢
    rw [Silent, printed_append, ← printed, hc, hf a e he, String.empty_append]

theorem Silent.outcome_append {c : Course α} (hc : c.Silent) (d : Course Unit) :
    outcome ⟨c.writes ++ d.writes, d.result⟩ =
      ⟨c.reports ++ d.reports, d.result.map fun _ => d.printed⟩ := by
  rw [outcome, reports, List.flatMap_append, printed_append, ← printed, hc, String.empty_append]
  rfl

theorem Whole.stdout_outcome {c : Course Unit} (h : c.Whole) : c.outcome.stdout = c.printed := by
  cases hresult : c.result with
  | ok _ => rw [Outcome.stdout, outcome, hresult]; rfl
  | error e => rw [Outcome.stdout, outcome, hresult]; exact (h e hresult).symm

end Course

open Course Located

def walk (w : Walk) (colored : Bool) : List Located → Course Unit
  | [] => pure ()
  | l :: ls =>
    match l.missing? w.schemas with
    | some e => .ofExcept (.error (.missingSchema e))
    | none => do
      .write ((l.diagnostics w).map fun d => .report (.diagnostic colored d))
      walk w colored ls

/-- The text is written when the walk is over. -/
def showing (s : State) (schemas : Schemas) (mode : FailureStyle) (colored : Bool) :
    Course Unit := do
  walk (.json schemas mode) colored s.arranged.located
  let text ← .ofExcept
    ((s.display schemas mode (if colored then .ansi else .strip)).mapError .missingSchema)
  .write [.print (text ++ "\n")]

def printing (s : State) (name : Option String) (colored : Bool) : Course Unit :=
  if s.outputEntries = [] then .write [.report (.warning colored noOutputs)]
  else
    match name with
    | none => .write ((Entries.sorted s.outputEntries).map fun o => .print (outputLine o.1 o.2))
    | some name =>
      match Entries.get? name s.outputEntries with
      | some o => .write [.print (valueText o ++ "\n")]
      | none => .ofExcept (.error (.unknownOutput name))

def course (env : Environment) (args : Arguments) : Course Unit := do
  let settings ← .ofExcept (readSettings env args)
  let colored := (args.color.getD settings.color).enabled env.terminal
  match args.action with
  | .show statePath schemasPath decodeErrors => do
    let s ← .ofExcept (readState env statePath)
    let schemas ← .ofExcept (readSchemas env schemasPath)
    showing s schemas (decodeErrors.getD settings.decodeErrors) colored
  | .output statePath name => do
    let s ← .ofExcept (readState env statePath)
    printing s name colored

/-- A walk has reported what it has reached, whether it is stopped or not. -/
theorem walk_eq (w : Walk) (colored : Bool) (ls : List Located) :
    walk w colored ls =
      ⟨((reached w.schemas ls).flatMap (Located.diagnostics w)).map fun d =>
          .report (.diagnostic colored d),
        match stopped? w.schemas ls with
        | some e => .error (.missingSchema e)
        | none => .ok ()⟩ := by
  induction ls with
  | nil => rfl
  | cons l ls ih =>
    cases h : l.missing? w.schemas with
    | some e => simp [walk, h, reached, stopped?, Course.ofExcept]
    | none =>
      have hreached : reached w.schemas (l :: ls) = l :: reached w.schemas ls := by
        simp [reached, h]
      have hstopped : stopped? w.schemas (l :: ls) = stopped? w.schemas ls := by
        simp [stopped?, h]
      rw [walk, h, write_bind, ih, hreached, hstopped, List.flatMap_cons, List.map_append]

theorem silent_walk (w : Walk) (colored : Bool) (ls : List Located) :
    (walk w colored ls).Silent := by
  rw [Silent, printed, walk_eq, List.map_map, ← String.toList_inj, String.toList_join]
  exact List.flatMap_eq_nil_iff.2 fun text h => by
    obtain ⟨d, _, rfl⟩ := List.mem_map.1 h
    rfl

theorem reports_walk (w : Walk) (colored : Bool) (ls : List Located) :
    (walk w colored ls).reports =
      ((reached w.schemas ls).flatMap (Located.diagnostics w)).map (.diagnostic colored) := by
  rw [reports, walk_eq, List.flatMap_map, List.map_eq_flatMap]
  rfl

/-! ### Courses and outcomes -/

theorem outcome_showing (s : State) (schemas : Schemas) (mode : FailureStyle) (colored : Bool) :
    (showing s schemas mode colored).outcome = showState s schemas mode colored := by
  set color : Markup.Treatment := if colored then .ansi else .strip
  set w : Walk := .json schemas mode
  have hreports : (walk w colored s.arranged.located).reports =
      (s.shown schemas mode color).2.map (.diagnostic colored) := by
    rw [reports_walk, State.shown, State.format_diagnostics]
  rw [showing]
  cases hdisplay : s.display schemas mode color with
  | error e =>
    have hstopped : stopped? w.schemas s.arranged.located = some e :=
      (State.format_eq_error_iff color.apply).1 hdisplay
    have hresult : (walk w colored s.arranged.located).result = .error (.missingSchema e) := by
      rw [walk_eq, hstopped]
    rw [bind_of_error hresult, showState_of_error colored hdisplay, ← hreports]
    rfl
  | ok text =>
    have hstopped : stopped? w.schemas s.arranged.located = none :=
      State.complete_of_format_eq_ok color.apply hdisplay
    have hresult : (walk w colored s.arranged.located).result = .ok () := by
      rw [walk_eq, hstopped]
    rw [bind_of_ok hresult, (silent_walk w colored s.arranged.located).outcome_append,
      showState_of_ok colored hdisplay, ← hreports]
    change Outcome.mk (_ ++ []) (.ok (String.join [text ++ "\n"])) = _
    rw [List.append_nil, String.join_cons, String.join_nil, String.append_empty]

theorem outcome_printing (s : State) (name : Option String) (colored : Bool) :
    (printing s name colored).outcome = printOutputs s name colored := by
  cases name with
  | none =>
    rw [printOutputs_none, printing]
    split_ifs
    · rfl
    · have hreports : ((Entries.sorted s.outputEntries).map fun o =>
          Write.print (outputLine o.1 o.2)).flatMap Write.reported = [] := by
        simp [List.flatMap_map, Write.reported]
      rw [outcome_write, hreports, List.map_map]
      rfl
  | some name =>
    rw [printOutputs_some, printing]
    cases hget : Entries.get? name s.outputEntries with
    | some o =>
      have hne : s.outputEntries ≠ [] := by
        rintro hnil
        rw [hnil] at hget
        cases hget
      rw [if_neg hne]
      rfl
    | none =>
      split_ifs <;> rfl

variable {env : Environment} {args : Arguments}

/-- A run does what its course leaves. -/
theorem run_eq_outcome_course (env : Environment) (args : Arguments) :
    run env args = (course env args).outcome := by
  rw [run, course]
  cases readSettings env args with
  | error e => rfl
  | ok settings =>
    rw [ofExcept_ok_bind]
    cases args.action with
    | «show» statePath schemasPath decodeErrors =>
      dsimp only
      cases readState env statePath with
      | error e => rfl
      | ok s =>
        cases readSchemas env schemasPath with
        | error e => rfl
        | ok schemas => exact (outcome_showing _ _ _ _).symm
    | output statePath name =>
      dsimp only
      cases readState env statePath with
      | error e => rfl
      | ok s => exact (outcome_printing s name _).symm

theorem whole_showing (s : State) (schemas : Schemas) (mode : FailureStyle) (colored : Bool) :
    (showing s schemas mode colored).Whole :=
  (silent_walk _ _ _).bind fun _ => (silent_ofExcept _).bind fun _ => whole_write _

theorem whole_printing (s : State) (name : Option String) (colored : Bool) :
    (printing s name colored).Whole := by
  unfold printing
  split
  · exact whole_write _
  · split
    · exact whole_write _
    · split
      · exact whole_write _
      · exact (silent_ofExcept _).whole

/-- Whatever is read comes before anything is printed. -/
theorem whole_course (env : Environment) (args : Arguments) : (course env args).Whole := by
  refine (silent_ofExcept _).bind fun settings => ?_
  dsimp only
  split
  · refine (silent_ofExcept _).bind fun s => (silent_ofExcept _).bind fun schemas => ?_
    exact whole_showing _ _ _ _
  · exact (silent_ofExcept _).bind fun s => whole_printing _ _ _

/-! ### The command that shows a state -/

structure Loaded (env : Environment) (args : Arguments) (statePath schemasPath : String) where
  settings : Settings
  state : State
  schemas : Schemas
  settings_eq : readSettings env args = .ok settings
  state_eq : readState env statePath = .ok state
  schemas_eq : readSchemas env schemasPath = .ok schemas

namespace Loaded

variable {statePath schemasPath : String} (l : Loaded env args statePath schemasPath)
  (decodeErrors : Option FailureStyle)

def colored : Bool := (args.color.getD l.settings.color).enabled env.terminal

def style : FailureStyle := decodeErrors.getD l.settings.decodeErrors

def shown : Except MissingSchema String × List Diagnostic :=
  l.state.shown l.schemas (l.style decodeErrors) (if l.colored then .ansi else .strip)

theorem run_show (h : args.action = .show statePath schemasPath decodeErrors) :
    run env args = showState l.state l.schemas (l.style decodeErrors) l.colored := by
  rw [run, l.settings_eq, h]
  dsimp only
  rw [l.state_eq, l.schemas_eq]
  rfl

/-- Only a schema that is missing stops a text. -/
theorem exists_shown_iff : (∃ text, (l.shown decodeErrors).1 = .ok text) ↔
    ∀ i ∈ l.state.arranged.located, i.missing? l.schemas = none := by
  rw [← stopped?_eq_none_iff]
  constructor
  · rintro ⟨text, htext⟩
    exact State.complete_of_format_eq_ok _ htext
  · intro h
    cases hshown : (l.shown decodeErrors).1 with
    | ok text => exact ⟨text, rfl⟩
    | error e =>
      have hstopped : stopped? l.schemas l.state.arranged.located = some e :=
        (State.format_eq_error_iff _).1 hshown
      rw [h] at hstopped
      cases hstopped

theorem run_of_ok {text : String} (haction : args.action = .show statePath schemasPath decodeErrors)
    (h : (l.shown decodeErrors).1 = .ok text) :
    run env args =
      ⟨(l.shown decodeErrors).2.map (.diagnostic l.colored), .ok (text ++ "\n")⟩ := by
  rw [l.run_show decodeErrors haction]
  exact showState_of_ok l.colored h

theorem run_of_error {e : MissingSchema}
    (haction : args.action = .show statePath schemasPath decodeErrors)
    (h : (l.shown decodeErrors).1 = .error e) :
    run env args =
      ⟨(l.shown decodeErrors).2.map (.diagnostic l.colored), .error (.missingSchema e)⟩ := by
  rw [l.run_show decodeErrors haction]
  exact showState_of_error l.colored h

/-- The problems in front of what stops a text. -/
theorem diagnostics_of_error {e : MissingSchema} (h : (l.shown decodeErrors).1 = .error e) :
    ∃ front i behind, l.state.arranged.located = front ++ i :: behind ∧
      (∀ j ∈ front, j.missing? l.schemas = none) ∧ i.missing? l.schemas = some e ∧
      (l.shown decodeErrors).2 =
        front.flatMap (Located.diagnostics (.json l.schemas (l.style decodeErrors))) := by
  have hstopped : stopped? l.schemas l.state.arranged.located = some e :=
    (State.format_eq_error_iff _).1 h
  obtain ⟨front, i, behind, hlocated, hi, hfront⟩ := List.findSome?_eq_some_iff.1 hstopped
  have hreached : reached l.schemas l.state.arranged.located = front := by
    have hstop : reached l.schemas (i :: behind) = [] := by simp [reached, hi]
    rw [hlocated, reached_append, stopped?_eq_none_iff.2 hfront, hstop]
    exact List.append_nil front
  refine ⟨front, i, behind, hlocated, hfront, hi, ?_⟩
  rw [shown, State.shown, State.format_diagnostics]
  exact congrArg _ hreached

end Loaded

def errorLines (colored : Bool) (ds : List Diagnostic) : String :=
  String.join (ds.map fun d => Report.label colored ++ " " ++ d.display ++ "\n")

theorem errorLines_eq (colored : Bool) (ds : List Diagnostic) :
    String.join ((ds.map (Report.diagnostic colored)).map fun r => r.line ++ "\n") =
      errorLines colored ds := by
  rw [errorLines, List.map_map]
  rfl

theorem exists_loaded_of_exitCode {statePath schemasPath : String}
    {decodeErrors : Option FailureStyle}
    (haction : args.action = .show statePath schemasPath decodeErrors)
    (h : (run env args).exitCode = 0) : Nonempty (Loaded env args statePath schemasPath) := by
  rw [run, haction] at h
  cases hsettings : readSettings env args with
  | error e => rw [hsettings] at h; cases h
  | ok settings =>
    rw [hsettings] at h
    dsimp only at h
    cases hstate : readState env statePath with
    | error e => rw [hstate] at h; cases h
    | ok s =>
      rw [hstate] at h
      dsimp only at h
      cases hschemas : readSchemas env schemasPath with
      | error e => rw [hschemas] at h; cases h
      | ok schemas => exact ⟨⟨settings, s, schemas, hsettings, hstate, hschemas⟩⟩

/-- A run prints all or nothing. The command that shows a state succeeds if everything loads and no
schema is missing, whatever cannot be decoded; it prints the text, and a line for each problem. If
a schema is missing, there are lines for the problems of the instances in front of the first one
that needs it, and then one for the schema. -/
theorem run_whole (env : Environment) (args : Arguments) (ofSettings : Settings.Fault → String) :
    (course env args).reports = (run env args).reports ∧
      (course env args).printed = (run env args).stdout ∧
      ((run env args).exitCode = 0 ∨
        (run env args).exitCode = 1 ∧ (course env args).printed = "") ∧
      ∀ statePath schemasPath decodeErrors,
        args.action = .show statePath schemasPath decodeErrors →
        ((run env args).exitCode = 0 ↔ ∃ l : Loaded env args statePath schemasPath,
          ∃ text, (l.shown decodeErrors).1 = .ok text) ∧
        ∀ l : Loaded env args statePath schemasPath,
          ((∃ text, (l.shown decodeErrors).1 = .ok text) ↔
            ∀ i ∈ l.state.arranged.located, i.missing? l.schemas = none) ∧
          (∀ text, (l.shown decodeErrors).1 = .ok text →
            (run env args).exitCode = 0 ∧ (course env args).printed = text ++ "\n" ∧
              (run env args).stderr ofSettings =
                errorLines l.colored (l.shown decodeErrors).2) ∧
          (∀ e, (l.shown decodeErrors).1 = .error e →
            (run env args).exitCode = 1 ∧ (course env args).printed = "" ∧
              ∃ front i behind, l.state.arranged.located = front ++ i :: behind ∧
                (∀ j ∈ front, j.missing? l.schemas = none) ∧ i.missing? l.schemas = some e ∧
                (run env args).stderr ofSettings =
                  errorLines l.colored (front.flatMap
                      (Located.diagnostics (.json l.schemas (l.style decodeErrors)))) ++
                    ("Error: " ++ e.message ++ "\n")) := by
  have hwhole := whole_course env args
  have hrun := run_eq_outcome_course env args
  have hprinted : (course env args).printed = (run env args).stdout := by
    rw [hrun, hwhole.stdout_outcome]
  refine ⟨by rw [hrun]; rfl, hprinted, ?_, fun statePath schemasPath decodeErrors haction => ?_⟩
  · cases hresult : (run env args).result with
    | ok text => exact .inl (by rw [Outcome.exitCode, hresult])
    | error e =>
      refine .inr ⟨by rw [Outcome.exitCode, hresult], ?_⟩
      rw [hprinted, Outcome.stdout, hresult]
  · have hok (l : Loaded env args statePath schemasPath) {text : String}
        (htext : (l.shown decodeErrors).1 = .ok text) := l.run_of_ok decodeErrors haction htext
    have herror (l : Loaded env args statePath schemasPath) {e : MissingSchema}
        (he : (l.shown decodeErrors).1 = .error e) := l.run_of_error decodeErrors haction he
    refine ⟨⟨fun hexit => ?_, fun ⟨l, text, htext⟩ => by rw [hok l htext]; rfl⟩, fun l =>
      ⟨l.exists_shown_iff decodeErrors, fun text htext => ?_, fun e he => ?_⟩⟩
    · obtain ⟨l⟩ := exists_loaded_of_exitCode haction hexit
      cases hshown : (l.shown decodeErrors).1 with
      | ok text => exact ⟨l, text, hshown⟩
      | error e =>
        rw [herror l hshown] at hexit
        cases hexit
    · rw [hprinted, hok l htext]
      refine ⟨rfl, rfl, ?_⟩
      rw [Outcome.stderr, errorLines_eq]
      exact String.append_empty
    · obtain ⟨front, i, behind, hlocated, hfront, hi, hdiagnostics⟩ :=
        l.diagnostics_of_error decodeErrors he
      rw [hprinted, herror l he]
      refine ⟨rfl, rfl, front, i, behind, hlocated, hfront, hi, ?_⟩
      rw [Outcome.stderr, errorLines_eq, hdiagnostics]
      rfl

def Environment.ofFiles (files : Entries String String) : Environment where
  read path := (Entries.get? path files).elim (.error .notFound) .ok
  settingsPath := none
  settingsDirectory := none
  terminal := false

def unreadableFirst : Environment := .ofFiles
  [("s", "\x7b\"modules\":[[[],[[\"managed\",\"t\",\"a\",\"p\",[\x7b\"attributes\":1\x7d]]," ++
      "[\"managed\",\"u\",\"a\",\"p\",[\x7b\x7d]]]]]\x7d"),
    ("c", "\x7b\"providers\":\x7b\"p\":\x7b\"resource_types\":\x7b\"t\":\x7b\x7d\x7d\x7d\x7d\x7d")]

theorem run_whole_unreadable :
    let args : Arguments := ⟨none, none, .show "s" "c" none⟩
    (run unreadableFirst args).exitCode = 1 ∧ (course unreadableFirst args).printed = "" ∧
      (run unreadableFirst args).stderr (fun _ => "") =
        "Error: t.a: object required, got number\n" ++
          "Error: No schema for managed resource type \"u\" in provider \"p\"\n" := by
  intro args
  obtain ⟨schemas, hschemas, hs⟩ : ∃ schemas,
      readSchemas unreadableFirst "c" = .ok schemas ∧
        (readState unreadableFirst "s").toOption.map (fun s =>
          stopped? schemas s.arranged.located) = some (some ⟨"p", .managed, "u"⟩) :=
    exists_of_map_toOption (by decide +kernel)
  obtain ⟨s, hs, hstopped⟩ := exists_of_map_toOption hs
  let l : Loaded unreadableFirst args "s" "c" := ⟨.default, s, schemas, rfl, hs, hschemas⟩
  have hshown : (l.shown none).1 = .error ⟨"p", .managed, "u"⟩ :=
    (State.format_eq_error_iff _).2 hstopped
  obtain ⟨_, _, _, hshow⟩ := run_whole unreadableFirst args fun _ => ""
  obtain ⟨hexit, hprinted, _⟩ := ((hshow "s" "c" none rfl).2 l).2.2 _ hshown
  exact ⟨hexit, hprinted, by decide +kernel⟩

end StateText.Command
