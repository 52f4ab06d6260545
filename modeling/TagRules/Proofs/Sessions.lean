import TagRules.CommandLine.Run
import TagRules.Proofs.Clauses
import TagRules.Proofs.JsonRecords
import TagRules.Proofs.Tallies

/-!
Commands and their output. A command first finds out what it needs from its rule and its
files, which writes nothing. From then on it cannot fail, unless it reports on activities and
a label is too long for a column. So a command that fails has printed nothing, whatever its
files hold, or else it has broken off such a report behind the heading of the ranking.
-/

namespace TagRules.CommandLine

open Text (byteSize)

variable {α β ε : Type}

namespace Session

variable {session : Session α} {next : α → Session β} {console after : Console} {value : α}
  {failure : Failure} {text : String}

theorem run_bind_ok (h : session.run.run console = (.ok value, after)) :
    (session >>= next).run.run console = (next value).run.run after := by
  rw [ExceptT.run_bind, StateT.run_bind, h]
  rfl

theorem run_bind_error (h : session.run.run console = (.error failure, after)) :
    (session >>= next).run.run console = (.error failure, after) := by
  rw [ExceptT.run_bind, StateT.run_bind, h]
  rfl

@[simp] theorem run_print (line : String) (console : Console) :
    (print line).run.run console = (.ok (), ⟨console.stdout ++ line ++ "\n", console.records⟩) :=
  rfl

@[simp] theorem run_log (records : List Log.Record) (console : Console) :
    (log records).run.run console = (.ok (), ⟨console.stdout, console.records ++ records⟩) :=
  rfl

/-- The session finds something out: its result does not depend on the console, which it
leaves as it is. -/
def Finds (session : Session α) (result : Except Failure α) : Prop :=
  ∀ console, session.run.run console = (result, console)

/-- The session cannot fail, whatever it prints and logs. -/
def Completes (session : Session α) : Prop :=
  ∀ console, ∃ value after, session.run.run console = (.ok value, after)

/-- The session prints the text and then fails with the failure. -/
def Fails (session : Session α) (text : String) (failure : Failure) : Prop :=
  ∀ console, ∃ records,
    session.run.run console = (.error failure, ⟨console.stdout ++ text, records⟩)

/-- The session fails with the failure, and before it prints anything, or else cannot fail. -/
def Needs (session : Session Unit) : Except Failure Unit → Prop
  | .error failure => session.Fails "" failure
  | .ok () => session.Completes

theorem Finds.pure (value : α) : Finds (pure value) (.ok value) :=
  fun _ => rfl

theorem Finds.orFail (failure : ε → Failure) (result : Except ε α) :
    (orFail failure result).Finds (result.mapError failure) := by
  cases result with
  | error error => exact fun _ => rfl
  | ok value => exact fun _ => rfl

theorem Finds.bind {result : Except Failure α} {rest : α → Except Failure β}
    (h : session.Finds result) (hnext : ∀ value, (next value).Finds (rest value)) :
    (session >>= next).Finds (result >>= rest) := by
  intro console
  cases result with
  | error failure => exact run_bind_error (h console)
  | ok value => exact (run_bind_ok (h console)).trans (hnext value console)

theorem Completes.pure (value : α) : Completes (pure value) :=
  fun console => ⟨value, console, rfl⟩

theorem Completes.print (line : String) : (print line).Completes :=
  fun console => ⟨(), _, run_print line console⟩

theorem Completes.log (records : List Log.Record) : (log records).Completes :=
  fun console => ⟨(), _, run_log records console⟩

theorem Completes.bind (h : session.Completes) (hnext : ∀ value, (next value).Completes) :
    (session >>= next).Completes := by
  intro console
  obtain ⟨value, middle, hrun⟩ := h console
  obtain ⟨result, after, hrest⟩ := hnext value middle
  exact ⟨result, after, (run_bind_ok hrun).trans hrest⟩

theorem Completes.printAll (lines : List String) : (printAll lines).Completes := by
  induction lines with
  | nil => exact .pure ()
  | cons line rest ih => exact .bind (.print line) (fun _ => ih)

theorem Completes.foldlM {step : β → α → Session β}
    (hstep : ∀ state item, (step state item).Completes) (items : List α) (state : β) :
    (items.foldlM step state).Completes := by
  induction items generalizing state with
  | nil => exact .pure state
  | cons item rest ih =>
    rw [List.foldlM_cons]
    exact .bind (hstep state item) ih

theorem Completes.of_finds (h : session.Finds (.ok value)) (hnext : (next value).Completes) :
    (session >>= next).Completes := by
  intro console
  rw [run_bind_ok (h console)]
  exact hnext console

theorem Fails.of_finds (h : session.Finds (.ok value)) (hnext : (next value).Fails text failure) :
    (session >>= next).Fails text failure := by
  intro console
  rw [run_bind_ok (h console)]
  exact hnext console

theorem Fails.of_finds_error (h : session.Finds (.error failure)) :
    (session >>= next).Fails "" failure := by
  intro console
  refine ⟨console.records, ?_⟩
  rw [run_bind_error (h console), String.append_empty]

theorem Fails.print {next : Unit → Session β} (line : String) (h : (next ()).Fails text failure) :
    (print line >>= next).Fails (line ++ "\n" ++ text) failure := by
  intro console
  obtain ⟨records, hrest⟩ := h ⟨console.stdout ++ line ++ "\n", console.records⟩
  refine ⟨records, ?_⟩
  rw [run_bind_ok (run_print line console), hrest]
  simp only [String.append_assoc]

theorem Needs.of_finds {next : α → Session Unit} {needed : Except Failure Unit}
    (h : session.Finds (.ok value)) (hnext : (next value).Needs needed) :
    (session >>= next).Needs needed := by
  cases needed with
  | error failure => exact Fails.of_finds h hnext
  | ok => exact Completes.of_finds h hnext

/-- What is found out first decides how a session goes on. -/
theorem Needs.bind {result : Except Failure α} {next : α → Session Unit}
    {rest : α → Except Failure Unit} (h : session.Finds result)
    (hnext : ∀ value, result = .ok value → (next value).Needs (rest value)) :
    (session >>= next).Needs (result >>= rest) := by
  cases result with
  | error failure => exact Fails.of_finds_error h
  | ok value => exact Needs.of_finds h (hnext value rfl)

end Session

open Session

/-- The rule of a text, or the failure to read it. -/
def ruleOf (limits : Limits) (expression : String) : Except Failure Rule :=
  (Rule.parse limits expression).mapError (.invalidRule expression)

/-- What a file holds, or the failure to read or decode it. -/
def contentsOf (files : Files) (role : FileRole) (decoder : Json.Decoder α) (path : String) :
    Except Failure α := do
  let text ← (files path).mapError (.unreadable role path)
  (Json.decode decoder text).mapError (.undecodable role path)

def catalogOf? (files : Files) : Option String → Except Failure (Option Catalog)
  | none => return none
  | some path => return some (← contentsOf files .catalog Catalog.decoder path)

/-- What a command needs of its rule and its files: the first that is not as it should be is
what the command fails with. -/
def Command.needs (limits : Limits) (files : Files) : Command → Except Failure Unit
  | .eval expression _ strict => do
    if strict then let _ ← ruleOf limits expression
  | .explain expression _ catalog json => do
    let _ ← ruleOf limits expression
    unless json do let _ ← catalogOf? files catalog
  | .build _ _ _ => return
  | .keys _ => return
  | .check expression => do
    let _ ← ruleOf limits expression
  | .filter expression path _ => do
    let _ ← ruleOf limits expression
    let _ ← contentsOf files .activities (.list Activity.decoder) path
  | .stats path catalog => do
    let _ ← contentsOf files .activities (.list Activity.decoder) path
    let _ ← catalogOf? files catalog

/-- The command reports on the activities, with labels from the catalog, and breaks off: both
are what its files hold, and some key of an activity has a label of more bytes than a column
can be wide. -/
def Command.BreaksOff (files : Files) (activities : List Activity) (catalog : Option Catalog) :
    Command → Prop
  | .stats path catalogPath =>
    contentsOf files .activities (.list Activity.decoder) path = .ok activities ∧
      catalogOf? files catalogPath = .ok catalog ∧
      ∃ activity ∈ activities, ∃ key ∈ activity.tagKeys,
        65535 < byteSize (labelIn catalog key).toList
  | _ => False

variable {limits : Limits} {files : Files} {environment : String → Option String}
  {words : List String} {activities : List Activity} {catalog : Option Catalog}

/-- What has been written to a file is found in it. -/
theorem contentsOf_of_written {role : FileRole} {decoder : Json.Decoder α} {path : String}
    {encode : α → Json.Value} {item : α} (h : decoder.Undoes encode)
    (hfile : files path = .ok (encode item).toCompact) :
    contentsOf files role decoder path = .ok item := by
  have hdecoded := h.decode_toCompact item
  rw [contentsOf, hfile, Outcomes.mapError_ok]
  exact Outcomes.mapError_eq_ok_iff.2 hdecoded

/-- The computation fails only where input is refused, which has a status of its own. -/
def Refuses (result : Except Failure α) : Prop :=
  ∀ failure, result = .error failure → failure.status = 1

theorem Refuses.ok (value : α) : Refuses (.ok value) :=
  fun _ h => by cases h

theorem Refuses.mapError {convert : ε → Failure} (h : ∀ error, (convert error).status = 1)
    (result : Except ε α) : Refuses (result.mapError convert) := by
  intro failure hfailure
  obtain ⟨error, -, rfl⟩ := Outcomes.mapError_eq_error_iff.1 hfailure
  exact h error

theorem Refuses.bind {result : Except Failure α} {rest : α → Except Failure β}
    (h : Refuses result) (hrest : ∀ value, Refuses (rest value)) : Refuses (result >>= rest) := by
  intro failure hfailure
  rcases Outcomes.bind_eq_error_iff.1 hfailure with hfirst | ⟨value, -, hnext⟩
  · exact h failure hfirst
  · exact hrest value failure hnext

theorem refuses_ruleOf (limits : Limits) (expression : String) :
    Refuses (ruleOf limits expression) :=
  .mapError (fun _ => rfl) _

theorem refuses_contentsOf (files : Files) (role : FileRole) (decoder : Json.Decoder α)
    (path : String) : Refuses (contentsOf files role decoder path) :=
  .bind (.mapError (fun _ => rfl) _) (fun _ => .mapError (fun _ => rfl) _)

theorem refuses_catalogOf? (files : Files) (path : Option String) :
    Refuses (catalogOf? files path) := by
  cases path with
  | none => exact .ok none
  | some path => exact .bind (refuses_contentsOf files .catalog _ path) (fun _ => .ok _)

theorem Command.refuses_needs (limits : Limits) (files : Files) (command : Command) :
    Refuses (command.needs limits files) := by
  cases command with
  | eval expression tags strict =>
    cases strict with
    | false => exact .ok ()
    | true => exact .bind (refuses_ruleOf limits expression) (fun _ => .ok ())
  | explain expression tags catalog json =>
    apply Refuses.bind (refuses_ruleOf limits expression)
    intro _
    cases json with
    | true => exact .ok ()
    | false => exact .bind (refuses_catalogOf? files catalog) (fun _ => .ok ())
  | build all any exclude => exact .ok ()
  | keys expression => exact .ok ()
  | check expression => exact .bind (refuses_ruleOf limits expression) (fun _ => .ok ())
  | filter expression path json =>
    apply Refuses.bind (refuses_ruleOf limits expression)
    intro _
    exact .bind (refuses_contentsOf files .activities _ path) (fun _ => .ok ())
  | stats path catalog =>
    apply Refuses.bind (refuses_contentsOf files .activities _ path)
    intro _
    exact .bind (refuses_catalogOf? files catalog) (fun _ => .ok ())

theorem finds_readRule (limits : Limits) (expression : String) :
    (readRule limits expression).Finds (ruleOf limits expression) :=
  .orFail _ _

theorem finds_readFile (files : Files) (role : FileRole) (decoder : Json.Decoder α)
    (path : String) :
    (readFile files role decoder path).Finds (contentsOf files role decoder path) :=
  .bind (.orFail _ _) (fun _ => .orFail _ _)

theorem finds_readCatalog? (files : Files) (path : Option String) :
    (readCatalog? files path).Finds (catalogOf? files path) := by
  cases path with
  | none => exact .pure none
  | some path => exact .bind (finds_readFile files .catalog _ path) (fun _ => .pure _)

/-- An explanation is refused exactly where the rule is, and for the same reason. -/
theorem explain?_then (limits : Limits) (expression : String) (tags : TagSet)
    (rest : Except Failure β) :
    (do let _ ← (explain? limits expression tags).mapError (.invalidRule expression); rest) =
      (do let _ ← ruleOf limits expression; rest) := by
  have hverdict := map_holds_explain? limits expression tags
  rw [ruleOf]
  cases hexplain : explain? limits expression tags with
  | error error =>
    cases hparse : Rule.parse limits expression with
    | error other =>
      rw [hexplain, hparse] at hverdict
      cases hverdict
      rfl
    | ok rule =>
      rw [hexplain, hparse] at hverdict
      cases hverdict
  | ok explanation =>
    cases hparse : Rule.parse limits expression with
    | error other =>
      rw [hexplain, hparse] at hverdict
      cases hverdict
    | ok rule => rfl

theorem needs_runEval (limits : Limits) (expression : String) (keys : List String)
    (strict : Bool) :
    (runEval limits expression keys strict).Needs
      (Command.needs limits files (.eval expression keys strict)) := by
  have hshow (verdict : Bool) (count : Nat) : Completes (do
      log [⟨.debug, "evaluated rule", [("verdict", .flag verdict), ("tags", .count count)]⟩]
      print (if verdict then "true" else "false")) :=
    .bind (.log _) (fun _ => .print _)
  cases strict with
  | false => exact Completes.bind (.log _) (fun _ => hshow _ _)
  | true => exact .bind (finds_readRule limits expression) (fun rule _ => hshow _ _)

theorem needs_runExplain (limits : Limits) (files : Files) (expression : String)
    (keys : List String) (path : Option String) (json : Bool) :
    (runExplain limits files expression keys path json).Needs
      (Command.needs limits files (.explain expression keys path json)) := by
  rw [Command.needs, ← explain?_then limits expression (TagSet.ofList keys)]
  apply Needs.bind (.orFail _ _)
  intro explanation _
  cases json with
  | true => exact Completes.print _
  | false => exact .bind (finds_readCatalog? files path) (fun _ _ => Completes.printAll _)

theorem run_selectOnce (set : SelectionSet) (selection : Selection) (console : Console) :
    (selectOnce set selection).run.run console =
      (.ok (set.insert selection.key selection.mode), ⟨console.stdout, console.records ++
        ((set.modeOf? selection.key).map (selectedAgain selection)).toList⟩) := by
  rw [selectOnce, SelectionSet.select]
  cases set.modeOf? selection.key with
  | none =>
    rw [Option.map_none, Option.toList_none, List.append_nil]
    rfl
  | some previous => rfl

theorem completes_selectOnce (set : SelectionSet) (selection : Selection) :
    (selectOnce set selection).Completes :=
  fun console => ⟨_, _, run_selectOnce set selection console⟩

theorem completes_runBuild (all any exclude : List String) :
    (runBuild all any exclude).Completes :=
  .bind (.foldlM completes_selectOnce _ _) (fun _ => .print _)

theorem needs_runFilter (limits : Limits) (files : Files) (expression path : String)
    (json : Bool) :
    (runFilter limits files expression path json).Needs
      (Command.needs limits files (.filter expression path json)) := by
  apply Needs.bind (finds_readRule limits expression)
  intro rule _
  apply Needs.bind (finds_readFile files .activities _ path)
  intro activities _
  apply Completes.bind (.log _)
  intro _
  cases json with
  | true => exact .print _
  | false => exact .printAll _

/-- The labels need more than a width exactly where one of them does. -/
theorem lt_labelWidth_iff {width : Nat} :
    width < labelWidth catalog (Activity.frequency activities) ↔
      ∃ activity ∈ activities, ∃ key ∈ activity.tagKeys,
        width < byteSize (labelIn catalog key).toList := by
  rw [← Nat.not_le, labelWidth, foldr_max_le_iff, List.forall_mem_map]
  constructor
  · intro h
    by_contra hnone
    apply h
    rintro ⟨key, count⟩ hpair
    obtain ⟨activity, hactivity, hkey⟩ := List.mem_flatMap.1 (Activity.mem_frequency.1 hpair).1
    exact Nat.not_lt.1 fun hlt => hnone ⟨activity, hactivity, key, hkey, hlt⟩
  · rintro ⟨activity, hactivity, key, hkey, hlt⟩ hall
    have hpair : (key, Activity.countKey key activities) ∈ Activity.frequency activities :=
      Activity.mem_frequency.2 ⟨List.mem_flatMap.2 ⟨activity, hactivity, hkey⟩, rfl⟩
    exact Nat.not_le.2 hlt (hall (key, Activity.countKey key activities) hpair)

theorem finds_columnWidth_of_le {width : Nat} (h : width ≤ 65535) :
    (orFail .tooWide (columnWidth width)).Finds (.ok (.ofNat width)) := by
  rw [columnWidth, if_pos (Nat.lt_succ_of_le h)]
  exact .pure _

theorem finds_columnWidth_of_lt {width : Nat} (h : 65535 < width) :
    (orFail .tooWide (columnWidth width)).Finds (.error (.tooWide width)) := by
  rw [columnWidth, if_neg (Nat.not_lt.2 h)]
  exact .orFail _ _

theorem needs_runStats (limits : Limits) (path : String) (catalogPath : Option String)
    (hwhole : ∀ activities catalog,
      ¬ Command.BreaksOff files activities catalog (.stats path catalogPath)) :
    (runStats files path catalogPath).Needs
      (Command.needs limits files (.stats path catalogPath)) := by
  apply Needs.bind (finds_readFile files .activities _ path)
  intro activities hactivities
  apply Needs.bind (finds_readCatalog? files catalogPath)
  intro catalog hcatalog
  have hwidth : labelWidth catalog (Activity.frequency activities) ≤ 65535 := by
    rw [← Nat.not_lt, lt_labelWidth_iff]
    exact fun hlong => hwhole activities catalog ⟨hactivities, hcatalog, hlong⟩
  apply Completes.bind (.print _)
  intro _
  apply Completes.bind (.print _)
  intro _
  apply Completes.of_finds (finds_columnWidth_of_le hwidth)
  apply Completes.bind (.printAll _)
  intro _
  cases catalog with
  | none => exact .pure ()
  | some catalog => exact .printAll _

theorem Command.needs_run {command : Command}
    (hwhole : ∀ activities catalog, ¬ command.BreaksOff files activities catalog)
    (limits : Limits) : (command.run limits files).Needs (command.needs limits files) := by
  cases command with
  | eval expression tags strict => exact needs_runEval limits expression tags strict
  | explain expression tags catalog json =>
    exact needs_runExplain limits files expression tags catalog json
  | build all any exclude => exact completes_runBuild all any exclude
  | keys expression => exact Completes.printAll _
  | check expression =>
    exact .bind (finds_readRule limits expression) (fun _ _ => Completes.print _)
  | filter expression activities json =>
    exact needs_runFilter limits files expression activities json
  | stats activities catalog => exact needs_runStats limits activities catalog hwhole

/-- A report that breaks off has its count of activities and the heading of its ranking. -/
theorem fails_runStats {path : String} {catalogPath : Option String}
    (h : Command.BreaksOff files activities catalog (.stats path catalogPath)) :
    (runStats files path catalogPath).Fails
      s!"{activities.length} activities\ntag frequency:\n"
      (.tooWide (labelWidth catalog (Activity.frequency activities))) := by
  obtain ⟨hactivities, hcatalog, hlong⟩ := h
  have hfound := finds_readFile files .activities (.list Activity.decoder) path
  have hlabels := finds_readCatalog? files catalogPath
  rw [hactivities] at hfound
  rw [hcatalog] at hlabels
  have htext : s!"{activities.length} activities" ++ "\n" ++ (frequencyHeading ++ "\n" ++ "") =
      s!"{activities.length} activities\ntag frequency:\n" := by
    simp only [String.append_assoc]
    rfl
  rw [← htext]
  apply Fails.of_finds hfound
  apply Fails.of_finds hlabels
  apply Fails.print
  apply Fails.print
  -- The width is not asked for before both lines are out.
  exact .of_finds_error (finds_columnWidth_of_lt (lt_labelWidth_iff.2 hlong))

theorem Command.run_fails {command : Command} (h : command.BreaksOff files activities catalog)
    (limits : Limits) :
    (command.run limits files).Fails s!"{activities.length} activities\ntag frequency:\n"
      (.tooWide (labelWidth catalog (Activity.frequency activities))) := by
  cases command with
  | stats path catalogPath => exact fails_runStats h
  | _ => cases h

theorem Command.needs_of_breaksOff {command : Command}
    (h : command.BreaksOff files activities catalog) : command.needs limits files = .ok () := by
  cases command with
  | stats path catalogPath =>
    obtain ⟨hactivities, hcatalog, -⟩ := h
    rw [needs, hactivities, hcatalog]
    rfl
  | _ => cases h

theorem Command.needs_of_unfailing {command : Command}
    (h : command matches .eval _ _ false | .build _ _ _ | .keys _) :
    command.needs limits files = .ok () := by
  cases command with
  | eval expression tags strict =>
    cases strict with
    | false => rfl
    | true => cases h
  | build all any exclude => rfl
  | keys expression => rfl
  | explain => cases h
  | check => cases h
  | filter => cases h
  | stats => cases h

theorem Command.not_breaksOff_of_unfailing {command : Command}
    (h : command matches .eval _ _ false | .build _ _ _ | .keys _) :
    ¬ command.BreaksOff files activities catalog := by
  intro hbreaks
  cases command with
  | stats => cases h
  | _ => cases hbreaks

namespace Outcome

theorem ofSession_of_fails {session : Session Unit} {text : String} {failure : Failure}
    (h : session.Fails text failure) (level : Log.Level) :
    ∃ records, ofSession level session = ran ⟨text, records⟩ (some failure) := by
  obtain ⟨records, hrun⟩ := h .blank
  refine ⟨Log.atLeast level records, ?_⟩
  rw [ofSession, hrun, Console.blank, String.empty_append]

theorem ofSession_of_completes {session : Session Unit} (h : session.Completes)
    (level : Log.Level) : ∃ console, ofSession level session = ran console none := by
  obtain ⟨value, console, hrun⟩ := h .blank
  refine ⟨⟨console.stdout, Log.atLeast level console.records⟩, ?_⟩
  rw [ofSession, hrun]

section Accepted

variable {invocation : Invocation} (hread : Invocation.read words = .ok invocation)
include hread

theorem ofWords_of_invalid {error : InvalidSetting}
    (hsettings : Settings.ofEnvironment environment = .error error) :
    ofWords environment files words = misconfigured error := by
  rw [ofWords, hread]
  dsimp only
  rw [hsettings]

variable {settings : Settings} (hsettings : Settings.ofEnvironment environment = .ok settings)
include hsettings

theorem ofWords_of_settings :
    ofWords environment files words =
      ofSession (settings.override invocation.overrides).logLevel
        (invocation.command.run (settings.override invocation.overrides).limits files) := by
  rw [ofWords, hread]
  dsimp only
  rw [hsettings]

theorem ofWords_of_breaksOff (h : invocation.command.BreaksOff files activities catalog) :
    ∃ records, ofWords environment files words =
      ran ⟨s!"{activities.length} activities\ntag frequency:\n", records⟩
        (some (.tooWide (labelWidth catalog (Activity.frequency activities)))) := by
  rw [ofWords_of_settings hread hsettings]
  exact ofSession_of_fails (Command.run_fails h _) _

theorem ofWords_of_needs_error {failure : Failure}
    (h : invocation.command.needs (settings.override invocation.overrides).limits files =
      .error failure) :
    ∃ records, ofWords environment files words = ran ⟨"", records⟩ (some failure) := by
  have hwhole (activities : List Activity) (catalog : Option Catalog) :
      ¬ invocation.command.BreaksOff files activities catalog := by
    intro hbreaks
    rw [Command.needs_of_breaksOff hbreaks] at h
    cases h
  have hneeds := Command.needs_run hwhole (settings.override invocation.overrides).limits
  rw [h] at hneeds
  rw [ofWords_of_settings hread hsettings]
  exact ofSession_of_fails hneeds _

theorem ofWords_of_needs_ok
    (h : invocation.command.needs (settings.override invocation.overrides).limits files = .ok ())
    (hwhole : ∀ activities catalog, ¬ invocation.command.BreaksOff files activities catalog) :
    ∃ console, ofWords environment files words = ran console none := by
  have hneeds := Command.needs_run hwhole (settings.override invocation.overrides).limits
  rw [h] at hneeds
  rw [ofWords_of_settings hread hsettings]
  exact ofSession_of_completes hneeds _

end Accepted

theorem stdout_of_usage {reason : Usage} (h : (usage reason).status ≠ 0) :
    (usage reason).stdout = "" := by
  cases reason with
  | help => exact absurd rfl h
  | version => exact absurd rfl h
  | _ => rfl

theorem stdout_of_status_ne_zero
    (hwhole : ∀ invocation settings activities catalog, Invocation.read words = .ok invocation →
      Settings.ofEnvironment environment = .ok settings →
      ¬ invocation.command.BreaksOff files activities catalog)
    (h : (ofWords environment files words).status ≠ 0) :
    (ofWords environment files words).stdout = "" := by
  cases hread : Invocation.read words with
  | error reason =>
    have houtcome : ofWords environment files words = usage reason := by rw [ofWords, hread]
    rw [houtcome] at h ⊢
    exact stdout_of_usage h
  | ok invocation =>
    cases hsettings : Settings.ofEnvironment environment with
    | error error => rw [ofWords_of_invalid hread hsettings, stdout]
    | ok settings =>
      cases hneeds : Command.needs (settings.override invocation.overrides).limits files
          invocation.command with
      | error failure =>
        obtain ⟨records, houtcome⟩ := ofWords_of_needs_error hread hsettings hneeds
        rw [houtcome, stdout]
      | ok =>
        obtain ⟨console, houtcome⟩ := ofWords_of_needs_ok hread hsettings hneeds
          (fun activities catalog => hwhole invocation settings activities catalog hread hsettings)
        rw [houtcome] at h
        exact absurd rfl h

/-- A run that does not succeed has printed nothing, unless it reports on activities that have
a key whose label is too long for a column. Then it breaks off, with a status of its own, and
behind two lines that it has printed. -/
theorem failing_runs_print_iff_breaksOff (environment : String → Option String) (files : Files)
    (words : List String) :
    let outcome := ofWords environment files words
    (outcome.status ≠ 0 ∧ outcome.stdout ≠ "" ↔ ∃ invocation settings activities catalog,
      Invocation.read words = .ok invocation ∧
        Settings.ofEnvironment environment = .ok settings ∧
        invocation.command.BreaksOff files activities catalog) ∧
    ∀ invocation, Invocation.read words = .ok invocation →
      (∀ error, Settings.ofEnvironment environment = .error error →
        outcome = misconfigured error ∧ outcome.status = 2 ∧ outcome.stdout = "") ∧
      ∀ settings, Settings.ofEnvironment environment = .ok settings →
        let limits := (settings.override invocation.overrides).limits
        (∀ failure, invocation.command.needs limits files = .error failure →
          outcome.status = 1 ∧ ∃ records, outcome = ran ⟨"", records⟩ (some failure)) ∧
        (∀ activities catalog, invocation.command.BreaksOff files activities catalog →
          outcome.status = 101 ∧ ∃ records, outcome =
            ran ⟨s!"{activities.length} activities\ntag frequency:\n", records⟩
              (some (.tooWide (labelWidth catalog (Activity.frequency activities))))) ∧
        (invocation.command.needs limits files = .ok () →
          (∀ activities catalog, ¬ invocation.command.BreaksOff files activities catalog) →
          outcome.status = 0 ∧ ∃ console, outcome = ran console none) ∧
        (invocation.command matches .eval _ _ false | .build _ _ _ | .keys _ →
          outcome.status = 0) := by
  intro outcome
  constructor
  · constructor
    · rintro ⟨hstatus, hstdout⟩
      by_contra hnone
      apply hstdout
      apply stdout_of_status_ne_zero _ hstatus
      intro invocation settings activities catalog hread hsettings hbreaks
      exact hnone ⟨invocation, settings, activities, catalog, hread, hsettings, hbreaks⟩
    · rintro ⟨invocation, settings, activities, catalog, hread, hsettings, hbreaks⟩
      obtain ⟨records, houtcome⟩ := ofWords_of_breaksOff hread hsettings hbreaks
      have hfails : outcome.status = 101 := congrArg status houtcome
      have hprints : outcome.stdout = s!"{activities.length} activities\ntag frequency:\n" :=
        congrArg stdout houtcome
      refine ⟨hfails.trans_ne (by decide), hprints.trans_ne ?_⟩
      simp
  intro invocation hread
  constructor
  · intro error hsettings
    have houtcome : outcome = misconfigured error := ofWords_of_invalid hread hsettings
    exact ⟨houtcome, congrArg status houtcome, congrArg stdout houtcome⟩
  intro settings hsettings limits
  have hsucceeds (hneeds : invocation.command.needs limits files = .ok ())
      (hwhole : ∀ activities catalog, ¬ invocation.command.BreaksOff files activities catalog) :
      outcome.status = 0 ∧ ∃ console, outcome = ran console none := by
    obtain ⟨console, houtcome⟩ := ofWords_of_needs_ok hread hsettings hneeds hwhole
    exact ⟨congrArg status houtcome, console, houtcome⟩
  refine ⟨?_, ?_, hsucceeds, ?_⟩
  · intro failure hneeds
    obtain ⟨records, houtcome⟩ := ofWords_of_needs_error hread hsettings hneeds
    have hstatus := Command.refuses_needs limits files invocation.command failure hneeds
    exact ⟨(congrArg status houtcome).trans hstatus, records, houtcome⟩
  · intro activities catalog hbreaks
    obtain ⟨records, houtcome⟩ := ofWords_of_breaksOff hread hsettings hbreaks
    exact ⟨congrArg status houtcome, records, houtcome⟩
  · intro hunfailing
    exact (hsucceeds (Command.needs_of_unfailing hunfailing)
      (fun _ _ => Command.not_breaksOff_of_unfailing hunfailing)).1

/-- A report on a key of 65536 bytes breaks off behind its second line. A catalog with an entry
that lacks its key is refused before the first line. -/
theorem failing_runs_print_iff_breaksOff_for_long_key :
    let key := String.ofList (List.replicate 65536 'a')
    let files : Files := fun path =>
      if path = "long.json" then .ok (Json.Value.list Activity.encode [.plain "t" [key]]).toCompact
      else if path = "work.json" then .ok "[]" else .ok "[{}]"
    let report := ofWords (fun _ => none) files ["stats", "--activities", "long.json"]
    let refused := ofWords (fun _ => none) files
      ["stats", "--activities", "work.json", "--catalog", "tags.json"]
    report.status = 101 ∧ report.stdout = "1 activities\ntag frequency:\n" ∧
      refused.status = 1 ∧ refused.stdout = "" := by
  have hlong : 65535 < byteSize (String.ofList (List.replicate 65536 'a')).toList := by
    rw [String.toList_ofList]
    exact List.length_replicate.symm.trans_le (Text.length_le_byteSize _)
  generalize String.ofList (List.replicate 65536 'a') = letters at hlong
  intro key files report refused
  have hsettings : Settings.ofEnvironment (fun _ => none) = .ok Settings.standard := rfl
  have hactivities : contentsOf files .activities (.list Activity.decoder) "long.json" =
      .ok [.plain "t" [key]] :=
    contentsOf_of_written Activity.decoder_undoes.list (if_pos rfl)
  obtain ⟨-, hreport⟩ := failing_runs_print_iff_breaksOff (fun _ => none) files
    ["stats", "--activities", "long.json"]
  obtain ⟨-, hends⟩ := hreport ⟨.stats "long.json" none, ⟨none, none, none⟩⟩ rfl
  obtain ⟨-, hbreaks, -, -⟩ := hends _ hsettings
  obtain ⟨hstatus, records, houtcome⟩ := hbreaks [.plain "t" [key]] none
    ⟨hactivities, rfl, _, List.mem_singleton_self _, key, List.mem_singleton_self _, hlong⟩
  obtain ⟨-, hrefused⟩ := failing_runs_print_iff_breaksOff (fun _ => none) files
    ["stats", "--activities", "work.json", "--catalog", "tags.json"]
  obtain ⟨-, hends⟩ := hrefused ⟨.stats "work.json" (some "tags.json"), ⟨none, none, none⟩⟩ rfl
  obtain ⟨hfails, -, -, -⟩ := hends _ hsettings
  obtain ⟨hother, records, hempty⟩ := hfails _ rfl
  have hlines : s!"{1} activities\ntag frequency:\n" = "1 activities\ntag frequency:\n" := by
    decide
  exact ⟨hstatus, (congrArg stdout houtcome).trans hlines, hother, congrArg stdout hempty⟩

end Outcome

end TagRules.CommandLine
