import TagRules.CommandLine.Command
import TagRules.CommandLine.Report
import TagRules.CommandLine.Session
import TagRules.Mention
import TagRules.Record
import TagRules.Selection.Set

/-!
Running commands. What a command needs of its rule and its files it finds out before its
first line is printed. Only a report on activities can fail behind that, when a label is too
long for a column.
-/

namespace TagRules.CommandLine

open Session

def readRule (limits : Limits) (expression : String) : Session Rule :=
  orFail (.invalidRule expression) (Rule.parse limits expression)

def readFile {α : Type} (files : Files) (role : FileRole) (decoder : Json.Decoder α)
    (path : String) : Session α := do
  let text ← orFail (.unreadable role path) (files path)
  orFail (.undecodable role path) (Json.decode decoder text)

def readActivities (files : Files) (path : String) : Session (List Activity) :=
  readFile files .activities (.list Activity.decoder) path

def readCatalog? (files : Files) : Option String → Session (Option Catalog)
  | none => return none
  | some path => return some (← readFile files .catalog Catalog.decoder path)

/-- Prints whether a rule matches the tags. A strict run fails on a broken rule, which
otherwise matches nothing. -/
def runEval (limits : Limits) (expression : String) (keys : List String) (strict : Bool) :
    Session Unit := do
  let tags := TagSet.ofList keys
  let verdict ←
    if strict then
      pure ((← readRule limits expression).holds tags)
    else do
      let lenient := evaluate limits expression tags
      log lenient.records
      pure lenient.value
  log [⟨.debug, "evaluated rule", [("verdict", .flag verdict), ("tags", .count tags.size)]⟩]
  print (if verdict then "true" else "false")

/-- Prints why a rule matches the tags or does not. The labels of a catalog are of no
use to the JSON form, which leaves it unread. -/
def runExplain (limits : Limits) (files : Files) (expression : String) (keys : List String)
    (path : Option String) (json : Bool) : Session Unit := do
  let explanation ←
    orFail (.invalidRule expression) (explain? limits expression (TagSet.ofList keys))
  if json then
    print explanation.encode.toIndented
  else
    let catalog ← readCatalog? files path
    printAll (explanationLines catalog explanation)

/-- What is logged when a key that has a mode is selected again. -/
def selectedAgain (selection : Selection) (previous : SelectionMode) : Log.Record :=
  ⟨.warn, "key selected twice; keeping the later mode",
    [("key", .text selection.key), ("previous", .text previous.name),
      ("mode", .text selection.mode.name)]⟩

/-- Selects a key, with a warning if it has been selected before. -/
def selectOnce (set : SelectionSet) (selection : Selection) : Session SelectionSet := do
  let (previous, set) := set.select selection.key selection.mode
  match previous with
  | none => pure ()
  | some previous => log [selectedAgain selection previous]
  return set

/-- Prints the rule that selections ask for. Of two selections of a key the later one
counts, and the groups come in the order of the modes. -/
def runBuild (all any exclude : List String) : Session Unit := do
  let selections := all.map (⟨·, SelectionMode.mustHaveAll⟩) ++ any.map (⟨·, .anyOf⟩) ++
    exclude.map (⟨·, .exclude⟩)
  let set ← selections.foldlM selectOnce SelectionSet.empty
  print set.expression

def runCheck (limits : Limits) (expression : String) : Session Unit := do
  print (← readRule limits expression).canonical

def runFilter (limits : Limits) (files : Files) (expression path : String) (json : Bool) :
    Session Unit := do
  let rule ← readRule limits expression
  let activities ← readActivities files path
  let matched := (Activity.split rule activities).1
  let total := activities.length
  log [⟨.debug, "filtered activities",
    [("matched", .count matched.length), ("total", .count total)]⟩]
  if json then
    print (Json.Value.record [("total", .nat total),
      ("matched", .list Activity.encode matched)]).toIndented
  else
    printAll (matchLines matched total)

/-- Prints how often tags occur and, given a catalog, how many activities are concerned
with each kind. The width of the column of labels is not looked at before the heading has
been printed. -/
def runStats (files : Files) (path : String) (catalogPath : Option String) : Session Unit := do
  let activities ← readActivities files path
  let catalog ← readCatalog? files catalogPath
  print s!"{activities.length} activities"
  print frequencyHeading
  let frequency := Activity.frequency activities
  let width ← orFail .tooWide (columnWidth (labelWidth catalog frequency))
  printAll (frequencyLines catalog width frequency)
  match catalog with
  | none => pure ()
  | some catalog => printAll (distributionLines (Activity.distribution catalog activities))

def Command.run (limits : Limits) (files : Files) : Command → Session Unit
  | .eval expression tags strict => runEval limits expression tags strict
  | .explain expression tags catalog json => runExplain limits files expression tags catalog json
  | .build all any exclude => runBuild all any exclude
  | .keys expression => printAll (mentionedKeys expression)
  | .check expression => runCheck limits expression
  | .filter expression activities json => runFilter limits files expression activities json
  | .stats activities catalog => runStats files activities catalog

inductive Outcome where
  /-- It asks for help, or cannot be understood. -/
  | usage (usage : Usage)
  /-- The environment has an invalid setting. -/
  | misconfigured (error : InvalidSetting)
  /-- A command has run, and failed if there is a failure. -/
  | ran (console : Console) (failure : Option Failure)
  deriving DecidableEq, Repr

namespace Outcome

def status : Outcome → Nat
  | usage .help => 0
  | usage .version => 0
  | usage _ => 2
  | misconfigured _ => 2
  | ran _ (some failure) => failure.status
  | ran _ none => 0

/-- What is written to standard output. -/
def stdout : Outcome → String
  | usage .help => String.join (helpLines.map (· ++ "\n"))
  | usage .version => "0.1.0\n"
  | usage _ => ""
  | misconfigured _ => ""
  | ran console _ => console.stdout

/-- The lines that are written to standard error. -/
def notices : Outcome → List String
  | usage .help => []
  | usage .version => []
  | usage reason => [s!"error: {reason.message}"]
  | misconfigured error => [s!"error: {error.message}"]
  | ran console failure =>
    console.records.map Log.Record.text ++ failure.elim [] Failure.notices

/-- What the run of a command leaves behind, with the records that are grave enough to
be shown. -/
def ofSession (level : Log.Level) (session : Session Unit) : Outcome :=
  let (result, console) := session.run.run .blank
  let shown : Console := ⟨console.stdout, Log.atLeast level console.records⟩
  match result with
  | .ok _ => ran shown none
  | .error failure => ran shown (some failure)

/-- Carries out a command line in an environment. The command line is read first, then
the environment, and only then does the command run. -/
def ofWords (environment : String → Option String) (files : Files) (words : List String) :
    Outcome :=
  match Invocation.read words with
  | .error reason => usage reason
  | .ok invocation =>
    match Settings.ofEnvironment environment with
    | .error error => misconfigured error
    | .ok settings =>
      let settings := settings.override invocation.overrides
      ofSession settings.logLevel (invocation.command.run settings.limits files)

end Outcome

end TagRules.CommandLine
