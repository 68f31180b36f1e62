import ToneGraph.CommandLine.Arguments
import ToneGraph.CommandLine.System
import ToneGraph.Graph.Listing
import ToneGraph.Playback.Recording
import ToneGraph.Settings.Yaml
import ToneGraph.Text.Quoted
/-!
# The program

What each task does, given a world to do it in, and what the program says and returns in the end.
-/

namespace ToneGraph.CommandLine

/-- Why a task fails. -/
inductive Failure where
  | unreadableSettings (path : String) (why : FileError)
  | malformedSettings (path : String)
  | unreadableSource (why : FileError)
  | unwritableWave (why : FileError)
  /-- Neither a source nor a file with one is given. -/
  | noSource
  /-- The source cannot be played; the text says where and why. -/
  | rejected (located : String)
  | audio (why : AudioError)
  /-- A wave of no channels never gets to the end of a frame. -/
  | noChannels
  deriving DecidableEq, Repr

namespace Failure

/-- A fault of the audio side as error reports show it. -/
def audioReport : AudioError → String
  | .noOutputDevice => "NoOutputDevice"
  | .deviceConfig reason => "DeviceConfig(" ++ Text.quote reason ++ ")"
  | .streamBuild reason => "StreamBuild(" ++ Text.quote reason ++ ")"
  | .streamPlay reason => "StreamPlay(" ++ Text.quote reason ++ ")"
  | .queueFull => "QueueFull"
  | .alreadyOpen => "AlreadyOpen"

/-- The failure as an error report shows it. -/
def report : Failure → String
  | unreadableSettings path why =>
    "Read \x7b path: " ++ Text.quote path ++ ", source: " ++ why.report ++ " \x7d"
  | malformedSettings path => "Parse \x7b path: " ++ Text.quote path ++ " \x7d"
  | unreadableSource why => why.report
  | unwritableWave why => "IoError(" ++ why.report ++ ")"
  | noSource => Text.quote "provide an expression or --file"
  | rejected located => Text.quote located
  | audio why => audioReport why
  | noChannels => "NoChannels"

/-- The exit code. -/
def code : Failure → UInt8
  | noChannels => 101
  | _ => 1

end Failure

/-- What the program returns and says. -/
structure Outcome where
  code : UInt8
  output : String
  errors : String
  deriving DecidableEq, Repr

/-! ## Settings -/

/-- The settings in a file. -/
def loadSettings [Monad m] (system : System m) (path : String) : m (Except Failure Settings) := do
  match ← system.read path with
  | .error why => return .error (.unreadableSettings path why)
  | .ok text =>
    match Settings.ofYaml? text with
    | some settings => return .ok settings
    | none => return .error (.malformedSettings path)

/-- Where a user keeps settings. -/
def settingsPath (home : String) : String :=
  home ++ "/.sapf/config.yaml"

/-- The settings of an invocation: those of the file it names, else those that the user keeps, else
the default ones. Only a named file must be in order. -/
def chosenSettings [Monad m] (system : System m) (call : Invocation) :
    m (Except Failure Settings) := do
  let settings ←
    match call.config, system.home with
    | some path, _ => loadSettings system path
    | none, some home => do
      let kept ← loadSettings system (settingsPath home)
      pure (.ok (kept.toOption.getD .default))
    | none, none => pure (.ok .default)
  return settings.map fun s => { s with seed := call.seed.getD s.seed }

/-! ## Tasks -/

/-- The samples per second if neither the user nor a file says anything. -/
def defaultSampleRate : UInt32 := 44100

/-- The failure of a source that cannot be played. -/
def runFailure (source : String) : RunError → Failure
  | .rejected why => .rejected (why.locate source)
  | .audio why => .audio why

/-- A source to play: a file goes before an argument. -/
def sourceToPlay [Monad m] (system : System m) (source file : Option String) :
    m (Except Failure String) := do
  match file, source with
  | some path, _ => return (← system.read path).mapError .unreadableSource
  | none, some source => return .ok source
  | none, none => return .error .noSource

/-- The listing of a graph and how much of it is used. -/
def checkReport (settings : Settings) (source : String) : Except Failure String :=
  let rate := settings.sampleRate.getD defaultSampleRate
  let build : BuildSettings :=
    ⟨Float.ofNat rate.toNat, settings.seed, settings.maxDelaySeconds⟩
  match compile build source with
  | .ok g =>
    .ok (g.listing ++ s!"{g.size} nodes, {g.plan.length} evaluated per tick\n")
  | .error why => .error (.rejected (why.locate source))

/-- A text with blanks after it up to a width. -/
def padTo (width : Nat) (text : String) : String :=
  text ++ String.ofList (List.replicate (width - text.length) ' ')

/-- The table of all words of the vocabulary, one a line. -/
def vocabularyReport : String :=
  String.join (vocabulary.map fun w =>
    padTo 12 w.name ++ " " ++ padTo 7 w.category.name ++ " " ++ padTo 28 w.usage ++ " " ++
      w.doc ++ "\n")

/-- Records a source to a file. Nothing is written for a source that cannot be played. -/
def renderTo [Monad m] (system : System m) (settings : Settings) (source out : String)
    (seconds : Float) (sampleRate : UInt32) : m (Except Failure String) := do
  match recordSource settings sampleRate seconds source with
  | .error why => return .error (runFailure source why)
  | .ok wave =>
    match ← system.write out wave.encode with
    | .error why => return .error (.unwritableWave why)
    | .ok () => return if wave.channels = 0 then .error .noChannels else .ok ""

/-- Does a task and gives what it prints. There is no device to play to. -/
def perform [Monad m] (system : System m) (settings : Settings) :
    Task → m (Except Failure String)
  | .play source file _ _ _ => do
    let source ← sourceToPlay system source file
    return source.bind fun _ => .error (.audio .noOutputDevice)
  | .render source out seconds rate =>
    renderTo system settings source out seconds
      ((rate <|> settings.sampleRate).getD defaultSampleRate)
  | .check source => return checkReport settings source
  | .builtins => return .ok vocabularyReport

/-- How the program is called. -/
def usage : String :=
  "usage: [--config FILE] [--seed SEED] TASK\n\n" ++
  "tasks:\n" ++
  "  play [SOURCE] [--file FILE] [--seconds SECONDS] [--volume VOLUME] [--meter]\n" ++
  "  render SOURCE --out FILE [--seconds SECONDS] [--sample-rate RATE]\n" ++
  "  check SOURCE\n" ++
  "  builtins\n"

/-- Runs the program on the words of a command line. -/
def run [Monad m] (system : System m) (words : List String) : m Outcome := do
  match Invocation.ofWords words with
  | .error .help => return ⟨0, usage, ""⟩
  | .error .misuse => return ⟨2, "", usage⟩
  | .ok call =>
    let result ←
      match ← chosenSettings system call with
      | .error why => pure (.error why)
      | .ok settings => perform system settings call.task
    match result with
    | .ok output => return ⟨0, output, ""⟩
    | .error why => return ⟨why.code, "", "Error: " ++ why.report ++ "\n"⟩

end ToneGraph.CommandLine
