import Storyboard.Bundled
import Storyboard.Compilation
import Storyboard.Recording

namespace Storyboard.Command

/-- What to do: show how a command is used, or something with the document in a file. -/
inductive Request where
  | help (command : Option String)
  | compile (path : String) (output : Option String)
  | targets (path : String)
  | inspect (path target : String)
  | sample (path : String) (frame : Int)
  deriving DecidableEq, Repr

/-- Why a command line means nothing. -/
inductive UsageFault where
  | unknownOption
  | optionMisuse
  | parameterMissing
  | parameterMalformed
  | usage
  deriving DecidableEq, Repr

/-- Why a command fails. A document that is refused is reported as a bad parameter; any other fault
is passed on. -/
inductive CommandFault where
  | usage (cause : UsageFault)
  | fileNotFound (path : String)
  | nothingFor (target : String)
  | refused (cause : Fault)
  | failed (cause : Fault)
  deriving DecidableEq, Repr

def UsageFault.message : UsageFault → String
  | unknownOption => "There is no such option."
  | optionMisuse => "An option has no value, or one that it does not take."
  | parameterMissing => "A parameter is missing."
  | parameterMalformed => "The frame is not a whole number from zero on."
  | usage => "Expected a command and its arguments."

def CommandFault.message : CommandFault → Option String
  | usage _ => none
  | fileNotFound path => some ("File not found: " ++ path)
  | nothingFor target => some ("No animations for target " ++ quote target)
  | refused cause => cause.message
  | failed cause => cause.message

def stepText : Step → String
  | .key name => name
  | .index n => toString n

def issueText (i : Issue) : String :=
  ".".intercalate (i.place.map stepText) ++ ": " ++ i.kind.name

/-- The wording of a fault and the issues that it lists, a line for each. -/
def CommandFault.lines (f : CommandFault) : List String :=
  match f with
  | usage cause => [cause.message]
  | refused cause | failed cause =>
    match cause.message.toList ++ cause.issues.map issueText with
    | [] => ["The document cannot be processed."]
    | found => found
  | fileNotFound _ | nothingFor _ => f.message.toList

/-- The exit code of a command: two where its input is to blame. -/
def CommandFault.exitCode : CommandFault → UInt32
  | failed _ => 1
  | _ => 2

/-- An option of a command: its long name, its short one if it has one, and whether it takes a
value. -/
structure OptionSpec where
  long : String
  short : Option Char
  takesValue : Bool

/-- The option of every command that asks how the command is used. -/
def helpOption : OptionSpec := ⟨"help", none, false⟩

/-- Options that were given, by long name with their values, and the other arguments. -/
structure Given where
  options : List (String × String)
  arguments : List String

def Given.withArgument (value : String) (g : Given) : Given :=
  { g with arguments := value :: g.arguments }

/-- The parts of an argument around its first equals sign, if it has one. -/
def splitEquals (cs : List Char) : List Char × Option (List Char) :=
  match cs.dropWhile (· != '=') with
  | [] => (cs, none)
  | _ :: value => (cs.takeWhile (· != '='), some value)

/-- How one argument that begins with a dash is understood: the options that it gives, and the name
of one that takes the next argument as its value. -/
def readLong (specs : List OptionSpec) (cs : List Char) :
    Except UsageFault (List (String × String) × Option String) :=
  let (name, value) := splitEquals cs
  match specs.find? fun s => s.long.toList == name, value with
  | none, _ => .error .unknownOption
  | some s, none => .ok (if s.takesValue then ([], some s.long) else ([(s.long, "")], none))
  | some s, some v =>
    if s.takesValue then .ok ([(s.long, String.ofList v)], none) else .error .optionMisuse

/-- The options of a run of short names. The rest of the run is the value of a name that takes
one. -/
def readShort (specs : List OptionSpec) :
    List Char → Except UsageFault (List (String × String) × Option String)
  | [] => .ok ([], none)
  | c :: rest =>
    match specs.find? fun s => s.short == some c with
    | none => .error .unknownOption
    | some s =>
      if s.takesValue then
        .ok (if rest.isEmpty then ([], some s.long) else ([(s.long, String.ofList rest)], none))
      else (readShort specs rest).map fun r => ((s.long, "") :: r.1, r.2)

/-- How one argument is understood: not as an option unless it begins with a dash and goes on. -/
def readArgument (specs : List OptionSpec) (argument : String) :
    Option (Except UsageFault (List (String × String) × Option String)) :=
  match argument.toList with
  | '-' :: '-' :: name => some (readLong specs name)
  | ['-'] => none
  | '-' :: names => some (readShort specs names)
  | _ => none

/-- The options and arguments of a command. After two dashes everything is an argument. -/
def readGiven (specs : List OptionSpec) : List String → Except UsageFault Given
  | [] => .ok ⟨[], []⟩
  | a :: rest =>
    if a == "--" then .ok ⟨[], rest⟩
    else
      match readArgument specs a with
      | none => (readGiven specs rest).map (Given.withArgument a)
      | some (.error e) => .error e
      | some (.ok (found, none)) =>
        (readGiven specs rest).map fun g => { g with options := found ++ g.options }
      | some (.ok (found, some name)) =>
        match rest with
        | [] => .error .optionMisuse
        | value :: rest' =>
          (readGiven specs rest').map fun g =>
            { g with options := found ++ (name, value) :: g.options }

/-- The value of an option, the last one if it was given more than once. -/
def Given.value? (g : Given) (name : String) : Option String :=
  (g.options.reverse.find? fun o => o.1 == name).map Prod.snd

def Given.path (g : Given) : Except UsageFault String :=
  match g.arguments with
  | [] => .error .parameterMissing
  | path :: _ => .ok path

/-- Refuses further arguments. -/
def Given.checkRest (g : Given) : Except UsageFault Unit :=
  if g.arguments.length ≤ 1 then .ok () else .error .usage

def readFrame : Option String → Except UsageFault Int
  | none => .ok 0
  | some text =>
    match Codec.wholeOfText text with
    | .ok n => if n < 0 then .error .parameterMalformed else .ok n
    | .error _ => .error .parameterMalformed

def Given.has (g : Given) (name : String) : Bool := g.options.any fun o => o.1 == name

def ownOption? : String → Option OptionSpec
  | "compile" => some ⟨"output", some 'o', true⟩
  | "inspect" => some ⟨"target", some 't', true⟩
  | "sample" => some ⟨"frame", some 'f', true⟩
  | _ => none

def commands : List String := ["compile", "targets", "inspect", "sample"]

/-- The request of a command with its options and arguments. -/
def request (command : String) (g : Given) : Except UsageFault Request := do
  match command with
  | "compile" =>
    let path ← g.path
    g.checkRest
    return .compile path (g.value? "output")
  | "targets" =>
    let path ← g.path
    g.checkRest
    return .targets path
  | "inspect" =>
    let path ← g.path
    match g.value? "target" with
    | none => throw .parameterMissing
    | some target =>
      g.checkRest
      return .inspect path target
  | "sample" =>
    let frame ← readFrame (g.value? "frame")
    let path ← g.path
    g.checkRest
    return .sample path frame
  | _ => throw .usage

def readRequest (command : String) (arguments : List String) : Except UsageFault Request := do
  if !commands.contains command then throw .usage
  else
    let g ← readGiven ((ownOption? command).toList ++ [helpOption]) arguments
    if g.has "help" then return .help (some command) else request command g

/-- Reads the options in front of a command. Answers whether one asks for help, and the command with
its arguments. -/
def readFront : List String → Except UsageFault (Bool × List String)
  | [] => .ok (false, [])
  | a :: rest =>
    if a == "--" then .ok (false, rest)
    else
      match readArgument [⟨"verbose", some 'v', false⟩, helpOption] a with
      | some (.error e) => .error e
      | some (.ok (found, _)) =>
        (readFront rest).map fun r => (found.any (fun o => o.1 == "help") || r.1, r.2)
      | none => .ok (false, a :: rest)

/-- Reads a whole command line: options for all commands, the name of a command, and its
arguments. -/
def read (arguments : List String) : Except UsageFault Request := do
  match ← readFront arguments with
  | (true, _) => return .help none
  | (false, command :: rest) => readRequest command rest
  | (false, []) => throw .usage

def usageText : Option String → String
  | none => "Usage: [--verbose] COMMAND PATH, where COMMAND is one of " ++ ", ".intercalate commands
  | some command =>
    "Usage: " ++ command ++ " PATH" ++
      match ownOption? command with
      | some o => " --" ++ o.long ++ " VALUE"
      | none => ""

/-- What a command prints, and the disk that it leaves. -/
structure Report where
  output : String
  disk : Disk

/-- Whether a fault of a file means that its path or its content is refused. -/
def isRefusalOfFile : FileFault → Bool
  | .nullInPath _ | .halfInPath _ => true
  | cause => cause.isOfContent

/-- Whether a fault means that the input is refused, as opposed to one that a computation could not
cope with. -/
def isRefusal : Fault → Bool
  | .numeric .value => true
  | .numeric _ => false
  | .notAMapping => false
  | .notAFontName => false
  | .textTooLarge => false
  | .read cause => isRefusalOfFile cause
  | .drawOutsideFrame => false
  | .noOpenFrame => false
  | _ => true

/-- A fault of compilation as the fault of a command. -/
def ofFault : Fault → CommandFault
  | .read (.missing path) => .fileNotFound path
  | f => if isRefusal f then .refused f else .failed f

section

variable {R : Type} [Scalar R]

def line (text : String) : String := text ++ "\n"

def load (s : Studio R) (folder : Place) (path : String) : Except CommandFault (Timeline R) :=
  let effects := EffectLibrary.ofFolders (Bundled.folders folder s.settings.effectsFolder)
  ((s.compileFile folder path).exec ⟨DefinitionStore.empty, effects⟩).1.mapError ofFault

def overview (t : Timeline R) : Json R :=
  let ids := (Address.walk t.objects).filterMap fun o => o.id.filter (· != "")
  .obj [("objects", .arr (ids.map .str)),
    ("targets", .obj (t.targets.map fun c => (c.1, .int c.2)))]

def tracksOf (t : Timeline R) (target : String) : Except CommandFault (Json R) :=
  match t.tracks.filter fun track => track.target == target with
  | [] => .error (.nothingFor target)
  | tracks => .ok (.arr (tracks.map Track.codec.write))

variable [Trig R]

def sampled (s : Studio R) (t : Timeline R) (frame : Int) : Except CommandFault (Json R) :=
  let items : Outcome (List (DrawItem R)) := do
    let renderer ← Renderer.ofTimeline s.settings s.measurer t
    renderer.sampleFrame (.int frame)
  match items with
  | .ok items => .ok (.obj [("frame", .int frame), ("items", .arr (items.map DrawItem.toJson))])
  | .error f => .error (.failed f)

def run (s : Studio R) (folder : Place) (request : Request) : Except CommandFault Report := do
  match request with
  | .help command => return ⟨line (usageText command), s.disk⟩
  | .compile path output =>
    let timeline ← load s folder path
    let j := Timeline.codec.write timeline
    match output.filter (· != "") with
    | some out =>
      let disk ← (s.disk.save (Route.ofPlace folder) out j.document.toUTF8).mapError
        fun cause => .failed (.read cause)
      return ⟨line ("Wrote " ++ Route.shown out), disk⟩
    | none => return ⟨line j.document, s.disk⟩
  | .targets path =>
    let timeline ← load s folder path
    return ⟨line (overview timeline).document, s.disk⟩
  | .inspect path target =>
    let timeline ← load s folder path
    let j ← tracksOf timeline target
    return ⟨line j.document, s.disk⟩
  | .sample path frame =>
    let timeline ← load s folder path
    let j ← sampled s timeline frame
    return ⟨line j.document, s.disk⟩

def runLine (s : Studio R) (folder : Place) (arguments : List String) :
    Except CommandFault Report := do
  let request ← (read arguments).mapError CommandFault.usage
  run s folder request

end

end Storyboard.Command
