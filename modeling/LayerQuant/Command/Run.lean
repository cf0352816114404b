import LayerQuant.Calibration.Summary
import LayerQuant.Command.Arguments
import LayerQuant.Config.Reader
import LayerQuant.Graph.Reader
import LayerQuant.Pipeline.Document
import LayerQuant.Pipeline.Quantizer

/-!
# Running a command

A command reads files through a function that it is given, prints messages, and may end with a
failure. A quiet run prints nothing but a report that was asked for as JSON.
-/

namespace LayerQuant

/-- How much is printed. -/
inductive Verbosity where
  | quiet
  | normal
  | verbose
deriving DecidableEq, Repr

namespace Verbosity

/-- The name of a verbosity. -/
def name : Verbosity → String
  | quiet => "Quiet"
  | normal => "Normal"
  | verbose => "Verbose"

/-- The filter for diagnostics. -/
def filter : Verbosity → String
  | quiet => "error"
  | normal => "warn"
  | verbose => "quantcal=debug"

/-- Whether a message for the given verbosity is printed. -/
def prints (verbosity required : Verbosity) : Bool :=
  verbosity != quiet && (verbosity == required || required == normal)

/-- The message, if it is printed. -/
def message (verbosity required : Verbosity) (text : String) : List String :=
  if verbosity.prints required then [text] else []

end Verbosity

/-- The verbosity that the flags ask for. -/
def Arguments.verbosity (arguments : Arguments) : Verbosity :=
  if arguments.quiet then .quiet else if arguments.verbose then .verbose else .normal

/-- What a command printed, and how it failed if it did. -/
structure Outcome where
  messages : List String := []
  failure : Option String := none

namespace Outcome

/-- The printed text. -/
def output (outcome : Outcome) : String := String.join (outcome.messages.map (· ++ "\n"))

/-- A command that printed something and failed. -/
def failed (messages : List String) (failure : String) : Outcome := ⟨messages, some failure⟩

end Outcome

namespace Command

/-- Shows a snapshot. -/
def inspect (verbosity : Verbosity) (path : String) (content : FileContent) : Outcome :=
  match Snapshot.load content with
  | .error error => .failed [] ("Failed to load snapshot " ++ path ++ ": " ++ error.message)
  | .ok store =>
    { messages :=
        verbosity.message .verbose ("Snapshot: " ++ path ++ s!" ({store.size} layers)") ++
        verbosity.message .normal (Text.trimEnd store.summary) }

/-- The network in a description file. -/
def loadNetwork (path : String) (content : FileContent) : Except Error Network := do
  let description ← Description.load path content
  description.build.mapError .graph

/-- The messages with the report of a quantization. -/
def reportMessages (verbosity : Verbosity) (format : OutputFormat) (report : Report) :
    List String :=
  match format with
  | .text => verbosity.message .normal (Text.trimEnd report.text)
  | .json => [report.document]

/-- Quantizes a network that was read. -/
def quantizeNetwork (verbosity : Verbosity) (arguments : QuantizeArguments) (config : Config)
    (network : Network) (store : Option Store) : Outcome :=
  let opening := verbosity.message .verbose
    ("Quantizing " ++ arguments.graph ++
      s!" ({network.size} layers, {network.inputs.length} inputs)")
  let (_, result) :=
    ({ config } : Quantizer).quantizeWithStats network arguments.scales store
  match result with
  | .error error => .failed opening ("Quantization failed: " ++ error.message)
  | .ok quantized =>
    { messages := opening ++ reportMessages verbosity arguments.format quantized.report }

variable {m : Type → Type} [Monad m]

/-- The configuration of a quantization: read from a file or the default one, with the snapshot that
the arguments name. -/
def resolveConfig (read : String → m FileContent) (arguments : QuantizeArguments) :
    m (Except Error Config) := do
  let config ← match arguments.config with
    | some path => pure (Config.load path (← read path))
    | none => pure (.ok {})
  pure (config.map fun config =>
    match arguments.stats with
    | some path => { config with statsPath := some path }
    | none => config)

/-- Quantizes a described network. -/
def quantize (read : String → m FileContent) (verbosity : Verbosity)
    (arguments : QuantizeArguments) : m Outcome := do
  match ← resolveConfig read arguments with
  | .error error => pure (.failed [] error.message)
  | .ok config =>
    match loadNetwork arguments.graph (← read arguments.graph) with
    | .error error =>
      pure (.failed [] ("Failed to load graph " ++ arguments.graph ++ ": " ++ error.message))
    | .ok network =>
      let store ← match config.statsPath with
        | some path => pure (Snapshot.load (← read path)).toOption
        | none => pure none
      pure (quantizeNetwork verbosity arguments config network store)

/-- Runs the command that the arguments name. -/
def run (read : String → m FileContent) (arguments : Arguments) : m Outcome := do
  match arguments.action with
  | .inspect path => pure (inspect arguments.verbosity path (← read path))
  | .quantize options => quantize read arguments.verbosity options

end Command

end LayerQuant
