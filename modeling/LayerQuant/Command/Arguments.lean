import LayerQuant.Binary.Arithmetic
import LayerQuant.Decimal.Basic

/-!
# Command-line arguments

The program has two commands. Options may stand before and after the paths of a command and are
written `--name value`, `--name=value`, `-n value`, `-nvalue` or `-n=value`; short flags may share a
dash, and a double dash ends the options. A value that begins with a dash must be attached. Only
scales may be given more than once, and no path or value is empty.

Arguments are taken one by one, so a request for help is answered unless an argument before it is
wrong.
-/

namespace LayerQuant

/-- How the report of a quantization is written. -/
inductive OutputFormat where
  | text
  | json
deriving DecidableEq, Repr

namespace OutputFormat

/-- The name of a format. -/
def name : OutputFormat → String
  | text => "text"
  | json => "json"

/-- The format with the given name, in any case. -/
def ofName? (name : String) : Option OutputFormat :=
  [text, json].find? (·.name == String.ofList (name.toList.map Char.toLower))

/-- What is said about a name that no format has. -/
def unknown (name : String) : String :=
  "Unknown output format: " ++ name ++ ". Valid formats: text, json"

end OutputFormat

/-- What a quantization is asked to do. -/
structure QuantizeArguments where
  /-- The file with the network description. -/
  graph : String
  /-- One scale per input of the network. -/
  scales : List Single := []
  /-- The snapshot to use in place of the configured one. -/
  stats : Option String := none
  /-- The file with the configuration. -/
  config : Option String := none
  format : OutputFormat := .text
deriving DecidableEq

/-- What the program is asked to do. -/
inductive Action where
  | inspect (snapshot : String)
  | quantize (arguments : QuantizeArguments)
deriving DecidableEq

/-- The arguments of the program. -/
structure Arguments where
  action : Action
  verbose : Bool := false
  quiet : Bool := false
deriving DecidableEq

/-- Why arguments lead to no action. -/
inductive Stop where
  /-- Help or the version was asked for. -/
  | shown
  /-- The arguments are wrong. -/
  | wrong
deriving DecidableEq, Repr

/-- The exit code of a program that stops. -/
def Stop.exitCode : Stop → Nat
  | shown => 0
  | wrong => 2

/-- The options of the program and its commands. -/
inductive Switch where
  | verbose
  | quiet
  | help
  | version
  | scale
  | stats
  | config
  | format
deriving DecidableEq, Repr

namespace Switch

/-- The name after a double dash. -/
def long : Switch → String
  | verbose => "verbose"
  | quiet => "quiet"
  | help => "help"
  | version => "version"
  | scale => "scale"
  | stats => "stats"
  | config => "config"
  | format => "format"

/-- The letter after a dash. -/
def short? : Switch → Option Char
  | verbose => some 'v'
  | quiet => some 'q'
  | help => some 'h'
  | version => some 'V'
  | scale => some 's'
  | stats => none
  | config => some 'c'
  | format => some 'f'

/-- Whether the option takes a value. -/
def takesValue : Switch → Bool
  | scale | stats | config | format => true
  | _ => false

/-- The options before a command. -/
def common : List Switch := [verbose, quiet, help, version]

/-- The options of the inspection of a snapshot. -/
def inspecting : List Switch := [verbose, quiet, help]

/-- The options of a quantization. -/
def quantizing : List Switch := [scale, stats, config, format, verbose, quiet, help]

end Switch

/-- One argument, or an option with its value. -/
inductive Item where
  | flag (switch : Switch)
  | option (switch : Switch) (value : String)
  | path (text : String)
deriving DecidableEq, Repr

/-- Arguments in order, and why they end early if they do. -/
structure Items where
  list : List Item := []
  stop : Option Stop := none
deriving DecidableEq, Repr

namespace Items

/-- Puts an item in front. -/
def cons (item : Item) (items : Items) : Items := { items with list := item :: items.list }

/-- Puts items in front. -/
def append (front : List Item) (items : Items) : Items :=
  { items with list := front ++ items.list }

end Items

/-- The value that is attached to an option, after an equals sign or directly. -/
def attachedValue (text : List Char) : String :=
  match text with
  | '=' :: rest => String.ofList rest
  | text => String.ofList text

/-- A flag, or the end of the arguments for a request. -/
def flagItem (switch : Switch) : Except Stop Item :=
  match switch with
  | .help | .version => .error .shown
  | switch => .ok (.flag switch)

/-- What a cluster of letters after a dash means: its items, and the option that still needs a value
or the reason to stop. -/
def cluster (switches : List Switch) : List Char → List Item × Except Stop (Option Switch)
  | [] => ([], .ok none)
  | letter :: rest =>
    match switches.find? (·.short? == some letter) with
    | none => ([], .error .wrong)
    | some switch =>
      if switch.takesValue then
        if rest.isEmpty then ([], .ok (some switch))
        else ([.option switch (attachedValue rest)], .ok none)
      else
        match flagItem switch with
        | .error stop => ([], .error stop)
        | .ok item =>
          let (items, result) := cluster switches rest
          (item :: items, result)

/-- What a word after a double dash means. -/
def longOption (switches : List Switch) (text : List Char) :
    List Item × Except Stop (Option Switch) :=
  let name := String.ofList (text.takeWhile (· != '='))
  let attached := text.dropWhile (· != '=')
  match switches.find? (·.long == name) with
  | none => ([], .error .wrong)
  | some switch =>
    match switch.takesValue, attached with
    | true, [] => ([], .ok (some switch))
    | true, attached => ([.option switch (attachedValue attached)], .ok none)
    | false, [] =>
      match flagItem switch with
      | .error stop => ([], .error stop)
      | .ok item => ([item], .ok none)
    | false, _ => ([], .error .wrong)

/-- What an argument that is an option means, `none` for a path or value. A dash alone is none. -/
def optionOf? (switches : List Switch) (argument : String) :
    Option (List Item × Except Stop (Option Switch)) :=
  match argument.toList with
  | '-' :: '-' :: text => some (longOption switches text)
  | '-' :: letter :: rest => some (cluster switches (letter :: rest))
  | _ => none

/-- Takes the arguments of a command in order. -/
def takeItems (switches : List Switch) : List String → Items
  | [] => {}
  | argument :: rest =>
    if argument == "--" then { list := rest.map .path }
    else
      match optionOf? switches argument with
      | none => (takeItems switches rest).cons (.path argument)
      | some (items, .error stop) => { list := items, stop := some stop }
      | some (items, .ok none) => (takeItems switches rest).append items
      | some (items, .ok (some switch)) =>
        match rest with
        | value :: rest =>
          if (optionOf? switches value).isSome then { list := items, stop := some .wrong }
          else (takeItems switches rest).append (items ++ [.option switch value])
        | [] => { list := items, stop := some .wrong }

/-- The flags given before a command or within it. -/
structure Flags where
  verbose : Bool := false
  quiet : Bool := false
deriving DecidableEq

namespace Flags

/-- Adds a flag, which is given once at most. -/
def add (flags : Flags) (switch : Switch) : Except Stop Flags :=
  match switch with
  | .verbose => if flags.verbose then .error .wrong else .ok { flags with verbose := true }
  | .quiet => if flags.quiet then .error .wrong else .ok { flags with quiet := true }
  | _ => .error .wrong

/-- The flags of two places together. -/
def join (a b : Flags) : Flags := ⟨a.verbose || b.verbose, a.quiet || b.quiet⟩

end Flags

/-- What the items of a command have said so far. -/
structure Given where
  flags : Flags := {}
  path : Option String := none
  scales : List Single := []
  stats : Option String := none
  config : Option String := none
  format : Option OutputFormat := none

namespace Given

/-- Sets what may be given once. -/
def once {α : Type} (known : Option α) (value : Option α) : Except Stop (Option α) :=
  match known, value with
  | none, some value => .ok (some value)
  | _, _ => .error .wrong

/-- A path, which is not empty. -/
def path? (text : String) : Option String := if text.isEmpty then none else some text

/-- Adds an item. -/
def add (given : Given) : Item → Except Stop Given
  | .flag switch => do pure { given with flags := ← given.flags.add switch }
  | .path text => do pure { given with path := ← once given.path (path? text) }
  | .option .scale value =>
    match Binary.ofText? .single value with
    | some scale => .ok { given with scales := given.scales ++ [scale] }
    | none => .error .wrong
  | .option .stats value => do pure { given with stats := ← once given.stats (path? value) }
  | .option .config value => do pure { given with config := ← once given.config (path? value) }
  | .option .format value => do
    pure { given with format := ← once given.format (OutputFormat.ofName? value) }
  | .option _ _ => .error .wrong

/-- What the arguments of a command say. A wrong item comes before the reason to stop after it, and
the path must be there. -/
def ofItems (items : Items) : Except Stop (Given × String) := do
  let given ← items.list.foldlM add {}
  match items.stop, given.path with
  | some stop, _ => .error stop
  | none, some path => .ok (given, path)
  | none, none => .error .wrong

end Given

namespace Arguments

/-- The names of the commands, for which help may be asked. -/
def commands : List String := ["inspect", "quantize", "help"]

/-- Reads the arguments of a command. -/
def parseCommand (flags : Flags) (command : String) (arguments : List String) :
    Except Stop Arguments :=
  match command with
  | "inspect" => do
    let (given, path) ← Given.ofItems (takeItems Switch.inspecting arguments)
    let flags := flags.join given.flags
    pure { action := .inspect path, verbose := flags.verbose, quiet := flags.quiet }
  | "quantize" => do
    let (given, path) ← Given.ofItems (takeItems Switch.quantizing arguments)
    let flags := flags.join given.flags
    pure
      { action := .quantize
          { graph := path, scales := given.scales, stats := given.stats, config := given.config
            format := given.format.getD .text }
        verbose := flags.verbose, quiet := flags.quiet }
  | "help" =>
    match arguments with
    | [] => .error .shown
    | [name] => if commands.contains name then .error .shown else .error .wrong
    | _ => .error .wrong
  | _ => .error .wrong

/-- Reads flags up to the command. -/
def parseFrom (flags : Flags) : List String → Except Stop Arguments
  | [] => .error .wrong
  | argument :: rest =>
    match optionOf? Switch.common argument with
    | none => parseCommand flags argument rest
    | some (items, result) => do
      let flags ← items.foldlM
        (fun flags item => match item with
          | .flag switch => flags.add switch
          | _ => .error .wrong) flags
      match result with
      | .error stop => .error stop
      | .ok _ => parseFrom flags rest

/-- Reads the arguments after the program's name. -/
def parse (arguments : List String) : Except Stop Arguments := parseFrom {} arguments

end Arguments

end LayerQuant
