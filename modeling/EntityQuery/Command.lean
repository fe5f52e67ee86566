import EntityQuery.Catalog.Definition
import EntityQuery.Json.Printer
import EntityQuery.Search.Run

/-!
# One search from texts to text

The command line reads a catalog, data and a request, makes one search, and prints its result as
JSON.

## Main definitions

* `Command.answer` : the text that is printed
* `Arguments.parse` : the arguments of a command line
-/

namespace EntityQuery

/-- What is asked of a request. -/
inductive Mode where
  | search
  | count
  | exists
  | unique
  deriving DecidableEq, Repr

/-- The mode of a name. -/
def Mode.ofName? : String → Option Mode
  | "search" => some .search
  | "count" => some .count
  | "exists" => some .exists
  | "unique" => some .unique
  | _ => none

/-! ## Faults -/

/-- Why a command has no answer. -/
inductive CommandFault where
  | unreadable (what : String)
  | search (fault : SearchFault)

/-- The wording of a fault. -/
def CommandFault.message : CommandFault → String
  | .unreadable what => s!"cannot read the {what}"
  | .search fault => fault.message

/-! ## Answers -/

/-- The texts and settings of a command. -/
structure Command where
  catalog : String
  data : String
  request : String
  config : Option String
  domain : String
  mode : Mode
  pageSize : Option Nat

namespace Command

/-- A value that must be there. -/
def demand {α : Type} (what : String) : Option α → Except CommandFault α
  | some a => pure a
  | none => throw (.unreadable what)

/-- A result of a search. -/
def ofSearch {α : Type} (result : Except SearchFault α) : Except CommandFault α :=
  result.mapError .search

/-- The settings of a command. -/
def settings (command : Command) : Except CommandFault Config := do
  let config ← match command.config with
    | some text => demand "settings" (Config.read? text)
    | none => pure Config.default
  return { config with defaultPageSize := command.pageSize.getD config.defaultPageSize }

/-- The store with the rows of a data set. -/
def filled (c : Catalog) (data : Json) : Except SearchFault Store := do
  let (store, result) := (← Store.ofCatalog c).load data
  let _ ← result.mapError SearchFault.store
  return store

/-- The result of a request in a mode. -/
def result (s : Search) (store : Store) (r : Request) (mode : Mode) : Except SearchFault Json :=
  match mode with
  | .search => ((s.run store r) .never).1.map (·.toJson s.config.wrapperMarker)
  | .count => ((s.count store r) .never).1.map fun n => .obj [("count", .int n)]
  | .exists => ((s.holds store r) .never).1.map fun b => .obj [("exists", .bool b)]
  | .unique => ((s.unique store r) .never).1.map fun hit =>
    .obj [(s.config.wrapperMarker, (hit.map Hit.toJson).getD .null)]

/-- The result of a command. -/
def resultOf (command : Command) : Except CommandFault Json := do
  let config ← command.settings
  let definition ← demand "catalog" (CatalogDefinition.read? command.catalog)
  let catalog ← ofSearch (definition.withFallback config.fallbackType).build
  let data ← demand "data" (Json.read? command.data)
  let store ← ofSearch (filled catalog data.normal)
  let json ← demand "request" (Json.read? command.request)
  let wire ← demand "request" (WireRequest.ofWritten? (.ofJson json.normal))
  let search ← ofSearch (Search.forEntity catalog command.domain)
  let search := { search with config }
  ofSearch do result search store (← search.read wire) command.mode

/-- The text that is printed for a command. -/
def answer (command : Command) : Except CommandFault String := do
  return (← command.resultOf).indented 0 ++ "\n"

end Command

/-! ## Arguments -/

/-- A whole number of a machine word. -/
def word? (text : String) : Option Nat :=
  let digits := match text.toList with
    | '+' :: rest => rest
    | cs => cs
  if digits.isEmpty || digits.any (!·.isDigit) then none
  else
    let n := Text.number digits
    if Width.fitsWord n then some n else none

/-- The options of a command line. -/
inductive Switch where
  | catalog
  | data
  | request
  | domain
  | mode
  | config
  | pageSize
  | debug
  deriving DecidableEq, Repr

namespace Switch

/-- All options. -/
def all : List Switch := [.catalog, .data, .request, .domain, .mode, .config, .pageSize, .debug]

/-- The name of an option behind two dashes. -/
def name : Switch → String
  | .catalog => "catalog"
  | .data => "data"
  | .request => "request"
  | .domain => "domain"
  | .mode => "mode"
  | .config => "config"
  | .pageSize => "page-size"
  | .debug => "debug"

/-- The letter of an option behind one dash. -/
def letter? : Switch → Option Char
  | .catalog => some 'c'
  | .data => some 'D'
  | .request => some 'r'
  | .domain => some 'e'
  | .mode => some 'm'
  | .config => none
  | .pageSize => some 's'
  | .debug => some 'd'

/-- The option of a name. -/
def ofName? (name : String) : Option Switch := all.find? (·.name = name)

/-- The option of a letter. -/
def ofLetter? (c : Char) : Option Switch := all.find? (·.letter? = some c)

/-- The option stands for itself and takes no value. -/
def isFlag : Switch → Bool
  | .debug => true
  | _ => false

end Switch

namespace SwitchReader

/-- Options with their values, and the option whose value is the next argument. -/
structure Progress where
  done : List (Switch × String)
  waiting : Option Switch

/-- A value behind the letter of its option, with or without an equals sign. -/
def attached : List Char → Option String
  | [] => none
  | '=' :: rest => some (String.ofList rest)
  | rest => some (String.ofList rest)

/-- Letters of flags, up to a letter of an option that takes the rest as its value. -/
def letters? : List Char → Option (List (Switch × Option String))
  | [] => some []
  | c :: rest => do
    let switch ← Switch.ofLetter? c
    if switch.isFlag then return (switch, none) :: (← letters? rest)
    else return [(switch, attached rest)]

/-- The options that an argument holds: one by its name, or several by their letters. -/
def written? (arg : String) : Option (List (Switch × Option String)) :=
  match arg.toList with
  | '-' :: '-' :: rest => do
    let switch ← Switch.ofName? (String.ofList (rest.takeWhile (· ≠ '=')))
    return [(switch, attached (rest.dropWhile (· ≠ '=')))]
  | '-' :: c :: rest => letters? (c :: rest)
  | _ => none

/-- One more option; none may be given twice, and a flag has no value. -/
def add (p : Progress) : Switch × Option String → Option Progress
  | (switch, value) =>
    if (p.done.lookup switch).isSome then none
    else match switch.isFlag, value with
      | true, none => some ⟨(switch, "") :: p.done, none⟩
      | true, some _ => none
      | false, some value => some ⟨(switch, value) :: p.done, none⟩
      | false, none => some ⟨p.done, some switch⟩

/-- A value that stands alone does not look like an option. -/
def standsAlone (arg : String) : Bool := arg = "-" || !Text.startsWith arg "-"

/-- One more argument. -/
def read (p : Progress) (arg : String) : Option Progress :=
  match p.waiting with
  | some switch => if standsAlone arg then add p (switch, some arg) else none
  | none => do (← written? arg).foldlM add p

/-- The options of a command line with their values. -/
def readAll (args : List String) : Option (List (Switch × String)) := do
  let p ← args.foldlM read ⟨[], none⟩
  if p.waiting.isNone then return p.done else none

end SwitchReader

/-- The arguments of a command line: files to read, and settings. -/
structure Arguments where
  catalog : String
  data : String
  /-- The file of the request, which is read from standard input without it. -/
  request : Option String
  config : Option String
  domain : String
  mode : Mode
  pageSize : Option Nat

namespace Arguments

/-- The name of a file, which is not empty. -/
def file? (name : String) : Option String := if name.isEmpty then none else some name

/-- An option that may be missing, but must make sense if it is given. -/
def optional {α : Type} (read : String → Option α) : Option String → Option (Option α)
  | none => some none
  | some text => (read text).map some

/-- The arguments of a command line, if they make sense. -/
def parse (args : List String) : Option Arguments := do
  let options ← SwitchReader.readAll args
  return {
    catalog := ← (options.lookup .catalog).bind file?
    data := ← (options.lookup .data).bind file?
    request := ← optional file? (options.lookup .request)
    config := ← optional file? (options.lookup .config)
    domain := ← options.lookup .domain
    mode := (← optional Mode.ofName? (options.lookup .mode)).getD .search
    pageSize := ← optional word? (options.lookup .pageSize) }

end Arguments

end EntityQuery
