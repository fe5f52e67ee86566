import EntityQuery.Command

/-!
# The command line

Files are read, the answer is printed.  The exit code is 0 for an answer, 1 if there is none, and 2
if the arguments make no sense.
-/

namespace EntityQuery

/-- The texts that the arguments name. -/
def Arguments.open (args : Arguments) : IO Command := do
  let request ← match args.request with
    | some path => IO.FS.readFile path
    | none => (← IO.getStdin).readToEnd
  let config ← args.config.mapM fun path => IO.FS.readFile path
  return {
    catalog := ← IO.FS.readFile args.catalog
    data := ← IO.FS.readFile args.data
    request, config
    domain := args.domain
    mode := args.mode
    pageSize := args.pageSize }

end EntityQuery

open EntityQuery in
/-- One search, from the files that the arguments name. -/
def main (args : List String) : IO UInt32 := do
  match Arguments.parse args with
  | none =>
    IO.eprintln "error: invalid arguments"
    return 2
  | some args =>
    try
      match (← args.open).answer with
      | .ok text =>
        IO.print text
        return 0
      | .error fault =>
        IO.eprintln s!"error: {fault.message}"
        return 1
    catch error =>
      IO.eprintln s!"error: {error}"
      return 1
