import ApiRules.Command.Bake
import ApiRules.Command.Lint

/-!
The programs `apilint` and `rules-bake` on the files of the host. The name under which the program is
started says which of the two it is.
-/
namespace ApiRules.Main

def fileError : IO.Error → FileError
  | .noFileOrDirectory _ _ _ => .notFound
  | .alreadyExists _ _ _ => .alreadyExists
  | .inappropriateType _ code _ =>
    if code = 21 ∨ code = 0 - 21 then .isADirectory else .notADirectory
  | .invalidArgument name code details =>
    if code = 36 ∨ code = 0 - 36 then .nameTooLong
    else .other (toString (IO.Error.invalidArgument name code details))
  | error => .other (toString error)

def guarded {α : Type} (action : IO α) : IO (Except FileError α) := do
  match ← action.toBaseIO with
  | .ok a => return .ok a
  | .error error => return .error (fileError error)

/-- A path as the root of an entry, which can be asked for what is there. -/
def entry (path : String) : IO.FS.DirEntry := ⟨path, path⟩

def fileType (path : String) : IO (Option IO.FS.FileType) := do
  match ← guarded (entry path).root.metadata with
  | .ok data => return some data.type
  | .error _ => return none

/-- The files at and below an entry of a directory. What cannot be read is passed over. -/
partial def filesBelow (names : List String) (e : IO.FS.DirEntry) : IO (List (List String)) := do
  let names := names ++ [e.fileName]
  match ← guarded e.path.symlinkMetadata with
  | .error _ => return []
  | .ok data =>
    match data.type with
    | .file => return [names]
    | .dir =>
      match ← guarded e.path.readDir with
      | .error _ => return []
      | .ok entries => return (← entries.toList.mapM (filesBelow names)).flatten
    | _ => return []

def files (path : String) : IO (Option (List (List String))) := do
  match ← fileType path with
  | none => return none
  | some .dir =>
    match ← guarded (entry path).root.readDir with
    | .error _ => return some []
    | .ok entries => return some (← entries.toList.mapM (filesBelow [])).flatten
  | some .file => return some [[]]
  | some _ => return some []

/-- The files of the host. -/
def host : FileSystem IO where
  workDirectory := return toString (← IO.currentDir)
  read path := do
    if (← fileType path) matches some .dir then return .error .isADirectory
    else return (← guarded (IO.FS.readBinFile path)).map fun content => content.data.toList
  isFile path := return (← fileType path) matches some .file
  isDirectory path := return (← fileType path) matches some .dir
  files := files
  makeDirectory path := guarded (IO.FS.createDir path)
  write path content := guarded (IO.FS.writeBinFile path ⟨content.toArray⟩)

/-- The variables of the process. -/
def environment : IO Environment := do
  match ← host.readText "/proc/self/environ" with
  | .ok block => return .ofBlock block.toList
  | .error _ =>
    let names := [Config.datasetVariable, Config.apiLevelVariable, Config.strictVariable,
      "XDG_CACHE_HOME", "HOME"]
    let values ← names.mapM fun name => return (← IO.getEnv name).map (name, ·)
    return Dictionary.ofList (values.filterMap id)

/-- Prints an outcome and gives its exit code. -/
def conclude (usage : List String) (outcome : Command.Outcome) : IO UInt32 := do
  (outcome.log.filter fun e => e.level ≠ .debug).forM fun e => IO.eprintln e.text
  IO.print outcome.ending.output
  match outcome.ending with
  | .help => usage.forM IO.println
  | .invalidArguments => usage.forM IO.eprintln
  | .failed error => IO.eprintln error.text
  | .done _ => pure ()
  return outcome.ending.exitCode.toUInt32

end ApiRules.Main

open ApiRules in
def main (args : List String) : IO UInt32 := do
  if (← IO.appPath).fileName = some "rules-bake" then
    Main.conclude Command.BakeInvocation.usage (← Command.Bake.run Main.host args)
  else
    Main.conclude Command.LintInvocation.usage
      (← Command.Lint.run Main.host (← Main.environment) args)
