import WebHost.Server.Machine

/-! The log file: lines are written at its end, and it is made with the directories above it. -/
namespace WebHost.LogFile

def invalid (path : Text) : IoError :=
  ⟨.invalidInput, "archivo de log inválido: ".toList ++ path⟩

def notOpened (k : FaultKind) : IoError :=
  ⟨.other, "failed to create log file: ".toList ++ k.systemText⟩

/-- The directory of the file, and the path by which it is opened; a path that ends in no name has
none. -/
def place? (path : Text) : Option (Text × Text) := do
  let name ← FilePath.fileName? path
  let above ← FilePath.parent? path
  let directory := if above.isEmpty then FilePath.here else above
  return (directory, FilePath.join directory name)

/-- Opens the log file and answers the path to write to. -/
def openAt (path : Text) : Action Machine.Op (Except IoError Text) :=
  match place? path with
  | none => pure (.error (invalid path))
  | some (directory, file) => do
    match ← Action.perform (.change (.makeDirectories directory)) with
    | .error k => pure (.error k.error)
    | .ok () =>
      match ← Action.perform (.change (.append file [])) with
      | .error k => pure (.error (notOpened k))
      | .ok () => pure (.ok file)

end WebHost.LogFile
