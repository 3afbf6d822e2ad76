import GuardedQuery.CommandLine.Files
import GuardedQuery.CommandLine.Settings
import GuardedQuery.Source.Basic

/-! # Input

The source that an invocation names: a query given in words, the standard input, or
files and directories in order, each file one segment.

- `LoadFault`: why there is no source.
- `isDocumentName`: which files of a directory count.
- `FileAccess.load`: loads the source.
-/

namespace GuardedQuery

inductive LoadFault where
  | unreadableInput (fault : FileFault)
  | unreadableFile (path : String) (fault : FileFault)
  | unreadableDirectory (path : String) (fault : FileFault)
  | noDocuments (path : String)
  | tooLarge (fault : ReadFault)
  | tooLargeWith (path : String) (fault : ReadFault)
deriving Repr, DecidableEq

def LoadFault.message : LoadFault → String
  | unreadableInput fault => "failed to read stdin: " ++ fault.message
  | unreadableFile path fault => "failed to read '" ++ path ++ "': " ++ fault.message
  | unreadableDirectory path fault =>
    "failed to read directory '" ++ path ++ "': " ++ fault.message
  | noDocuments path => "no .graphql files found in '" ++ path ++ "'"
  | tooLarge fault => fault.message
  | tooLargeWith path fault => "failed to add '" ++ path ++ "': " ++ fault.message

def inputName : String := "<stdin>"

/-- Whether a file name has the extension of a document: what follows its last point,
which must not be its first character. -/
def isDocumentName (name : String) : Bool :=
  let reversed := name.toList.reverse
  let extension := (reversed.takeWhile (· != '.')).reverse
  let stem := (reversed.dropWhile (· != '.')).drop 1
  !stem.isEmpty && (extension == "graphql".toList || extension == "gql".toList)

/-- Whether the bytes of `a` do not come after those of `b`.  For text in UTF-8 that is
the order of its characters. -/
def notAfter (a b : String) : Bool :=
  !(decide (b < a))

def pathIn (directory name : String) : String :=
  if directory.endsWith "/" then directory ++ name else directory ++ "/" ++ name

variable {m : Type → Type} [Monad m]

def LoadFault.lift {ε α : Type} (raise : ε → LoadFault) (answer : m (Except ε α)) :
    ExceptT LoadFault m α :=
  ExceptT.mk ((·.mapError raise) <$> answer)

def LoadFault.addSegment (raise : ReadFault → LoadFault) (source : Source)
    (name : Option String) (text : String) : ExceptT LoadFault m Source :=
  lift raise (pure ((source.add name text).map (·.1)))

namespace FileAccess

def addInput (access : FileAccess m) (source : Source) : ExceptT LoadFault m Source := do
  let text ← LoadFault.lift .unreadableInput access.input
  LoadFault.addSegment .tooLarge source (some inputName) text

def addFile (access : FileAccess m) (source : Source) (path : String) :
    ExceptT LoadFault m Source := do
  let text ← LoadFault.lift (.unreadableFile path) (access.text path)
  LoadFault.addSegment (.tooLargeWith path) source (some path) text

def addDirectory (access : FileAccess m) (source : Source) (path : String) :
    ExceptT LoadFault m Source := do
  let names ← LoadFault.lift (.unreadableDirectory path) (access.names path)
  match (names.filter isDocumentName).mergeSort notAfter with
  | [] => throw (.noDocuments path)
  | names => names.foldlM (fun source name => access.addFile source (pathIn path name)) source

def addPath (access : FileAccess m) (source : Source) (path : String) :
    ExceptT LoadFault m Source := do
  if path = "-" then access.addInput source
  else if ← access.isDirectory path then access.addDirectory source path
  else access.addFile source path

/-- Loads the source of an invocation.  A query counts before files, and without either
the standard input is read. -/
def load (access : FileAccess m) (settings : Settings) : ExceptT LoadFault m Source :=
  match settings.query, settings.files with
  | some query, _ => LoadFault.addSegment .tooLarge .empty none query
  | none, [] => access.addInput .empty
  | none, paths => paths.foldlM access.addPath .empty

end FileAccess

end GuardedQuery
