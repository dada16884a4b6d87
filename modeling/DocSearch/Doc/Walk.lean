import DocSearch.Doc.Extract
import DocSearch.Files.Disk
import DocSearch.Cancel
import DocSearch.Log

/-!
# Walking a tree of sources

The chunks of a tree come folder by folder in lexical pre-order; links to folders are not entered.
The walk is lazy: a folder is read when it is reached, and its own folders are looked up only when
all of its chunks are handed out. A folder that cannot be read is passed over with a warning; one
that cannot be listed ends the walk.
-/

namespace DocSearch.Doc

open Files

/-! ## One folder -/

/-- Why a folder yields no chunks. -/
inductive FolderError where
  | unlisted (folder : String) (cause : PathError)
  | unread (file : String) (cause : PathError)
  | unparsed (cause : ParseError)
deriving Repr, DecidableEq

/-- The error text. -/
def FolderError.message : FolderError → String
  | .unlisted folder cause => s!"cannot list {folder}: {cause.message}"
  | .unread file cause => s!"cannot read {file}: {cause.message}"
  | .unparsed cause => cause.message

/-- Whether a name is that of a source file. -/
def isSourceName (name : String) : Bool := name.endsWith ".go"

/-- Names in code-point order. -/
def sortNames (names : List String) : List String := names.mergeSort fun a b => decide (a ≤ b)

/-- The names of the source files in a folder, in order. -/
def sourceNames (disk : Disk) (p : Place) : Except PathError (List String) := do
  let entries ← (← disk.list p).filterM fun e =>
    if isSourceName e.1 then disk.isFile p e else .ok false
  return sortNames (entries.map (·.1))

/-- A parsed file: its package, its path and its chunks. -/
structure ParsedFile where
  package : String
  path : String
  chunks : List Chunk

/-- A source file of a folder. -/
def parseFile (disk : Disk) (p : Place) : Except FolderError ParsedFile := do
  let source ← (disk.read p).mapError (.unread p.path)
  let (package, chunks) ← (parseSource source p.path).mapError .unparsed
  return { package, path := p.path, chunks }

/-- The order of the files of a folder: by package, then by path. -/
def ParsedFile.le (f g : ParsedFile) : Bool :=
  decide (f.package < g.package) || f.package == g.package && decide (f.path ≤ g.path)

/-- The source files of a folder in order. -/
def parseFolder (disk : Disk) (p : Place) : Except FolderError (List ParsedFile) := do
  let names ← (sourceNames disk p).mapError (.unlisted p.path)
  let files ← names.mapM fun n => parseFile disk (p.below n)
  return files.mergeSort ParsedFile.le

/-- The folders in a folder, in order, without the excluded ones and without links. -/
def folderNames (disk : Disk) (exclude : List String) (p : Place) :
    Except PathError (List String) := do
  let entries ← disk.list p
  return sortNames
    ((entries.filter fun e => e.2.isFolder && !exclude.contains e.1).map (·.1))

/-! ## The walk -/

/-- Why a walk ended early. -/
inductive WalkError where
  | unlisted (path : String) (cause : PathError)
  | cancelled (reason : String)
deriving Repr, DecidableEq

/-- The error text. -/
def WalkError.message : WalkError → String
  | .unlisted path cause => s!"error walking {path}: {cause.message}"
  | .cancelled reason => reason

/-- How far a walk has come: not begun, behind the chunks of a folder with others still to visit
(next one first), or ended. -/
inductive Stage where
  | fresh
  | behind (folder : Place) (others : List Place)
  | ended
deriving Repr, DecidableEq

/-- A walk from a root, and the chunks of the current folder that are still to be handed out. -/
structure Walk where
  root : String
  exclude : List String
  stage : Stage
  pending : List Chunk

/-- What the visit to the next folder brings: its chunks, or the end. -/
inductive Visit where
  | chunks (cs : List Chunk)
  | finished
  | failed (e : WalkError)

/-- The logger of the walk. -/
def walkLogger : String := "godoc_rag.parser.golang"

namespace Walk

/-- A walk that has not begun. -/
def start (root : String) (exclude : List String) : Walk :=
  ⟨normalise root, exclude, .fresh, []⟩

/-- The walk after its end. -/
def close (w : Walk) : Walk := { w with stage := .ended, pending := [] }

/-- Visits the folder at `p` with `others` still to come. -/
def enter (disk : Disk) (trip : Trip) (w : Walk) (p : Place) (others : List Place) :
    Walk × Visit × List LogLine :=
  match trip with
  | some reason => (w.close, .failed (.cancelled reason), [])
  | none =>
    let w := { w with stage := .behind p others }
    match parseFolder disk p with
    | .ok files =>
      (w, .chunks (files.flatMap (·.chunks)),
        [⟨.debug, walkLogger, s!"Parsed {files.length} Go files in {p.path}"⟩])
    | .error e =>
      (w, .chunks [],
        [⟨.warning, walkLogger, s!"Skipping directory {p.path}: {e.message}"⟩])

/-- Visits the next folder. -/
def visit (disk : Disk) (trip : Trip) (w : Walk) : Walk × Visit × List LogLine :=
  match w.stage with
  | .ended => (w, .finished, [])
  | .fresh =>
    match disk.entry ⟨w.root, []⟩ false with
    | .error e => (w.close, .failed (.unlisted w.root e), [])
    | .ok (.folder _) => enter disk trip w ⟨w.root, []⟩ []
    | .ok _ => (w.close, .finished, [])
  | .behind p others =>
    match folderNames disk w.exclude p with
    | .error e => (w.close, .failed (.unlisted p.path e), [])
    | .ok names =>
      match names.map p.below ++ others with
      | [] => (w.close, .finished, [])
      | next :: others => enter disk trip w next others

/-! ## Pulling chunks -/

/-- What comes next: a chunk, the end, or a failure. -/
inductive Pull where
  | chunk (c : Chunk)
  | finished
  | failed (e : WalkError)

/-- Pulls the next chunk, visiting at most `fuel` folders for it. -/
def pullWithin (disk : Disk) (trip : Trip) (logs : List LogLine) :
    (fuel : Nat) → Walk → Walk × Pull × List LogLine
  | 0, w => (w.close, .finished, logs)
  | fuel + 1, w =>
    match w.pending with
    | c :: cs => ({ w with pending := cs }, .chunk c, logs)
    | [] =>
      match w.visit disk trip with
      | (w, .chunks cs, more) => pullWithin disk trip (logs ++ more) fuel { w with pending := cs }
      | (w, .finished, more) => (w, .finished, logs ++ more)
      | (w, .failed e, more) => (w, .failed e, logs ++ more)

end Walk

mutual

/-- The number of folders of an entry, itself included. -/
def folderCount : Entry → Nat
  | .file _ => 0
  | .link _ => 0
  | .folder entries => folderCounts entries + 1

/-- The number of folders below several names. -/
def folderCounts : List (String × Entry) → Nat
  | [] => 0
  | (_, e) :: es => folderCount e + folderCounts es

end

namespace Walk

/-- The number of folders that are still to visit in any case. -/
def waiting (w : Walk) : Nat :=
  match w.stage with
  | .behind _ others => others.length
  | _ => 0

/-- Pulls the next chunk. Each folder is visited at most once for it. -/
def pull (disk : Disk) (trip : Trip) (w : Walk) : Walk × Pull × List LogLine :=
  pullWithin disk trip [] (folderCount disk.top + w.waiting + 2) w

end Walk

end DocSearch.Doc
