import FreeSensePorts.Core.Shell
import FreeSensePorts.Repoc.Runs

/-!
# Materialising the repositories

The script from its `EXIT` trap to its end: the decision (`repoc`), the staging directory that is
filled from the rows, and the swap with the directory in use.  Three names in the parent of `REPOS_DIR`
matter: the directory, and the two that `mktemp` makes up, which are new and differ by their templates.

Two fields of the state are there for the proofs alone: the names a variable of the script has ever
held, and whether the staged directory has been renamed to `REPOS_DIR`.
-/

namespace FreeSense.Repoc

open Shell

/-! ## Directories -/

inductive Node
  | repos
  /-- `.repos.new.XXXXXX`. -/
  | new
  /-- `.repos.old.XXXXXX`. -/
  | old
  deriving DecidableEq, Repr

inductive Tree
  | empty
  | file (name content : Text) (rest : Tree)
  | dir (name : Node) (sub rest : Tree)
  deriving DecidableEq, Repr

def Tree.hasFile (name : Text) : Tree → Bool
  | .empty => false
  | .file n _ rest => n == name || rest.hasFile name
  | .dir _ _ rest => rest.hasFile name

/-- Opens a file for writing, with `f` from the contents before to those after. -/
def Tree.put (name : Text) (f : Text → Text) : Tree → Tree
  | .empty => .file name (f []) .empty
  | .file n content rest =>
    if n = name then .file n (f content) rest else .file n content (rest.put name f)
  | .dir n sub rest => .dir n sub (rest.put name f)

/-- `>` and `>>`. -/
inductive Write
  | over (name content : Text)
  | append (name content : Text)

def Write.apply : Write → Tree → Tree
  | .over name content => Tree.put name fun _ => content
  | .append name content => Tree.put name (· ++ content)

/-! ## What is written -/

def confBlock (product suffix url key priority : Text) : Text :=
  product ++ suffix ++ ": \x7b\n  url: \"".toList ++ url ++
    ("\",\n  mirror_type: \"none\",\n  signature_type: \"fingerprints\",\n" ++
      "  fingerprints: \"/usr/local/share/").toList ++ product ++ "/keys/".toList ++ key ++
    "\",\n  priority: ".toList ++ priority ++ ",\n  enabled: yes\n\x7d\n".toList

def conf (product : Text) (row : Row) : Text :=
  "FreeBSD: \x7b enabled: no \x7d\nFreeBSD-kmods: \x7b enabled: no \x7d\n\n".toList ++
    confBlock product [] row.systemUrl "system".toList "100".toList ++ "\n".toList ++
    confBlock product "-packages".toList row.packagesUrl "packages".toList "50".toList

def mirrorConf (product : Text) (row : Row) : Text :=
  "\n".toList ++ confBlock product "-mirror".toList row.mirrorUrl "mirror".toList "10".toList

def base (product name : Text) : Text := product ++ "-repo-".toList ++ name

def line (text : Text) : Text := text ++ "\n".toList

/-- The files of a row, in the order in which they are written. -/
def rowWrites (product : Text) (row : Row) : List Write :=
  let b := base product row.name
  [.over (b ++ ".conf".toList) (conf product row)] ++
    (if row.mirrorUrl = [] then []
      else [.append (b ++ ".conf".toList) (mirrorConf product row)]) ++
    [.over (b ++ ".name".toList) row.name,
      .over (b ++ ".descr".toList) (line row.description),
      .over (b ++ ".version".toList) (line row.version),
      .over (b ++ ".abi".toList) (line row.abi),
      .over (b ++ ".altabi".toList) (line row.altabi)] ++
    if row.osversion = [] then []
      else [.over (b ++ ".osversion".toList) (line row.osversion)]

def yes : Text := "yes".toList

def markerWrite (product name : Text) : Write := .over (base product name ++ ".default".toList) []

/-! ## What the staging directory is meant to hold -/

/-- The staging directory, `COUNT` and `DEFAULT_NAME`. -/
structure Staging where
  tree : Tree
  count : ℕ
  defaultName : Text
  deriving DecidableEq

def Staging.row (product : Text) (g : Staging) (row : Row) : Staging :=
  if row.name = [] then g
  else
    ⟨(rowWrites product row).foldl (fun t w => w.apply t) g.tree, g.count + 1,
      if row.default = yes then row.name else g.defaultName⟩

def Staging.ofRows (product : Text) (rows : List Row) : Staging :=
  rows.foldl (Staging.row product) ⟨.empty, 0, []⟩

def Staging.marked (product selected : Text) (g : Staging) : Tree :=
  if selected ≠ [] ∧ g.tree.hasFile (base product selected ++ ".conf".toList) = true then
    (markerWrite product selected).apply g.tree
  else if g.defaultName ≠ [] then (markerWrite product g.defaultName).apply g.tree
  else g.tree

def complete (product : Text) (rows : List Row) (selected : Text) : Tree :=
  (Staging.ofRows product rows).marked product selected

/-! ## The script -/

structure Sh where
  dir : Node → Option Tree
  /-- `MANIFEST_CACHE`. -/
  cache : Option Bytes
  work : Bool
  traps : Bool
  rows : List Row
  /-- `STAGED_REPOS`. -/
  staged : Option Node
  /-- `BACKUP_REPOS`. -/
  backup : Option Node
  count : ℕ
  defaultName : Text
  named : List Node
  swapped : Bool

def Sh.start (old : Tree) (cache : Option Bytes) : Sh where
  dir := Function.update (fun _ => none) .repos (some old)
  cache := cache
  work := false
  traps := false
  rows := []
  staged := none
  backup := none
  count := 0
  defaultName := []
  named := []
  swapped := false

/-- The state at the start, where `REPOS_DIR` may be missing. -/
def Sh.startAt (repos : Option Tree) (cache : Option Bytes) : Sh :=
  { Sh.start .empty cache with dir := Function.update (fun _ => none) .repos repos }

lemma Sh.startAt_some (old : Tree) (cache : Option Bytes) :
    Sh.startAt (some old) cache = Sh.start old cache := rfl

def Sh.put (n : Node) (t : Option Tree) (s : Sh) : Sh := { s with dir := Function.update s.dir n t }

/-- `[ -n v ] && [ -e v ]`. -/
def Sh.present (v : Option Node) (s : Sh) : Bool := (v.bind s.dir).isSome

/-- `mv`: a rename, or a move into the destination if that is there. -/
def Sh.mv (src dst : Node) (s : Sh) : Sh :=
  match s.dir src with
  | none => s
  | some t =>
    match s.dir dst with
    | none => (s.put dst (some t)).put src none
    | some d => (s.put dst (some (.dir src t d))).put src none

def Sh.mv? (src dst : Option Node) (s : Sh) : Sh :=
  match src, dst with
  | some a, some b => s.mv a b
  | _, _ => s

def rename (src dst : Sh → Option Node) : Cmd Sh where
  run s := s.mv? (src s) (dst s)
  status s := if s.present (src s) && (dst s).isSome then 0 else 1
  fallible := true

def reposDir (_ : Sh) : Option Node := some .repos

/-- `mv "${STAGED_REPOS}" "${REPOS_DIR}"`. -/
def install : Cmd Sh where
  run s := { s.mv? s.staged (some .repos) with swapped := s.present s.staged }
  status s := if s.present s.staged then 0 else 1
  fallible := true

def mktemp (n : Node) : Cmd Sh := act fun s => s.put n (some .empty)

def assignStaged : Cmd Sh := act fun s => { s with staged := some .new, named := .new :: s.named }

def assignBackup : Cmd Sh := act fun s => { s with backup := some .old, named := .old :: s.named }

def clearStaged : Cmd Sh := act fun s => { s with staged := none }

def clearBackup : Cmd Sh := act fun s => { s with backup := none }

/-- `rm -rf`, of a variable. -/
def Sh.rm (v : Option Node) (s : Sh) : Sh :=
  match v with
  | some n => s.put n none
  | none => s

/-- `rmdir "${BACKUP_REPOS}"`. -/
def rmdirBackup : Cmd Sh where
  run s := if s.backup.bind s.dir = some .empty then s.rm s.backup else s
  status s := if s.backup.bind s.dir = some .empty then 0 else 1
  fallible := false

/-- A redirection into the staging directory. -/
def redirect (w : Write) : Cmd Sh where
  run s :=
    match s.staged with
    | some n => s.put n ((s.dir n).map w.apply)
    | none => s
  status s := if s.present s.staged then 0 else 1
  fallible := false

def prologue : Script Sh :=
  .seq (.cmd (act fun s => { s with work := true })) (.cmd (act fun s => { s with traps := true }))

/-- The decision: leaves the script, or goes on with the rows and retains a live payload. -/
def decision (p : Platform) (i : Input) : Script Sh :=
  .read fun s =>
    match repoc p s.cache i with
    | (_, none) => .exit 1
    | (cache, some (_, a)) =>
      .seq (.cmd (act fun s => { s with rows := a.document.rows }))
        (.cmd (act fun s => { s with cache := cache }))

/-- The body of `while … read`. -/
def stageRow (product : Text) (row : Row) : Script Sh :=
  .cond (test fun _ => row.name ≠ [])
    (.seq (.forEach (fun w => .cmd (redirect w)) (rowWrites product row))
      (.seq
        (.cond (test fun _ => row.default = yes)
          (.cmd (act fun s => { s with defaultName := row.name })) fun _ => .skip)
        (.cmd (act fun s => { s with count := s.count + 1 }))))
    fun _ => .skip

def stageMarker (product selected : Text) : Script Sh :=
  .cond (test fun s => selected ≠ [] ∧
      (s.staged.bind s.dir).any (Tree.hasFile (base product selected ++ ".conf".toList)))
    (.cmd (redirect (markerWrite product selected)))
    fun _ => .cond (test fun s => s.defaultName ≠ [])
      (.read fun s => .cmd (redirect (markerWrite product s.defaultName))) fun _ => .skip

def stage (product selected : Text) : Script Sh :=
  .seq (.seq (.cmd (mktemp .new)) (.cmd assignStaged))
    (.seq (.read fun s => .forEach (stageRow product) s.rows)
      (.seq (.cond (test fun s => 0 < s.count) .skip fun _ => .exit 1)
        (stageMarker product selected)))

/-- The directory in use becomes the backup. -/
def setAside : Script Sh :=
  .cond (test fun s => (s.dir .repos).isSome)
    (.seq (.cmd (mktemp .old)) (.seq (.cmd assignBackup)
      (.seq (.cmd rmdirBackup) (.cmd (rename reposDir Sh.backup)))))
    fun _ => .skip

/-- The staged directory comes into use, or the backup does again. -/
def putInPlace : Script Sh :=
  .cond install (.cmd clearStaged) fun status =>
    .seq
      (.cond (test fun s => s.present s.backup)
        (.cond (rename Sh.backup reposDir) (.cmd clearBackup) fun _ => .skip) fun _ => .skip)
      (.exit status)

def dropBackup : Script Sh :=
  .cond (test fun s => s.present s.backup)
    (.seq (.cmd (act fun s => s.rm s.backup)) (.cmd clearBackup)) fun _ => .skip

def swap : Script Sh := .seq setAside (.seq putInPlace dropBackup)

def script (p : Platform) (product : Text) (i : Input) : Script Sh :=
  .seq prologue (.seq (decision p i) (.seq (stage product i.selected) swap))

/-! ## The trap -/

/-- The first half of `cleanup`.  `recovers` says whether its own rename succeeds. -/
def cleanupBackup (recovers : Bool) (status : ℕ) (s : Sh) : ℕ × Sh :=
  if s.present s.backup then
    if (s.dir .repos).isNone then
      if recovers then (status, { s.mv? s.backup (some .repos) with backup := none }) else (1, s)
    else (status, { s.rm s.backup with backup := none })
  else (status, s)

def cleanup (recovers : Bool) (status : ℕ) (s : Sh) : ℕ × Sh :=
  let (status, s) := cleanupBackup recovers status s
  let s := if s.present s.staged then s.rm s.staged else s
  (status, { s with work := false })

/-- The end of the process.  Before the traps are set, a signal kills it. -/
def finish (status : ℕ) (s : Sh) : ℕ × Sh := if s.traps then cleanup true status s else (status, s)

def Result.code : Result → ℕ
  | .done => 0
  | .exit n => n

/-- The process of one run, with at most one adverse event, exits with this status and state. -/
def Exits (p : Platform) (product : Text) (i : Input) (s : Sh) (status : ℕ) (t : Sh) : Prop :=
  ∃ r b u, Exec (script p product i) true s r b u ∧ finish (Result.code r) u = (status, t)

end FreeSense.Repoc
