import HashtagIndex.Fault
import HashtagIndex.Schema.Kind

/-!
# `HashtagIndex.Workspace.Configuration` — settings from arguments and from the environment

Each setting has a rule that brings what was given into its normal form: the root becomes a real
path, extensions become small and begin with a dot, names are trimmed, and the log level is written
in capitals. What does not fit is collected for all settings. A value that a rule cannot even be
applied to, or a path whose meaning cannot be found out, stops the reading at once.

## Contents
- `Settings.ofArguments`: settings from given values; only the root has to be given.
- `Environment`, `Settings.ofEnvironment`: settings from variables.
- `Settings.toJson`: settings as a transport value.
- `ConfigCache`: settings that are read from the environment once.
-/

namespace HashtagIndex

/-- Environment variables. -/
abbrev Environment := OrderedMap String String

namespace Settings

/-- Check one given value; the outer failure stops the reading. -/
abbrev Rule (α : Type) := Json → Except Fault (Checked α)

/-- A value that a rule refuses. -/
def refuse (reason : String) (j : Json) : Except Fault (Checked α) :=
  .ok (.fail (.rejected reason) j)

/-- The real path of the workspace. An empty root is refused, unless it is given as a path name and
thus stands for the present directory. -/
def rootRule (d : Disk) (asName : Bool) : Rule Path := fun j =>
  match j with
  | .null => if asName then .error (.notPath j.typeName) else missing j
  | .str s =>
    if s = "" ∧ asName = false then missing j
    else
      match d.canonical d.cwd s.toList with
      | .ok p => .ok (.ok p.parts)
      | .error .noHome => .error (.path .noHome)
      | .error (.linkLoop p) => .error (.path (.linkLoop p))
      | .error f => refuse f.message j
  | _ => .error (.notPath j.typeName)
where
  /-- No root. -/
  missing (j : Json) : Except Fault (Checked Path) :=
    refuse "HASHTAGS_WORKSPACE_ROOT is required" j

/-- The single values in a given one: what stands between commas, or the items of a list. -/
def listed : Json → Except Fault (List Json)
  | .str s => .ok ((s.toList.splitOn ',').map .ofText)
  | .arr items => .ok items
  | .obj members => .ok (members.map fun m => .str m.1)
  | j => .error (.notIterable j.typeName)

/-- Trim values and drop those that are not given or blank. -/
def trimmed : List Json → Except Fault (List Text)
  | [] => .ok []
  | j :: rest =>
    if !j.isTruthy then trimmed rest
    else
      match j with
      | .str s => do
        let t := Text.trim s.toList
        let ts ← trimmed rest
        .ok (if t = [] then ts else t :: ts)
      | _ => .error (.notTrimmable j.typeName)

/-- The trimmed values in a given one. -/
def trimmedList (j : Json) : Except Fault (List Text) := do
  let js ← listed j
  trimmed js

/-- An extension in small letters that begins with a dot. -/
def dotted (t : Text) : Text :=
  let l := t.lower
  if l.head? = some '.' then l else '.' :: l

/-- Extensions, each once. -/
def extensionsRule : Rule (List Text) := fun j => do
  let ts ← trimmedList j
  let es := (ts.map dotted).eraseDups
  if es = [] then refuse "At least one file extension is required" j else .ok (.ok es)

/-- Names of directories. -/
def excludedRule : Rule (List Text) := fun j => (fun ts => .ok ts) <$> trimmedList j

/-- A value that is checked without being changed. -/
def checkedRule (r : Reader α) : Rule α := fun j => .ok (r j)

/-- The names of log levels. -/
def logLevels : List Text :=
  ["CRITICAL", "FATAL", "ERROR", "WARN", "WARNING", "INFO", "DEBUG", "NOTSET"].map String.toList

/-- A letter as a capital, as far as names of log levels can tell: the dotless i and the long s have
the capitals I and S. -/
def levelLetter (c : Char) : Char :=
  if c = 'ı' then 'I' else if c = 'ſ' then 'S' else c.toUpper

/-- A log level in capitals; one that is not given is the level for information. -/
def logLevelRule : Rule Text := fun j =>
  if !j.isTruthy then .ok (.ok "INFO".toList)
  else
    match j with
    | .str s =>
      let level := (Text.trim s.toList).map levelLetter
      if logLevels.contains level then .ok (.ok level)
      else refuse s!"Unknown log level: {s}" j
    | _ => .error (.notTrimmable j.typeName)

/-- Apply a rule to an argument; one that is not given has the default, or is missing. -/
def argument (args : Json) (name : String) (default? : Option α) (rule : Rule α) :
    Except Fault (Checked α) :=
  match args.get? name, default? with
  | some j, _ => (fun c => c.under (.field name)) <$> rule j
  | none, some a => .ok (.ok a)
  | none, none => .ok (Checked.under (.field name) (.fail .missing args))

/-- The settings that arguments stand for; `asName` says that the root is given as a path name. -/
def ofArguments (d : Disk) (asName : Bool) (args : Json) : Except Fault Settings := do
  let root ← argument args "workspace_root" none (rootRule d asName)
  let extensions ← argument args "file_extensions" (some defaultExtensions) extensionsRule
  let excluded ← argument args "exclude_dirs" (some defaultExcluded) excludedRule
  let key ← argument args "sort_key" (some .name) (checkedRule SortKey.read)
  let order ← argument args "sort_order" (some .asc) (checkedRule SortOrder.read)
  let level ← argument args "log_level" (some "INFO".toList) logLevelRule
  match root.pair (extensions.pair (excluded.pair (key.pair (order.pair level)))) with
  | .ok (root, extensions, excluded, key, order, level) =>
    .ok ⟨root, extensions, excluded, ⟨key, order⟩, level⟩
  | .error issues => .error (.invalid issues)

/-- Names with a comma between them. -/
def commaSeparated (ts : List Text) : String := String.ofList (List.intercalate [','] ts)

/-- The variables with settings, the arguments they stand for, and their values when not set. -/
def settingVariables (d : Disk) : List (String × String × String) :=
  [("HASHTAGS_WORKSPACE_ROOT", "workspace_root", String.ofList d.cwd.toText),
  ("HASHTAGS_FILE_EXTENSIONS", "file_extensions", commaSeparated defaultExtensions),
  ("HASHTAGS_EXCLUDE_DIRS", "exclude_dirs", commaSeparated defaultExcluded),
  ("HASHTAGS_SORT_KEY", "sort_key", SortKey.word .name),
  ("HASHTAGS_SORT_ORDER", "sort_order", SortOrder.word .asc),
  ("HASHTAGS_LOG_LEVEL", "log_level", "INFO")]

/-- The settings that environment variables stand for. -/
def ofEnvironment (d : Disk) (env : Environment) : Except Fault Settings :=
  ofArguments d false <| .obj <|
    (settingVariables d).map fun v => (v.2.1, .str ((env.get? v.1).getD v.2.2))

/-- Assign fields of settings, which are frozen. -/
def assignAll (s : Settings) (fields : List (String × Json)) : Except Fault Settings :=
  match fields.find? fun f => !Kind.isPrivate f.1 with
  | none => .ok s
  | some (name, value) => .error (.invalid [⟨.frozen, [.field name], value⟩])

/-- Settings as a transport value. -/
def toJson (s : Settings) : Json :=
  .obj [("workspace_root", .ofText s.root.toText), ("file_extensions", .ofTexts s.extensions),
    ("exclude_dirs", .ofTexts s.excluded), ("sort_key", .str s.sorting.key.word),
    ("sort_order", .str s.sorting.order.word), ("log_level", .ofText s.logLevel)]

end Settings

/-- Settings that were read from the environment, if they were read without a failure. -/
abbrev ConfigCache := Option Settings

namespace ConfigCache

/-- The settings read before, or else read now. -/
def get (c : ConfigCache) (d : Disk) (env : Environment) : ConfigCache × Except Fault Settings :=
  match c with
  | some s => (some s, .ok s)
  | none =>
    match Settings.ofEnvironment d env with
    | .ok s => (some s, .ok s)
    | .error f => (none, .error f)

/-- Forget what was read before and read again. -/
def reload (d : Disk) (env : Environment) : ConfigCache × Except Fault Settings :=
  get none d env

end ConfigCache

end HashtagIndex
