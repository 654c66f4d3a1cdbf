import HashtagIndex.Text.Integer
import HashtagIndex.Workspace.Configuration

/-!
# `HashtagIndex.Launch` — how a server is started

There are two servers: one for HTTP and one for tools. Starting one means to set up logging from the
settings and then to serve with what the environment says about its address. A step that fails
leaves those before it done.

## Contents
- `LaunchStep`, `Launch`: the steps taken, and why no more were.
- `Launch.http`, `Launch.tools`: starting each server.
- `Launch.variableNames`: the variables that a launch depends on.
- `Launch.describe`: a launch in words.
-/

namespace HashtagIndex

/-- A step of a launch. -/
inductive LaunchStep where
  /-- Set up logging. -/
  | logging (level : Text)
  /-- Serve over HTTP, reloading when files of the server change if so wished. -/
  | serveHttp (host : String) (portNumber : Int) (reload : Bool)
  /-- Serve tools over a transport that has no address. -/
  | serveTools (transport : Text)
  /-- Serve tools over HTTP. -/
  | serveToolsAt (host : String) (portNumber : Int)
deriving Repr, DecidableEq

/-- The steps of a launch, and the failure that ended it, if one did. -/
structure Launch where
  steps : List LaunchStep := []
  failure : Option Fault := none
deriving Repr

/-- A variable, or its default. -/
def Environment.valueOf (env : Environment) (name default : String) : String :=
  (env.get? name).getD default

/-- The integer that a variable writes. -/
def Environment.integerOf (env : Environment) (name default : String) : Except Fault Int :=
  let t := (env.valueOf name default).toList
  match readInteger t with
  | .error .unreadable => .error (.notInteger t)
  | .error (.tooLong digits) => .error (.tooManyDigits digits)
  | .ok n => .ok n

namespace Launch

/-- Set up logging from the settings and go on with one more step. -/
def withLogging (d : Disk) (env : Environment) (next : Except Fault LaunchStep) : Launch :=
  match Settings.ofEnvironment d env with
  | .error f => { failure := some f }
  | .ok s =>
    match next with
    | .error f => { steps := [.logging s.logLevel], failure := some f }
    | .ok step => { steps := [.logging s.logLevel, step] }

/-- Whether the value of a variable says yes. -/
def isYes (value : String) : Bool :=
  ["1".toList, "true".toList, "yes".toList].contains (Text.lower value.toList)

/-- Start the server for HTTP. -/
def http (d : Disk) (env : Environment) : Launch :=
  withLogging d env <|
    (env.integerOf "PORT" "8000").map fun portNumber =>
      .serveHttp (env.valueOf "HOST" "127.0.0.1") portNumber (isYes (env.valueOf "RELOAD" "false"))

/-- The way tools are reached: over standard input and output unless another way is set. -/
def transportOf (env : Environment) : Text :=
  let t := Text.lower (Text.trim (env.valueOf "MCP_TRANSPORT" "stdio").toList)
  if t = [] then "stdio".toList else t

/-- Start the server for tools. -/
def tools (d : Disk) (env : Environment) : Launch :=
  withLogging d env <|
    if transportOf env ≠ "http".toList then .ok (.serveTools (transportOf env))
    else
      (env.integerOf "MCP_PORT" "8001").map fun portNumber =>
        .serveToolsAt (env.valueOf "MCP_HOST" "127.0.0.1") portNumber

/-- The variables that a launch depends on. -/
def variableNames : List String :=
  ["HASHTAGS_WORKSPACE_ROOT", "HASHTAGS_FILE_EXTENSIONS", "HASHTAGS_EXCLUDE_DIRS",
  "HASHTAGS_SORT_KEY", "HASHTAGS_SORT_ORDER", "HASHTAGS_LOG_LEVEL", "PORT", "HOST", "RELOAD",
  "MCP_TRANSPORT", "MCP_PORT", "MCP_HOST"]

end Launch

/-- A step in words. -/
def LaunchStep.describe : LaunchStep → String
  | .logging level => s!"log from level {level.toString} on"
  | .serveHttp host portNumber reload =>
    s!"serve HTTP at {host}:{portNumber}" ++ if reload then " and reload on changes" else ""
  | .serveTools transport => s!"serve tools over {transport.toString}"
  | .serveToolsAt host portNumber => s!"serve tools over http at {host}:{portNumber}"

/-- A fault in words: its wording, or that of each issue. -/
def Fault.describe : Fault → List String
  | .invalid issues =>
    issues.map fun i => (Json.arr (i.place.map Step.toJson)).render ++ ": " ++ i.complaint.message
  | f => [f.message]

/-- What a launch does, line by line, and what went wrong. -/
def Launch.describe (l : Launch) : List String × List String :=
  (l.steps.map LaunchStep.describe, (l.failure.map Fault.describe).getD [])

end HashtagIndex
