import HashtagIndex.Http.Reply
import HashtagIndex.Http.Request
import HashtagIndex.Schema.Records

/-!
# `HashtagIndex.Http.Routes` — the service over HTTP

An endpoint has a method and a path. A path without endpoint is not found; a path with endpoints for
other methods only does not allow the method. An endpoint reads its parameters before it touches the
service, so a request with wrong parameters changes nothing. Someone who asks for the head of a
response only gets its status, and there is no endpoint for that.

## Contents
- `Endpoint`, `endpoints`, `endpointFor`: routing.
- `Endpoint.run`: what an endpoint does to a session, and what it answers.
- `answer`: the response to a request.
-/

namespace HashtagIndex

/-- Put the outcome of an operation that may change the service next to the unchanged disk. -/
def Session.keepDisk (d : Disk) (r : Service × Except PathFault α) : Session × Except Fault α :=
  (⟨r.1, d⟩, r.2.mapError .path)

namespace Http

/-- What can be asked for. -/
inductive Endpoint where
  | tree
  | complete
  | references
  | rename
  | events
  | rescan
  | sorting
  | changeSorting
  | health
deriving Repr, DecidableEq

/-- The endpoints by path and method. -/
def endpoints : List (String × String × Endpoint) :=
  [("/api/tags/tree", "GET", .tree), ("/api/tags/complete", "GET", .complete),
  ("/api/tags/references", "GET", .references), ("/api/tags/rename", "POST", .rename),
  ("/api/tags/events", "POST", .events), ("/api/tags/rescan", "POST", .rescan),
  ("/api/tags/sorting", "GET", .sorting), ("/api/tags/sorting", "PUT", .changeSorting),
  ("/health", "GET", .health)]

/-- A path without the line feed that may end it. -/
def withoutLineFeed (path : String) : String :=
  if path.toList.getLast? = some '\n' then String.ofList path.toList.dropLast else path

/-- The endpoint for a request, or the status that says that there is none. -/
def endpointFor (method path : String) : Except Int Endpoint :=
  let here := endpoints.filter (·.1 == withoutLineFeed path)
  match here.find? (·.2.1 == method) with
  | some e => .ok e.2.2
  | none => .error (if here.isEmpty then 404 else 405)

/-- Read parameters, or leave the session as it is. -/
def withParameters (s : Session) (c : Except Fault α) (run : α → Session × Except Fault Json) :
    Session × Except Fault Json :=
  match c with
  | .error f => (s, .error f)
  | .ok a => run a

/-- The ordering that a query asks for. -/
def orderingOf (q : Request) : Checked (Option SortKey × Option SortOrder) :=
  (q.defaulted "sort_key" none fun j => (SortKey.read j).map some).pair
    (q.defaulted "sort_order" none fun j => (SortOrder.read j).map some)

/-- The tag that a query asks for, and whether nested tags count. -/
def referenceOf (q : Request) : Checked (Text × Bool) :=
  (q.required "tag" (Reader.textWithin 1 (some 1024))).pair
    (q.defaulted "include_descendants" false Reader.boolean)

/-- A node as a record, as long as it does not have too many levels. -/
def shownNode (n : Node) : Except Fault Json :=
  if Node.mostLevels < n.levels then .error .deepValue else .ok n.toJson

/-- What an endpoint does to a session, and what it answers. -/
def Endpoint.run (e : Endpoint) (s : Session) (q : Request) : Session × Except Fault Json :=
  let sv := s.service
  match e with
  | .health => (s, .ok (.obj [("status", .str "healthy")]))
  | .tree =>
    withParameters s ((orderingOf q).mapError .invalid) fun o =>
      (s, Fault.ofHierarchy (sv.tree? o.1 o.2) >>= shownNode)
  | .complete =>
    let typed := q.defaulted "prefix" [] (Reader.textWithin 0 (some 1024))
    withParameters s (typed.mapError .invalid) fun t =>
      (s, (fun cs => .arr (cs.map (·.toJson))) <$> Fault.ofHierarchy (sv.complete? t))
  | .references =>
    withParameters s ((referenceOf q).mapError .invalid) fun r =>
      (s, (fun ls => .arr (ls.map (·.toJson))) <$> Fault.ofHierarchy (sv.references? r.1 r.2))
  | .sorting => (s, .ok sv.sorting.toJson)
  | .changeSorting =>
    withParameters s (q.content SortingChange.fields) fun c =>
      let sv' := sv.setSorting c.key c.order
      (⟨sv', s.disk⟩, .ok sv'.sorting.toJson)
  | .rescan =>
    let (s', r) := Session.keepDisk s.disk (sv.scanAll s.disk)
    (s', (·.toJson) <$> r)
  | .events =>
    withParameters s (q.content WorkspaceEvent.fields) fun e =>
      let (s', r) := Session.keepDisk s.disk (sv.handle s.disk e)
      (s', (·.toJson) <$> r)
  | .rename =>
    withParameters s (q.content RenameRequest.fields) fun r =>
      let (s', outcome) := sv.rename s.disk r.tag r.name
      (s', match outcome with
        | .ok o => .ok o.report.toJson
        | .error f => .error f.toFault)

/-- The response to a request of a method in capitals, and the session after it. -/
def answerFor (method : String) (s : Session) (q : Request) : Session × Reply :=
  match endpointFor method q.path with
  | .error status =>
    (s, match Reply.forStatus status .null with
      | .ok r => r
      | .error f => Reply.ofFault f)
  | .ok e =>
    let (s', r) := e.run s q
    (s', Reply.ofResult r)

/-- The response to a request, and the session after it. -/
def answer (s : Session) (q : Request) : Session × Reply :=
  let method := q.method.toUpper
  let (s', r) := answerFor method s q
  (s', if method = "HEAD" then r.headOnly else r)

end Http

end HashtagIndex
