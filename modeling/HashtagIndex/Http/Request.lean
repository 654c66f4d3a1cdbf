import HashtagIndex.Fault
import HashtagIndex.Http.Target
import HashtagIndex.Json.Parser
import HashtagIndex.Schema.Reader
import HashtagIndex.Text.Blank
import HashtagIndex.Text.Wide

/-!
# `HashtagIndex.Http.Request` — requests and their parameters

A parameter of the query is a text that a reader turns into a value; of several with one name the
last counts. A body is read as transport text if its content type says so or if there is no content
type. It may be written in any encoding that its first octets tell. A body that is no text at all,
or that holds more than a reader takes, is refused as a whole; a fault of the notation is an issue
at its place.
-/

namespace HashtagIndex.Http

/-- A request. -/
structure Request where
  method : String
  /-- What the request is aimed at, as written. -/
  target : Text
  /-- Parameters beside those of the target, decoded. -/
  others : List (String × String) := []
  contentType : String := "application/json"
  body : String := ""
deriving Repr

namespace Request

/-- The path of the target. -/
def path (q : Request) : String := String.ofList (targetPath q.target)

/-- The parameters of the query, in their order. -/
def query (q : Request) : List (String × String) :=
  ((targetQuery q.target).map fun p => (String.ofList p.1, String.ofList p.2)) ++ q.others

/-- The last value of a parameter. -/
def parameter? (q : Request) (name : String) : Option String := q.query.reverse.lookup name

/-- The place of a parameter. -/
def placed (name : String) (c : Checked α) : Checked α :=
  (c.under (.field name)).under (.field "query")

/-- Read a parameter that has to be there. -/
def required (q : Request) (name : String) (r : Reader α) : Checked α :=
  placed name <|
    match q.parameter? name with
    | none => .fail .missing .null
    | some s => r (.str s)

/-- Read a parameter that may be left out. -/
def defaulted (q : Request) (name : String) (value : α) (r : Reader α) : Checked α :=
  match q.parameter? name with
  | none => .ok value
  | some s => placed name (r (.str s))

/-- The two halves of a media type, in small letters and without its parameters. -/
def mediaType? (contentType : String) : Option (Text × Text) :=
  let kind := Text.trim (contentType.toList.takeWhile (· ≠ ';'))
  match (kind.map Char.toLower).splitOn '/' with
  | [main, sub] => some (main, sub)
  | _ => none

/-- Whether a body of a content type is transport text. -/
def isJsonType (contentType : String) : Bool :=
  contentType == "" ||
    match mediaType? contentType with
    | none => false
    | some (main, sub) =>
      main == "application".toList && (sub == "json".toList || "+json".toList.isSuffixOf sub)

/-- The place of the body. -/
def inBody (c : Checked α) : Checked α := c.under (.field "body")

/-- The issue about a body that is not transport text. -/
def malformed (f : JsonFault) : Issue :=
  ⟨.malformed f.cause.message, [.field "body", .item f.position], .obj []⟩

/-- The text that octets write. In units of one octet, a byte order mark carries no meaning. -/
def textOf? (bytes : List UInt8) : Option Text :=
  let encoding := TextEncoding.guess bytes
  (decodeText? bytes encoding).map fun t =>
    if encoding = .octets ∧ t.head? = some '\ufeff' then t.drop 1 else t

/-- The most levels of values in a body. -/
def mostNested : Nat := 930

/-- The value that a body writes. -/
def value (q : Request) : Except Fault Json :=
  if q.body = "" then .error (.invalid [⟨.missing, [.field "body"], .null⟩])
  else if !isJsonType q.contentType then .error .octets
  else
    match textOf? (encodeUtf8 q.body.toList) with
    | none => .error .unreadableBody
    | some t =>
      match Json.parseWithin mostNested t with
      | .ok j => .ok j
      | .error f =>
        .error (if f.cause.isNotation then .invalid [malformed f] else .unreadableBody)

/-- Read the body, which has to be a dictionary. -/
def content (q : Request) (fields : Reader α) : Except Fault α := do
  let j ← q.value
  (inBody (Reader.record .notBody fields j)).mapError .invalid

end Request

end HashtagIndex.Http
