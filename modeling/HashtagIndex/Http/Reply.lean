import HashtagIndex.Fault
import HashtagIndex.Http.Status

/-!
# `HashtagIndex.Http.Reply` — responses and the envelope of errors

Every error response has the same three members: a code, a message and a detail. What is known about
an error may be a text, which becomes the message, or a dictionary, whose members of those names
count; its other members become the detail if it names none. Whatever is not known comes from the
status.

## Contents
- `Envelope.ofDetail`: the envelope for what is known about an error.
- `Reply.forStatus`, `Reply.forRefusal`, `Reply.forFailure`, `Reply.forBreakdown`: error responses.
- `Reply.ofFault`, `Reply.ofResult`: the response to a fault, and to any outcome.
-/

namespace HashtagIndex.Http

/-- What an error response says. -/
structure Envelope where
  error : Json
  message : Json
  detail : Json
deriving Repr

/-- The code and the message of an error about which only the status is known. -/
def defaultsFor (status : Int) : String × String :=
  if status = 400 then ("validation_error", "Invalid request payload")
  else if status = 404 then ("not_found", "Resource not found")
  else ("internal_error", "Internal server error")

namespace Envelope

/-- The members of a dictionary that an envelope has no place for. -/
def remainder (members : List (String × Json)) : List (String × Json) :=
  members.filter fun m => !(["error", "message", "detail"].contains m.1)

/-- The detail that a dictionary gives: its own, or what else it holds. -/
def detailOf (members : List (String × Json)) : Json :=
  match members.lookup "detail" with
  | none | some .null => if (remainder members).isEmpty then .null else .obj (remainder members)
  | some d => d

/-- The envelope for what is known about an error. -/
def ofDetail (status : Int) : Json → Envelope
  | .obj members =>
    { error := (members.lookup "error").getD (.str (defaultsFor status).1)
      message := (members.lookup "message").getD (.str (defaultsFor status).2)
      detail := detailOf members }
  | .str s =>
    { error := .str (defaultsFor status).1
      message := .str (if s = "" then (defaultsFor status).2 else s)
      detail := .null }
  | _ => ⟨.str (defaultsFor status).1, .str (defaultsFor status).2, .null⟩

/-- An envelope as a transport value. -/
def toJson (e : Envelope) : Json :=
  .obj [("error", e.error), ("message", e.message), ("detail", e.detail)]

end Envelope

/-- A response; its body may be empty. -/
structure Reply where
  status : Int
  body : Option Json
deriving Repr

namespace Reply

/-- The response with an envelope, unless it holds a number that cannot be shown. -/
def withEnvelope (status : Int) (e : Envelope) : Except Fault Reply :=
  if e.toJson.hasUndefined then .error .undefinedNumber else .ok ⟨status, some e.toJson⟩

/-- The response for what is known about an error. -/
def withDetail (status : Int) (detail : Json) : Except Fault Reply :=
  withEnvelope status (.ofDetail status detail)

/-- The response for a status. If nothing is known, the standard phrase stands for it, if there is
one. -/
def forStatus (status : Int) (detail : Json) : Except Fault Reply :=
  match detail with
  | .null => withDetail status (.str ((phrase? status).getD ""))
  | d => withDetail status d

/-- Null instead of details that are empty or not given. -/
def given (details : Json) : Json := if details.isTruthy then details else .null

/-- The response to a refused name. -/
def forRefusal (message details : Json) : Except Fault Reply :=
  withEnvelope 400 ⟨.str "invalid_tag_name", message, given details⟩

/-- The response to an operation on documents that failed. -/
def forFailure (message details : Json) : Except Fault Reply :=
  withEnvelope 500 ⟨.str (defaultsFor 500).1, message, given details⟩

/-- The response to a breakdown, with what it carries. -/
def forBreakdown (payload : Option Json) : Except Fault Reply :=
  withDetail 500 (payload.getD .null)

/-- The response to values that do not fit their schema. -/
def forIssues (issues : List Issue) : Except Fault Reply :=
  withEnvelope 400 ⟨.str (defaultsFor 400).1, .str (defaultsFor 400).2,
    .obj [("errors", .arr (issues.map Issue.full))]⟩

/-- The response to a fault whose kind is known. -/
def ofKnown? (f : Fault) : Option (Except Fault Reply) :=
  match f with
  | .invalid issues => some (forIssues issues)
  | .name n => some (forRefusal (.str n.message) (.obj n.details))
  | .document d => some (forFailure (.str d.message) (.obj d.details))
  | .unreadableBody => some (withDetail 400 (.str f.message))
  | _ => none

/-- The response to a breakdown, whatever it carries: if that cannot be shown, there is nothing to
say. -/
def ofBreakdown (payload : Option Json) : Reply :=
  match forBreakdown payload with
  | .ok r => r
  | .error _ => ⟨500, none⟩

/-- The response to a fault; a response that cannot be shown is itself a breakdown. -/
def ofFault (f : Fault) : Reply :=
  match ofKnown? f with
  | none => ofBreakdown (some f.payload)
  | some (.ok r) => r
  | some (.error g) => ofBreakdown (some g.payload)

/-- The response to an outcome. -/
def ofResult : Except Fault Json → Reply
  | .ok body => ⟨200, some body⟩
  | .error f => ofFault f

/-- A response to someone who asks for its head only. -/
def headOnly (r : Reply) : Reply := { r with body := none }

end Reply

end HashtagIndex.Http
