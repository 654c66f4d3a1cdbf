import HashtagIndex.Text.Utf8

/-!
# `HashtagIndex.Http.Target` — what a request is aimed at

A target is a path with an optional query. A scheme and an authority in front of it do not matter
here, and neither does a fragment behind it. Single and double dots among the
segments of the path are applied before anything is decoded. A percent sign with two hexadecimal
digits stands for an octet; paths are decoded twice, once by the sender and once by the receiver, so
that an encoded percent sign may introduce another octet. In a query a plus sign stands for a
blank.
-/

namespace HashtagIndex.Http

/-- The value of a hexadecimal digit. -/
def hexDigit? (c : Char) : Option Nat :=
  if c.isDigit then some (c.toNat - 48)
  else if 'a' ≤ c ∧ c ≤ 'f' then some (c.toNat - 87)
  else if 'A' ≤ c ∧ c ≤ 'F' then some (c.toNat - 55)
  else none

/-- The octet that two hexadecimal digits write. -/
def octet? (high low : Char) : Option UInt8 := do
  some (UInt8.ofNat ((← hexDigit? high) * 16 + (← hexDigit? low)))

/-- The octets of a text in which percent signs introduce octets. -/
def percentOctets : Text → List UInt8
  | '%' :: a :: b :: r =>
    match octet? a b with
    | some n => n :: percentOctets r
    | none => encodeUtf8 ['%'] ++ percentOctets (a :: b :: r)
  | c :: r => encodeUtf8 [c] ++ percentOctets r
  | [] => []
termination_by t => t.length

/-- A text with its percent signs decoded. Octets that are not text are replaced. -/
def percentDecode (t : Text) : Text := decodeLossy (percentOctets t)

/-- What stands in front of the first `sep`, and what stands behind it. -/
def splitFirst (sep : Char) (t : Text) : Text × Text :=
  (t.takeWhile (· ≠ sep), (t.dropWhile (· ≠ sep)).drop 1)

/-- A target behind its scheme, if it has one. -/
def dropScheme (t : Text) : Text :=
  let (scheme, rest) := splitFirst ':' t
  if ["http".toList, "https".toList].contains (scheme.map Char.toLower) then rest else t

/-- A target behind its scheme and its authority, as far as it has them. -/
def dropAuthority (t : Text) : Text :=
  match dropScheme t with
  | '/' :: '/' :: r => r.dropWhile fun c => c ≠ '/' && c ≠ '?' && c ≠ '#'
  | u => u

/-- Apply single and double dots among the segments of a path. -/
def applyDots (segments : List Text) : List Text :=
  segments.foldl (fun kept s =>
    if s = ['.'] then kept
    else if s = ['.', '.'] then (if kept = [[]] then kept else kept.dropLast)
    else kept ++ [s]) []

/-- A path that begins with exactly one slash and has its dots applied. -/
def plainPath (t : Text) : Text :=
  let p := (List.intersperse ['/'] (applyDots (('/' :: t.dropWhile (· = '/')).splitOn '/'))).flatten
  if p = [] then ['/'] else p

/-- The path of a target, decoded. -/
def targetPath (target : Text) : Text :=
  let written := (splitFirst '?' (splitFirst '#' (dropAuthority target)).1).1
  percentDecode (percentDecode (plainPath written))

/-- One parameter of a query, decoded. -/
def queryPair (t : Text) : Text × Text :=
  let decode (u : Text) : Text := percentDecode (u.map fun c => if c = '+' then ' ' else c)
  (decode (splitFirst '=' t).1, decode (splitFirst '=' t).2)

/-- The parameters of a target's query, decoded. -/
def targetQuery (target : Text) : List (Text × Text) :=
  let written := (splitFirst '?' (splitFirst '#' (dropAuthority target)).1).2
  ((written.splitOn '&').filter (· ≠ [])).map queryPair

example : targetPath "/%68ealth?x#y".toList = "/health".toList := by decide +kernel
example : targetPath "/a/../%2568".toList = "/h".toList := by decide +kernel

end HashtagIndex.Http
