/-
# NetProg.Http.Client -- the request that `C/http_client.c` builds.

The size of the buffer is computed by one set of branches, from the lengths of the formats and of the
arguments, and the text is built by another one.  Strings are lists of characters, one for each byte,
without the terminating NUL.  `rest` is `argv[5..]`: its head is the query or the body, the others are
headers.  `message_size` is the mathematical sum; the results say where they need it to fit an `int`.
-/
import NetProg.Base.Decimal
import NetProg.Base.Text

namespace NetProg.HttpClient

/-- The arguments from `argv[3]` on. -/
structure Args where
  method : List Char
  path : List Char
  rest : List (List Char)
  deriving DecidableEq, Repr

/-- `"%s %s%s%s HTTP/1.0\r\n"`. -/
def queryFormat : List Char := "%s %s%s%s HTTP/1.0\r\n".toList

/-- `"%s %s HTTP/1.0\r\n"`. -/
def plainFormat : List Char := "%s %s HTTP/1.0\r\n".toList

/-- The format that the text of the header is built with. -/
def lengthFormat : List Char := "Content-Length: %ld\r\n".toList

/-- The format whose length is taken for the size. -/
def lengthSizeFormat : List Char := "Content-Length: %d\r\n".toList

/-- `"HTTP/1.0"`. -/
def version : List Char := "HTTP/1.0".toList

/-- `"Content-Length: "`. -/
def lengthName : List Char := "Content-Length: ".toList

theorem sprintf_queryFormat (m p x q : List Char) : sprintf queryFormat [m, p, x, q] =
    m ++ ' ' :: (p ++ (x ++ (q ++ ' ' :: (version ++ crlf)))) := by
  rfl

theorem sprintf_plainFormat (m p : List Char) : sprintf plainFormat [m, p] =
    m ++ ' ' :: (p ++ ' ' :: (version ++ crlf)) := by
  rfl

theorem sprintf_lengthFormat (v : List Char) : sprintf lengthFormat [v] =
    lengthName ++ (v ++ crlf) := by
  rfl

/-- `strlen (arg) > 0 ? arg : default`. -/
def orElse (arg default : List Char) : List Char := if arg.length > 0 then arg else default

namespace Args

/-- `!strcmp (argv[3], "GET")`. -/
def isGet (a : Args) : Bool := a.method = "GET".toList

/-- `argv[5]`, when `argc > 5`. -/
def data (a : Args) : Option (List Char) := a.rest.head?

/-- `argv[6..]`. -/
def headers (a : Args) : List (List Char) := a.rest.tail

/-! ## The size -/

/-- The loop over the headers. -/
def headersSize (a : Args) : ℕ := (a.headers.map fun h => h.length + crlf.length).sum

/-- `message_size`. -/
def messageSize (a : Args) : ℕ :=
  if a.isGet then
    queryFormat.length + a.method.length + a.path.length +
      (match a.data with
        | some query => query.length
        | none => 0) +
      a.headersSize + crlf.length
  else
    plainFormat.length + a.method.length + a.path.length + a.headersSize +
      (match a.data with
        | some _ => lengthSizeFormat.length + 10
        | none => 0) +
      crlf.length +
      (match a.data with
        | some body => body.length
        | none => 0)

/-! ## The text -/

/-- The loop that appends the headers. -/
def headerText (a : Args) : List Char := a.headers.flatMap (· ++ crlf)

/-- The first line of a GET. -/
def getLine (a : Args) : List Char :=
  match a.data with
  | some query =>
    sprintf queryFormat
      [orElse a.method "GET".toList, orElse a.path "/".toList,
        if query.length > 0 then "?".toList else [], if query.length > 0 then query else []]
  | none => sprintf plainFormat [orElse a.method "GET".toList, orElse a.path "/".toList]

/-- The first line of any other request. -/
def postLine (a : Args) : List Char :=
  sprintf plainFormat [orElse a.method "POST".toList, orElse a.path "/".toList]

/-- `message`, as the text that is built. -/
def message (a : Args) : List Char :=
  if a.isGet then a.getLine ++ a.headerText ++ crlf
  else
    a.postLine ++ a.headerText ++
      (match a.data with
        | some body => sprintf lengthFormat [showInt (.ofNat body.length)]
        | none => []) ++
      crlf ++
      (match a.data with
        | some body => body
        | none => [])

end Args

end NetProg.HttpClient
