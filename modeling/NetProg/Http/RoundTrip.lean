/-
# NetProg.Http.RoundTrip -- the request reads back as the arguments.

`parseRequest` reads an HTTP/1.0 request: the request line up to the first end of line, the header lines up
to the first empty one, and the rest.  The message of `NetProg.Http.Client` is one request line, the given
headers with the length header behind them, an empty line, and the body (`message_eq`).  As no part holds
the separator that ends it, reading returns the parts.
-/
import NetProg.Http.Client

namespace NetProg.HttpClient

/-! ## Reading a request -/

/-- A request that was read. -/
structure Request where
  method : List Char
  target : List Char
  version : List Char
  headers : List (List Char)
  rest : List Char
  deriving DecidableEq, Repr

/-- Read a request. -/
def parseRequest (l : List Char) : Option Request := do
  let (line, l) ← cutAt crlf l
  let (method, line) ← cutAt [' '] line
  let (target, version) ← cutAt [' '] line
  let (headers, rest) ← headerBlock [] l
  return ⟨method, target, version, headers, rest⟩

/-- Without space, CR or LF. -/
def Plain (l : List Char) : Prop := ∀ c ∈ l, c ≠ ' ' ∧ c ≠ '\r' ∧ c ≠ '\n'

/-- A header: not empty, and without CR or LF. -/
def IsHeader (l : List Char) : Prop := l ≠ [] ∧ ∀ c ∈ l, c ≠ '\r' ∧ c ≠ '\n'

instance (l : List Char) : Decidable (Plain l) := List.decidableBAll _ l

instance (l : List Char) : Decidable (IsHeader l) :=
  @instDecidableAnd _ _ inferInstance (List.decidableBAll _ l)

theorem parseRequest_of_parts {m t v : List Char} {hs : List (List Char)} (hm : ' ' ∉ m) (ht : ' ' ∉ t)
    (hline : '\r' ∉ m ++ ' ' :: (t ++ ' ' :: v)) (hhs : ∀ a ∈ hs, a ≠ [] ∧ '\r' ∉ a) (rest : List Char) :
    parseRequest (m ++ ' ' :: (t ++ ' ' :: v) ++ crlf ++ (hs.flatMap (· ++ crlf) ++ crlf ++ rest)) =
      some ⟨m, t, v, hs, rest⟩ := by
  have hcut : cutAt crlf (m ++ ' ' :: (t ++ ' ' :: v) ++ crlf ++ (hs.flatMap (· ++ crlf) ++ crlf ++ rest)) =
      some (m ++ ' ' :: (t ++ ' ' :: v), hs.flatMap (· ++ crlf) ++ crlf ++ rest) :=
    cutAt_append hline _ _
  have hmethod : cutAt [' '] (m ++ ' ' :: (t ++ ' ' :: v)) = some (m, t ++ ' ' :: v) := by
    have := cutAt_append hm [] (t ++ ' ' :: v)
    simpa using this
  have htarget : cutAt [' '] (t ++ ' ' :: v) = some (t, v) := by
    have := cutAt_append ht [] v
    simpa using this
  simp only [parseRequest, hcut, hmethod, htarget, headerBlock_flatMap hhs, Option.bind_eq_bind,
    Option.bind_some, Option.pure_def]

/-! ## What the message consists of -/

namespace Args

/-- The path or `"/"`, and for a GET with a query `"?"` and the query. -/
def target (a : Args) : List Char :=
  (if a.path = [] then ['/'] else a.path) ++
    (match a.isGet, a.data with
      | true, some (q :: query) => '?' :: q :: query
      | _, _ => [])

/-- The length header that the code adds. -/
def lengthHeader (a : Args) : List (List Char) :=
  match a.isGet, a.data with
  | false, some body => [lengthName ++ showInt (.ofNat body.length)]
  | _, _ => []

/-- The body, which a GET does not have. -/
def body (a : Args) : List Char :=
  match a.isGet, a.data with
  | false, some body => body
  | _, _ => []

theorem orElse_slash (a : Args) : orElse a.path ['/'] = if a.path = [] then ['/'] else a.path := by
  cases hpath : a.path <;> simp [orElse]

/-- **The message**: request line, headers, empty line, body. -/
theorem message_eq {a : Args} (hmethod : a.method ≠ []) : a.message =
    a.method ++ ' ' :: (a.target ++ ' ' :: version) ++ crlf ++
      ((a.headers ++ a.lengthHeader).flatMap (· ++ crlf) ++ crlf ++ a.body) := by
  have hdefault : ∀ default, orElse a.method default = a.method := by
    intro default
    cases hm : a.method with
    | nil => exact absurd hm hmethod
    | cons c m => simp [orElse]
  have hslash := a.orElse_slash
  cases hget : a.isGet with
  | true =>
    cases hdata : a.data with
    | none =>
      simp [message, getLine, target, lengthHeader, body, headerText, hget, hdata, hdefault, hslash,
        sprintf_plainFormat]
    | some query =>
      cases query with
      | nil =>
        simp [message, getLine, target, lengthHeader, body, headerText, hget, hdata, hdefault, hslash,
          sprintf_queryFormat]
      | cons q query =>
        simp [message, getLine, target, lengthHeader, body, headerText, hget, hdata, hdefault, hslash,
          sprintf_queryFormat]
  | false =>
    cases hdata : a.data with
    | none =>
      simp [message, postLine, target, lengthHeader, body, headerText, hget, hdata, hdefault, hslash,
        sprintf_plainFormat]
    | some content =>
      simp [message, postLine, target, lengthHeader, body, headerText, hget, hdata, hdefault, hslash,
        sprintf_plainFormat, sprintf_lengthFormat]

theorem lengthHeader_line (a : Args) : ∀ h ∈ a.lengthHeader, h ≠ [] ∧ '\r' ∉ h := by
  unfold lengthHeader
  cases a.isGet with
  | true => simp
  | false =>
    cases a.data with
    | none => simp
    | some content =>
      intro h hh
      obtain rfl := List.mem_singleton.mp hh
      refine ⟨List.append_ne_nil_of_left_ne_nil (by decide) _, fun hmem => ?_⟩
      rcases List.mem_append.mp hmem with hname | hdigits
      · exact absurd hname (by decide)
      · have hdigit := Nat.isDigit_of_mem_toDigits (by decide) (by decide) hdigits
        exact absurd hdigit (by decide)

end Args

/-! ## The main result -/

/-- What the request `r` says of the arguments. -/
structure ReadsBack (a : Args) (r : Request) : Prop where
  method : r.method = a.method
  target : r.target = a.target
  version : r.version = version
  headers : a.isGet = true ∨ a.data = none → r.headers = a.headers
  lengthHeader : a.isGet = false → ∀ content, a.data = some content →
    ∃ v, r.headers = a.headers ++ [lengthName ++ v] ∧ v ≠ [] ∧ (∀ c ∈ v, c.isDigit = true) ∧
      atoi (v ++ crlf) = content.length
  rest : r.rest = if a.isGet then [] else a.data.getD []

/-- **The request reads back as the arguments.** -/
theorem message_readsBack {a : Args} (hmethod : a.method ≠ []) (hplain : Plain a.method)
    (hpath : Plain a.path) (hquery : a.isGet = true → ∀ query, a.data = some query → Plain query)
    (hheaders : ∀ h ∈ a.headers, IsHeader h) :
    ∃ r, parseRequest a.message = some r ∧ ReadsBack a r := by
  have htarget : Plain a.target := by
    intro c hc
    rcases List.mem_append.mp hc with hc | hc
    · split_ifs at hc with hp
      · rw [List.mem_singleton.mp hc]
        decide
      · exact hpath c hc
    · split at hc
      · rename_i q query hget hdata
        rcases List.mem_cons.mp hc with rfl | hc
        · decide
        · exact hquery hget (q :: query) hdata c hc
      · simp at hc
  have hline : '\r' ∉ a.method ++ ' ' :: (a.target ++ ' ' :: version) := by
    simp only [List.mem_append, List.mem_cons, not_or]
    refine ⟨fun hm => (hplain _ hm).2.1 rfl, by decide, fun hm => (htarget _ hm).2.1 rfl, by decide, ?_⟩
    decide
  have hlines : ∀ h ∈ a.headers ++ a.lengthHeader, h ≠ [] ∧ '\r' ∉ h := by
    intro h hh
    rcases List.mem_append.mp hh with hh | hh
    · exact ⟨(hheaders h hh).1, fun hm => ((hheaders h hh).2 _ hm).1 rfl⟩
    · exact a.lengthHeader_line h hh
  refine ⟨⟨a.method, a.target, version, a.headers ++ a.lengthHeader, a.body⟩, ?_, ?_⟩
  · rw [Args.message_eq hmethod]
    exact parseRequest_of_parts (fun hm => (hplain _ hm).1 rfl) (fun hm => (htarget _ hm).1 rfl) hline
      hlines _
  · refine ⟨rfl, rfl, rfl, ?_, ?_, ?_⟩
    · rintro (hget | hdata)
      · simp [Args.lengthHeader, hget]
      · cases hget : a.isGet <;> simp [Args.lengthHeader, hget, hdata]
    · intro hget content hdata
      refine ⟨showInt (.ofNat content.length), by simp [Args.lengthHeader, hget, hdata], ?_, ?_, ?_⟩
      · exact Nat.toDigits_ne_nil
      · exact fun c hc => Nat.isDigit_of_mem_toDigits (by decide) (by decide) hc
      · exact atoi_showInt (.ofNat content.length) (by decide) ['\n']
    · cases hget : a.isGet with
      | true => simp [Args.body, hget]
      | false => cases hdata : a.data <;> simp [Args.body, hget, hdata]

/-- A POST with a body and a header. -/
theorem message_readsBack_post :
    ReadsBack (Args.mk "POST".toList "/f".toList ["a=1".toList, "X: y".toList])
      ⟨"POST".toList, "/f".toList, version, ["X: y".toList, "Content-Length: 3".toList], "a=1".toList⟩ := by
  obtain ⟨r, hr, hback⟩ := message_readsBack
    (a := Args.mk "POST".toList "/f".toList ["a=1".toList, "X: y".toList]) (by decide) (by decide)
    (by decide) (by decide) (by decide)
  have hparse : parseRequest (Args.mk "POST".toList "/f".toList ["a=1".toList, "X: y".toList]).message =
      some ⟨"POST".toList, "/f".toList, version, ["X: y".toList, "Content-Length: 3".toList],
        "a=1".toList⟩ := by
    decide +kernel
  exact Option.some.inj (hparse.symm.trans hr) ▸ hback

end NetProg.HttpClient
