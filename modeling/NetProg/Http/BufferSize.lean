/-
# NetProg.Http.BufferSize -- whether the request fits into its buffer.

The size takes the conversions of the formats as if they were text, and gains eight characters on a GET and
four on any other request.  The default method takes four and the default path one, and the terminating NUL
is not counted.  With a body the length header has room to spare.  So the buffer is too small for one kind
of arguments only: no method, and neither a body nor headers.
-/
import NetProg.Http.Client

namespace NetProg.HttpClient

/-- `INT_MAX`. -/
def intMax : ℕ := 2147483647

/-! ## Lengths -/

section Lengths

@[simp] theorem length_crlf : crlf.length = 2 := by rfl
@[simp] theorem length_version : version.length = 8 := by rfl
@[simp] theorem length_lengthName : lengthName.length = 16 := by rfl
@[simp] theorem length_queryFormat : queryFormat.length = 20 := by rfl
@[simp] theorem length_plainFormat : plainFormat.length = 16 := by rfl
@[simp] theorem length_lengthSizeFormat : lengthSizeFormat.length = 20 := by rfl

theorem length_orElse (arg default : List Char) :
    (orElse arg default).length = if arg = [] then default.length else arg.length := by
  cases arg <;> simp [orElse]

/-- The length of a decimal number that fits an `int`. -/
theorem length_showInt_le_ten {n : ℕ} (hn : n ≤ intMax) : (showInt (.ofNat n)).length ≤ 10 := by
  have hlt : n < 10 ^ 10 := by
    unfold intMax at hn
    omega
  exact (Nat.length_toDigits_le_iff (by decide) (by decide)).mpr hlt

end Lengths

namespace Args

theorem length_headerText (a : Args) : a.headerText.length = a.headersSize := by
  simp [headerText, headersSize, List.length_flatMap]

/-- A path or its default. -/
theorem length_path_le (a : Args) : (orElse a.path "/".toList).length ≤ a.path.length + 1 := by
  rw [length_orElse]
  split_ifs with hpath
  · simp [hpath]
  · omega

/-- **A GET always fits.** -/
theorem get_fits {a : Args} (hget : a.isGet = true) : a.message.length + 1 ≤ a.messageSize := by
  have hmethod : (orElse a.method "GET".toList).length = a.method.length := by
    have hname : a.method = "GET".toList := by simpa [isGet] using hget
    rw [length_orElse, if_neg (by simp [hname])]
  have hpath := a.length_path_le
  have hheaders := a.length_headerText
  simp only [message, messageSize, hget, if_true, getLine]
  cases a.data with
  | none =>
    simp only [sprintf_plainFormat, List.length_append, List.length_cons, hmethod, hheaders,
      length_version, length_crlf, length_queryFormat]
    omega
  | some query =>
    have hquery : (if query.length > 0 then query else []).length = query.length := by
      cases query <;> simp
    have hmark : (if query.length > 0 then "?".toList else []).length ≤ 1 := by
      split_ifs <;> simp
    simp only [sprintf_queryFormat, List.length_append, List.length_cons, hmethod, hheaders, hquery,
      length_version, length_crlf, length_queryFormat]
    omega

/-- **Any other request with a body fits**: the length header takes up the slack. -/
theorem body_fits {a : Args} (hget : a.isGet = false) {body : List Char} (hdata : a.data = some body)
    (hsize : a.messageSize ≤ intMax) : a.message.length + 1 ≤ a.messageSize := by
  have hmethod : (orElse a.method "POST".toList).length ≤ a.method.length + 4 := by
    rw [length_orElse]
    split_ifs with hm
    · simp [hm]
    · omega
  have hpath := a.length_path_le
  have hheaders := a.length_headerText
  have hdigits : (showInt (.ofNat body.length)).length ≤ 10 := by
    refine length_showInt_le_ten (le_trans ?_ hsize)
    simp only [messageSize, hget, Bool.false_eq_true, if_false, hdata]
    omega
  simp only [message, messageSize, hget, Bool.false_eq_true, if_false, postLine, hdata,
    sprintf_plainFormat, sprintf_lengthFormat, List.length_append, List.length_cons, hheaders,
    length_version, length_crlf, length_plainFormat, length_lengthName, length_lengthSizeFormat]
  omega

/-- **Without a body the default method decides.** -/
theorem bare_fits_iff {a : Args} (hget : a.isGet = false) (hdata : a.data = none) :
    a.message.length + 1 ≤ a.messageSize ↔ a.method ≠ [] := by
  have hheaders := a.length_headerText
  simp only [message, messageSize, hget, Bool.false_eq_true, if_false, postLine, hdata,
    sprintf_plainFormat, List.length_append, List.length_cons, hheaders, length_version, length_crlf,
    length_plainFormat, List.length_nil, length_orElse]
  have hpost : "POST".toList.length = 4 := by rfl
  have hslash : "/".toList.length = 1 := by rfl
  rw [hpost, hslash]
  by_cases hmethod : a.method = []
  · rw [if_pos hmethod, hmethod]
    split_ifs with hpath
    · rw [hpath]
      simp only [List.length_nil, ne_eq, not_true_eq_false, iff_false]
      omega
    · have : 0 < a.path.length := List.length_pos_iff.mpr hpath
      simp only [List.length_nil, ne_eq, not_true_eq_false, iff_false]
      omega
  · rw [if_neg hmethod]
    refine ⟨fun _ => hmethod, fun _ => ?_⟩
    split_ifs with hpath
    · rw [hpath, List.length_nil]
      omega
    · omega

end Args

/-! ## The main result -/

/-- **The request and its NUL fit into the buffer, unless there is no method and `argc` is 5.** -/
theorem message_fits_iff {a : Args} (hsize : a.messageSize ≤ intMax) :
    a.message.length + 1 ≤ a.messageSize ↔ ¬ (a.method = [] ∧ a.rest = []) := by
  cases hget : a.isGet with
  | true =>
    have hmethod : a.method ≠ [] := by
      have hname : a.method = "GET".toList := by simpa [Args.isGet] using hget
      simp [hname]
    exact ⟨fun _ h => hmethod h.1, fun _ => Args.get_fits hget⟩
  | false =>
    cases hdata : a.data with
    | some body =>
      have hrest : a.rest ≠ [] := by
        intro hnil
        simp [Args.data, hnil] at hdata
      exact ⟨fun _ h => hrest h.2, fun _ => Args.body_fits hget hdata hsize⟩
    | none =>
      have hrest : a.rest = [] := by simpa [Args.data] using hdata
      rw [Args.bare_fits_iff hget hdata]
      simp [hrest]

/-- No method and no path: the text is twenty characters with its NUL, the buffer eighteen. -/
theorem message_overruns :
    (Args.mk [] [] []).message = "POST / HTTP/1.0\r\n\r\n".toList ∧
      (Args.mk [] [] []).messageSize = 18 ∧
      ¬ (Args.mk [] [] []).message.length + 1 ≤ (Args.mk [] [] []).messageSize := by
  refine ⟨by decide, by decide, by decide⟩

/-- The same with an empty body: the text takes thirty-nine of forty-eight characters. -/
theorem message_fits_iff_emptyBody :
    (Args.mk [] [] [[]]).message.length + 1 ≤ (Args.mk [] [] [[]]).messageSize ∧
      (Args.mk [] [] [[]]).messageSize = 48 :=
  ⟨(message_fits_iff (by decide)).mpr (by decide), by decide⟩

end NetProg.HttpClient
