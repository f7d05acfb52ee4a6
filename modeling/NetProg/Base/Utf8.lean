/-
# NetProg.Base.Utf8 -- `str.encode ()` and `bytes.decode ()`.

Text is a list of characters, data a list of bytes.  Encoding is total and concatenates; decoding is
strict, and succeeds exactly on what encoding makes (`decode_eq_some_iff`).  So a prefix that decodes can be
cut off a text that decodes (`decode_append`), and a chunk that ends inside a character does not decode.
-/
import Mathlib.Data.List.Basic
import Mathlib.Tactic.Cases

namespace NetProg

/-- `str.encode ()`. -/
def encode (t : List Char) : List UInt8 := t.flatMap String.utf8EncodeChar

/-- `bytes.decode ()`; `none` is `UnicodeDecodeError`. -/
def decode (b : List UInt8) : Option (List Char) := b.toByteArray.utf8Decode?.map Array.toList

@[simp] theorem encode_nil : encode [] = [] := rfl

@[simp] theorem encode_append (t u : List Char) : encode (t ++ u) = encode t ++ encode u :=
  List.flatMap_append

theorem toByteArray_encode (t : List Char) : (encode t).toByteArray = t.utf8Encode := rfl

@[simp] theorem decode_encode (t : List Char) : decode (encode t) = some t := by
  rw [decode, toByteArray_encode, List.utf8Decode?_utf8Encode]
  rfl

theorem encode_eq_nil {t : List Char} : encode t = [] ↔ t = [] := by
  constructor
  · intro h
    have hdecode := decode_encode t
    rw [h, ← encode_nil, decode_encode] at hdecode
    exact (Option.some.inj hdecode).symm
  · rintro rfl
    exact encode_nil

theorem decode_eq_some_iff {b : List UInt8} {t : List Char} : decode b = some t ↔ encode t = b := by
  constructor
  · intro h
    rw [decode, Option.map_eq_some_iff] at h
    obtain ⟨a, ha, rfl⟩ := h
    have hvalid : b.toByteArray.utf8Decode?.isSome := Option.isSome_of_eq_some ha
    have hget : b.toByteArray.utf8Decode?.get hvalid = a := by simp [ha]
    have hbytes : (encode a.toList).toByteArray = b.toByteArray := by
      rw [toByteArray_encode, ← hget, ByteArray.utf8Encode_get_utf8Decode?]
    have := congrArg (fun x : ByteArray => x.data.toList) hbytes
    simpa using this
  · rintro rfl
    exact decode_encode t

/-- Concatenating two pieces that decode. -/
theorem decode_append {a b : List UInt8} {t u : List Char} (ha : decode a = some t)
    (hb : decode b = some u) : decode (a ++ b) = some (t ++ u) := by
  rw [decode_eq_some_iff] at *
  rw [encode_append, ha, hb]

/-! ## ASCII -/

/-- One byte for each character: such a text can be cut anywhere. -/
def Ascii (t : List Char) : Prop := ∀ c ∈ t, c.val ≤ 0x7f

instance (t : List Char) : Decidable (Ascii t) := inferInstanceAs (Decidable (∀ c ∈ t, _))

namespace Ascii

variable {t u : List Char}

theorem append (ht : Ascii t) (hu : Ascii u) : Ascii (t ++ u) := by
  intro c hc
  exact (List.mem_append.mp hc).elim (ht c) (hu c)

theorem encode_eq (ht : Ascii t) : encode t = t.map fun c => c.val.toUInt8 := by
  induction t with
  | nil => rfl
  | cons c t ih =>
    have hc := ht c List.mem_cons_self
    have hsize : c.utf8Size = 1 := by simp [Char.utf8Size, hc]
    rw [encode, List.flatMap_cons, String.utf8EncodeChar_eq_singleton hsize, List.map_cons]
    exact congrArg (c.val.toUInt8 :: ·) (ih fun d hd => ht d (List.mem_cons_of_mem c hd))

theorem length_encode (ht : Ascii t) : (encode t).length = t.length := by
  rw [ht.encode_eq, List.length_map]

/-- What was cut out of the bytes is a text by itself. -/
theorem decode_slice (ht : Ascii t) (n k : ℕ) :
    decode (((encode t).drop n).take k) = some ((t.drop n).take k) := by
  have hslice : Ascii ((t.drop n).take k) := fun c hc => ht c (List.mem_of_mem_drop (List.mem_of_mem_take hc))
  rw [decode_eq_some_iff, hslice.encode_eq, ht.encode_eq, List.map_take, List.map_drop]

end Ascii

end NetProg
