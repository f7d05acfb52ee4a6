/-
# NetProg.Heartbeat.ExpireFile -- the counter file of `C/heartbeat_router.c`.

`write_expire_cnt` opens the file with `O_TRUNC` and then writes the decimal text of the number and its
NUL at offset 0; `read_expire_cnt` reads at most 25 bytes into an uninitialised array and hands it to
`atoi`.  The two halves of the write are separate steps, because another process can get in between.
A read of the empty file leaves the array as it was, so what it held (`stack`) is an argument.

The file exists and can be opened.  `Holds file v` says that the file spells the `int` `v`.
-/
import NetProg.Base.Decimal

namespace NetProg.Heartbeat

/-- The bytes of `FILENAME`. -/
abbrev File := List Char

def nul : Char := '\x00'

/-- `char str[25]`. -/
def strSize : ℕ := 25

/-- `open (FILENAME, O_RDWR|O_CREAT|O_TRUNC)`. -/
def File.truncate (_ : File) : File := []

/-- `write (fd, str, strlen (str) + 1)` at offset 0, with the text of `v` in `str`. -/
def File.write (file : File) (v : ℤ) : File :=
  showInt v ++ nul :: file.drop ((showInt v).length + 1)

/-- `write_expire_cnt`. -/
def writeExpireCnt (v : ℤ) (file : File) : File := file.truncate.write v

/-- `read_expire_cnt`; `stack` is what `str` and the memory after it held before. -/
def readExpireCnt (stack : List Char) (file : File) : ℤ :=
  atoi (file.take strSize ++ stack.drop (file.take strSize).length)

/-- The file spells the `int` `v`. -/
structure Holds (file : File) (v : ℤ) : Prop where
  text : ∃ rest, file = showInt v ++ nul :: rest
  small : v.natAbs ≤ 2 ^ 31

theorem holds_write (file : File) {v : ℤ} (hv : v.natAbs ≤ 2 ^ 31) : Holds (file.write v) v :=
  ⟨⟨_, rfl⟩, hv⟩

/-- **A read gets the number that the file spells**, whatever was in memory. -/
theorem Holds.read {file : File} {v : ℤ} (hf : Holds file v) (stack : List Char) :
    readExpireCnt stack file = v := by
  obtain ⟨rest, rfl⟩ := hf.text
  have hsmall := hf.small
  have hlen : (showInt v).length ≤ 11 := length_showInt_le (k := 10) (by decide) (by omega)
  obtain ⟨k, hk⟩ : ∃ k, strSize - (showInt v).length = k + 1 :=
    ⟨24 - (showInt v).length, by simp only [strSize]; omega⟩
  have htake : (showInt v ++ nul :: rest).take strSize = showInt v ++ nul :: rest.take k := by
    rw [List.take_append, List.take_of_length_le (by simp only [strSize]; omega), hk,
      List.take_succ_cons]
  rw [readExpireCnt, htake, List.append_assoc, List.cons_append]
  exact atoi_showInt v (by decide) _

end NetProg.Heartbeat
