import Mathlib.Data.Vector.Basic
import Mathlib.Data.Nat.Digits.Defs

namespace Data

/-! # C strings in fixed character arrays

An array keeps its bytes past the terminator, as memory does. `strcpy` leaves
them alone, `strncpy` clears them: the difference matters as soon as a whole
array, and not only the string in it, is hashed or sent.
-/

abbrev CharArray (n : Nat) := List.Vector UInt8 n

/-- The characters up to the terminator, or all of them when there is none. -/
def cstr (bytes : List UInt8) : List UInt8 := bytes.takeWhile (· != 0)

/-- `strcmp(left, right) == 0`. Reading on past an array without terminator is
undefined in C; here the string ends with its array. -/
def sameString (left right : List UInt8) : Bool := cstr left == cstr right

def samePrefix (count : Nat) (left right : List UInt8) : Bool :=
  cstr (left.take count) == cstr (right.take count)

/-- Store `text` over the first bytes of an array; an excess is cut off. -/
def overwrite {n : Nat} (dst : CharArray n) (text : List UInt8) : CharArray n :=
  ⟨(text ++ dst.toList.drop text.length).take n, by simp; omega⟩

/-- `memcpy` of a whole array out of a buffer; a buffer that ends early reads as zeros. -/
def loadArray (n : Nat) (bytes : List UInt8) : CharArray n :=
  ⟨bytes.take n ++ List.replicate (n - bytes.length) 0, by simp; omega⟩

def strcpy {n : Nat} (dst : CharArray n) (src : List UInt8) : CharArray n :=
  overwrite dst (cstr src ++ [0])

/-- `strncpy(dst, src, n)` into the whole of an `n` byte array. -/
def strncpy (n : Nat) (src : List UInt8) : CharArray n :=
  ⟨(cstr src).take n ++ List.replicate (n - (cstr src).length) 0, by simp; omega⟩

/-- `snprintf(dst, n, ...)` where `text` is the formatted output. -/
def snprintf {n : Nat} (dst : CharArray n) (text : List UInt8) : CharArray n :=
  overwrite dst (text.take (n - 1) ++ [0])

def zeroArray (n : Nat) : CharArray n := ⟨List.replicate n 0, by simp⟩

/-- The array holds a terminated string followed by zeros only, which is what
`strncpy` of a string shorter than the array leaves behind. -/
def ZeroPadded {n : Nat} (array : CharArray n) : Prop :=
  (cstr array.toList).length < n ∧ strncpy n array.toList = array

instance {n : Nat} (array : CharArray n) : Decidable (ZeroPadded array) :=
  inferInstanceAs (Decidable (_ ∧ _))

@[simp] theorem zeroArray_toList (n : Nat) : (zeroArray n).toList = List.replicate n 0 := rfl

theorem loadArray_append {n : Nat} (array : CharArray n) (rest : List UInt8) :
    loadArray n (array.toList ++ rest) = array := by
  apply List.Vector.eq
  have width : array.toList.length = n := array.toList_length
  change (array.toList ++ rest).take n ++ List.replicate (n - (array.toList ++ rest).length) 0 = _
  rw [List.take_append_of_le_length (by omega), List.take_of_length_le (by omega),
    List.length_append, Nat.sub_eq_zero_of_le (by omega), List.replicate_zero, List.append_nil]

theorem cstr_nonzero {bytes : List UInt8} {byte : UInt8} (member : byte ∈ cstr bytes) : byte ≠ 0 := by
  have all := List.all_takeWhile (p := fun byte : UInt8 => byte != 0) (l := bytes)
  simpa using List.all_eq_true.mp all byte member

theorem cstr_of_nonzero {text : List UInt8} (nonzero : ∀ byte ∈ text, byte ≠ 0) : cstr text = text := by
  have all : ∀ byte ∈ text, (byte != 0) = true := by simpa using nonzero
  have appended : cstr (text ++ []) = text ++ cstr [] := List.takeWhile_append_of_pos all
  simpa [cstr] using appended

theorem cstr_append_zero {text : List UInt8} (nonzero : ∀ byte ∈ text, byte ≠ 0) (rest : List UInt8) :
    cstr (text ++ 0 :: rest) = text := by
  have all : ∀ byte ∈ text, (byte != 0) = true := by simpa using nonzero
  simp [cstr, List.takeWhile_append_of_pos all]

theorem cstr_append_zeros (text : List UInt8) (nonzero : ∀ byte ∈ text, byte ≠ 0) (count : Nat) :
    cstr (text ++ List.replicate count 0) = text := by
  cases count with
  | zero => simpa using cstr_of_nonzero nonzero
  | succ count => exact cstr_append_zero nonzero _

@[simp] theorem cstr_zeros (count : Nat) : cstr (List.replicate count 0) = [] := by
  simpa using cstr_append_zeros [] (by simp) count

@[simp] theorem strncpy_toList (n : Nat) (src : List UInt8) :
    (strncpy n src).toList = (cstr src).take n ++ List.replicate (n - (cstr src).length) 0 := rfl

theorem cstr_strncpy (n : Nat) (src : List UInt8) : cstr (strncpy n src).toList = (cstr src).take n := by
  rw [strncpy_toList]
  exact cstr_append_zeros _ (fun byte member => cstr_nonzero (List.mem_of_mem_take member)) _

theorem cstr_strncpy_of_lt {n : Nat} {src : List UInt8} (short : (cstr src).length < n) :
    cstr (strncpy n src).toList = cstr src := by
  rw [cstr_strncpy, List.take_of_length_le (Nat.le_of_lt short)]

theorem strncpy_congr {n : Nat} {left right : List UInt8} (same : cstr left = cstr right) :
    strncpy n left = strncpy n right := by
  apply List.Vector.eq
  rw [strncpy_toList, strncpy_toList, same]

theorem strncpy_zeroPadded {n : Nat} {src : List UInt8} (short : (cstr src).length < n) :
    ZeroPadded (strncpy n src) := by
  refine ⟨by rwa [cstr_strncpy_of_lt short], ?_⟩
  exact strncpy_congr (cstr_strncpy_of_lt short)

theorem zeroArray_zeroPadded {n : Nat} (positive : 0 < n) : ZeroPadded (zeroArray n) := by
  refine ⟨by simpa using positive, ?_⟩
  apply List.Vector.eq
  simp

theorem ZeroPadded.ext {n : Nat} {left right : CharArray n} (leftPadded : ZeroPadded left)
    (rightPadded : ZeroPadded right) (same : cstr left.toList = cstr right.toList) : left = right := by
  rw [← leftPadded.2, ← rightPadded.2]
  exact strncpy_congr same

theorem ZeroPadded.strncpy_eq {n : Nat} {array : CharArray n} (padded : ZeroPadded array) :
    strncpy n array.toList = array := padded.2

theorem overwrite_zeroArray {n : Nat} {text : List UInt8} (short : text.length < n) :
    (overwrite (zeroArray n) (text ++ [0])).toList =
      text ++ List.replicate (n - text.length) 0 := by
  have tail : [(0 : UInt8)] ++ (List.replicate n 0).drop (text ++ [(0 : UInt8)]).length =
      List.replicate (n - text.length) 0 := by
    rw [List.drop_replicate, List.singleton_append, ← List.replicate_succ]
    congr 1
    simp only [List.length_append, List.length_singleton]
    omega
  change (text ++ [(0 : UInt8)] ++ (List.replicate n 0).drop (text ++ [(0 : UInt8)]).length).take n = _
  rw [List.append_assoc, tail, List.take_of_length_le]
  simp only [List.length_append, List.length_replicate]
  omega

theorem cstr_overwrite {n : Nat} (dst : CharArray n) {text : List UInt8}
    (nonzero : ∀ byte ∈ text, byte ≠ 0) (short : text.length < n) :
    cstr (overwrite dst (text ++ [0])).toList = text := by
  have terminated : (text ++ [(0 : UInt8)] ++ dst.toList.drop (text ++ [(0 : UInt8)]).length).take n =
      text ++ 0 :: (dst.toList.drop (text ++ [0]).length).take (n - (text.length + 1)) := by
    rw [List.take_append, List.take_of_length_le (by simp; omega)]
    simp
  change cstr ((text ++ [(0 : UInt8)] ++ dst.toList.drop (text ++ [0]).length).take n) = text
  rw [terminated, cstr_append_zero nonzero]

theorem ZeroPadded.strcpy_zeroArray {n : Nat} {array : CharArray n} (padded : ZeroPadded array) :
    strcpy (zeroArray n) array.toList = array := by
  obtain ⟨short, fixed⟩ := padded
  apply List.Vector.eq
  rw [strcpy, overwrite_zeroArray short]
  conv => rhs; rw [← fixed, strncpy_toList, List.take_of_length_le (Nat.le_of_lt short)]

theorem cstr_snprintf {n : Nat} (dst : CharArray n) {text : List UInt8}
    (nonzero : ∀ byte ∈ text, byte ≠ 0) (positive : 0 < n) :
    cstr (snprintf dst text).toList = text.take (n - 1) :=
  cstr_overwrite dst (fun byte member => nonzero byte (List.mem_of_mem_take member))
    (by simp only [List.length_take]; omega)

theorem snprintf_terminated {n : Nat} (dst : CharArray n) {text : List UInt8}
    (nonzero : ∀ byte ∈ text, byte ≠ 0) (positive : 0 < n) :
    (cstr (snprintf dst text).toList).length < n := by
  rw [cstr_snprintf dst nonzero positive, List.length_take]
  omega

theorem snprintf_zeroArray_zeroPadded {n : Nat} {text : List UInt8}
    (nonzero : ∀ byte ∈ text, byte ≠ 0) (positive : 0 < n) :
    ZeroPadded (snprintf (zeroArray n) text) := by
  have short : (text.take (n - 1)).length < n := by
    simp only [List.length_take]
    omega
  have string := cstr_snprintf (zeroArray n) nonzero positive
  refine ⟨snprintf_terminated _ nonzero positive, ?_⟩
  apply List.Vector.eq
  rw [strncpy_toList, string, snprintf, overwrite_zeroArray short,
    List.take_of_length_le (Nat.le_of_lt short)]

theorem samePrefix_whole {n : Nat} (left right : CharArray n) :
    samePrefix n left.toList right.toList = sameString left.toList right.toList := by
  simp [samePrefix, sameString, List.take_of_length_le]

@[simp] theorem sameString_iff {left right : List UInt8} :
    sameString left right = true ↔ cstr left = cstr right := by
  simp [sameString]

theorem sameString_eq_false_iff {left right : List UInt8} :
    sameString left right = false ↔ cstr left ≠ cstr right := by
  simp [sameString]

def decimal (value : Nat) : List UInt8 :=
  if value = 0 then [48] else (Nat.digits 10 value).reverse.map fun digit => UInt8.ofNat (48 + digit)

theorem decimal_nonzero {value : Nat} {byte : UInt8} (member : byte ∈ decimal value) : byte ≠ 0 := by
  unfold decimal at member
  split at member
  · cases List.mem_singleton.mp member
    decide
  · obtain ⟨digit, digitMember, rfl⟩ := List.mem_map.mp member
    have small : digit < 10 := Nat.digits_lt_base (by decide) (List.mem_reverse.mp digitMember)
    intro zero
    have value : (UInt8.ofNat (48 + digit)).toNat = 48 + digit := by
      rw [UInt8.toNat_ofNat']
      omega
    rw [zero] at value
    have same : 0 = 48 + digit := value
    omega

end Data
