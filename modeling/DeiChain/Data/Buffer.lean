import Mathlib.Data.List.Basic

namespace Data

/-! # A buffer filled behind a running pointer -/

/-- A buffer and the distance of the pointer from its start. -/
structure Writer where
  bytes : List UInt8
  cursor : Nat
deriving DecidableEq, Repr

/-- `memcpy(p, src, n); p += n`, `none` where the copy leaves the buffer. -/
def Writer.memcpy (writer : Writer) (src : List UInt8) : Option Writer :=
  if writer.cursor + src.length ≤ writer.bytes.length then
    some
      { bytes := writer.bytes.take writer.cursor ++ src ++ writer.bytes.drop (writer.cursor + src.length)
        cursor := writer.cursor + src.length }
  else none

/-- A buffer with `text` written in front of what was there, the pointer
behind it. -/
def Writer.after (text rest : List UInt8) : Writer where
  bytes := text ++ rest
  cursor := text.length

theorem Writer.memcpy_after (text : List UInt8) {rest src : List UInt8} (fits : src.length ≤ rest.length) :
    (Writer.after text rest).memcpy src = some (Writer.after (text ++ src) (rest.drop src.length)) := by
  have room : text.length + src.length ≤ text.length + rest.length := Nat.add_le_add_left fits _
  have behind : (text ++ rest).drop (text.length + src.length) = rest.drop src.length := by
    rw [List.drop_append, List.drop_of_length_le (Nat.le_add_right _ _), Nat.add_sub_cancel_left,
      List.nil_append]
  simp only [Writer.memcpy, Writer.after, List.take_left, behind, List.length_append, if_pos room]

/-- A loop that copies one piece after the other. -/
theorem Writer.foldlM_memcpy_after {α : Type} (piece : α → List UInt8) (pieces : List α)
    (text : List UInt8) {rest : List UInt8} (fits : (pieces.flatMap piece).length ≤ rest.length) :
    pieces.foldlM (fun writer next => writer.memcpy (piece next)) (Writer.after text rest) =
      some (Writer.after (text ++ pieces.flatMap piece) (rest.drop (pieces.flatMap piece).length)) := by
  induction pieces generalizing text rest with
  | nil => simp
  | cons next pieces ih =>
      rw [List.flatMap_cons, List.length_append] at fits
      have first : (piece next).length ≤ rest.length := Nat.le_of_add_right_le fits
      have others : (pieces.flatMap piece).length ≤ (rest.drop (piece next).length).length := by
        rw [List.length_drop]
        omega
      rw [List.foldlM_cons, Writer.memcpy_after text first]
      refine (ih (text ++ piece next) others).trans ?_
      rw [List.flatMap_cons, List.append_assoc, List.drop_drop, List.length_append]

end Data
