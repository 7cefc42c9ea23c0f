import DeiChain.Data.Decimal
import Mathlib.Data.List.TakeWhile

namespace Data

/-! # Formatted scanning

`fscanf` over a stream of bytes, for formats of white space, `%s` and characters
that stand for themselves. A directive takes as much as it can and the first
one that fails ends the scan, so how a text is split is not a matter of choice.
-/

inductive Directive where
  | literal (byte : UInt8)
  | blanks
  | word
deriving DecidableEq, Repr

/-- The directives of a format string. Other conversions than `%s` are not known. -/
def directives : List Char → List Directive
  | '%' :: 's' :: format => .word :: directives format
  | char :: format =>
      (if char.isWhitespace then .blanks else .literal (UInt8.ofNat char.toNat)) :: directives format
  | [] => []

/-- What was converted, what is left in the stream, and whether the format came
to its end. -/
structure Scan where
  words : List (List UInt8)
  rest : List UInt8
  whole : Bool
deriving DecidableEq, Repr

def isSolid (byte : UInt8) : Bool := !isSpace byte

def scan : List Directive → List UInt8 → Scan
  | [], text => ⟨[], text, true⟩
  | .literal _ :: _, [] => ⟨[], [], false⟩
  | .literal byte :: format, first :: text =>
      if first = byte then scan format text else ⟨[], first :: text, false⟩
  | .blanks :: format, text => scan format (text.dropWhile isSpace)
  | .word :: format, text =>
      let start := text.dropWhile isSpace
      if start = [] then ⟨[], [], false⟩
      else
        let next := scan format (start.dropWhile isSolid)
        ⟨start.takeWhile isSolid :: next.words, next.rest, next.whole⟩

theorem isSolid_of_isDigit {byte : UInt8} (digit : isDigit byte = true) : isSolid byte = true := by
  simp only [isDigit, isSolid, isSpace, Bool.and_eq_true, decide_eq_true_eq, Bool.not_eq_true',
    Bool.or_eq_false_iff, Bool.and_eq_false_iff, beq_eq_false_iff_ne, ne_eq, decide_eq_false_iff_not,
    UInt8.le_iff_toNat_le, ← UInt8.toNat_inj] at digit ⊢
  change 48 ≤ _ ∧ _ ≤ 57 at digit
  change ¬ _ = 32 ∧ (¬ 9 ≤ _ ∨ ¬ _ ≤ 13)
  omega

/-- The text does not go on with a byte of this kind. -/
def Stops (kind : UInt8 → Bool) (text : List UInt8) : Prop :=
  ∀ byte, text.head? = some byte → kind byte = false

/-- A format, the words it converts, a text that fits it and what comes behind. -/
inductive Reads : List Directive → List (List UInt8) → List UInt8 → List UInt8 → Prop where
  | done {rest} : Reads [] [] rest rest
  | literal {byte format words text rest} : Reads format words text rest →
      Reads (.literal byte :: format) words (byte :: text) rest
  | blanks {gap format words text rest} (blank : ∀ byte ∈ gap, isSpace byte = true)
      (stops : Stops isSpace text) : Reads format words text rest →
      Reads (.blanks :: format) words (gap ++ text) rest
  | word {gap word format words text rest} (blank : ∀ byte ∈ gap, isSpace byte = true)
      (nonempty : word ≠ []) (solid : ∀ byte ∈ word, isSolid byte = true)
      (stops : Stops isSolid text) : Reads format words text rest →
      Reads (.word :: format) (word :: words) (gap ++ (word ++ text)) rest

section

variable {kind : UInt8 → Bool} {front text : List UInt8}

theorem takeWhile_stops (all : ∀ byte ∈ front, kind byte = true) (stops : Stops kind text) :
    (front ++ text).takeWhile kind = front := by
  rw [List.takeWhile_append_of_pos all]
  cases text with
  | nil => exact List.append_nil front
  | cons byte text =>
      rw [List.takeWhile_cons_of_neg (by simp [stops byte rfl]), List.append_nil]

theorem dropWhile_stops (all : ∀ byte ∈ front, kind byte = true) (stops : Stops kind text) :
    (front ++ text).dropWhile kind = text := by
  rw [List.dropWhile_append_of_pos all]
  cases text with
  | nil => rfl
  | cons byte text => rw [List.dropWhile_cons_of_neg (by simp [stops byte rfl])]

theorem stops_dropWhile (kind : UInt8 → Bool) (text : List UInt8) : Stops kind (text.dropWhile kind) := by
  intro byte first
  have fails := List.head?_dropWhile_not kind text
  rw [first] at fails
  exact fails

/-- A word begins where white space ends. -/
theorem Stops.of_solid {word : List UInt8} (nonempty : word ≠ [])
    (solid : ∀ byte ∈ word, isSolid byte = true) (text : List UInt8) : Stops isSpace (word ++ text) := by
  intro byte first
  cases word with
  | nil => exact absurd rfl nonempty
  | cons other word =>
      cases first
      exact Bool.not_eq_true' _ ▸ solid byte List.mem_cons_self

end

section

variable {format front back : List Directive} {words others : List (List UInt8)}
  {text middle rest : List UInt8}

theorem Reads.scan (reads : Reads format words text rest) : scan format text = ⟨words, rest, true⟩ := by
  induction reads with
  | done => rfl
  | literal _ ih => rw [Data.scan, if_pos rfl, ih]
  | blanks blank stops _ ih => rw [Data.scan, dropWhile_stops blank stops, ih]
  | @word gap word format words text rest blank nonempty solid stops _ ih =>
      have start := dropWhile_stops blank (Stops.of_solid nonempty solid text)
      have some : word ++ text ≠ [] := by simp [nonempty]
      rw [Data.scan, start]
      simp only [some, if_false, takeWhile_stops solid stops, dropWhile_stops solid stops, ih]

theorem reads_scan (whole : scan format text = ⟨words, rest, true⟩) : Reads format words text rest := by
  induction format generalizing text words with
  | nil =>
      cases whole
      exact .done
  | cons directive format ih =>
      cases directive with
      | literal byte =>
          cases text with
          | nil => cases whole
          | cons first text =>
              rw [scan] at whole
              split at whole
              · rename_i same
                subst same
                exact .literal (ih whole)
              · cases whole
      | blanks =>
          rw [scan] at whole
          rw [← List.takeWhile_append_dropWhile (p := isSpace) (l := text)]
          exact .blanks (fun _ => List.mem_takeWhile_imp) (stops_dropWhile _ _) (ih whole)
      | word =>
          rw [scan] at whole
          generalize begun : text.dropWhile isSpace = start at whole
          simp only at whole
          split at whole
          · cases whole
          · rename_i some
            have shape : text = text.takeWhile isSpace ++ (start.takeWhile isSolid ++ start.dropWhile isSolid) := by
              rw [List.takeWhile_append_dropWhile, ← begun, List.takeWhile_append_dropWhile]
            obtain ⟨rfl, tail⟩ : start.takeWhile isSolid :: (scan format (start.dropWhile isSolid)).words = words ∧
                ((scan format (start.dropWhile isSolid)).rest = rest ∧
                  (scan format (start.dropWhile isSolid)).whole = true) := by
              simpa using whole
            have next := @ih (scan format (start.dropWhile isSolid)).words (start.dropWhile isSolid)
              (by rw [← tail.1, ← tail.2])
            rw [shape]
            refine .word (fun _ => List.mem_takeWhile_imp) ?_ (fun _ => List.mem_takeWhile_imp)
              (stops_dropWhile _ _) next
            obtain ⟨first, others, cut⟩ := List.exists_cons_of_ne_nil some
            have solid : isSolid first = true := by
              have stops := stops_dropWhile isSpace text first (by rw [begun, cut]; rfl)
              rw [isSolid, stops, Bool.not_false]
            rw [cut, List.takeWhile_cons_of_pos solid]
            exact List.cons_ne_nil _ _

theorem Reads.length (reads : Reads format words text rest) : words.length = format.count .word := by
  induction reads with
  | done => rfl
  | literal _ ih => rw [ih, List.count_cons_of_ne (by simp)]
  | blanks _ _ _ ih => rw [ih, List.count_cons_of_ne (by simp)]
  | word _ _ _ _ _ ih => rw [List.length_cons, ih, List.count_cons_self]

theorem Reads.append (first : Reads front words text middle) (last : Reads back others middle rest) :
    Reads (front ++ back) (words ++ others) text rest := by
  induction first with
  | done => exact last
  | literal _ ih => exact .literal (ih last)
  | blanks blank stops _ ih => exact .blanks blank stops (ih last)
  | word blank nonempty solid stops _ ih => exact .word blank nonempty solid stops (ih last)

theorem Reads.split (reads : Reads (front ++ back) words text rest) :
    ∃ first last middle, words = first ++ last ∧ Reads front first text middle ∧
      Reads back last middle rest := by
  induction front generalizing words text with
  | nil => exact ⟨[], words, text, rfl, .done, reads⟩
  | cons directive front ih =>
      cases reads with
      | literal tail =>
          obtain ⟨first, last, middle, rfl, before, after⟩ := ih tail
          exact ⟨first, last, middle, rfl, .literal before, after⟩
      | blanks blank stops tail =>
          obtain ⟨first, last, middle, rfl, before, after⟩ := ih tail
          exact ⟨first, last, middle, rfl, .blanks blank stops before, after⟩
      | word blank nonempty solid stops tail =>
          obtain ⟨first, last, middle, rfl, before, after⟩ := ih tail
          exact ⟨_ :: first, last, middle, rfl, .word blank nonempty solid stops before, after⟩

end

/-- What `fprintf` writes, a newline for white space. -/
def render : List Directive → List (List UInt8) → List UInt8
  | [], _ => []
  | .literal byte :: format, words => byte :: render format words
  | .blanks :: format, words => 10 :: render format words
  | .word :: format, [] => render format []
  | .word :: format, word :: words => word ++ render format words

/-- Every word of the format ends its line. -/
def Delimited : List Directive → Prop
  | [] => True
  | .literal byte :: format => isSolid byte = true ∧ Delimited format
  | .word :: .blanks :: format => Delimited format
  | _ => False

instance decidableDelimited : (format : List Directive) → Decidable (Delimited format)
  | [] => .isTrue trivial
  | .literal _ :: format =>
      have := decidableDelimited format
      inferInstanceAs (Decidable (_ ∧ _))
  | .word :: .blanks :: format => decidableDelimited format
  | .blanks :: _ | [.word] | .word :: .literal _ :: _ | .word :: .word :: _ => .isFalse id

/-- Printed words are read back, all of them and nothing else. -/
theorem Delimited.reads_render {format : List Directive} (delimited : Delimited format)
    {words : List (List UInt8)} (counted : words.length = format.count .word)
    (nonempty : ∀ word ∈ words, word ≠ []) (solid : ∀ word ∈ words, ∀ byte ∈ word, isSolid byte = true) :
    Reads format words (render format words) [] ∧ Stops isSpace (render format words) := by
  induction format using Delimited.induct generalizing words with
  | case1 =>
      cases List.eq_nil_of_length_eq_zero counted
      exact ⟨.done, nofun⟩
  | case2 byte format ih =>
      rw [List.count_cons_of_ne (by simp)] at counted
      refine ⟨.literal (ih delimited.2 counted nonempty solid).1, fun first same => ?_⟩
      cases same
      exact Bool.not_eq_true' _ ▸ delimited.1
  | case3 format ih =>
      rw [List.count_cons_self, List.count_cons_of_ne (by simp)] at counted
      cases words with
      | nil => cases counted
      | cons word words =>
          have own := nonempty word List.mem_cons_self
          have firm := solid word List.mem_cons_self
          obtain ⟨reads, stops⟩ := ih delimited (Nat.succ.inj counted)
            (fun other member => nonempty other (List.mem_cons_of_mem _ member))
            (fun other member => solid other (List.mem_cons_of_mem _ member))
          have newline : ∀ byte ∈ [10], isSpace byte = true := by
            intro byte member
            rw [List.mem_singleton.mp member]
            rfl
          have line : Reads (.blanks :: format) words ([10] ++ render format words) [] :=
            .blanks newline stops reads
          refine ⟨@Reads.word [] word _ _ _ _ nofun own firm ?_ line, Stops.of_solid own firm _⟩
          intro _ same
          cases same
          rfl
  | case4 format none _ _ =>
      cases format with
      | nil => exact absurd rfl none
      | cons directive format => simp [Delimited] at delimited

end Data
