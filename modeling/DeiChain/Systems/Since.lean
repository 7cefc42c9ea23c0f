import Mathlib.Data.List.Basic

namespace Systems

universe u

variable {Entry : Type u} {marks : Entry → Prop} {history later : List Entry} {mark entry : Entry}

/-- `mark` is the last entry of `history` that is marked, and `later` is what
came after it. -/
structure Since (marks : Entry → Prop) (history : List Entry) (mark : Entry) (later : List Entry) : Prop where
  split : ∃ earlier, history = earlier ++ mark :: later
  marked : marks mark
  last : ∀ next ∈ later, ¬ marks next

theorem Since.now (marked : marks entry) : Since marks (history ++ [entry]) entry [] :=
  ⟨⟨history, rfl⟩, marked, by simp⟩

theorem Since.snoc (since : Since marks history mark later) (unmarked : ¬ marks entry) :
    Since marks (history ++ [entry]) mark (later ++ [entry]) := by
  obtain ⟨earlier, rfl⟩ := since.split
  refine ⟨⟨earlier, by simp⟩, since.marked, fun next member => ?_⟩
  rcases List.mem_append.mp member with old | new
  · exact since.last next old
  · cases List.mem_singleton.mp new
    exact unmarked

theorem Since.unique {other : Entry} {otherLater : List Entry} (since : Since marks history mark later)
    (also : Since marks history other otherLater) : mark = other ∧ later = otherLater := by
  obtain ⟨earlier, rfl⟩ := since.split
  obtain ⟨otherEarlier, same⟩ := also.split
  rcases List.append_eq_append_iff.mp same with ⟨between, _, rest⟩ | ⟨between, _, rest⟩
  · rcases between with _ | ⟨first, between⟩
    · exact List.cons.inj rest
    · have inLater : other ∈ later := by
        rw [(List.cons.inj rest).2]
        simp
      exact absurd also.marked (since.last other inLater)
  · rcases between with _ | ⟨first, between⟩
    · obtain ⟨sameMark, sameLater⟩ := List.cons.inj rest
      exact ⟨sameMark.symm, sameLater.symm⟩
    · have inLater : mark ∈ otherLater := by
        rw [(List.cons.inj rest).2]
        simp
      exact absurd since.marked (also.last mark inLater)

end Systems
