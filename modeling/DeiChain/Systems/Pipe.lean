import DeiChain.Systems.Run
import Mathlib.Data.List.Basic
import Mathlib.Logic.Function.Basic

namespace Systems.Pipe

universe u

variable {Byte : Type u}

/-! # A byte pipe with many writers and readers

A write of at most `atomic` bytes is placed in one piece; a longer one is placed
in pieces, between which other writers and the readers run. A read takes the
first `size` bytes that are there, or all when there are fewer. While every
frame has `size` bytes and fits `atomic`, the pipe is a queue of frames.
-/

/-- Each byte carries the number of the write it belongs to. `writing` is what
a writer in the middle of a split write has left to place. -/
structure State (Byte : Type u) where
  content : List (Nat × Byte)
  writing : Nat → Option (Nat × List Byte)
  writes : List (List Byte)
  delivered : List (Nat × List (Nat × Byte))

inductive Event (Byte : Type u) where
  | write (writer : Nat) (frame : List Byte)
  | place (writer count : Nat)
  | read (reader : Nat)

def mark (number : Nat) (bytes : List Byte) : List (Nat × Byte) := bytes.map fun byte => (number, byte)

def State.empty : State Byte := ⟨[], fun _ => none, [], []⟩

def step (atomic size : Nat) (state : State Byte) : Event Byte → Option (State Byte)
  | .write writer frame =>
      let number := state.writes.length
      if (state.writing writer).isSome then none
      else if frame.length ≤ atomic then
        some { state with
          content := state.content ++ mark number frame
          writes := state.writes ++ [frame] }
      else
        some { state with
          writing := Function.update state.writing writer (some (number, frame))
          writes := state.writes ++ [frame] }
  | .place writer count =>
      match state.writing writer with
      | some (number, rest) =>
          if 1 ≤ count ∧ count ≤ rest.length then
            some { state with
              content := state.content ++ mark number (rest.take count)
              writing := Function.update state.writing writer
                (if count = rest.length then none else some (number, rest.drop count)) }
          else none
      | none => none
  | .read reader =>
      if state.content.isEmpty then none
      else
        some { state with
          content := state.content.drop size
          delivered := state.delivered ++ [(reader, state.content.take size)] }

/-- Every read returned one whole write, and no write was returned to two reads. -/
structure Framed (state : State Byte) : Prop where
  whole : ∀ entry ∈ state.delivered, ∃ (number : Nat) (frame : List Byte),
    state.writes[number]? = some frame ∧ entry.2 = mark number frame
  once : state.delivered.Pairwise fun first second =>
    ∀ left ∈ first.2, ∀ right ∈ second.2, left.1 ≠ right.1

structure Queue (Byte : Type u) where
  pending : List (Nat × List Byte)
  taken : List (Nat × (Nat × List Byte))

inductive Action (Byte : Type u) where
  | put (frame : List Byte)
  | take (reader : Nat)

def Queue.empty : Queue Byte := ⟨[], []⟩

def Queue.step (queue : Queue Byte) : Action Byte → Option (Queue Byte)
  | .put frame =>
      some { queue with pending := queue.pending ++ [(queue.taken.length + queue.pending.length, frame)] }
  | .take reader =>
      match queue.pending with
      | [] => none
      | front :: rest => some { pending := rest, taken := queue.taken ++ [(reader, front)] }

def Queue.frames (queue : Queue Byte) : List (Nat × List Byte) :=
  queue.taken.map Prod.snd ++ queue.pending

def label (_ : State Byte) : Event Byte → Option (Action Byte)
  | .write _ frame => some (.put frame)
  | .place _ _ => none
  | .read reader => some (.take reader)

/-- The pipe holds the pending frames end to end and nothing else. -/
structure Represents (size : Nat) (state : State Byte) (queue : Queue Byte) : Prop where
  content : state.content = queue.pending.flatMap fun entry => mark entry.1 entry.2
  delivered : state.delivered = queue.taken.map fun entry => (entry.1, mark entry.2.1 entry.2.2)
  numbered : queue.frames = state.writes.mapIdx Prod.mk
  sized : ∀ entry ∈ queue.pending, entry.2.length = size
  unsplit : ∀ writer, state.writing writer = none

@[simp] theorem mark_length (number : Nat) (bytes : List Byte) : (mark number bytes).length = bytes.length :=
  List.length_map _

variable {atomic size : Nat} {state after : State Byte} {queue : Queue Byte}

theorem Represents.empty : Represents size (State.empty : State Byte) Queue.empty where
  content := rfl
  delivered := rfl
  numbered := rfl
  sized := by simp [Queue.empty]
  unsplit := fun _ => rfl

theorem Represents.writes_length (represents : Represents size state queue) :
    state.writes.length = queue.taken.length + queue.pending.length := by
  have length := congrArg List.length represents.numbered
  simpa [Queue.frames] using length.symm

theorem Represents.put (represents : Represents size state queue) (fits : size ≤ atomic) {writer : Nat}
    {frame : List Byte} (length : frame.length = size)
    (taken : step atomic size state (.write writer frame) = some after) :
    ∃ next, queue.step (.put frame) = some next ∧ Represents size after next := by
  have free := represents.unsplit writer
  simp only [step, free, Option.isSome_none, Bool.false_eq_true, if_false, length, fits, if_true,
    Option.some.injEq] at taken
  subst taken
  refine ⟨_, rfl, ?_⟩
  refine ⟨?_, represents.delivered, ?_, ?_, represents.unsplit⟩
  · simp [represents.content, represents.writes_length]
  · rw [List.mapIdx_concat, ← represents.numbered, represents.writes_length]
    simp [Queue.frames]
  · intro entry member
    rcases List.mem_append.mp member with old | new
    · exact represents.sized entry old
    · rw [List.mem_singleton.mp new]
      exact length

theorem Represents.take (represents : Represents size state queue) {reader : Nat}
    (taken : step atomic size state (.read reader) = some after) :
    ∃ next, queue.step (.take reader) = some next ∧ Represents size after next := by
  obtain ⟨pending, history⟩ := queue
  cases pending with
  | nil => simp [step, represents.content] at taken
  | cons front rest =>
      have front_sized := represents.sized front (by simp)
      have content : state.content = mark front.1 front.2 ++ rest.flatMap fun entry => mark entry.1 entry.2 :=
        represents.content
      simp only [step] at taken
      split at taken
      · cases taken
      · cases taken
        have width : (mark front.1 front.2).length = size := (mark_length _ _).trans front_sized
        refine ⟨_, rfl, ?_, ?_, ?_, ?_, represents.unsplit⟩
        · rw [content, List.drop_left' width]
        · rw [content, List.take_left' width, represents.delivered]
          simp
        · rw [← represents.numbered]
          simp [Queue.frames]
        · exact fun entry member => represents.sized entry (List.mem_cons_of_mem _ member)

/-- Frames of one size that fit the atomic limit turn the pipe into a queue. -/
theorem refines_queue {trace : List (State Byte × Event Byte)} {final : State Byte} (fits : size ≤ atomic)
    (run : Run (step atomic size) State.empty trace final)
    (sized : ∀ entry ∈ trace, ∀ writer frame, entry.2 = .write writer frame → frame.length = size) :
    ∃ queueTrace queue, Run Queue.step Queue.empty queueTrace queue ∧ Represents size final queue ∧
      queueTrace.map Prod.snd = trace.filterMap fun entry => label entry.1 entry.2 := by
  refine Run.simulates (Represents size) label Represents.empty run ?_ ?_
  · intro entry _ after queue represents taken silent
    obtain ⟨state, event⟩ := entry
    cases event with
    | write writer frame => cases silent
    | place writer count =>
        have unsplit : state.writing writer = none := represents.unsplit writer
        simp only [step, unsplit] at taken
        cases taken
    | read reader => cases silent
  · intro entry member after queue action represents taken labelled
    obtain ⟨state, event⟩ := entry
    cases event with
    | write writer frame =>
        cases labelled
        exact represents.put fits (sized _ member writer frame rfl) taken
    | place writer count => cases labelled
    | read reader =>
        cases labelled
        exact represents.take taken

theorem Represents.framed (represents : Represents size state queue) : Framed state where
  whole := by
    intro entry member
    rw [represents.delivered] at member
    obtain ⟨⟨reader, number, frame⟩, takenMember, rfl⟩ := List.mem_map.mp member
    have inFrames : (number, frame) ∈ queue.frames :=
      List.mem_append_left _ (List.mem_map_of_mem (f := Prod.snd) takenMember)
    rw [represents.numbered, List.mem_mapIdx] at inFrames
    obtain ⟨index, bound, same⟩ := inFrames
    cases same
    exact ⟨number, _, List.getElem?_eq_getElem bound, rfl⟩
  once := by
    have numbers : (queue.frames.map Prod.fst).Nodup := by
      have range : (state.writes.mapIdx Prod.mk).map Prod.fst = List.range state.writes.length :=
        List.ext_getElem (by simp) (by simp)
      rw [represents.numbered, range]
      exact List.nodup_range
    rw [represents.delivered, List.pairwise_map]
    rw [Queue.frames, List.map_append, List.map_map] at numbers
    have taken := (List.nodup_append.mp numbers).1
    rw [List.Nodup, List.pairwise_map] at taken
    refine taken.imp ?_
    intro first second apart left leftMember right rightMember
    obtain ⟨_, _, rfl⟩ := List.mem_map.mp leftMember
    obtain ⟨_, _, rfl⟩ := List.mem_map.mp rightMember
    exact apart

theorem exec_torn (writer reader : Nat) (frame : List Byte) (positive : 0 < atomic)
    (long : atomic < frame.length) (wide : atomic ≤ size) :
    (exec (step atomic size) State.empty
        [.write writer frame, .place writer atomic, .read reader]).map State.delivered =
      some [(reader, mark 0 (frame.take atomic))] := by
  have placed : (mark 0 (frame.take atomic)).isEmpty = false := by
    rw [List.isEmpty_eq_false_iff, ← List.length_pos_iff, mark_length, List.length_take]
    omega
  have whole : (mark 0 (frame.take atomic)).take size = mark 0 (frame.take atomic) := by
    rw [List.take_of_length_le]
    rw [mark_length, List.length_take]
    omega
  have first : ¬ frame.length ≤ atomic := Nat.not_le.mpr long
  have piece : 1 ≤ atomic ∧ atomic ≤ frame.length := ⟨positive, Nat.le_of_lt long⟩
  simp only [exec, step, State.empty, Option.isSome_none, Bool.false_eq_true, if_false, first,
    Option.bind_some, Function.update_self, piece, and_self, if_true, List.nil_append, List.length_nil,
    placed, Option.map_some, whole]

end Systems.Pipe
