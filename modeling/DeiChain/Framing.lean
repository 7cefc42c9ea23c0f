import DeiChain.Frame
import DeiChain.Systems.Pipe

namespace DeiChain

open Data Systems

variable {n : Nat}

/-! # Frames on the validation pipe

The miner compares the size of a frame with the capacity of the pipe and only
logs. What decides whether frames stay whole is another limit, up to which the
pipe places a write in one piece.
-/

def pipeBuf : Nat := 4096

inductive PipeEvent (n : Nat) where
  /-- The `write` of a miner thread. -/
  | write (thread : Nat) (pointer : UInt64) (block : TransactionBlock n)
  /-- The kernel places a piece of a write that it has split. -/
  | place (thread count : Nat)
  /-- The `read` of a validator. -/
  | read (num : Nat)

def PipeEvent.event : PipeEvent n → Pipe.Event UInt8
  | .write thread pointer block => .write thread (minerFrame pointer block)
  | .place thread count => .place thread count
  | .read num => .read num

def PipeEvent.known (cfg : Config) : PipeEvent n → Bool
  | .write thread _ _ | .place thread _ => 1 ≤ thread && thread ≤ cfg.numMiners
  | .read num => 1 ≤ num && num ≤ 3

def pipeStep (cfg : Config) (state : Pipe.State UInt8) (event : PipeEvent cfg.transactionsPerBlock) :
    Option (Pipe.State UInt8) :=
  if event.known cfg then Pipe.step pipeBuf (maxBlockSize cfg.transactionsPerBlock) state event.event
  else none

/-- Every read returned the bytes of one frame, no frame was returned twice, and
the size checks pass on what was read. -/
structure FramesSurvive (cfg : Config) (state : Pipe.State UInt8) : Prop where
  framed : Pipe.Framed state
  checked : ∀ entry ∈ state.delivered, ∀ residue,
    (decodeFrame cfg.transactionsPerBlock residue (entry.2.map Prod.snd)).isSome = true

theorem mark_bytes (number : Nat) (bytes : List UInt8) : (Pipe.mark number bytes).map Prod.snd = bytes := by
  simp [Pipe.mark, Function.comp_def]

variable {cfg : Config} {trace : List (Pipe.State UInt8 × PipeEvent cfg.transactionsPerBlock)}
  {final : Pipe.State UInt8}

theorem writes_minerFrame (run : Run (pipeStep cfg) Pipe.State.empty trace final) :
    ∀ frame ∈ final.writes, ∃ pointer block,
      frame = minerFrame (n := cfg.transactionsPerBlock) pointer block := by
  refine Run.invariant (fun state : Pipe.State UInt8 => ∀ frame ∈ state.writes,
    ∃ pointer block, frame = minerFrame (n := cfg.transactionsPerBlock) pointer block)
    (by simp [Pipe.State.empty]) (fun before event after held taken => ?_) run
  unfold pipeStep at taken
  split at taken
  · cases event with
    | write thread pointer block =>
        have added : after.writes = before.writes ++ [minerFrame pointer block] := by
          simp only [PipeEvent.event, Pipe.step] at taken
          split at taken
          · cases taken
          · split at taken
            · cases taken
              rfl
            · cases taken
              rfl
        intro frame member
        rw [added] at member
        rcases List.mem_append.mp member with old | new
        · exact held frame old
        · exact ⟨pointer, block, List.mem_singleton.mp new⟩
    | place thread count =>
        simp only [PipeEvent.event, Pipe.step] at taken
        split at taken
        · split at taken
          · cases taken
            exact held
          · cases taken
        · cases taken
    | read num =>
        simp only [PipeEvent.event, Pipe.step] at taken
        split at taken
        · cases taken
        · cases taken
          exact held
  · cases taken

theorem frames_survive (fits : maxBlockSize cfg.transactionsPerBlock ≤ pipeBuf)
    (run : Run (pipeStep cfg) Pipe.State.empty trace final) : FramesSurvive cfg final := by
  have plain : Run (Pipe.step pipeBuf (maxBlockSize cfg.transactionsPerBlock)) Pipe.State.empty
      (trace.map fun entry => (entry.1, entry.2.event)) final :=
    run.rename PipeEvent.event (fun before event after taken => by
      unfold pipeStep at taken
      split at taken
      · exact taken
      · cases taken)
  obtain ⟨_, queue, _, represents, _⟩ := Pipe.refines_queue fits plain (by
    intro entry member writer frame same
    obtain ⟨⟨before, event⟩, _, rfl⟩ := List.mem_map.mp member
    cases event with
    | write thread pointer block =>
        cases same
        exact minerFrame_length _ _
    | place | read => cases same)
  have framed := represents.framed
  refine ⟨framed, fun entry member residue => ?_⟩
  obtain ⟨number, frame, written, bytes⟩ := framed.whole entry member
  obtain ⟨pointer, block, rfl⟩ := writes_minerFrame run frame (List.mem_of_getElem? written)
  rw [bytes, mark_bytes, decodeFrame_minerFrame cfg.maxBlockSize_lt]
  rfl

/-- A frame over the limit can be read in two parts, and the validator that
reads the first leaves its loop. -/
theorem torn_read (cfg : Config) (long : pipeBuf < maxBlockSize cfg.transactionsPerBlock) :
    ∃ (trace : List (Pipe.State UInt8 × PipeEvent cfg.transactionsPerBlock)) (final : Pipe.State UInt8),
      Run (pipeStep cfg) Pipe.State.empty trace final ∧ ∃ entry ∈ final.delivered, ∀ residue,
        decodeFrame cfg.transactionsPerBlock residue (entry.2.map Prod.snd) = none := by
  let block := TransactionBlock.zero cfg.transactionsPerBlock
  obtain ⟨torn, executed, delivered⟩ := Option.map_eq_some_iff.mp
    (Pipe.exec_torn 1 1 (minerFrame 0 block) (by decide : 0 < pipeBuf)
      (by rwa [minerFrame_length]) (Nat.le_of_lt long))
  have same :
      exec (pipeStep cfg) Pipe.State.empty [.write 1 0 block, .place 1 pipeBuf, .read 1] = some torn := by
    rw [← executed]
    simp [exec, pipeStep, PipeEvent.known, PipeEvent.event, cfg.minersPositive]
  obtain ⟨trace, run, _⟩ := exec_run same
  refine ⟨trace, torn, run, (1, Pipe.mark 0 ((minerFrame 0 block).take pipeBuf)), by simp [delivered], ?_⟩
  intro residue
  rw [mark_bytes]
  exact decodeFrame_take cfg.maxBlockSize_lt 0 residue block long

/-- Frames survive the pipe, for whatever threads and validators, exactly when a
block has at most 49 transactions. -/
theorem frames_survive_iff (cfg : Config) :
    (∀ trace final, Run (pipeStep cfg) Pipe.State.empty trace final → FramesSurvive cfg final) ↔
      cfg.transactionsPerBlock ≤ 49 := by
  have sizes : maxBlockSize cfg.transactionsPerBlock ≤ pipeBuf ↔ cfg.transactionsPerBlock ≤ 49 := by
    simp only [maxBlockSize, pipeBuf, sizeofSizeT, sizeofTransactionBlock, sizeofPointer, offsetofTransactions,
      sizeofTransaction, txbIdLen, txIdLen, hashSize]
    omega
  rw [← sizes]
  constructor
  · intro survive
    by_contra long
    obtain ⟨trace, final, run, entry, member, lost⟩ := torn_read cfg (Nat.lt_of_not_le long)
    have passed := (survive trace final run).checked entry member []
    rw [lost] at passed
    cases passed
  · exact fun fits trace final run => frames_survive fits run

/-- The sizes of the shipped configuration, with 50 transactions a block. -/
def fiftyTransactions : Config :=
  { numMiners := 5, transactionPoolSize := 50, transactionsPerBlock := 50, blockchainBlocks := 50000 }

theorem frame_torn_at_fifty : ∃ trace final, Run (pipeStep fiftyTransactions) Pipe.State.empty trace final ∧
    ¬ FramesSurvive fiftyTransactions final := by
  obtain ⟨trace, final, run, entry, member, lost⟩ := torn_read fiftyTransactions (by decide)
  refine ⟨trace, final, run, fun survive => ?_⟩
  have passed := survive.checked entry member []
  rw [lost] at passed
  cases passed

end DeiChain
