import DeiChain.Systems.Locks

namespace DeiChain.Locking

open Systems

/-! # Semaphores in the programs

What each program does to `sem_transactions_pool`, `sem_ledger` and
`sem_log_file`, statement by statement and with both ways of every condition.
A semaphore that is open is waited for and posted without an error.
-/

inductive Semaphore where
  | transactionsPool
  | ledger
  | logFile
deriving DecidableEq

/-- The calls of `log_info` in `miner_thread`; those of the other programs are
not told apart. -/
inductive LogSite where
  | running
  | trackerFailed
  | memoryFailed
  | bitmapFailed
  | ledgerFull
  | blockMined
  | blockTooLarge
  | notWritten
  | ended
  | elsewhere
deriving DecidableEq

/-- `formatError`, `logWait` and `logOutput` stand inside `log_info`: its
`perror`, its `sem_wait` and its stdio calls. -/
inductive Place where
  | formatError (site : LogSite)
  | logWait (site : LogSite)
  | logOutput (site : LogSite)
  | sectionWait
  | timedWait
  | testCancel
  | write
  | output
  | other
deriving DecidableEq

abbrev Program := Command Semaphore Place

open Command (block when)

def output : Program := .call .output
def other : Program := .call .other

/-- `sem_wait` and `sem_post` of the two segments. -/
def acquire (sem : Semaphore) : Program := .wait sem .sectionWait
def release (sem : Semaphore) : Program := .post sem

def logInfo (site : LogSite) : Program :=
  .branch (.call (.formatError site)) (block [
    .wait .logFile (.logWait site),
    .call (.logOutput site), -- fprintf(log_file, ..)
    .call (.logOutput site), -- fflush(log_file)
    .call (.logOutput site), -- fprintf(stdout, ..)
    .call (.logOutput site), -- fflush(stdout)
    .post .logFile])

def log : Program := logInfo .elsewhere

/-- Something is closed if it is open, and the result is logged. -/
def closeLogged : Program := when (.branch log log)

/-- The failure branch of a call at the start of a program. -/
def failing (report cleanup : Program) : Program := when (block [report, cleanup, .exit])

/-- The commands for a `do .. while` loop. -/
def doWhile (body : Program) : Program := block [body, .loop body]

def minerThread : Program := block [
  logInfo .running,
  .loop (block [
    .call .timedWait,
    .call .testCancel,
    when (block [logInfo .trackerFailed, .again]),
    .scope (block [
      acquire .transactionsPool,
      release .transactionsPool,
      acquire .ledger,
      release .ledger,
      when .leave, -- too few transactions, or the ledger is full
      when (block [logInfo .memoryFailed, .leave]),
      acquire .transactionsPool,
      when (block [
        when (block [logInfo .bitmapFailed, release .transactionsPool, .leave]),
        .loop (when .again)]), -- a slot was selected before
      release .transactionsPool,
      when .leave, -- not enough transactions
      acquire .ledger,
      release .ledger,
      when (block [logInfo .ledgerFull, .leave]),
      doWhile (block [.call .testCancel, when output]), -- proof_of_work may give up
      logInfo .blockMined,
      when (logInfo .blockTooLarge),
      when (block [output, .leave]), -- malloc
      .call .write,
      when (logInfo .notWritten)]),
    when .leave]), -- should_break_outer
  logInfo .ended]

def signalHandlerThread : Program := block [
  other, -- sigwait
  .branch
    (when (block [
      log,
      .loop (block [log, other]), -- pthread_cancel
      log,
      .loop (block [other, log]), -- pthread_join
      other, -- sem_post(sem_pipeclosed)
      log]))
    log,
  log]

namespace Validator

def cleanup : Program := block (List.replicate 8 closeLogged)

def setup : Program := block [
  failing output cleanup, -- sem_open(SEM_LOG_FILE)
  failing output cleanup, -- open_log_file
  failing log cleanup, -- shm_open, mmap of the transactions pool
  failing log cleanup,
  failing log cleanup, -- and of the ledger
  failing log cleanup,
  failing output cleanup, -- sem_open(SEM_TRANSACTIONS_POOL)
  failing log cleanup, -- sem_open(SEM_LEDGER)
  failing log cleanup, -- open(VALIDATION_PIPE)
  log,
  failing log cleanup] -- mq_open

/-- The allocation and the `proof_of_work` of the genesis block succeed. -/
def genesis : Program := block [
  acquire .ledger,
  when log,
  release .ledger]

/-- The search for the transactions of the block, and their removal. -/
def poolSection : Program := block [
  acquire .transactionsPool,
  .loop (block [
    .loop (block [
      when .again, -- an empty slot
      when (block [when (block [log, .leave]), .leave])]), -- the content differs, or found
    when (block [log, .leave])]), -- not found
  when (block [
    .loop (.loop (block [when .again, when .leave])),
    .loop other]), -- aging
  release .transactionsPool]

/-- The second check, and the block that is stored when it holds. -/
def ledgerSection : Program := block [
  acquire .ledger,
  when (block [log, release .ledger, .again]),
  .loop other,
  release .ledger]

def program : Program := block [
  setup,
  genesis,
  .loop (block [
    when (block [output, .leave]), -- malloc
    other, -- read
    when .leave,
    when (block [output, .leave]), -- no whole size field
    when (block [output, .leave]), -- not the size announced
    when (block [output, .leave]), -- malloc
    acquire .ledger,
    release .ledger,
    log,
    when log, -- verify_nonce
    when log, -- the previous hash
    when (block [output, .leave]), -- calloc
    when poolSection,
    when (block [when log, when log, .again]), -- skip_block: sscanf, mq_send
    log,
    ledgerSection,
    log,
    when log, -- sscanf
    .loop other,
    when log]), -- mq_send
  cleanup]

end Validator

namespace TxGen

def cleanup : Program := block (List.replicate 4 (when output))

def program : Program := block [
  when (block [output, .exit]), -- arguments
  when (block [output, cleanup, .exit]),
  when (block [output, cleanup, .exit]),
  output,
  failing output cleanup, -- sem_open
  failing output cleanup,
  failing output cleanup, -- shm_open
  failing output cleanup, -- mmap
  output,
  failing output cleanup, -- munmap
  output,
  failing output cleanup, -- mmap
  output,
  .loop (block [
    other, -- usleep
    acquire .transactionsPool,
    .branch
      (block [
        .loop (when (block [output, .leave])), -- the first empty slot
        when output])
      output, -- the pool is full
    output,
    release .transactionsPool,
    when (when (block [output, .loop (when output)]))]), -- sem_post(sem_minerwork)
  cleanup]

end TxGen

namespace Statistics

def cleanup : Program := block (List.replicate 4 closeLogged)

def program : Program := block [
  failing output cleanup, -- sem_open(SEM_LOG_FILE)
  failing output cleanup, -- open_log_file
  failing log cleanup, -- mq_open
  failing log .skip, -- shm_open
  log,
  failing log .skip, -- mmap
  log,
  failing log cleanup, -- sem_open(SEM_LEDGER)
  failing log cleanup, -- mq_getattr
  failing log cleanup, -- malloc
  log,
  .loop (block [
    other, -- mq_receive
    .branch
      (block [
        when (block [log, .again]),
        .branch other (block [ -- block_index
          acquire .ledger,
          when (.loop other),
          release .ledger])])
      (block [when .again, log, .leave])]), -- EINTR
  cleanup]

end Statistics

/-- The children that the launcher forks run `Validator.program`. -/
def validatorLauncher : Program :=
  let launch : Program := when (block [log, other, .branch log log])
  let poke : Program := when (block [log, .branch log (block [log, when log])])
  block [
    log,
    .loop (block [
      when (block [log, other, .leave]),
      .branch
        (block [launch, when launch])
        (when (block [.loop poke, .loop (when (when log))])),
      other, -- sleep
      .call .testCancel])]

inductive ProgramName where
  | validator
  | minerThread
  | txGen
  | statistics
  | validatorLauncher
  | signalHandlerThread
deriving DecidableEq

def ProgramName.program : ProgramName → Program
  | .validator => Validator.program
  | .minerThread => Locking.minerThread
  | .txGen => TxGen.program
  | .statistics => Statistics.program
  | .validatorLauncher => Locking.validatorLauncher
  | .signalHandlerThread => Locking.signalHandlerThread

/-- `sem_log_file` is the one that is taken while another is held. -/
def Semaphore.rank : Semaphore → Nat
  | .transactionsPool | .ledger => 0
  | .logFile => 1

theorem ProgramName.sound (name : ProgramName) : name.program.Sound ⟨Semaphore.rank, fun _ _ => true⟩ := by
  cases name
  all_goals rfl

/-- Any processes that run these programs, none of which is cancelled. -/
abbrev LockingRun {Process : Type} [DecidableEq Process] (names : Process → ProgramName) :=
  Run (LockState.step fun (_ : Process) (_ : Place) => false)
    (LockState.initial fun process => (names process).program)

/-- In every run each semaphore is one or inside one process, and the processes
that wait for one another while they hold a semaphore form no cycle. -/
theorem lock_discipline {Process : Type} [DecidableEq Process] [Fintype Process]
    {names : Process → ProgramName}
    {trace : List (LockState Process Semaphore Place × LockEvent Process)}
    {final : LockState Process Semaphore Place} (run : LockingRun names trace final) :
    (∀ sem, final.sem sem + (final.holders sem).card = 1) ∧
      ∀ process, ¬ Relation.TransGen final.WaitsOn process process := by
  have orderly : final.Orderly Semaphore.rank fun _ _ _ => true :=
    LockState.run_orderly (fun process => (names process).sound) run
  exact ⟨orderly.balanced, orderly.acyclic⟩

/-- A miner thread, and one process that runs another program. -/
def minerThreadWith (other : ProgramName) : Bool → ProgramName
  | true => .minerThread
  | false => other

/-- The miner thread is inside `log_info` as the validator comes to its first call. -/
def contendedEvents : List (LockEvent Bool) :=
  List.replicate 4 (.step true false) ++ List.replicate 31 (.step false false)

theorem contended_executes :
    (exec (LockState.step fun (_ : Bool) (_ : Place) => false)
      (LockState.initial fun process => (minerThreadWith .validator process).program)
      contendedEvents).isSome = true := by
  decide +kernel

theorem contended_lock_discipline : ∃ trace final,
    LockingRun (minerThreadWith .validator) trace final ∧
    final.inside true = [.logFile] ∧ (final.control false).waits? = some .logFile ∧
    (∀ sem, final.sem sem + (final.holders sem).card = 1) ∧
      ∀ process, ¬ Relation.TransGen final.WaitsOn process process := by
  obtain ⟨trace, run, _⟩ := exec_run_get contended_executes
  exact ⟨trace, _, run, by decide +kernel, by decide +kernel, lock_discipline run⟩

end DeiChain.Locking
