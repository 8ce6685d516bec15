import Mathlib.Data.List.Basic
import ObservableBSD.Trace.Record

/-!
# The polling loop of `exec`

`cmd_exec` traces a child that it has started, until the child has exited and its records are drained, a
bound is reached, or a poll fails. What the loop meets from outside is one observation for each round.
Times are nanoseconds.
-/

namespace ObservableBSD.Trace

/-- The status that `waitpid` fills in. -/
inductive WaitStatus where
  | exited (code : Nat)
  | signaled (sig : Nat)
deriving DecidableEq, Repr

/-- The exit code for a status: `WEXITSTATUS`, or 128 and `WTERMSIG`. -/
def exitCodeOf : WaitStatus → Int
  | .exited code => code
  | .signaled sig => 128 + sig

/-- What is done to the child and the context. -/
inductive ExecCall where
  | kill
  | reap (status : WaitStatus)
  | pollFailed
deriving DecidableEq, Repr

/-- What a round meets: the time since the start, the status of the child when it has exited by the
`waitpid` of the round, the records of the poll when it succeeds, and the status of a `waitpid` that
blocks until the child exits. -/
structure ExecRound where
  elapsed : Nat
  exited : Option WaitStatus
  poll : Option (List BsdtraceRecord)
  awaited : WaitStatus
deriving DecidableEq

/-- The options of the loop; 0 stands for no bound. -/
structure ExecOpts where
  duration : Nat := 0
  maxrecords : Nat := 0
deriving DecidableEq

/-- The variables of the loop, the records passed on to `emit_and_process`, and the log of the calls.
`reaped` says that `waitpid` has collected the child. -/
structure ExecState where
  childDone : Bool := false
  exitcode : Int := 0
  totalrecords : Nat := 0
  emptyDrains : Nat := 0
  emitted : List BsdtraceRecord := []
  reaped : Bool := false
  calls : List ExecCall := []

def ExecState.kill (st : ExecState) : ExecState := { st with calls := st.calls ++ [.kill] }

/-- `waitpid(child, &status, ..)` when the child has exited with a status. A child that has been reaped is
no child any more. -/
def ExecState.waitpid (st : ExecState) (status : WaitStatus) : Option WaitStatus × ExecState :=
  if st.reaped then (none, st)
  else (some status, { st with reaped := true, calls := st.calls ++ [.reap status] })

def ExecState.checkChild (st : ExecState) (exited : Option WaitStatus) : ExecState :=
  match exited with
  | none => st
  | some status =>
      let r := st.waitpid status
      match r.1 with
      | none => r.2
      | some status => { r.2 with childDone := true, exitcode := exitCodeOf status }

/-- A poll error while the child is still running: kill it, reap it. -/
def ExecState.pollError (st : ExecState) (awaited : WaitStatus) : ExecState :=
  let r := st.kill.waitpid awaited
  { r.2 with
    childDone := true
    exitcode := match r.1 with
      | some (.signaled sig) => 128 + sig
      | _ => 1 }

def ExecState.emit (st : ExecState) (records : List BsdtraceRecord) : ExecState :=
  { st with
    totalrecords := st.totalrecords + records.length
    emitted := st.emitted ++ records }

/-- Once the child has exited, keep draining a few times; the flag says that the loop is left. -/
def ExecState.drain (st : ExecState) (nrecs : Nat) : ExecState × Bool :=
  if st.childDone then
    if nrecs = 0 then ({ st with emptyDrains := st.emptyDrains + 1 }, 5 ≤ st.emptyDrains + 1)
    else ({ st with emptyDrains := 0 }, false)
  else (st, false)

def boundReached (opts : ExecOpts) (round : ExecRound) (st : ExecState) : Bool :=
  (0 < opts.duration && opts.duration ≤ round.elapsed) ||
    (0 < opts.maxrecords && opts.maxrecords ≤ st.totalrecords)

/-- One round of the loop; the flag says that the loop is left. -/
def execRound (opts : ExecOpts) (st : ExecState) (round : ExecRound) : ExecState × Bool :=
  if boundReached opts round st then (st.kill, true)
  else
    let st := st.checkChild round.exited
    match round.poll with
    | none =>
        let st := { st with calls := st.calls ++ [.pollFailed] }
        if st.childDone then (st, true) else (st.pollError round.awaited, true)
    | some records => (st.emit records).drain records.length

def execNext (opts : ExecOpts) (r : ExecState × Bool) (round : ExecRound) : ExecState × Bool :=
  if r.2 then r else execRound opts r.1 round

/-- The loop over the rounds; the flag says that it has been left. -/
def execLoop (opts : ExecOpts) (rounds : List ExecRound) : ExecState × Bool :=
  rounds.foldl (execNext opts) ({}, false)

/-- Behind the loop, the child is reaped if it was killed in it. -/
def execReap (st : ExecState) (awaited : WaitStatus) : ExecState :=
  if st.childDone then st
  else
    let r := st.waitpid awaited
    match r.1 with
    | none => r.2
    | some status => { r.2 with exitcode := exitCodeOf status }

/-- The state in which `cmd_exec` returns, once the loop has been left. -/
def cmdExec (opts : ExecOpts) (rounds : List ExecRound) (awaited : WaitStatus) : Option ExecState :=
  let r := execLoop opts rounds
  if r.2 then some (execReap r.1 awaited) else none

end ObservableBSD.Trace
