import GitlabRunner.ActionRuns

/-!
# Waiting for the terminal of a job

After a job has finished, `waitForTerminal` of `common/build.go` waits for the terminal of
its session.
-/

namespace GitlabRunner.Terminal

open List ActionRuns

inductive KillReason where
  | cancelled
  | interrupted
  deriving DecidableEq, Repr

inductive WaitResult where
  | notConnected
  | killed (reason : KillReason)
  | timedOut
  | disconnected
  deriving DecidableEq, Repr

/-- The positions of `waitForTerminal`: before the call of `Connected`, before the
`select`, in the `select`, blocked in the send to `TimeoutCh`, before the call of
`Kill`, and returned. -/
inductive WaitPc where
  | checking
  | preparing
  | selecting
  | sending
  | killing (reason : KillReason)
  | returned (result : WaitResult)
  deriving DecidableEq, Repr

/-- The positions of `execHandler`: before `newTerminalConn`, in `Start` before the
exec is created and before it is attached, in `proxyFunc`, before
`closeTerminalConn`, and returned. -/
inductive HandlerPc where
  | requested
  | creating
  | attaching
  | proxying
  | closing
  | returned
  deriving DecidableEq, Repr

/-- The positions of the exit handler of `ProxyTerminal`: not started, in its
`select`, before the send to `proxyStopCh`, and returned. -/
inductive ExitPc where
  | absent
  | waiting
  | stopping
  | returned
  deriving DecidableEq, Repr

/-- A client's request; `disconnected` is the buffered channel of its
`ProxyTerminal`. -/
structure Handler where
  pc : HandlerPc
  exit : ExitPc
  disconnected : Bool
  deriving DecidableEq, Repr

/-- A waiting build and the handlers of its session.  `terminalConn` is the handler
that the connection of the session belongs to. -/
structure System where
  waiter : WaitPc
  terminalConn : Option Nat
  handlers : List Handler
  contextDone : Bool
  timeoutFired : Bool
  interrupted : Bool
  deriving DecidableEq, Repr

/-- The cases of the `select` of `waitForTerminal` that do not receive from a
handler. -/
inductive WaitCase where
  | context
  | timeout
  | interrupt
  deriving DecidableEq, Repr

/-- The steps of the environment, of the build and of the handlers.  `succeeds` is
the result of the call that a handler makes, if it makes one. -/
inductive Action where
  | contextEnds
  | timeoutFires
  | interrupt
  | request
  | check
  | park
  | select (ready : WaitCase)
  | kill
  | deliver (handler : Nat)
  | advance (handler : Nat) (succeeds : Bool)
  | stop (handler : Nat)
  | leave (handler : Nat)
  deriving DecidableEq, Repr

/-- A case of the `select` that is ready. -/
def System.ready (system : System) : WaitCase → Bool
  | .context => system.contextDone
  | .timeout => system.timeoutFired
  | .interrupt => system.interrupted

/-- Where the build goes on after a case of its `select`. -/
def WaitCase.next : WaitCase → WaitPc
  | .context => .killing .cancelled
  | .timeout => .sending
  | .interrupt => .killing .interrupted

def System.setHandler (system : System) (index : Nat) (handler : Handler) : System :=
  { system with handlers := system.handlers.set index handler }

/-- The next step of `execHandler`.  `newTerminalConn` and `closeTerminalConn` run
under the lock of the session. -/
def System.advance (system : System) (index : Nat) (handler : Handler) (succeeds : Bool) :
    Option System :=
  match handler.pc with
  | .requested =>
    if system.terminalConn.isNone && succeeds then
      some { system.setHandler index { handler with pc := .creating } with
             terminalConn := some index }
    else some (system.setHandler index { handler with pc := .returned })
  | .creating =>
    some (system.setHandler index
      { handler with pc := if succeeds then .attaching else .closing })
  | .attaching =>
    if succeeds then
      some (system.setHandler index { handler with pc := .proxying, exit := .waiting })
    else some (system.setHandler index { handler with pc := .closing })
  | .proxying =>
    some (system.setHandler index { handler with pc := .closing, disconnected := true })
  | .closing =>
    some { system.setHandler index { handler with pc := .returned } with
           terminalConn :=
             if system.terminalConn = some index then none else system.terminalConn }
  | .returned => none

/-- The result of the build when an exit handler forwards the disconnection: it
receives the event only if it is in its `select`. -/
def WaitPc.disconnect : WaitPc → WaitPc
  | .selecting => .returned .disconnected
  | waiter => waiter

def step (system : System) : Action → Option System
  | .contextEnds => some { system with contextDone := true }
  | .timeoutFires =>
    if system.waiter = .selecting then some { system with timeoutFired := true } else none
  | .interrupt => some { system with interrupted := true }
  | .request =>
    some { system with handlers := system.handlers ++ [⟨.requested, .absent, false⟩] }
  | .check =>
    if system.waiter = .checking then
      if system.terminalConn.isSome then some { system with waiter := .preparing }
      else some { system with waiter := .returned .notConnected }
    else none
  | .park =>
    if system.waiter = .preparing then some { system with waiter := .selecting } else none
  | .select ready =>
    if system.waiter = .selecting ∧ system.ready ready = true then
      some { system with waiter := ready.next }
    else none
  | .kill =>
    match system.waiter with
    | .killing reason =>
      some { system with waiter := .returned (.killed reason), terminalConn := none }
    | _ => none
  | .deliver index =>
    match system.handlers[index]? with
    | some handler =>
      if system.waiter = .sending ∧ handler.exit = .waiting then
        some { system.setHandler index { handler with exit := .stopping } with
               waiter := .returned .timedOut }
      else none
    | none => none
  | .advance index succeeds =>
    system.handlers[index]?.bind fun handler => system.advance index handler succeeds
  | .stop index =>
    match system.handlers[index]? with
    | some handler =>
      if handler.exit = .stopping then
        some (system.setHandler index { handler with exit := .returned })
      else none
    | none => none
  | .leave index =>
    match system.handlers[index]? with
    | some handler =>
      if handler.exit = .waiting ∧ handler.disconnected = true then
        some { system.setHandler index { handler with exit := .returned } with
               waiter := system.waiter.disconnect }
      else none
    | none => none

def start : System where
  waiter := .checking
  terminalConn := none
  handlers := []
  contextDone := false
  timeoutFired := false
  interrupted := false

section Transitions

variable (system : System)

inductive Transition : Action → System → Prop where
  | contextEnds : Transition .contextEnds { system with contextDone := true }
  | timeoutFires (selecting : system.waiter = .selecting) :
    Transition .timeoutFires { system with timeoutFired := true }
  | interrupt : Transition .interrupt { system with interrupted := true }
  | request : Transition .request
      { system with handlers := system.handlers ++ [⟨.requested, .absent, false⟩] }
  | connected (checking : system.waiter = .checking) :
    Transition .check { system with waiter := .preparing }
  | notConnected (checking : system.waiter = .checking) :
    Transition .check { system with waiter := .returned .notConnected }
  | park (preparing : system.waiter = .preparing) :
    Transition .park { system with waiter := .selecting }
  | select {ready : WaitCase} (selecting : system.waiter = .selecting) :
    Transition (.select ready) { system with waiter := ready.next }
  | kill {reason : KillReason} (killing : system.waiter = .killing reason) :
    Transition .kill
      { system with waiter := .returned (.killed reason), terminalConn := none }
  | deliver {index : Nat} {handler : Handler}
    (found : system.handlers[index]? = some handler) (sending : system.waiter = .sending)
    (waiting : handler.exit = .waiting) :
    Transition (.deliver index)
      { system.setHandler index { handler with exit := .stopping } with
        waiter := .returned .timedOut }
  | advance {index : Nat} {handler : Handler} {succeeds : Bool} {next : System}
    (found : system.handlers[index]? = some handler)
    (advanced : system.advance index handler succeeds = some next) :
    Transition (.advance index succeeds) next
  | stop {index : Nat} {handler : Handler} (found : system.handlers[index]? = some handler)
    (stopping : handler.exit = .stopping) :
    Transition (.stop index)
      (system.setHandler index { handler with exit := .returned })
  | leave {index : Nat} {handler : Handler} (found : system.handlers[index]? = some handler)
    (waiting : handler.exit = .waiting) :
    Transition (.leave index)
      { system.setHandler index { handler with exit := .returned } with
        waiter := system.waiter.disconnect }

end Transitions

variable {system next : System} {index : Nat} {handler : Handler} {action : Action}

theorem transition_of_step (stepTo : step system action = some next) :
    Transition system action next := by
  revert stepTo
  fun_cases step system action with
  | case1 =>
    rintro ⟨⟩
    exact .contextEnds
  | case2 selecting =>
    rintro ⟨⟩
    exact .timeoutFires selecting
  | case4 =>
    rintro ⟨⟩
    exact .interrupt
  | case5 =>
    rintro ⟨⟩
    exact .request
  | case6 checking =>
    rintro ⟨⟩
    exact .connected checking
  | case7 checking =>
    rintro ⟨⟩
    exact .notConnected checking
  | case9 preparing =>
    rintro ⟨⟩
    exact .park preparing
  | case11 ready selecting =>
    rintro ⟨⟩
    exact .select selecting.1
  | case13 reason killing =>
    rintro ⟨⟩
    exact .kill killing
  | case15 index handler found sends =>
    rintro ⟨⟩
    exact .deliver found sends.1 sends.2
  | case18 index succeeds =>
    intro stepTo
    obtain ⟨handler, found, advanced⟩ := Option.bind_eq_some_iff.mp stepTo
    exact .advance found advanced
  | case19 index handler found stopping =>
    rintro ⟨⟩
    exact .stop found stopping
  | case22 index handler found leaves =>
    rintro ⟨⟩
    exact .leave found leaves.1
  | _ => nofun

/-- The steps of the build.  A send to `TimeoutCh` is a step of the build together
with the exit handler that receives. -/
def Action.ofBuild : Action → Bool
  | .check => true
  | .park => true
  | .select _ => true
  | .kill => true
  | .deliver _ => true
  | _ => false

def WaitPc.rank : WaitPc → Nat
  | .checking => 4
  | .preparing => 3
  | .selecting => 2
  | .sending => 1
  | .killing _ => 1
  | .returned _ => 0

/-- The terminal timeout has fired, the context has ended or an interrupt has
arrived. -/
def System.ended (system : System) : Bool :=
  system.contextDone || system.timeoutFired || system.interrupted

def Handler.receives (handler : Handler) : Bool :=
  handler.exit = .waiting

/-- An exit handler waits when the build decides to send to `TimeoutCh`, and while
the build sends, the last exit handler does not leave. -/
def keepsReceiver (system : System) : Action → Bool
  | .select .timeout => system.handlers.any Handler.receives
  | .leave index =>
    system.waiter ≠ .sending || (system.handlers.eraseIdx index).any Handler.receives
  | _ => true

def System.Heard (system : System) : Prop :=
  system.waiter = .sending → ∃ handler ∈ system.handlers, handler.receives = true

/-- `execHandler` changes its own handler only, and never takes its exit handler out
of its `select`. -/
theorem advance_eq_some {succeeds : Bool}
    (advanced : system.advance index handler succeeds = some next) :
    handler.pc ≠ .returned ∧ next.waiter = system.waiter ∧
      ∃ changed, next.handlers = system.handlers.set index changed ∧
        (handler.receives = true → changed.receives = true) := by
  revert advanced
  fun_cases System.advance system index handler succeeds with
  | case1 position | case2 position | case3 position | case5 position | case6 position
  | case7 position =>
    rintro ⟨⟩
    exact ⟨by rw [position]; decide, rfl, _, rfl, id⟩
  | case4 position =>
    rintro ⟨⟩
    exact ⟨by rw [position]; decide, rfl, _, rfl, fun _ => rfl⟩
  | case8 => nofun

theorem receiver_set {handlers : List Handler} {changed : Handler}
    (found : handlers[index]? = some handler)
    (kept : handler.receives = true → changed.receives = true)
    (heard : ∃ other ∈ handlers, other.receives = true) :
    ∃ other ∈ handlers.set index changed, other.receives = true := by
  obtain ⟨other, member, receives⟩ := heard
  obtain ⟨position, foundOther⟩ := mem_iff_getElem?.mp member
  by_cases same : index = position
  · subst same
    rw [found, Option.some.injEq] at foundOther
    subst foundOther
    exact ⟨changed, mem_set (List.getElem?_eq_some_iff.mp found).1 _, kept receives⟩
  · refine ⟨other, mem_of_getElem? (?_ : _[position]? = some other), receives⟩
    rw [List.getElem?_set_ne same, foundOther]

open Action

open WaitPc

/-- Every step of the build brings it closer to its return, and no other step takes
it back. -/
theorem rank_step (stepTo : step system action = some next) :
    action.ofBuild.toNat + next.waiter.rank ≤ system.waiter.rank := by
  cases transition_of_step stepTo with
  | contextEnds | timeoutFires | interrupt | request => simp [ofBuild]
  | connected checking | notConnected checking => simp [ofBuild, checking, rank]
  | park preparing => simp [ofBuild, preparing, rank]
  | @select ready selecting =>
    cases ready <;> simp [ofBuild, selecting, WaitCase.next, rank]
  | kill killing => simp [ofBuild, killing, rank]
  | deliver found sending waiting => simp [ofBuild, sending, rank]
  | advance found advanced =>
    rw [(advance_eq_some advanced).2.1]
    simp [ofBuild]
  | stop found stopping => simp [ofBuild, System.setHandler]
  | leave found waiting =>
    cases position : system.waiter <;>
      simp [ofBuild, disconnect, rank]

theorem heard_step (heard : system.Heard)
    (keeps : keepsReceiver system action = true) (stepTo : step system action = some next) :
    next.Heard := by
  intro sending
  cases transition_of_step stepTo with
  | contextEnds | timeoutFires | interrupt => exact heard sending
  | request =>
    obtain ⟨handler, member, receives⟩ := heard sending
    exact ⟨handler, mem_append_left _ member, receives⟩
  | connected | notConnected | park | kill => cases sending
  | @select ready selecting =>
    cases ready with
    | context => cases sending
    | timeout => exact any_eq_true.mp keeps
    | interrupt => cases sending
  | deliver found sending waiting => contradiction
  | advance found advanced =>
    obtain ⟨-, sameWaiter, changed, handlers, kept⟩ := advance_eq_some advanced
    rw [handlers]
    exact receiver_set found kept (heard (sameWaiter ▸ sending))
  | stop found stopping =>
    refine receiver_set found ?_ (heard sending)
    intro receives
    simp [Handler.receives, stopping] at receives
  | leave found waiting =>
    have wasSending : system.waiter = .sending := by
      cases position : system.waiter <;> simp_all [disconnect]
    simp only [keepsReceiver, wasSending, ne_eq, not_true_eq_false, decide_false,
      Bool.false_or] at keeps
    obtain ⟨other, member, receives⟩ := any_eq_true.mp keeps
    obtain ⟨position, different, foundOther⟩ := mem_eraseIdx_iff_getElem?.mp member
    refine ⟨other, mem_of_getElem? (?_ : _[position]? = some other), receives⟩
    rw [System.setHandler, List.getElem?_set_ne (Ne.symm different), foundOther]

/-- A build that has a reason to return, and a receiver if it sends, can make a
step. -/
theorem build_enabled (heard : system.Heard) (ended : system.ended = true)
    (waits : 0 < system.waiter.rank) :
    ∃ action next, action.ofBuild = true ∧ step system action = some next := by
  cases position : system.waiter with
  | checking =>
    refine ⟨.check, ?_⟩
    simp only [step, position, if_true]
    split <;> exact ⟨_, rfl, rfl⟩
  | preparing => exact ⟨.park, _, rfl, if_pos position⟩
  | selecting =>
    have ready : ∃ ready, system.ready ready = true := by
      simp only [System.ended, Bool.or_eq_true] at ended
      rcases ended with (context | timeout) | interrupt
      · exact ⟨.context, context⟩
      · exact ⟨.timeout, timeout⟩
      · exact ⟨.interrupt, interrupt⟩
    obtain ⟨ready, isReady⟩ := ready
    exact ⟨.select ready, _, rfl, if_pos ⟨position, isReady⟩⟩
  | sending =>
    obtain ⟨handler, member, receives⟩ := heard position
    obtain ⟨index, found⟩ := mem_iff_getElem?.mp member
    refine ⟨.deliver index, ?_⟩
    simp only [step, found]
    exact ⟨_, rfl, if_pos ⟨position, of_decide_eq_true receives⟩⟩
  | killing reason =>
    refine ⟨.kill, ?_⟩
    simp only [step, position]
    exact ⟨_, rfl, rfl⟩
  | returned result =>
    rw [position] at waits
    cases waits

/-- Along every run that keeps a receiver, `waitForTerminal` makes at most four
steps, and as long as it has not returned after the timeout, the end of the
context or an interrupt, it can make one of them. -/
theorem terminal_wait_returns {actions : List Action} {system : System} (keeps : MeetsAlong step
      (fun system action => keepsReceiver system action = true) start actions)
    (reached : run step start actions = some system) :
    actions.countP Action.ofBuild + system.waiter.rank ≤ 4 ∧
      (system.ended = true → (∃ result, system.waiter = .returned result) ∨
        ∃ action next, action.ofBuild = true ∧ step system action = some next) := by
  refine ⟨countP_add_le (fun system => system.waiter.rank)
    (fun _ _ _ => rank_step) reached, ?_⟩
  intro ended
  have heard : system.Heard := by
    refine run_invariant System.Heard ?_ ?_ keeps reached
    · intro state action next heard keeps stepTo
      exact heard_step heard keeps stepTo
    · intro sending
      cases sending
  rcases Nat.eq_zero_or_pos system.waiter.rank with done | waits
  · left
    cases position : system.waiter <;> simp_all [WaitPc.rank]
  · exact .inr (build_enabled heard ended waits)

def timeoutActions : List Action :=
  [.request, .advance 0 true, .advance 0 true, .advance 0 true, .check, .park,
    .timeoutFires, .select .timeout]

theorem terminal_wait_returns_timeout :
    ∃ system, run step start timeoutActions = some system ∧
      system.waiter = .sending ∧
      ∃ action next, action.ofBuild = true ∧ step system action = some next := by
  have sends : (run step start timeoutActions).map
      (fun system => (system.waiter, system.ended)) = some (.sending, true) := by decide
  obtain ⟨system, reached, same⟩ := Option.map_eq_some_iff.mp sends
  obtain ⟨sending, ended⟩ := Prod.mk.inj same
  refine ⟨system, reached, sending, ?_⟩
  rcases (terminal_wait_returns (by decide) reached).2 ended with ⟨result, returned⟩ | enabled
  · rw [sending] at returned
    cases returned
  · exact enabled

def System.Unheard (system : System) : Prop :=
  system.waiter = .sending ∧
    ∀ handler ∈ system.handlers, handler.pc = .returned ∧ handler.exit ≠ .waiting

/-- As long as no new client connects, an unheard build stays so. -/
theorem unheard_step (unheard : system.Unheard)
    (noClient : action ≠ .request) (stepTo : step system action = some next) : next.Unheard := by
  obtain ⟨sending, gone⟩ := unheard
  cases transition_of_step stepTo with
  | contextEnds | timeoutFires | interrupt => exact ⟨sending, gone⟩
  | request => contradiction
  | connected checking | notConnected checking => simp [sending] at checking
  | park preparing => simp [sending] at preparing
  | select selecting => simp [sending] at selecting
  | kill killing => simp [sending] at killing
  | deliver found _ waiting | leave found waiting =>
    exact absurd waiting (gone _ (mem_of_getElem? found)).2
  | advance found advanced =>
    exact absurd (gone _ (mem_of_getElem? found)).1 (advance_eq_some advanced).1
  | stop found stopping =>
    refine ⟨sending, ?_⟩
    intro other member
    rcases mem_or_eq_of_mem_set member with old | rfl
    · exact gone other old
    · exact ⟨(gone _ (mem_of_getElem? found)).1, by simp⟩

def execErrorActions : List Action :=
  [.request, .advance 0 true, .check, .park, .advance 0 false, .advance 0 true,
    .timeoutFires, .select .timeout]

/-- The timeout has fired, but the build is blocked in the send to `TimeoutCh` until
another client connects. -/
theorem terminal_wait_hangs :
    (∃ system, run step start execErrorActions = some system ∧
      system.ended = true ∧
      ∀ later last, Action.request ∉ later → run step system later = some last →
        last.waiter = .sending) ∧
    ¬∀ actions system, run step start actions = some system →
      system.ended = true → (∃ result, system.waiter = .returned result) ∨
        ∃ action next, action.ofBuild = true ∧ step system action = some next := by
  have unheard : ∃ system, run step start execErrorActions = some system ∧
      system.ended = true ∧ system.Unheard :=
    ⟨_, rfl, rfl, rfl, by decide⟩
  obtain ⟨system, reached, ended, unheard⟩ := unheard
  refine ⟨⟨system, reached, ended, ?_⟩, ?_⟩
  · intro later last noClient run
    have noClients : MeetsAlong step (fun _ action => action ≠ .request) system
        later := by
      refine meetsAlong_of_forall ?_ system
      rintro action member _ rfl
      exact noClient member
    have still : last.Unheard :=
      run_invariant System.Unheard
        (fun _ _ _ unheard noClient stepTo => unheard_step unheard noClient stepTo) unheard
        noClients run
    exact still.1
  · intro progresses
    rcases progresses _ system reached ended with ⟨result, returned⟩ |
      ⟨action, next, ofBuild, stepTo⟩
    · rw [unheard.1] at returned
      cases returned
    · have noClient : action ≠ .request := by
        rintro rfl
        cases ofBuild
      have closer := rank_step stepTo
      rw [(unheard_step unheard noClient stepTo).1, unheard.1, ofBuild] at closer
      exact absurd closer (by decide)

end GitlabRunner.Terminal
