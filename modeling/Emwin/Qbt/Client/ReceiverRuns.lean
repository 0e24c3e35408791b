import Emwin.Qbt.Client.Receiver

/-! What the receiver's task tells its consumer and its counters over any run: connections
are opened and closed in turn, and nothing else is out of place.
-/

namespace Emwin.Qbt
open Library

-----------------------------------------------------------------------------------------
-- The phases of the connection loop
-----------------------------------------------------------------------------------------

/-- A connection stands. -/
def LoopPhase.inSession : LoopPhase → Bool
  | .connected .. => true
  | _ => false

/-- A connection is being made. -/
def LoopPhase.isConnecting : LoopPhase → Bool
  | .connecting _ => true
  | _ => false

namespace ConnectionLoop

variable {externals : Externals} {config : QbtReceiverConfig} {loop next : ConnectionLoop}
  {action : LoopAction}

@[simp] theorem markBad_phase (endpoint : Endpoint)
    : (loop.markBad config endpoint).phase = loop.phase := by
  unfold markBad
  split <;> rfl

/-- Updates leave the phase alone, by induction on the events. -/
@[simp] theorem applyUpdates_phase (contexts : Nat → UpdateContext) (index : Nat)
    (events : List QbtFrameEvent)
    : (loop.applyUpdates contexts index events).phase = loop.phase := by
  induction events generalizing index loop with
  | nil => rfl
  | cons event rest ih =>
      cases event with
      | serverListUpdate list => exact ih ..
      | dataBlock segment => exact ih ..
      | warning warning => exact ih ..

/-- Where each action leads. -/
inductive PhaseStep (externals : Externals) (config : QbtReceiverConfig)
    : LoopPhase → LoopAction → LoopPhase → Prop
  | shutdown {phase} : PhaseStep externals config phase .shutdown phase
  | asked (endpoint : Endpoint)
    : PhaseStep externals config .head .ask (.connecting endpoint)
  | starved : PhaseStep externals config .head .ask .sleeping
  | woken : PhaseStep externals config .sleeping .wake .head
  | connected (endpoint : Endpoint)
    : PhaseStep externals config (.connecting endpoint) (.connect true)
        (.connected endpoint (.new config.decode))
  | refused (endpoint : Endpoint)
    : PhaseStep externals config (.connecting endpoint) (.connect false) .head
  | read (endpoint : Endpoint) (decoder : QbtProtocolDecoder) (chunk : Bytes)
      (contexts : Nat → UpdateContext)
    : PhaseStep externals config (.connected endpoint decoder) (.read chunk contexts)
        (.connected endpoint (decoder.feed externals chunk).2)
  | left (endpoint : Endpoint) (decoder : QbtProtocolDecoder)
    : PhaseStep externals config (.connected endpoint decoder) .sessionEnds .head
  | stopped : PhaseStep externals config .head .stop .ended

/-- Every step leads where its action says, by cases on the action. -/
theorem step_phase (taken : loop.step externals config action = some next)
    : PhaseStep externals config loop.phase action next.phase := by
  cases action with
  | shutdown =>
      cases taken
      exact .shutdown
  | ask =>
      simp only [step] at taken
      split_ifs at taken with idle
      cases taken
      rw [idle.1]
      unfold ask
      split
      · exact .asked _
      · exact .starved
  | wake =>
      simp only [step] at taken
      split_ifs at taken with slept
      cases taken
      rw [slept]
      exact .woken
  | stop =>
      simp only [step] at taken
      split_ifs at taken with idle
      cases taken
      rw [idle.1]
      exact .stopped
  | connect succeeded =>
      simp only [step] at taken
      split at taken
      · next endpoint phase =>
          rw [phase]
          cases succeeded with
          | true =>
              cases taken
              exact .connected endpoint
          | false =>
              cases taken
              simp only [markBad_phase]
              exact .refused endpoint
      · cases taken
  | read chunk contexts =>
      simp only [step] at taken
      split at taken
      · next endpoint decoder phase =>
          rw [phase]
          split_ifs at taken <;> cases taken
          · simp only [applyUpdates_phase]
            exact .read endpoint decoder chunk contexts
          · exact .read endpoint decoder chunk contexts
      · cases taken
  | sessionEnds =>
      simp only [step] at taken
      split at taken
      · next endpoint decoder phase =>
          rw [phase]
          split_ifs at taken <;> cases taken
          · exact .left endpoint decoder
          · simp only [markBad_phase]
            exact .left endpoint decoder
      · cases taken

end ConnectionLoop

-----------------------------------------------------------------------------------------
-- The moves of the task
-----------------------------------------------------------------------------------------

namespace SessionCounters

/-- The counters of connections. -/
def connections (counters : SessionCounters) : UInt64 × UInt64 × UInt64 × UInt64 :=
  (counters.connectionAttemptsTotal, counters.connectionSuccessTotal,
    counters.connectionFailTotal, counters.disconnectTotal)

end SessionCounters

namespace Receiver

variable {externals : Externals} {config : ReceiverConfig} {receiver next : Receiver}
  {action : ReceiverAction}

/-- The action ends the session in which it is taken. -/
def Ends : ReceiverAction → Bool
  | .logon (.error _) | .read (.ok []) .. | .read (.error _) .. | .readTimeout
  | .noticeShutdown => true
  | _ => false

/-- Only counters of the watchdog may have changed. -/
structure Settled (receiver before : Receiver) : Prop where
  same
    : before = { receiver with
        counters :=
          { receiver.counters with
            watchdogTimeoutsTotal := before.counters.watchdogTimeoutsTotal
            watchdogExceptionEventsTotal := before.counters.watchdogExceptionEventsTotal }
        sink := before.sink }

theorem Settled.refl : Settled receiver receiver := ⟨rfl⟩

theorem Settled.counted {change : SessionCounters → SessionCounters}
    (watchdog
      : change receiver.counters
        = { receiver.counters with
            watchdogTimeoutsTotal := (change receiver.counters).watchdogTimeoutsTotal
            watchdogExceptionEventsTotal :=
              (change receiver.counters).watchdogExceptionEventsTotal })
    : Settled receiver (receiver.count change).updateTelemetrySink :=
  ⟨congrArg (fun counters => { receiver with
      counters
      sink := (receiver.sender.telemetry.snapshot, change receiver.counters) }) watchdog⟩

/-- Everything one step can do. -/
inductive Move (externals : Externals) (config : ReceiverConfig) (receiver : Receiver)
    : ReceiverAction → Receiver → Prop
  | shutdown {loop} (phase : loop.phase = receiver.loop.phase)
    : Move externals config receiver .shutdown { receiver with loop }
  | elapse (time : Duration)
    : Move externals config receiver (.elapse time)
        { receiver with clock := receiver.clock + time }
  | consume {sender} (taken : receiver.sender.step .receive = some sender)
    : Move externals config receiver .consume { receiver with sender }
  | closeStream {sender} (taken : receiver.sender.step .close = some sender)
    : Move externals config receiver .closeStream { receiver with sender }
  | asked {loop} (idle : receiver.loop.phase = .head)
    (found : loop.phase = .sleeping ∨ ∃ endpoint, loop.phase = .connecting endpoint)
    : Move externals config receiver .ask (receiver.asked config loop)
  | woken {loop} (slept : receiver.loop.phase = .sleeping) (idle : loop.phase = .head)
    : Move externals config receiver .wake { receiver with loop }
  | connected {endpoint loop} (waited : receiver.loop.phase = .connecting endpoint)
    (stands : loop.phase = .connected endpoint (.new config.decode))
    : Move externals config receiver (.connect (.ok ()))
        (receiver.connected config endpoint loop)
  | refused {reason endpoint loop} (waited : receiver.loop.phase = .connecting endpoint)
    (idle : loop.phase = .head)
    : Move externals config receiver (.connect (.error reason))
        (receiver.refused reason loop)
  | loggedOn {session} (inside : receiver.session = some session)
    : Move externals config receiver (.logon (.ok ()))
        { (receiver.count fun counters =>
            { counters with
              authLogonSentTotal := bump counters.authLogonSentTotal }).updateTelemetrySink with
          session := some { session with loggedOn := true } }
  | ticked {session} (inside : receiver.session = some session)
    : Move externals config receiver .telemetryTick
        (let counted := receiver.count fun counters =>
          { counters with
            telemetryEventsEmittedTotal := bump counters.telemetryEventsEmittedTotal }
        (counted.offer
          (.ok (.telemetry counted.sender.telemetry.snapshot counted.counters))).updateTelemetrySink)
  | received {endpoint decoder first rest contexts failures session loop}
    (inside : receiver.session = some session)
    (stood : receiver.loop.phase = .connected endpoint decoder)
    (stands
      : loop.phase = .connected endpoint (decoder.feed externals (first :: rest)).2)
    : Move externals config receiver (.read (.ok (first :: rest)) contexts failures)
        (receiver.received config contexts failures session (first :: rest)
          (decoder.feed externals (first :: rest)).1 loop)
  | waited {session} (inside : receiver.session = some session)
    (calm : session.watchdog.shouldCloseAt receiver.clock = false)
    : Move externals config receiver .readTimeout receiver
  | left {action before endpoint decoder session loop} (ends : Ends action = true)
    (settled : Settled receiver before) (result : Except QbtReceiverError Unit)
    (inside : receiver.session = some session)
    (stood : receiver.loop.phase = .connected endpoint decoder) (idle : loop.phase = .head)
    (reason
      : action = .readTimeout
        → session.watchdog.shouldCloseAt receiver.clock = true
          ∧ result = .error (.lifecycle "watchdog timeout".toList))
    : Move externals config receiver action (before.left result loop)
  | stopped {loop} (idle : receiver.loop.phase = .head) (ended : loop.phase = .ended)
    : Move externals config receiver .stop { receiver with loop }.updateTelemetrySink

theorem leave_eq {result : Except QbtReceiverError Unit}
    (taken : receiver.leave externals config result = some next)
    : ∃ endpoint decoder loop,
        receiver.loop.phase = .connected endpoint decoder
        ∧ loop.phase = .head
        ∧ next = receiver.left result loop := by
  obtain ⟨loop, turned, rfl⟩ := Option.map_eq_some_iff.mp taken
  have phases := ConnectionLoop.step_phase turned
  generalize before : receiver.loop.phase = phase at phases
  generalize after : loop.phase = later at phases
  cases phases with
  | left endpoint decoder => exact ⟨endpoint, decoder, loop, rfl, after, rfl⟩

/-- The steps of a session are moves, by cases on the action. -/
theorem sessionStep_move {session : ConnectedSession} (inside : receiver.session = some session)
    (taken : receiver.sessionStep externals config session action = some next)
    : Move externals config receiver action next := by
  cases action with
  | logon written =>
      cases written with
      | error reason =>
          simp only [sessionStep, logonStep] at taken
          obtain ⟨endpoint, decoder, loop, stood, idle, rfl⟩ := leave_eq taken
          exact .left rfl .refl _ inside stood idle (by simp)
      | ok written =>
          cases taken
          exact .loggedOn inside
  | telemetryTick =>
      simp only [sessionStep] at taken
      split_ifs at taken
      cases taken
      exact .ticked inside
  | read result contexts failures =>
      simp only [sessionStep] at taken
      split_ifs at taken
      cases result with
      | error reason =>
          simp only [readStep] at taken
          obtain ⟨endpoint, decoder, loop, stood, idle, rfl⟩ := leave_eq taken
          -- the session is left, and its watchdog with it
          change Move externals config receiver _
            (Receiver.left (.error (.io reason)) loop (receiver.count fun counters =>
              { counters with
                watchdogExceptionEventsTotal :=
                  bump counters.watchdogExceptionEventsTotal }).updateTelemetrySink)
          exact .left rfl (.counted rfl) _ inside stood idle (by simp)
      | ok chunk =>
          cases chunk with
          | nil =>
              simp only [readStep] at taken
              obtain ⟨endpoint, decoder, loop, stood, idle, rfl⟩ := leave_eq taken
              exact .left rfl .refl _ inside stood idle (by simp)
          | cons first rest =>
              simp only [readStep] at taken
              split at taken
              · next endpoint decoder stood =>
                  obtain ⟨loop, turned, rfl⟩ := Option.map_eq_some_iff.mp taken
                  have phases := ConnectionLoop.step_phase turned
                  rw [stood] at phases
                  generalize after : loop.phase = later at phases
                  cases phases
                  exact .received inside stood after
              · cases taken
  | readTimeout =>
      simp only [sessionStep, timeoutStep] at taken
      split_ifs at taken with loggedOn late
      · obtain ⟨endpoint, decoder, loop, stood, idle, rfl⟩ := leave_eq taken
        exact .left rfl (.counted rfl) _ inside stood idle fun _ => ⟨late, rfl⟩
      · cases taken
        exact .waited inside (by simpa using late)
  | noticeShutdown =>
      simp only [sessionStep] at taken
      split_ifs at taken
      obtain ⟨endpoint, decoder, loop, stood, idle, rfl⟩ := leave_eq taken
      exact .left rfl .refl _ inside stood idle (by simp)
  | _ => cases taken

/-- Every step is a move, by cases on the action. -/
theorem step_move (taken : receiver.step externals config action = some next)
    : Move externals config receiver action next := by
  have inSession
      : (∃ session,
          receiver.session = some session
          ∧ receiver.sessionStep externals config session action = some next)
        → Move externals config receiver action next := by
    rintro ⟨session, inside, stepped⟩
    exact sessionStep_move inside stepped
  cases action with
  | shutdown =>
      simp only [step, Option.map_eq_some_iff] at taken
      obtain ⟨loop, turned, rfl⟩ := taken
      cases turned
      exact .shutdown rfl
  | elapse time =>
      cases taken
      exact .elapse time
  | consume =>
      obtain ⟨sender, received, rfl⟩ := Option.map_eq_some_iff.mp taken
      exact .consume received
  | closeStream =>
      simp only [step, Option.map_eq_some_iff] at taken
      obtain ⟨sender, closed, rfl⟩ := taken
      exact .closeStream closed
  | ask =>
      obtain ⟨loop, turned, rfl⟩ := Option.map_eq_some_iff.mp taken
      have phases := ConnectionLoop.step_phase turned
      generalize before : receiver.loop.phase = phase at phases
      generalize after : loop.phase = later at phases
      cases phases with
      | asked endpoint => exact .asked before (.inr ⟨endpoint, after⟩)
      | starved => exact .asked before (.inl after)
  | wake =>
      simp only [step] at taken
      split_ifs at taken
      obtain ⟨loop, turned, rfl⟩ := Option.map_eq_some_iff.mp taken
      have phases := ConnectionLoop.step_phase turned
      generalize before : receiver.loop.phase = phase at phases
      generalize after : loop.phase = later at phases
      cases phases
      exact .woken before after
  | connect result =>
      cases result with
      | error reason =>
          obtain ⟨loop, turned, rfl⟩ := Option.map_eq_some_iff.mp taken
          have phases := ConnectionLoop.step_phase turned
          generalize before : receiver.loop.phase = phase at phases
          generalize after : loop.phase = later at phases
          cases phases
          exact .refused before after
      | ok succeeded =>
          simp only [step] at taken
          split at taken
          · next endpoint waited =>
              obtain ⟨loop, turned, rfl⟩ := Option.map_eq_some_iff.mp taken
              have phases := ConnectionLoop.step_phase turned
              rw [waited] at phases
              generalize after : loop.phase = later at phases
              cases phases
              exact .connected waited after
          · cases taken
  | stop =>
      obtain ⟨loop, turned, rfl⟩ := Option.map_eq_some_iff.mp taken
      have phases := ConnectionLoop.step_phase turned
      generalize before : receiver.loop.phase = phase at phases
      generalize after : loop.phase = later at phases
      cases phases
      exact .stopped before after
  | logon _ | telemetryTick | read _ _ _ | readTimeout | noticeShutdown =>
      simp only [step] at taken
      split at taken
      · next session inside => exact inSession ⟨session, inside, taken⟩
      · cases taken

-----------------------------------------------------------------------------------------
-- Sending several events
-----------------------------------------------------------------------------------------

/-- Only these items were sent, and otherwise at most failures of handlers were counted. -/
structure Sends (receiver : Receiver) (items : List Offer) (next : Receiver) : Prop where
  same
    : next = { receiver with
        sender := next.sender
        offered := receiver.offered ++ items
        counters :=
          { receiver.counters with
            handlerFailuresTotal := next.counters.handlerFailuresTotal } }
  sender : next.sender = items.foldl EventSender.send receiver.sender

theorem Sends.refl (receiver : Receiver) : Sends receiver [] receiver :=
  ⟨by rw [List.append_nil], rfl⟩

theorem Sends.offer (item : Offer) (receiver : Receiver)
    : Sends receiver [item] (receiver.offer item) :=
  ⟨rfl, rfl⟩

theorem Sends.trans {middle : Receiver} {items more : List Offer}
    (first : Sends receiver items middle) (second : Sends middle more next)
    : Sends receiver (items ++ more) next := by
  refine ⟨?_, by rw [second.sender, first.sender, List.foldl_append]⟩
  rw [second.same, first.same]
  simp only [List.append_assoc]

/-- Sending all items is sending them one after another, by induction on the items. -/
theorem offerAll_sends (items : List Offer) (receiver : Receiver)
    : Sends receiver items (receiver.offerAll items) := by
  induction items generalizing receiver with
  | nil => exact .refl receiver
  | cons item rest ih => exact (Sends.offer item receiver).trans (ih (receiver.offer item))

/-- The warning about a handler that failed. -/
def handlerWarning (message : Text) : Offer :=
  .ok (.frame (.warning (.handlerError message)))

/-- What dispatching events sends. -/
def dispatched (failures : Nat → List Text) : Nat → List QbtFrameEvent → List Offer
  | _, [] => []
  | index, event :: rest =>
      (failures index).map handlerWarning
      ++ .ok (.frame event) :: dispatched failures (index + 1) rest

theorem handlerFailed_sends (messages : List Text) (receiver : Receiver)
    : Sends receiver (messages.map handlerWarning)
        (messages.foldl (fun receiver message => receiver.handlerFailed message)
          receiver) := by
  induction messages generalizing receiver with
  | nil => exact .refl receiver
  | cons message rest ih =>
      have here : Sends receiver [handlerWarning message] (receiver.handlerFailed message) :=
        ⟨rfl, rfl⟩
      exact here.trans (ih _)

/-- Dispatching sends each event after its warnings, by induction on the events. -/
theorem dispatchEvents_sends (failures : Nat → List Text) (index : Nat)
    (events : List QbtFrameEvent) (receiver : Receiver)
    : Sends receiver (dispatched failures index events)
        (receiver.dispatchEvents failures index events) := by
  induction events generalizing index receiver with
  | nil => exact .refl receiver
  | cons event rest ih =>
      have later := ih (index + 1) (((failures index).foldl (fun receiver message =>
        receiver.handlerFailed message) receiver).offer (.ok (.frame event)))
      exact (handlerFailed_sends _ receiver).trans ((Sends.offer _ _).trans later)

/-- What one read sends. -/
def readOffers (config : ReceiverConfig) (contexts : Nat → UpdateContext)
    (failures : Nat → List Text) (events : List QbtFrameEvent) (loop : ConnectionLoop)
    : List Offer :=
  (if config.followServerListUpdates then
      (updateErrors contexts 0 events loop).map .error
    else [])
  ++ dispatched failures 0 events

/-- A read is a change of counters and of the session, and then sends its events. -/
theorem received_sends (config : ReceiverConfig) (contexts : Nat → UpdateContext)
    (failures : Nat → List Text) (session : ConnectedSession) (chunk : Bytes)
    (events : List QbtFrameEvent) (loop : ConnectionLoop) (receiver : Receiver)
    : ∃ sent,
        Sends
          ({ receiver with
              loop
              session := some
                { session with
                  watchdog := session.watchdog.onDataReceived receiver.clock } }.count
            (countRead chunk events) |>.countRecoveries events)
          (readOffers config contexts failures events receiver.loop) sent
        ∧ receiver.received config contexts failures session chunk events loop
          = sent.updateTelemetrySink := by
  refine ⟨_, ?_, rfl⟩
  unfold readOffers
  split
  · exact (offerAll_sends _ _).trans (dispatchEvents_sends ..)
  · exact dispatchEvents_sends ..

-----------------------------------------------------------------------------------------
-- Connections in order
-----------------------------------------------------------------------------------------

/-- Connections are periods; frames and telemetry belong inside them, errors anywhere. -/
def mark : Offer → Mark
  | .ok (.connected _) => .opening
  | .ok .disconnected => .closing
  | .ok (.frame _) => .inner
  | .ok (.telemetry ..) => .inner
  | .error _ => .neutral

/-- What was offered, as marks. -/
def marks (receiver : Receiver) : List Mark := receiver.offered.map mark

/-- How often an endpoint was asked for, and how often connecting to one went well or failed. -/
structure ConnectResults where
  asked : Nat := 0
  made : Nat := 0
  failed : Nat := 0
  deriving DecidableEq, Repr

/-- What the environment answered, step by step. -/
def noteResults (_ : Receiver) (action : ReceiverAction) (results : ConnectResults)
    : ConnectResults :=
  match action with
  | .ask => { results with asked := results.asked + 1 }
  | .connect (.ok ()) => { results with made := results.made + 1 }
  | .connect (.error _) => { results with failed := results.failed + 1 }
  | _ => results

/-- The events are in order, each connection that was made is reported, and the counters are
those of the attempts, their results and the disconnections. Each result belongs to an attempt of
its own. Other tasks see all counters as they are.
-/
structure Consistent (receiver : Receiver) (results : ConnectResults) : Prop where
  bracketed : Mark.readAll false receiver.marks = some receiver.loop.phase.inSession
  opened : receiver.marks.count .opening = results.made
  success : receiver.counters.connectionSuccessTotal = saturated results.made
  ended : receiver.counters.disconnectTotal = saturated (receiver.marks.count .closing)
  fail : receiver.counters.connectionFailTotal = saturated results.failed
  attempts : receiver.counters.connectionAttemptsTotal = saturated results.asked
  paired
    : results.made + results.failed + receiver.loop.phase.isConnecting.toNat ≤ results.asked
  shown : receiver.sink = (receiver.sender.telemetry.snapshot, receiver.counters)

theorem saturatingAdd_amount (n more : Nat)
    : saturatingAdd (saturated n) (saturated more) = saturated (n + more) := by
  rw [← UInt64.toNat_inj, saturatingAdd_toNat, saturated_toNat, saturated_toNat,
    saturated_toNat]
  omega

theorem saturatingAdd_none (counter : UInt64)
    : saturatingAdd counter (saturated 0) = counter := by
  rw [← UInt64.toNat_inj, saturatingAdd_toNat, saturated_toNat]
  have below := counter.toNat_lt
  have size : UInt64.size = 2 ^ 64 := rfl
  omega

/-- What one read sends opens and closes nothing. -/
theorem readOffers_calm (config : ReceiverConfig) (contexts : Nat → UpdateContext)
    (failures : Nat → List Text) (events : List QbtFrameEvent) (loop : ConnectionLoop)
    : ∀ found ∈ (readOffers config contexts failures events loop).map mark,
        found = .inner ∨ found = .neutral := by
  have dispatchedCalm : ∀ index,
      ∀ found ∈ (dispatched failures index events).map mark,
        found = .inner ∨ found = .neutral := by
    induction events with
    | nil => simp [dispatched]
    | cons event rest ih =>
        intro index found member
        simp only [dispatched, List.map_append, List.map_map, List.map_cons, List.mem_append,
          List.mem_map, List.mem_cons] at member
        rcases member with ⟨message, -, rfl⟩ | rfl | later
        · exact .inl rfl
        · exact .inl rfl
        · exact ih (index + 1) found (by simpa using later)
  intro found member
  rw [readOffers, List.map_append, List.mem_append] at member
  rcases member with error | sent
  · split at error
    · simp only [List.map_map, List.mem_map] at error
      obtain ⟨reason, -, rfl⟩ := error
      exact .inr rfl
    · simp at error
  · exact dispatchedCalm 0 found sent

theorem count_calm {marks : List Mark} {kind : Mark}
    (calm : ∀ found ∈ marks, found = .inner ∨ found = .neutral)
    (other : kind = .opening ∨ kind = .closing)
    : marks.count kind = 0 := by
  rw [List.count_eq_zero]
  intro member
  rcases calm kind member with rfl | rfl <;> simp at other

/-- Some items were sent and counted; `asked`, `made` and `missed` are the attempts and their
results meanwhile, and `idled` the attempts for which there was no endpoint.
-/
theorem Consistent.advance {results : ConnectResults} {earlier later : LoopPhase}
    (consistent : Consistent receiver results) (items : List Offer)
    (asked made missed idled : Nat) (before : receiver.loop.phase = earlier)
    (after : next.loop.phase = later)
    (offered : next.offered = receiver.offered ++ items)
    (read : Mark.readAll earlier.inSession (items.map mark) = some later.inSession)
    (opened : (items.map mark).count .opening = made)
    (success
      : next.counters.connectionSuccessTotal
        = saturatingAdd receiver.counters.connectionSuccessTotal (saturated made))
    (ended
      : next.counters.disconnectTotal
        = saturatingAdd receiver.counters.disconnectTotal
            (saturated ((items.map mark).count .closing)))
    (fail
      : next.counters.connectionFailTotal
        = saturatingAdd receiver.counters.connectionFailTotal (saturated missed))
    (attempts
      : next.counters.connectionAttemptsTotal
        = saturatingAdd receiver.counters.connectionAttemptsTotal (saturated asked))
    (used
      : earlier.isConnecting.toNat + asked = made + missed + idled + later.isConnecting.toNat)
    (shown : next.sink = (next.sender.telemetry.snapshot, next.counters))
    : Consistent next
        { asked := results.asked + asked
          made := results.made + made
          failed := results.failed + missed } := by
  subst before after
  have marks : next.marks = receiver.marks ++ items.map mark := by
    rw [Receiver.marks, offered, List.map_append, Receiver.marks]
  exact
    { bracketed := by
        rw [marks, Mark.readAll_append, consistent.bracketed, Option.bind_some, read]
      opened := by rw [marks, List.count_append, consistent.opened, opened]
      success := by rw [success, consistent.success, saturatingAdd_amount]
      ended := by
        rw [ended, consistent.ended, saturatingAdd_amount, marks, List.count_append]
      fail := by rw [fail, consistent.fail, saturatingAdd_amount]
      attempts := by rw [attempts, consistent.attempts, saturatingAdd_amount]
      paired := by
        have paired := consistent.paired
        dsimp only
        omega
      shown := shown }

/-- Nothing was sent, and no connection was made, lost or asked for. -/
theorem Consistent.same {results : ConnectResults} (consistent : Consistent receiver results)
    (offered : next.offered = receiver.offered)
    (connections : next.counters.connections = receiver.counters.connections)
    (inSession : next.loop.phase.inSession = receiver.loop.phase.inSession)
    (isConnecting : next.loop.phase.isConnecting = receiver.loop.phase.isConnecting)
    (shown : next.sink = (next.sender.telemetry.snapshot, next.counters))
    : Consistent next results := by
  simp only [SessionCounters.connections, Prod.mk.injEq] at connections
  obtain ⟨attempts, success, fail, ended⟩ := connections
  refine consistent.advance [] 0 0 0 0 rfl rfl ?_ ?_ rfl ?_ ?_ ?_ ?_ ?_ shown
  · rw [offered, List.append_nil]
  · rw [inSession]
    rfl
  · rw [success]
    exact (saturatingAdd_none _).symm
  · rw [ended]
    exact (saturatingAdd_none _).symm
  · rw [fail]
    exact (saturatingAdd_none _).symm
  · rw [attempts]
    exact (saturatingAdd_none _).symm
  · rw [isConnecting]
    simp

/-- What leaving a session sends. -/
def leftOffers : Except QbtReceiverError Unit → List Offer
  | .ok () => [.ok .disconnected]
  | .error error => [.error error, .ok .disconnected]

/-- Leaving a session sends the error, if there is one, and then the disconnection. -/
theorem left_eq (result : Except QbtReceiverError Unit) (loop : ConnectionLoop)
    (receiver : Receiver)
    : receiver.left result loop
      = updateTelemetrySink
          { receiver with
            loop
            session := none
            sender := (leftOffers result).foldl EventSender.send receiver.sender
            offered := receiver.offered ++ leftOffers result
            counters :=
              { receiver.counters with
                disconnectTotal := bump receiver.counters.disconnectTotal } } := by
  cases result with
  | ok done => rfl
  | error error => simp [left, leftOffers, offer, count]

theorem noteResults_ends (ends : Ends action = true) (results : ConnectResults)
    : noteResults receiver action results = results := by
  unfold Ends at ends
  split at ends
  case h_6 => cases ends
  all_goals rfl

/-- Every move keeps events and counters consistent, by cases on the move. -/
theorem Consistent.move {results : ConnectResults} (consistent : Consistent receiver results)
    (entered
      : ∀ {session},
          receiver.session = some session
          → ∃ endpoint decoder, receiver.loop.phase = .connected endpoint decoder)
    (move : Move externals config receiver action next)
    : Consistent next (noteResults receiver action results) := by
  have none {counter : UInt64} : counter = saturatingAdd counter (saturated 0) :=
    (saturatingAdd_none counter).symm
  cases move with
  | shutdown phase => exact consistent.same rfl rfl (by rw [phase]) (by rw [phase]) consistent.shown
  | elapse time => exact consistent.same rfl rfl rfl rfl consistent.shown
  | @consume sender taken =>
      obtain ⟨channel, -, rfl⟩ := Option.map_eq_some_iff.mp taken
      exact consistent.same rfl rfl rfl rfl consistent.shown
  | @closeStream sender taken =>
      cases taken
      exact consistent.same rfl rfl rfl rfl consistent.shown
  | @asked loop idle found =>
      rcases found with sleeping | ⟨endpoint, connecting⟩
      · simp only [Receiver.asked, sleeping]
        exact consistent.advance [_] 1 0 0 1 idle sleeping rfl rfl rfl none none none rfl rfl rfl
      · simp only [Receiver.asked, connecting]
        exact consistent.advance [] 1 0 0 0 idle connecting (List.append_nil _).symm rfl rfl
          none none none rfl rfl rfl
  | @woken loop slept idle =>
      exact consistent.same rfl rfl (by rw [slept, idle]; rfl) (by rw [slept, idle]; rfl)
        consistent.shown
  | @connected endpoint loop waited stands =>
      exact consistent.advance [_] 0 1 0 0 waited stands rfl rfl rfl rfl none none none rfl rfl
  | @refused reason endpoint loop waited idle =>
      exact consistent.advance [_] 0 0 1 0 waited idle rfl rfl rfl none none rfl none rfl rfl
  | loggedOn inside => exact consistent.same rfl rfl rfl rfl rfl
  | @ticked session inside =>
      rcases entered inside with ⟨endpoint, decoder, stood⟩
      exact consistent.advance [_] 0 0 0 0 stood stood rfl rfl rfl none none none none rfl rfl
  | @received endpoint decoder first rest contexts failures session loop inside stood stands =>
      obtain ⟨sent, sends, same⟩ := received_sends config contexts failures session (first :: rest)
        (decoder.feed externals (first :: rest)).1 loop receiver
      have calm := readOffers_calm config contexts failures
        (decoder.feed externals (first :: rest)).1 receiver.loop
      rw [same, sends.same]
      refine consistent.advance _ 0 0 0 0 stood stands rfl (Mark.readAll_inside calm)
        (count_calm calm (.inl rfl)) none ?_ none none rfl rfl
      rw [count_calm calm (.inr rfl)]
      exact none
  | waited inside calm => exact consistent
  | @left action before endpoint decoder session loop ends settled result inside stood idle
      reason =>
      rw [left_eq, settled.same, noteResults_ends ends]
      cases result with
      | ok done =>
          exact consistent.advance _ 0 0 0 0 stood idle rfl rfl rfl none rfl none none rfl rfl
      | error error =>
          exact consistent.advance _ 0 0 0 0 stood idle rfl rfl rfl none rfl none none rfl rfl
  | @stopped loop idle ended =>
      exact consistent.same rfl rfl (by simp only [updateTelemetrySink, idle, ended]; rfl)
        (by simp only [updateTelemetrySink, idle, ended]; rfl) rfl

-----------------------------------------------------------------------------------------
-- Sessions and their watchdog
-----------------------------------------------------------------------------------------

/-- The last time the task heard from the server of the current session. -/
def noteHeard (receiver : Receiver) (action : ReceiverAction) (heard : Instant) : Instant :=
  match action with
  | .connect (.ok ()) => receiver.clock
  | .read (.ok (_ :: _)) _ _ => receiver.clock
  | _ => heard

/-- There is a session while a connection stands. Its watchdog has counted no exception, and
measures the time since the task last heard from the server.
-/
structure Attended (config : ReceiverConfig) (receiver : Receiver) (heard : Instant) : Prop where
  stands : receiver.session.isSome = receiver.loop.phase.inSession
  watched
    : ∀ session,
        receiver.session = some session
        → session.watchdog
          = { timeout := max config.watchdogTimeoutSecs.toNat 1 * 1000000000
              maxExceptions := config.maxExceptions
              lastData := heard }

theorem Attended.entered {heard : Instant} (attended : Attended config receiver heard)
    {session : ConnectedSession} (inside : receiver.session = some session)
    : ∃ endpoint decoder, receiver.loop.phase = .connected endpoint decoder := by
  have stands := attended.stands
  rw [inside, Option.isSome_some] at stands
  cases phase : receiver.loop.phase with
  | connected endpoint decoder => exact ⟨endpoint, decoder, rfl⟩
  | _ =>
      rw [phase] at stands
      cases stands

/-- Every move keeps the watchdog's time right, by cases on the move. -/
theorem Attended.move {heard : Instant} (attended : Attended config receiver heard)
    (move : Move externals config receiver action next)
    : Attended config next (noteHeard receiver action heard) := by
  have ⟨stands, watched⟩ := attended
  cases move with
  | shutdown phase => exact ⟨by rw [stands, phase], watched⟩
  | elapse time => exact ⟨stands, watched⟩
  | consume taken => exact ⟨stands, watched⟩
  | closeStream taken => exact ⟨stands, watched⟩
  | @asked loop idle found =>
      rw [idle] at stands
      rcases found with sleeping | ⟨endpoint, connecting⟩
      · simp only [Receiver.asked, sleeping]
        exact ⟨stands.trans (congrArg LoopPhase.inSession sleeping).symm, watched⟩
      · simp only [Receiver.asked, connecting]
        exact ⟨stands.trans (congrArg LoopPhase.inSession connecting).symm, watched⟩
  | @woken loop slept idle => exact ⟨by rw [stands, slept, idle]; rfl, watched⟩
  | @connected endpoint loop waited stand =>
      refine ⟨(congrArg LoopPhase.inSession stand).symm, ?_⟩
      rintro _ ⟨⟩
      rfl
  | @refused reason endpoint loop waited idle =>
      rw [waited] at stands
      exact ⟨stands.trans (congrArg LoopPhase.inSession idle).symm, watched⟩
  | @loggedOn session inside =>
      rw [inside] at stands
      refine ⟨stands, ?_⟩
      rintro _ ⟨⟩
      exact watched session inside
  | ticked inside => exact ⟨stands, watched⟩
  | @received endpoint decoder first rest contexts failures session loop inside stood stand =>
      obtain ⟨sent, sends, same⟩ := received_sends config contexts failures session (first :: rest)
        (decoder.feed externals (first :: rest)).1 loop receiver
      rw [same, sends.same]
      refine ⟨(congrArg LoopPhase.inSession stand).symm, ?_⟩
      rintro _ ⟨⟩
      simp only [watched session inside]
      rfl
  | waited inside calm => exact attended
  | @left action before endpoint decoder session loop ends settled result inside stood idle
      reason =>
      rw [left_eq]
      exact ⟨(congrArg LoopPhase.inSession idle).symm, nofun⟩
  | @stopped loop idle ended =>
      rw [idle] at stands
      exact ⟨stands.trans (congrArg LoopPhase.inSession ended).symm, watched⟩

-----------------------------------------------------------------------------------------
-- Whole runs
-----------------------------------------------------------------------------------------

/-- A free slot takes the item if no report is due, and no counter changes. -/
theorem send_room {sender : EventSender} {item : Offer}
    (isOpen : sender.channel.closed = false)
    (calm : sender.telemetry.backpressure.hasPendingReport = false)
    (room : sender.channel.HasRoom)
    : sender.send item = { sender with channel := sender.channel.put item room } := by
  simp only [EventSender.send, trySendEvent, RuntimeSupport.trySendWithBackpressureWarning, calm,
    Bool.false_eq_true, if_false, Channel.trySend_room isOpen room]

theorem send_new (capacity : Nat) (positive : 0 < capacity) (item : Offer)
    : (EventSender.send { channel := .new capacity positive } item).telemetry = {} := by
  have room : (Channel.new (α := Offer) capacity positive).HasRoom := by
    simpa [Channel.new, Channel.HasRoom] using positive
  rw [send_room rfl rfl room]

/-- A task before anything was sent. -/
def fresh (config : ReceiverConfig) (capacity : Nat) (positive : 0 < capacity)
    (nonce seed loadSeed : UInt64)
    (stored : Option (Except QbtReceiverError PersistedServerList))
    : Receiver where
  loop := .start config.toQbtReceiverConfig nonce seed loadSeed stored
  sender := { channel := .new capacity positive }

/-- At most an error from loading the persisted list is sent before the first turn. -/
theorem start_cases (initial : (machine externals config).Start receiver)
    : ∃ capacity positive nonce seed loadSeed stored,
        receiver = fresh config capacity positive nonce seed loadSeed stored
        ∨ ∃ error,
            receiver
            = (fresh config capacity positive nonce seed loadSeed stored).offer
                (.error error) := by
  obtain ⟨-, capacity, positive, nonce, seed, loadSeed, stored, rfl⟩ := initial
  refine ⟨capacity, positive, nonce, seed, loadSeed, stored, ?_⟩
  unfold start
  dsimp only
  split
  · split
    · exact .inl rfl
    · exact .inr ⟨_, rfl⟩
  · exact .inl rfl

/-- A task starts at the head of its loop, and has counted nothing. -/
theorem start_eq (initial : (machine externals config).Start receiver)
    : receiver.loop.phase = .head
      ∧ receiver.session = none
      ∧ receiver.counters = {}
      ∧ receiver.sink = ({}, {})
      ∧ receiver.sender.telemetry = {}
      ∧ ∃ errors : List QbtReceiverError, receiver.offered = errors.map .error := by
  obtain ⟨capacity, positive, nonce, seed, loadSeed, stored, rfl | ⟨error, rfl⟩⟩ :=
    start_cases initial
  · exact ⟨rfl, rfl, rfl, rfl, rfl, [], rfl⟩
  · exact ⟨rfl, rfl, rfl, rfl, send_new capacity positive _, [error], rfl⟩

theorem start_attended (initial : (machine externals config).Start receiver) (heard : Instant)
    : Attended config receiver heard := by
  obtain ⟨idle, outside, -⟩ := start_eq initial
  refine ⟨by rw [outside, idle]; rfl, ?_⟩
  rw [outside]
  nofun

theorem start_consistent (initial : (machine externals config).Start receiver)
    : Consistent receiver {} := by
  obtain ⟨idle, -, counters, sink, telemetry, errors, offered⟩ := start_eq initial
  have marks : receiver.marks = errors.map fun _ => .neutral := by
    rw [Receiver.marks, offered, List.map_map]
    rfl
  have none {kind : Mark} (other : kind ≠ .neutral) : receiver.marks.count kind = 0 := by
    rw [marks, List.count_eq_zero]
    intro member
    obtain ⟨-, -, rfl⟩ := List.mem_map.mp member
    exact other rfl
  exact
    { bracketed := by
        rw [idle, marks]
        exact Mark.readAll_neutral (by simp)
      opened := none (by simp)
      success := by
        rw [counters]
        rfl
      ended := by
        rw [none (by simp), counters]
        rfl
      fail := by
        rw [counters]
        rfl
      attempts := by
        rw [counters]
        rfl
      paired := by
        rw [idle]
        exact le_rfl
      shown := by rw [sink, counters, telemetry] }

/-- Every run keeps events and counters consistent. -/
theorem reachable_consistent {results : ConnectResults}
    (run : ((machine externals config).record {} noteResults).Reachable (receiver, results))
    : Consistent receiver results := by
  have invariant
      : Consistent receiver results ∧ ∃ heard, Attended config receiver heard := by
    refine run.recorded (motive := fun receiver results =>
      Consistent receiver results ∧ ∃ heard, Attended config receiver heard) ?_ ?_
    · intro receiver initial
      exact ⟨start_consistent initial, 0, start_attended initial 0⟩
    · rintro receiver results action next ⟨consistent, heard, attended⟩ - taken
      have move := step_move taken
      exact ⟨consistent.move attended.entered move, _, attended.move move⟩
  exact invariant.1

/-- Every run keeps the events in order and the counters right: the task reports a connection,
then what it receives over it, then its end; it reports no frame and no telemetry outside a
connection; it counts the attempts and their results as the run took them, and other tasks see
all counters as they are.
-/
theorem events_in_order (externals : Externals) (config : ReceiverConfig) (receiver : Receiver)
    (results : ConnectResults)
    (run : ((machine externals config).record {} noteResults).Reachable (receiver, results))
    : Consistent receiver results
      ∧ receiver.marks.count .opening
        = receiver.marks.count .closing + receiver.loop.phase.inSession.toNat := by
  have consistent := reachable_consistent run
  have balanced := Mark.count_of_readAll consistent.bracketed
  rw [Bool.toNat_false, Nat.add_zero] at balanced
  exact ⟨consistent, balanced⟩

/-- A receiver with one server, and a watchdog of two seconds. -/
def sampleConfig : ReceiverConfig where
  toQbtReceiverConfig := ConnectionLoop.sampleReceiverConfig
  reconnectDelaySecs := 5
  watchdogTimeoutSecs := 2
  maxExceptions := 3

def sampleStart : Receiver := start sampleConfig 8 (by decide) 1 2 3 none

theorem sampleStart_starts : (machine sampleExternals sampleConfig).Start sampleStart :=
  ⟨rfl, 8, by decide, 1, 2, 3, none, rfl⟩

/-- The task connects and logs on, and three seconds pass. -/
def silentActions : List ReceiverAction :=
  [.ask, .connect (.ok ()), .logon (.ok ()), .elapse 3000000000]

/-- A connection that stands has been reported and counted. -/
theorem events_in_order_connected
    : ∃ receiver,
        ((machine sampleExternals sampleConfig).record {} noteResults).Reachable
          (receiver, { asked := 1, made := 1 })
        ∧ receiver.offered = [.ok (.connected "a:1".toList)]
        ∧ receiver.counters.connectionAttemptsTotal = saturated 1
        ∧ receiver.counters.connectionFailTotal = saturated 0
        ∧ receiver.marks.count .opening = receiver.marks.count .closing + 1 := by
  have computed
      : (((machine sampleExternals sampleConfig).record {} noteResults).takes (sampleStart, {})
          silentActions).map
          (fun recorded => (recorded.1.offered, recorded.1.loop.phase.inSession, recorded.2))
        = some ([.ok (.connected "a:1".toList)], true, { asked := 1, made := 1 }) := by
    decide +kernel
  obtain ⟨⟨receiver, results⟩, taken, facts⟩ := Option.map_eq_some_iff.mp computed
  simp only [Prod.mk.injEq] at facts
  obtain ⟨offered, inside, rfl⟩ := facts
  have run : ((machine sampleExternals sampleConfig).record {} noteResults).Reachable
      (receiver, { asked := 1, made := 1 }) :=
    .takes (.start ⟨sampleStart_starts, rfl⟩) (by simp) taken
  obtain ⟨consistent, balanced⟩ := events_in_order sampleExternals sampleConfig receiver _ run
  rw [inside] at balanced
  exact ⟨receiver, run, offered, consistent.attempts, consistent.fail, balanced⟩

/-- The watchdog ends a session at a read timeout if and only if more than its timeout has
passed since the connection was made or bytes were last read; the limit on exceptions never
matters. It then sends its error and the disconnection; otherwise the timeout has no effect.
-/
theorem watchdog_closes_iff (externals : Externals) (config : ReceiverConfig)
    (receiver next : Receiver) (heard : Instant)
    (run : ((machine externals config).record 0 noteHeard).Reachable (receiver, heard))
    (taken : receiver.step externals config .readTimeout = some next)
    : if receiver.clock - heard > max config.watchdogTimeoutSecs.toNat 1 * 1000000000 then
        next.loop.phase = .head
        ∧ next.offered
          = receiver.offered
            ++ [.error (.lifecycle "watchdog timeout".toList), .ok .disconnected]
      else next = receiver := by
  have attended : Attended config receiver heard := by
    refine run.recorded (motive := fun receiver heard => Attended config receiver heard) ?_ ?_
    · intro receiver initial
      exact start_attended initial 0
    · intro receiver heard action next attended _ taken
      exact attended.move (step_move taken)
  have decides {session : ConnectedSession} (inside : receiver.session = some session)
      : session.watchdog.shouldCloseAt receiver.clock
        = decide (receiver.clock - heard
          > max config.watchdogTimeoutSecs.toNat 1 * 1000000000) := by
    simp [attended.watched session inside, Watchdog.shouldCloseAt]
  have move := step_move taken
  cases move with
  | waited inside calm =>
      rw [decides inside, decide_eq_false_iff_not] at calm
      rw [if_neg calm]
  | @left action before endpoint decoder session loop ends settled result inside stood idle
      reason =>
      obtain ⟨late, rfl⟩ := reason rfl
      rw [decides inside, decide_eq_true_eq] at late
      rw [if_pos late, left_eq]
      exact ⟨idle, congrArg (· ++ _) (by rw [settled.same])⟩

/-- After three silent seconds the watchdog of two seconds ends the session. -/
theorem watchdog_closes_silent
    : ∃ receiver next,
        ((machine sampleExternals sampleConfig).record 0 noteHeard).Reachable (receiver, 0)
        ∧ receiver.step sampleExternals sampleConfig .readTimeout = some next
        ∧ next.offered
          = receiver.offered
            ++ [.error (.lifecycle "watchdog timeout".toList), .ok .disconnected] := by
  have computed
      : (((machine sampleExternals sampleConfig).record 0 noteHeard).takes (sampleStart, 0)
          silentActions).map
          (fun recorded => (recorded.2, recorded.1.clock,
            (recorded.1.step sampleExternals sampleConfig .readTimeout).isSome))
        = some (0, 3000000000, true) := by
    decide +kernel
  obtain ⟨⟨receiver, heard⟩, taken, facts⟩ := Option.map_eq_some_iff.mp computed
  simp only [Prod.mk.injEq] at facts
  obtain ⟨rfl, clock, stepped⟩ := facts
  obtain ⟨next, stepped⟩ := Option.isSome_iff_exists.mp stepped
  have run : ((machine sampleExternals sampleConfig).record 0 noteHeard).Reachable
      (receiver, 0) :=
    .takes (.start ⟨sampleStart_starts, rfl⟩) (by simp) taken
  have closes := watchdog_closes_iff sampleExternals sampleConfig receiver next 0 run stepped
  rw [if_pos (by rw [clock]; decide)] at closes
  exact ⟨receiver, next, run, stepped, closes.2⟩

end Receiver

end Emwin.Qbt
