import Emwin.WxWire.Stanza
import Emwin.Library.Machine
import Emwin.Library.Saturating

/-! A connection from the server's `<enabled/>` on: the room join, the loop of `next_stanza`,
and the acknowledgements of stream management.
-/

namespace Emwin.WxWire
open Library

/-- What a connection runs with: the XML libraries, the room, and the nickname in it. -/
structure Environment where
  reader : XmlReader
  parse : DomParser
  roomBare : Text
  nick : Text

structure Environment.Lawful (env : Environment) : Prop where
  reader : env.reader.Lawful
  names : NamesByTag env.parse

/-- A top-level element as the server sends it. -/
abbrev Stanza := { element : Element // element.Valid }

/-- The kinds of stanzas that stream management counts. -/
def countedNames : List Text := ["message".toList, "presence".toList, "iq".toList]

def Stanza.counted (stanza : Stanza) : Bool := localName stanza.1.name ∈ countedNames

inductive ConnectionPhase where
  | joining
  | joined
  | failed (error : WxWireTransportError)
  | closed
  deriving DecidableEq, Repr

/-- An acknowledgement, with a record of the stanzas received when it was sent. -/
structure Ack where
  h : UInt64
  received : Nat
  deriving DecidableEq, Repr

def Ack.toXml (ack : Ack) : Text :=
  "<a xmlns='".toList ++ sm3Ns ++ "' h='".toList ++ (toString ack.h.toNat).toList ++ "'/>".toList

/-- A connection with stream management, with a record of the stanzas received since. -/
structure Connection where
  phase : ConnectionPhase := .joining
  smHandledStanzas : UInt64 := 0
  acks : List Ack := []
  returned : List Text := []
  received : Nat := 0
  deriving DecidableEq, Repr

inductive ConnectionEvent where
  | arrives (stanza : Stanza) (written : Bool)
  | lost

-----------------------------------------------------------------------------------------
-- Steps
-----------------------------------------------------------------------------------------

/-- The join loop of `connect`: everything but the presence that confirms it is skipped. -/
def waitForJoin (env : Environment) (connection : Connection) (stanza : Text) : Connection :=
  if stanzaRootTagName env.reader stanza = some "presence".toList then
    match isRoomJoinPresence env.parse env.roomBare env.nick stanza with
    | .error error => { connection with phase := .failed error }
    | .ok false => connection
    | .ok true =>
        if "type='error'".toList <:+: stanza ∨ "type=\"error\"".toList <:+: stanza then
          { connection with phase := .failed (.joinRejected stanza) }
        else { connection with phase := .joined, smHandledStanzas := 0 }
  else connection

/-- A message of the room. -/
def isRoomMessage (env : Environment) (element : DomElement) : Bool :=
  element.name = "message".toList
  && element.attr "type".toList = some "groupchat".toList
  && (((element.attr "from".toList).bind (splitOnce '/')).map fun sender =>
      decide (sender.1 = env.roomBare)).getD false

def isRequest (element : DomElement) : Bool :=
  element.name = "r".toList && element.ns = sm3Ns

/-- A turn of `next_stanza`. The answer to a request fails if the socket does. -/
def nextStanza (env : Environment) (connection : Connection) (stanza : Text) (written : Bool)
    : Connection :=
  if isSupportedTopLevelStanza env.reader stanza then
    match parseElementWithDefaultNs env.parse stanza with
    | .error _ => connection
    | .ok element =>
        if isRequest element then
          if written then
            { connection with
              acks := connection.acks ++ [⟨connection.smHandledStanzas, connection.received⟩] }
          else { connection with phase := .closed }
        else if element.name = "a".toList && element.ns = sm3Ns then connection
        else
          let handled :=
            if element.name ∈ countedNames then saturatingAdd connection.smHandledStanzas 1
            else connection.smHandledStanzas
          { connection with
            smHandledStanzas := handled
            returned :=
              if isRoomMessage env element then connection.returned ++ [stanza]
              else connection.returned }
  else connection

/-- The record of a stanza, made as it arrives. -/
def Connection.noted (connection : Connection) (stanza : Stanza) : Connection :=
  { connection with
    received := if stanza.counted then connection.received + 1 else connection.received }

def machine (env : Environment) : Machine Connection ConnectionEvent where
  Start connection := connection = {}
  step connection event :=
    match connection.phase, event with
    | .joining, .arrives stanza _ =>
        some (waitForJoin env (connection.noted stanza) stanza.1.render)
    | .joined, .arrives stanza written =>
        some (nextStanza env (connection.noted stanza) stanza.1.render written)
    | .joining, .lost | .joined, .lost => some { connection with phase := .closed }
    | .failed _, _ | .closed, _ => none

/-- The stanza is a request that `next_stanza` answers. -/
def asksForAck (env : Environment) (stanza : Text) : Bool :=
  isSupportedTopLevelStanza env.reader stanza
  && ((parseElementWithDefaultNs env.parse stanza).toOption.map isRequest).getD false

-----------------------------------------------------------------------------------------
-- What a step does
-----------------------------------------------------------------------------------------

/-- All that a turn of `next_stanza` can do. -/
inductive Turned (env : Environment) (connection : Connection) (stanza : Text) (written : Bool)
    : Connection → Prop
  | skipped (quiet : asksForAck env stanza = false)
    : Turned env connection stanza written connection
  | answered (asked : asksForAck env stanza = true) (sent : written = true)
    : Turned env connection stanza written
        { connection with
          acks := connection.acks ++ [⟨connection.smHandledStanzas, connection.received⟩] }
  | broken (unsent : written = false)
    : Turned env connection stanza written { connection with phase := .closed }
  | handled (quiet : asksForAck env stanza = false) {element : DomElement}
    (parsed : parseElementWithDefaultNs env.parse stanza = .ok element) (returned : List Text)
    : Turned env connection stanza written
        { connection with
          smHandledStanzas :=
            if element.name ∈ countedNames then saturatingAdd connection.smHandledStanzas 1
            else connection.smHandledStanzas
          returned := returned }

theorem turned (env : Environment) (connection : Connection) (stanza : Text) (written : Bool)
    : Turned env connection stanza written (nextStanza env connection stanza written) := by
  unfold nextStanza
  by_cases supported : isSupportedTopLevelStanza env.reader stanza = true
  · rw [if_pos supported]
    cases parsed : parseElementWithDefaultNs env.parse stanza with
    | error error =>
        refine .skipped ?_
        simp [asksForAck, parsed, Except.toOption]
    | ok element =>
        have asks : asksForAck env stanza = isRequest element := by
          simp [asksForAck, supported, parsed, Except.toOption]
        simp only
        by_cases request : isRequest element = true
        · rw [if_pos request]
          cases written with
          | true => exact .answered (asks.trans request) rfl
          | false => exact .broken rfl
        · have quiet : asksForAck env stanza = false := asks.trans (by simpa using request)
          rw [if_neg request]
          split
          · exact .skipped quiet
          · exact .handled quiet parsed _
  · rw [if_neg supported]
    exact .skipped (by simp [asksForAck, supported])

/-- After the join fewer stanzas are handled than were received, and each acknowledgement was
sent in such a state.
-/
structure Connection.Behind (connection : Connection) : Prop where
  joined : connection.phase = .joined → connection.smHandledStanzas.toNat < connection.received
  acks : ∀ ack ∈ connection.acks, ack.h.toNat < ack.received

theorem Connection.Behind.noted {connection : Connection} (behind : connection.Behind)
    (stanza : Stanza)
    : (connection.noted stanza).Behind := by
  refine ⟨fun joined => ?_, behind.acks⟩
  have fewer := behind.joined joined
  simp only [Connection.noted]
  split <;> omega

/-- The presence that confirms the join is received, and it is not handled. -/
theorem waitForJoin_behind {env : Environment} (lawful : env.Lawful) {connection : Connection}
    (behind : connection.Behind) (joining : connection.phase = .joining) (stanza : Stanza)
    : (waitForJoin env (connection.noted stanza) stanza.1.render).Behind := by
  have noted := behind.noted stanza
  have still : (connection.noted stanza).phase = .joining := joining
  unfold waitForJoin
  split
  · next presence =>
    rw [stanzaRootTagName_render lawful.reader stanza.2] at presence
    have counted : stanza.counted = true := by
      unfold Stanza.counted
      rw [Option.some.inj presence]
      decide
    split
    · exact ⟨by simp, noted.acks⟩
    · exact noted
    · split
      · exact ⟨by simp, noted.acks⟩
      · refine ⟨fun _ => ?_, noted.acks⟩
        simp [Connection.noted, counted]
  · exact noted

theorem nextStanza_behind {env : Environment} (lawful : env.Lawful) {connection : Connection}
    (behind : connection.Behind) (joined : connection.phase = .joined) (stanza : Stanza)
    (written : Bool)
    : (nextStanza env (connection.noted stanza) stanza.1.render written).Behind := by
  have noted := behind.noted stanza
  have fewer := behind.joined joined
  have turn := turned env (connection.noted stanza) stanza.1.render written
  generalize nextStanza env (connection.noted stanza) stanza.1.render written = next at turn ⊢
  cases turn with
  | skipped => exact noted
  | answered =>
      refine ⟨noted.joined, fun ack member => ?_⟩
      rcases List.mem_append.mp member with member | member
      · exact noted.acks ack member
      · obtain rfl := List.mem_singleton.mp member
        exact noted.joined joined
  | broken => exact ⟨by simp, noted.acks⟩
  | @handled _ element parsed returned =>
      refine ⟨fun _ => ?_, noted.acks⟩
      have named := parse_name lawful.names stanza.2 parsed
      split_ifs with counts
      · have counted : stanza.counted = true := by
          unfold Stanza.counted
          rw [← named]
          exact decide_eq_true counts
        have most := saturatingAdd_toNat connection.smHandledStanzas 1
        simp only [Connection.noted, counted, if_true]
        change (saturatingAdd connection.smHandledStanzas 1).toNat < _
        rw [most]
        simp only [UInt64.reduceToNat]
        omega
      · exact noted.joined joined

/-- The steps of a connection that is not over. -/
theorem step_cases {env : Environment} {connection next : Connection} {event : ConnectionEvent}
    (taken : (machine env).step connection event = some next)
    : (∃ stanza written,
        connection.phase = .joining ∧ event = .arrives stanza written
        ∧ next = waitForJoin env (connection.noted stanza) stanza.1.render)
      ∨ (∃ stanza written,
          connection.phase = .joined ∧ event = .arrives stanza written
          ∧ next = nextStanza env (connection.noted stanza) stanza.1.render written)
      ∨ event = .lost ∧ next = { connection with phase := .closed } := by
  simp only [machine] at taken
  cases phase : connection.phase with
  | joining =>
      rw [phase] at taken
      cases event with
      | arrives stanza written =>
          exact .inl ⟨stanza, written, rfl, rfl, (Option.some.inj taken).symm⟩
      | lost => exact .inr (.inr ⟨rfl, (Option.some.inj taken).symm⟩)
  | joined =>
      rw [phase] at taken
      cases event with
      | arrives stanza written =>
          exact .inr (.inl ⟨stanza, written, rfl, rfl, (Option.some.inj taken).symm⟩)
      | lost => exact .inr (.inr ⟨rfl, (Option.some.inj taken).symm⟩)
  | failed error =>
      rw [phase] at taken
      cases event <;> exact absurd taken (by simp)
  | closed =>
      rw [phase] at taken
      cases event <;> exact absurd taken (by simp)

theorem step_behind {env : Environment} (lawful : env.Lawful) {connection next : Connection}
    {event : ConnectionEvent} (behind : connection.Behind)
    (taken : (machine env).step connection event = some next)
    : next.Behind := by
  rcases step_cases taken with
    ⟨stanza, written, joining, rfl, rfl⟩ | ⟨stanza, written, joined, rfl, rfl⟩ | ⟨rfl, rfl⟩
  · exact waitForJoin_behind lawful behind joining stanza
  · exact nextStanza_behind lawful behind joined stanza written
  · exact ⟨by simp, behind.acks⟩

/-- A request that reaches the client after the join, and whose answer can be sent. -/
def Asked (env : Environment) (connection : Connection) (event : ConnectionEvent) : Prop :=
  connection.phase = .joined
  ∧ ∃ stanza, event = .arrives stanza true ∧ asksForAck env stanza.1.render = true

theorem waitForJoin_acks (env : Environment) (connection : Connection) (stanza : Text)
    : (waitForJoin env connection stanza).acks = connection.acks := by
  unfold waitForJoin
  split
  · split
    · rfl
    · rfl
    · split <;> rfl
  · rfl

/-- Acknowledgements stay as they are, except that a request adds one. -/
theorem step_acks {env : Environment} {connection next : Connection} {event : ConnectionEvent}
    (taken : (machine env).step connection event = some next)
    : ¬ Asked env connection event ∧ next.acks = connection.acks
      ∨ Asked env connection event ∧ ∃ ack, next.acks = connection.acks ++ [ack] := by
  rcases step_cases taken with
    ⟨stanza, written, joining, rfl, rfl⟩ | ⟨stanza, written, joined, rfl, rfl⟩ | ⟨rfl, rfl⟩
  · refine .inl ⟨fun asked => ?_, waitForJoin_acks env _ _⟩
    exact absurd (joining.symm.trans asked.1) (by simp)
  · have turn := turned env (connection.noted stanza) stanza.1.render written
    generalize nextStanza env (connection.noted stanza) stanza.1.render written = next at turn ⊢
    have quietly (quiet : written = true → asksForAck env stanza.1.render = false)
        : ¬ Asked env connection (.arrives stanza written) := by
      rintro ⟨-, other, same, asks⟩
      obtain ⟨rfl, sent⟩ := ConnectionEvent.arrives.inj same
      rw [quiet sent] at asks
      exact absurd asks (by simp)
    cases turn with
    | skipped quiet => exact .inl ⟨quietly fun _ => quiet, rfl⟩
    | answered asked sent =>
        refine .inr ⟨⟨joined, stanza, by rw [sent], asked⟩, _, rfl⟩
    | broken unsent =>
        refine .inl ⟨quietly fun sent => ?_, rfl⟩
        exact absurd (unsent.symm.trans sent) (by simp)
    | handled quiet => exact .inl ⟨quietly fun _ => quiet, rfl⟩
  · refine .inl ⟨?_, rfl⟩
    rintro ⟨-, stanza, same, -⟩
    exact absurd same (by simp)

-----------------------------------------------------------------------------------------
-- Runs
-----------------------------------------------------------------------------------------

/-- No request reaches the client after the join. -/
def NoneAsked (env : Environment) (first : Connection) (events : List ConnectionEvent) : Prop :=
  ∀ before event after connection,
    events = before ++ event :: after
    → (machine env).takes first before = some connection
    → ¬ Asked env connection event

theorem noneAsked_cons {env : Environment} {first next : Connection} {event : ConnectionEvent}
    {events : List ConnectionEvent} (taken : (machine env).step first event = some next)
    : NoneAsked env first (event :: events)
      ↔ ¬ Asked env first event ∧ NoneAsked env next events := by
  constructor
  · intro quiet
    refine ⟨quiet [] event events first rfl rfl, ?_⟩
    rintro before other after connection rfl reached
    refine quiet (event :: before) other after connection rfl ?_
    rw [Machine.takes, taken]
    exact reached
  · rintro ⟨now, later⟩ before other after connection split reached
    cases before with
    | nil =>
        obtain ⟨rfl, rfl⟩ := List.cons.inj split
        obtain rfl := Option.some.inj reached
        exact now
    | cons first before =>
        obtain ⟨rfl, rfl⟩ := List.cons.inj split
        rw [Machine.takes, taken] at reached
        exact later before other after connection rfl reached

/-- A run keeps every acknowledgement, adds some exactly if one is asked for, and stays behind.
By induction on the events.
-/
theorem run_acks {env : Environment} (lawful : env.Lawful) {first last : Connection}
    {events : List ConnectionEvent} (behind : first.Behind)
    (run : (machine env).takes first events = some last)
    : last.Behind
      ∧ ∃ added, last.acks = first.acks ++ added ∧ (added = [] ↔ NoneAsked env first events) := by
  induction events generalizing first with
  | nil =>
      obtain rfl := Option.some.inj run
      refine ⟨behind, [], by simp, by simp [NoneAsked]⟩
  | cons event events ih =>
      obtain ⟨next, taken, later⟩ := Option.bind_eq_some_iff.mp run
      obtain ⟨lastBehind, added, acks, quiet⟩ := ih (step_behind lawful behind taken) later
      refine ⟨lastBehind, ?_⟩
      rw [noneAsked_cons taken, ← quiet]
      rcases step_acks taken with ⟨unasked, same⟩ | ⟨asked, ack, more⟩
      · exact ⟨added, by rw [acks, same], by simp [unasked]⟩
      · exact ⟨ack :: added, by simp [acks, more], by simp [asked]⟩

/-- Every acknowledgement counts too few stanzas, as the presence that confirms the join is
always left out. So all of them are exact only in a run in which none is asked for.
-/
theorem acks_exact_iff {env : Environment} (lawful : env.Lawful)
    {events : List ConnectionEvent} {connection : Connection}
    (run : (machine env).takes {} events = some connection)
    : (∀ ack ∈ connection.acks, ack.h.toNat < ack.received)
      ∧ ((∀ ack ∈ connection.acks, ack.h.toNat = ack.received) ↔ NoneAsked env {} events) := by
  have start : ({} : Connection).Behind := ⟨by simp, by simp⟩
  obtain ⟨behind, added, acks, quiet⟩ := run_acks lawful start run
  refine ⟨behind.acks, ?_⟩
  rw [← quiet]
  have all : connection.acks = added := acks
  constructor
  · intro exact'
    rw [List.eq_nil_iff_forall_not_mem]
    intro ack member
    rw [← all] at member
    have fewer := behind.acks ack member
    have same := exact' ack member
    omega
  · rintro none ack member
    rw [all, none] at member
    exact absurd member (by simp)

-----------------------------------------------------------------------------------------
-- A sample connection
-----------------------------------------------------------------------------------------

/-- The presence that confirms the join. -/
def joinPresence : Stanza :=
  ⟨.empty "presence".toList " from='nwws@conference.nwws-oi.weather.gov/bb1'".toList,
    ⟨⟨by decide, by decide, by decide⟩, ⟨by decide, by decide⟩⟩, by decide⟩

def ackRequest : Stanza :=
  ⟨.empty "r".toList " xmlns='urn:xmpp:sm:3'".toList,
    ⟨⟨by decide, by decide, by decide⟩, ⟨by decide, by decide⟩⟩, by decide⟩

/-- Knows the two stanzas above, of which the first has no namespace of its own. -/
def sampleParse : DomParser := fun text =>
  if text = addDefaultClientNs joinPresence.1.render then
    .ok ⟨"presence".toList, clientNs,
      [("from".toList, "nwws@conference.nwws-oi.weather.gov/bb1".toList)]⟩
  else if text = ackRequest.1.render then .ok ⟨"r".toList, sm3Ns, []⟩
  else .error "no namespace".toList

theorem sampleParse_names : NamesByTag sampleParse := by
  intro name rest element valid ends parsed
  have named : (name ++ rest).takeWhile Markup.nameChar = name := takeWhile_name valid.chars ends
  unfold sampleParse at parsed
  split_ifs at parsed with presence request
  · obtain rfl := Except.ok.inj parsed
    have text := congrArg List.tail presence
    rw [List.tail_cons] at text
    rw [← named, text]
    decide +kernel
  · obtain rfl := Except.ok.inj parsed
    have text := congrArg List.tail request
    rw [List.tail_cons] at text
    rw [← named, text]
    decide +kernel

def sampleEnvironment : Environment where
  reader := plainReader
  parse := sampleParse
  roomBare := "nwws@conference.nwws-oi.weather.gov".toList
  nick := "bb1".toList

theorem sampleEnvironment_lawful : sampleEnvironment.Lawful :=
  ⟨plainReader_lawful, sampleParse_names⟩

theorem sample_tag (stanza : Stanza)
    : stanzaRootTagName sampleEnvironment.reader stanza.1.render = some stanza.1.name :=
  stanzaRootTagName_render plainReader_lawful stanza.2

theorem waitForJoin_sample (connection : Connection)
    : waitForJoin sampleEnvironment connection joinPresence.1.render
      = { connection with phase := .joined, smHandledStanzas := 0 } := by
  have confirms : isRoomJoinPresence sampleEnvironment.parse sampleEnvironment.roomBare
      sampleEnvironment.nick joinPresence.1.render = .ok true := by
    decide +kernel
  have tag : stanzaRootTagName sampleEnvironment.reader joinPresence.1.render
      = some "presence".toList :=
    sample_tag joinPresence
  unfold waitForJoin
  rw [if_pos tag, confirms]
  exact if_neg (by decide +kernel)

theorem waitForJoin_request (connection : Connection)
    : waitForJoin sampleEnvironment connection ackRequest.1.render = connection := by
  unfold waitForJoin
  rw [if_neg]
  rw [sample_tag ackRequest]
  decide

theorem nextStanza_request (connection : Connection)
    : nextStanza sampleEnvironment connection ackRequest.1.render true
      = { connection with
          acks := connection.acks ++ [⟨connection.smHandledStanzas, connection.received⟩] } := by
  have supported
      : isSupportedTopLevelStanza sampleEnvironment.reader ackRequest.1.render = true := by
    unfold isSupportedTopLevelStanza
    rw [sample_tag ackRequest]
    decide
  have parsed : parseElementWithDefaultNs sampleEnvironment.parse ackRequest.1.render
      = .ok ⟨"r".toList, sm3Ns, []⟩ := by
    decide +kernel
  unfold nextStanza
  rw [if_pos supported, parsed]
  rfl

theorem requests_before_join_unanswered
    : NoneAsked sampleEnvironment {} [.arrives ackRequest true, .arrives joinPresence true] := by
  have run : (machine sampleEnvironment).takes {}
      [.arrives ackRequest true, .arrives joinPresence true]
      = some { phase := .joined, received := 1 } := by
    rw [Machine.takes]
    change (some (waitForJoin _ _ _)).bind _ = _
    rw [waitForJoin_request, Option.bind_some]
    change some (waitForJoin _ _ _) = _
    rw [waitForJoin_sample]
    decide +kernel
  exact (acks_exact_iff sampleEnvironment_lawful run).2.mp (by simp)

theorem join_presence_not_acknowledged
    : sampleEnvironment.Lawful
      ∧ (machine sampleEnvironment).takes {}
          [.arrives joinPresence true, .arrives ackRequest true]
        = some { phase := .joined, acks := [⟨0, 1⟩], received := 1 }
      ∧ (⟨0, 1⟩ : Ack).toXml = "<a xmlns='urn:xmpp:sm:3' h='0'/>".toList := by
  refine ⟨sampleEnvironment_lawful, ?_, by decide⟩
  rw [Machine.takes]
  change (some (waitForJoin _ _ _)).bind _ = _
  rw [waitForJoin_sample, Option.bind_some]
  change some (nextStanza _ _ _ _) = _
  rw [nextStanza_request]
  decide +kernel

end Emwin.WxWire
