import LogSocket.Routing
import LogSocket.Segmentation

/-! `forceLog` with the repository of loggers in it: an event is given to the appenders of its logger,
each of which has a threshold and filters of its own. Whatever clients a server has, and in whatever
order their bytes come, an event goes where the configuration sends its name. -/

namespace LogSocket

open Lib

inductive FilterDecision
  | deny
  | neutral
  | accept
  deriving DecidableEq, Repr

/-- `isGreaterOrEqual(level)` -/
def Level.isGreaterOrEqual (self level : Level) : Bool := level.toInt ≤ self.toInt

/-- A filter with its options. -/
inductive Filter
  | denyAll
  | levelMatch (levelToMatch : Option Level) (acceptOnMatch : Bool)
  | levelRange (levelMin levelMax : Option Level) (acceptOnMatch : Bool)
  | stringMatch (stringToMatch : LogString) (acceptOnMatch : Bool)
  deriving DecidableEq

def Filter.decide (event : LoggingEvent) : Filter → FilterDecision
  | .denyAll => .deny
  | .levelMatch levelToMatch acceptOnMatch =>
    if levelToMatch = some event.level then
      if acceptOnMatch then .accept else .deny
    else .neutral
  | .levelRange levelMin levelMax acceptOnMatch =>
    if levelMin.any (!event.level.isGreaterOrEqual ·) then .deny
    else if levelMax.any (·.toInt < event.level.toInt) then .deny
    else if acceptOnMatch then .accept else .neutral
  | .stringMatch stringToMatch acceptOnMatch =>
    if event.message = [] ∨ stringToMatch = [] then .neutral
    else if ¬stringToMatch <:+: event.message then .neutral
    else if acceptOnMatch then .accept else .deny

/-- `AppenderSkeleton`, without its layout. -/
structure Appender where
  closed : Bool
  threshold : Level
  filters : List Filter
  deriving DecidableEq

/-- The loop over the filters: whether `append` is reached. -/
def passes (event : LoggingEvent) : List Filter → Bool
  | [] => true
  | f :: filters =>
    match f.decide event with
    | .deny => false
    | .accept => true
    | .neutral => passes event filters

/-- Whether `doAppend(event)` calls `append`. -/
def Appender.doAppend (appender : Appender) (event : LoggingEvent) : Bool :=
  if appender.closed then false
  else if !event.level.isGreaterOrEqual appender.threshold then false
  else passes event appender.filters

/-- An event and the appenders whose `append` got it. -/
structure Delivery where
  event : LoggingEvent
  appenders : List AppenderPtr
  deriving DecidableEq

section

variable (host : Host) (appenders : AppenderPtr → Appender)

/-- What a turn of the loop of `forceLog` does with an event. -/
def Hierarchy.log (h : Hierarchy) (event : LoggingEvent) :
    Except Fail (Option Delivery × Hierarchy) := do
  let remoteLogger ← h.getLogger event.logger
  let level ← remoteLogger.getEffectiveLevel event.logger
  if event.level.isGreaterOrEqual level then do
    let called ← remoteLogger.callAppenders event.logger
    pure (some ⟨event, called.filter fun a => (appenders a).doAppend event⟩, remoteLogger)
  else pure (none, remoteLogger)

/-- What a call of `forceLog` returns, what it leaves and where it has sent events. -/
structure RoutedCall where
  verdict : Except Fail Bool
  client : Client
  hierarchy : Hierarchy
  deliveries : List Delivery

/-- The loop of `forceLog`, for `fuel` turns. -/
def decodeRouted (protocol : Protocol) : Nat → ByteBuf → Hierarchy → RoutedCall
  | 0, byteBuf, h => ⟨.error .hang, ⟨some protocol, byteBuf⟩, h, []⟩
  | fuel + 1, byteBuf, h =>
    if byteBuf.bytes = [] then ⟨.ok true, ⟨some protocol, byteBuf⟩, h, []⟩
    else
      match protocol.createLoggingEvent host byteBuf with
      | (.ok event, rest) =>
        match h.log appenders event with
        | .ok (delivery, h) =>
          let call := decodeRouted protocol fuel rest h
          { call with deliveries := delivery.toList ++ call.deliveries }
        | .error e => ⟨e.caughtInLoop, ⟨some protocol, rest⟩, h, []⟩
      | (.error e, rest) => ⟨e.caughtInLoop, ⟨some protocol, rest⟩, h, []⟩

/-- `forceLog(bytes, size)` with a repository. -/
def Client.forceLogRouted (h : Hierarchy) (client : Client) (bytes : List UInt8) : RoutedCall :=
  match client.byteBuf.insert bytes with
  | .error e => ⟨.error e, client, h, []⟩
  | .ok byteBuf =>
    match client.loggingFunc with
    | some protocol => decodeRouted host appenders protocol (byteBuf.bytes.length + 1) byteBuf h
    | none =>
      match createLoggingEventFunc host byteBuf with
      | (.ok (some protocol), rest) =>
        decodeRouted host appenders protocol (rest.bytes.length + 1) rest h
      | (.ok none, rest) => ⟨.ok false, ⟨none, rest⟩, h, []⟩
      | (.error e, rest) => ⟨e.caughtAtStart, ⟨none, rest⟩, h, []⟩

/-- What a server does for one of its clients. -/
inductive ClientOp (κ : Type)
  | accept (socket : κ)
  | forceLog (socket : κ) (bytes : List UInt8)

variable {κ : Type} [DecidableEq κ]

/-- The calls of `forceLog` that a server makes one after the other, until one does not return. -/
def serveRouted : Hierarchy → (κ → Client) → List (ClientOp κ) →
    List (Except Fail Bool × List Delivery)
  | _, _, [] => []
  | h, clients, .accept socket :: ops => serveRouted h (Function.update clients socket .new) ops
  | h, clients, .forceLog socket bytes :: ops =>
    let call := (clients socket).forceLogRouted host appenders h bytes
    (call.verdict, call.deliveries) ::
      match call.verdict with
      | .ok _ => serveRouted call.hierarchy (Function.update clients socket call.client) ops
      | .error _ => []

/-- The same calls, with the events that they give to a repository that `host` stands for. -/
def serve : (κ → Client) → List (ClientOp κ) → List (Except Fail Bool × List LoggingEvent)
  | _, [] => []
  | clients, .accept socket :: ops => serve (Function.update clients socket .new) ops
  | clients, .forceLog socket bytes :: ops =>
    let call := (clients socket).forceLog host bytes
    (call.verdict, call.events) ::
      match call.verdict with
      | .ok _ => serve (Function.update clients socket call.client) ops
      | .error _ => []

end

/-- A host whose repository lets every event through. -/
def Host.passing (host : Host) : Host :=
  { host with effectiveLevel := fun _ => some Level.all.toInt }

@[simp] theorem Protocol.createLoggingEvent_passing (host : Host) (protocol : Protocol) :
    protocol.createLoggingEvent host.passing = protocol.createLoggingEvent host := by
  cases protocol <;> rfl

@[simp] theorem createLoggingEventFunc_passing (host : Host) :
    createLoggingEventFunc host.passing = createLoggingEventFunc host := by
  funext byteBuf
  have hTry (protocols : List Protocol) : tryLoggingEventFuncs host.passing protocols byteBuf =
      tryLoggingEventFuncs host protocols byteBuf := by
    induction protocols with
    | nil => rfl
    | cons protocol protocols ih =>
      rw [tryLoggingEventFuncs, tryLoggingEventFuncs, ih]
      cases protocol <;> rfl
  exact hTry _

@[simp] theorem callAppenders_passing (host : Host) (event : LoggingEvent) :
    callAppenders host.passing event = .ok (some event) := by
  have hPasses : Level.all.toInt ≤ event.level.toInt := by cases event.level <;> decide
  exact congrArg Except.ok (if_pos hPasses)

/-- Every name that the loader of a protocol can read is short of 4 GiB. -/
def Protocol.NamesFit (host : Host) (protocol : Protocol) : Prop :=
  ∀ (byteBuf rest : ByteBuf) (event : LoggingEvent),
    protocol.createLoggingEvent host byteBuf = (.ok event, rest) → event.logger.length < 2 ^ 32

/-- What the format of msgpack bounds: the length of a string is a number of 32 bits. -/
def Host.StringsFit (host : Host) : Prop :=
  ∀ (bytes : List UInt8) (msg : Object) (readBytes : UInt64),
    host.unpack bytes = .object msg readBytes → ∀ entries, msg = .map entries →
      ∀ entry ∈ entries, ∀ text, entry.2 = .str text ∨ entry.2 = .bin text → text.length < 2 ^ 32

theorem load_eq_ok {α : Type} {env : Env} {read : ByteBuf → Except Fail (α × UInt64)}
    {create : α → Except Fail LoggingEvent} {byteBuf rest : ByteBuf} {event : LoggingEvent}
    (h : load env read create byteBuf = (.ok event, rest)) :
    ∃ r, read byteBuf = .ok r ∧ create r.1 = .ok event := by
  cases hRead : read byteBuf with
  | error e =>
    rw [load_error hRead] at h
    cases h
  | ok r =>
    rw [load, hRead] at h
    dsimp only at h
    split at h
    · cases h
    · exact ⟨r, rfl, congrArg Prod.fst h⟩

theorem fetch_length {byteBuf : ByteBuf} {pos size : UInt64} :
    Ensures (fun _ => True) (fun bytes => bytes.length ≤ size.toNat) (byteBuf.fetch pos size) :=
  Ensures.of_value fun bytes h => by
    rw [(ByteBuf.fetch_eq_ok.mp h).2]
    exact List.length_take_le _ _

theorem Default.readLogString_fits (env : Env) (byteBuf : ByteBuf) (pos : UInt64) (skip : Bool) :
    Ensures (fun _ => True) (fun r => r.1.length < 2 ^ 32)
      (Default.readLogString env byteBuf pos skip) := by
  refine (Ensures.trivial _).bind fun _ _ => ?_
  refine fetch_length.bind fun bytes hBytes => ?_
  refine (Ensures.trivial _).bind fun _ _ => ?_
  refine fetch_length.bind fun data hData => ?_
  have hLe := (le_lt bytes.reverse).trans_le
    (Nat.pow_le_pow_right (by decide) (List.length_reverse.trans_le hBytes))
  rw [UInt64.toNat_ofNat'] at hData
  have hTwo : (2 : UInt64).toNat = 2 := rfl
  rw [hTwo] at hLe
  change data.length < _
  omega

theorem Bytes.readLogString_fits (env : Env) (byteBuf : ByteBuf) (pos : UInt64) :
    Ensures (fun _ => True) (fun r => r.1.length < 2 ^ 32)
      (Bytes.readLogString env byteBuf pos) := by
  refine (Ensures.trivial _).bind fun length _ => ?_
  refine (Ensures.trivial _).bind fun _ _ => ?_
  refine fetch_length.bind fun data hData => ?_
  have hLt := length.1.toUInt32.toNat_lt
  rw [UInt32.toNat_toUInt64] at hData
  change data.length < _
  omega

theorem Msgpack.asString_fits {object : Object}
    (h : ∀ text, object = .str text ∨ object = .bin text → text.length < 2 ^ 32) :
    Ensures (fun _ => True) (fun text => text.length < 2 ^ 32) (Msgpack.asString object) := by
  cases object with
  | str text => exact h text (.inl rfl)
  | bin text => exact h text (.inr rfl)
  | _ => exact True.intro

theorem Msgpack.readData_fits {host : Host} (hStrings : host.StringsFit) (byteBuf : ByteBuf) :
    Ensures (fun _ => True) (fun r => r.1.loggerName.length < 2 ^ 32)
      (Msgpack.readData host byteBuf) := by
  unfold readData
  split
  · exact True.intro
  · exact True.intro
  next msg readBytes hUnpack =>
    refine (Ensures.trivial _).bind fun _ _ => ?_
    refine Ensures.bind (P := fun entries => msg = .map entries) ?_ fun entries hMap => ?_
    · cases msg <;> first | exact True.intro | exact rfl
    refine Ensures.bind (P := fun object => ∃ key, (key, object) ∈ entries)
      (Ensures.of_value fun object h => ?_) fun object hMem => ?_
    · rw [value] at h
      split at h
      next entry hGet =>
        rw [← Except.ok.inj h]
        exact ⟨entry.1, List.mem_of_getElem? hGet⟩
      next => cases h
    obtain ⟨key, hMem⟩ := hMem
    refine (asString_fits fun text hText =>
      hStrings _ _ _ hUnpack _ hMap _ hMem text hText).bind fun loggerName hFits => ?_
    iterate 14 refine (Ensures.trivial _).bind fun _ _ => ?_
    exact hFits

theorem Protocol.namesFit {host : Host} {protocol : Protocol}
    (hStrings : protocol = .msgpack → host.StringsFit) : protocol.NamesFit host := by
  intro byteBuf rest event hCall
  cases protocol with
  | default =>
    rw [Protocol.createLoggingEvent, Default.createLoggingEvent_eq_load] at hCall
    obtain ⟨r, hRead, hCreate⟩ := load_eq_ok hCall
    have hFits : Ensures (fun _ => True) (fun r => r.1.logger.length < 2 ^ 32)
        (Default.readMessage host.env (byteBuf.bytes.length + 1) byteBuf) := by
      refine Ensures.bind (P := fun r => r.1.1.2.length < 2 ^ 32) ?_ fun r hName => ?_
      · refine Ensures.bind (P := fun r => r.1.2.length < 2 ^ 32) ?_ fun r hName => ?_
        · refine (Ensures.trivial _).bind fun _ _ => ?_
          refine (Ensures.trivial _).bind fun _ _ => ?_
          iterate 4 refine (Ensures.trivial _).bind fun _ _ => ?_
          exact (Default.readLogString_fits _ _ _ _).bind fun r hName => hName
        · exact (Ensures.trivial _).bind fun _ _ => hName
      · iterate 5 refine (Ensures.trivial _).bind fun _ _ => ?_
        exact hName
    rw [(createLoggingEvent_given hCreate).1]
    exact hFits.value hRead
  | bytes =>
    obtain ⟨r, hRead, hCreate⟩ := load_eq_ok hCall
    have hFits : Ensures (fun _ => True) (fun r => r.1.loggerName.length < 2 ^ 32)
        (Bytes.readData host.env byteBuf) := by
      refine (Bytes.readLogString_fits _ _ _).bind fun r hName => ?_
      iterate 7 refine (Ensures.trivial _).bind fun _ _ => ?_
      exact hName
    rw [← Except.ok.inj hCreate]
    exact hFits.value hRead
  | msgpack =>
    obtain ⟨r, hRead, hCreate⟩ := load_eq_ok hCall
    rw [← Except.ok.inj hCreate]
    exact (Msgpack.readData_fits (hStrings rfl) _).value hRead

/-- Where a configuration sends an event. -/
def Hierarchy.deliver (appenders : AppenderPtr → Appender) (config : Hierarchy)
    (event : LoggingEvent) : Option Delivery :=
  if event.level.isGreaterOrEqual (config.levelOf event.logger) then
    some ⟨event, (config.appendersOf event.logger).filter fun a => (appenders a).doAppend event⟩
  else none

open Hierarchy (Found AllFound Grown Linked Orderly)

/-- The events in front of the first whose logger is never found, after calls for `names`. -/
def untilLost : List LogString → List LoggingEvent → List LoggingEvent
  | _, [] => []
  | names, event :: events =>
    if Found names event.logger then event :: untilLost (names ++ [event.logger]) events else []

/-- What the calls of a server do with a repository that has loggers of `names`, given what they do with
one that lets every event through: the same, with the events sent where the configuration says, up to
the call that does not return because the logger of an event is never found. -/
def servedAs (deliver : LoggingEvent → Option Delivery) : List LogString →
    List (Except Fail Bool × List LoggingEvent) → List (Except Fail Bool × List Delivery)
  | _, [] => []
  | names, (verdict, events) :: calls =>
    if AllFound names (events.map (·.logger)) then
      (verdict, events.filterMap deliver) ::
        servedAs deliver (names ++ events.map (·.logger)) calls
    else [(.error .hang, (untilLost names events).filterMap deliver)]

section

variable {host : Host} (appenders : AppenderPtr → Appender) {names more : List LogString}
  {config : Hierarchy}

/-- A turn of the loop of `forceLog` ends where the logger can be found. -/
theorem Hierarchy.Linked.log_cases {h : Hierarchy} {event : LoggingEvent} (hLinked : Linked names h)
    (hSize : event.logger.length < 2 ^ 32) :
    Found names event.logger ∧ (∃ delivery h', h.log appenders event = .ok (delivery, h') ∧
      Linked (names ++ [event.logger]) h') ∨
    ¬Found names event.logger ∧ h.log appenders event = .error .hang := by
  obtain ⟨hFound, h', hOk, -⟩ | ⟨hNot, hHang⟩ := hLinked.getLogger_cases hSize
  · have hNext := hLinked.getLogger hSize hOk
    obtain ⟨level, hLevel⟩ := hNext.getEffectiveLevel (List.mem_concat_self (a := event.logger))
    obtain ⟨called, hCalled⟩ := hNext.callAppenders (List.mem_concat_self (a := event.logger))
    refine .inl ⟨hFound, ?_⟩
    simp only [log, hOk, hLevel, hCalled, ok_bind]
    split
    · exact ⟨_, h', rfl, hNext⟩
    · exact ⟨_, h', rfl, hNext⟩
  · exact .inr ⟨hNot, by rw [log, Hierarchy.getLogger, hHang, error_bind]⟩

/-- It sends the event where the configuration says. -/
theorem Hierarchy.Grown.log_cases {h : Hierarchy} {event : LoggingEvent}
    (hGrown : Grown names more config h) (hOrderly : Orderly names)
    (hSize : event.logger.length < 2 ^ 32) :
    Found (names ++ more) event.logger ∧
      (∃ h', h.log appenders event = .ok (config.deliver appenders event, h') ∧
        Grown names (more ++ [event.logger]) config h') ∨
    ¬Found (names ++ more) event.logger ∧ h.log appenders event = .error .hang := by
  obtain ⟨hFound, h', hOk, -⟩ | ⟨hNot, hHang⟩ := hGrown.linked.getLogger_cases hSize
  · have hNext := hGrown.getLogger hSize hOk
    have hMem : event.logger ∈ names ++ (more ++ [event.logger]) := by simp
    refine .inl ⟨hFound, h', ?_, hNext⟩
    rw [log, hOk, ok_bind, hNext.getEffectiveLevel hOrderly hMem, ok_bind,
      hNext.callAppenders hOrderly hMem, deliver]
    split <;> rfl
  · exact .inr ⟨hNot, by rw [log, Hierarchy.getLogger, hHang, error_bind]⟩

/-- What a call does with a repository, given what it does with one that lets every event through:
the same, with its events sent where the configuration says, or it does not return. -/
def RoutedCall.Follows (names more : List LogString) (config : Hierarchy)
    (deliver : LoggingEvent → Option Delivery) (routed : RoutedCall) (call : Call) : Prop :=
  AllFound (names ++ more) (call.events.map (·.logger)) ∧ routed.verdict = call.verdict ∧
      routed.client = call.client ∧ routed.deliveries = call.events.filterMap deliver ∧
      Grown names (more ++ call.events.map (·.logger)) config routed.hierarchy ∨
    ¬AllFound (names ++ more) (call.events.map (·.logger)) ∧ routed.verdict = .error .hang ∧
      routed.deliveries = (untilLost (names ++ more) call.events).filterMap deliver

theorem RoutedCall.Follows.none {deliver : LoggingEvent → Option Delivery} {h : Hierarchy}
    (hGrown : Grown names more config h) (verdict : Except Fail Bool) (client : Client) :
    RoutedCall.Follows names more config deliver ⟨verdict, client, h, []⟩ ⟨verdict, client, []⟩ :=
  .inl ⟨trivial, rfl, rfl, rfl, by rwa [List.map_nil, List.append_nil]⟩

theorem RoutedCall.Follows.event {deliver : LoggingEvent → Option Delivery} {routed : RoutedCall}
    {call : Call} {event : LoggingEvent} (hFound : Found (names ++ more) event.logger)
    (h : routed.Follows names (more ++ [event.logger]) config deliver call) :
    RoutedCall.Follows names more config deliver
      { routed with deliveries := (deliver event).toList ++ routed.deliveries }
      { call with events := event :: call.events } := by
  have hCons (events : List LoggingEvent) :
      (deliver event).toList ++ events.filterMap deliver = (event :: events).filterMap deliver := by
    cases hDeliver : deliver event <;> simp [hDeliver]
  obtain ⟨hAll, hVerdict, hClient, hSent, hLast⟩ | ⟨hNot, hVerdict, hSent⟩ := h
  · rw [← List.append_assoc] at hAll
    refine .inl ⟨⟨hFound, hAll⟩, hVerdict, hClient, ?_, ?_⟩
    · rw [← hCons, ← hSent]
    · rwa [List.append_assoc] at hLast
  · rw [← List.append_assoc] at hNot hSent
    refine .inr ⟨fun hAll => hNot hAll.2, hVerdict, ?_⟩
    rw [untilLost, if_pos hFound, ← hCons, ← hSent]

variable (hOrderly : Orderly names) (hNames : ∀ protocol : Protocol, protocol.NamesFit host)
include hOrderly hNames

theorem decodeRouted_follows (protocol : Protocol) (fuel : Nat) (byteBuf : ByteBuf) {h : Hierarchy}
    (hGrown : Grown names more config h) :
    (decodeRouted host appenders protocol fuel byteBuf h).Follows names more config
      (config.deliver appenders) (decode host.passing protocol fuel byteBuf) := by
  induction fuel generalizing byteBuf h more with
  | zero => exact .none hGrown _ _
  | succ fuel ih =>
    rw [decodeRouted, decode, Protocol.createLoggingEvent_passing]
    split
    next => exact .none hGrown _ _
    next =>
      cases hCall : protocol.createLoggingEvent host byteBuf with
      | mk result rest =>
        cases result with
        | error e => exact .none hGrown _ _
        | ok event =>
          dsimp only
          rw [callAppenders_passing]
          obtain ⟨hFound, h', hLog, hNext⟩ | ⟨hNot, hLog⟩ :=
            hGrown.log_cases appenders hOrderly (hNames _ _ _ _ hCall)
          · rw [hLog]
            exact (ih rest hNext).event hFound
          · rw [hLog]
            refine .inr ⟨fun hAll => hNot hAll.1, rfl, ?_⟩
            simp [untilLost, hNot]

theorem Client.forceLogRouted_follows (client : Client) (bytes : List UInt8) {h : Hierarchy}
    (hGrown : Grown names more config h) :
    (client.forceLogRouted host appenders h bytes).Follows names more config
      (config.deliver appenders) (client.forceLog host.passing bytes) := by
  rw [forceLogRouted, forceLog]
  cases client.byteBuf.insert bytes with
  | error e => exact .none hGrown _ _
  | ok byteBuf =>
    cases client.loggingFunc with
    | some protocol => exact decodeRouted_follows appenders hOrderly hNames _ _ _ hGrown
    | none =>
      simp only [createLoggingEventFunc_passing]
      cases createLoggingEventFunc host byteBuf with
      | mk result rest =>
        cases result with
        | error e => exact .none hGrown _ _
        | ok loggingFunc =>
          cases loggingFunc with
          | none => exact .none hGrown _ _
          | some protocol => exact decodeRouted_follows appenders hOrderly hNames _ _ _ hGrown

theorem serveRouted_eq {κ : Type} [DecidableEq κ] (ops : List (ClientOp κ))
    (clients : κ → Client) {h : Hierarchy} (hGrown : Grown names more config h) :
    serveRouted host appenders h clients ops =
      servedAs (config.deliver appenders) (names ++ more) (serve host.passing clients ops) := by
  induction ops generalizing clients h more with
  | nil => rfl
  | cons op ops ih =>
    cases op with
    | accept socket => exact ih _ hGrown
    | forceLog socket bytes =>
      rw [serveRouted, serve, servedAs]
      obtain ⟨hAll, hVerdict, hClient, hSent, hLast⟩ | ⟨hNot, hVerdict, hSent⟩ :=
        (clients socket).forceLogRouted_follows appenders hOrderly hNames bytes hGrown
      · rw [if_pos hAll, hVerdict, hClient, hSent]
        cases ((clients socket).forceLog host.passing bytes).verdict with
        | ok goesOn =>
          dsimp only
          rw [ih _ hLast, List.append_assoc]
        | error e => rfl
      · rw [if_neg hNot, hVerdict, hSent]

end

/-- Whatever clients a server has and in whatever order their bytes come, an event that a loader builds
goes to the appenders that the configuration gives to the name of its logger, if it passes the level
there, and not to any others, until the logger of an event is never found. -/
theorem serveRouted_of_config {κ : Type} [DecidableEq κ] {host : Host}
    (appenders : AppenderPtr → Appender) {ops : List Hierarchy.Op} {config : Hierarchy}
    (hStrings : host.StringsFit) (hSizes : ∀ n ∈ ops.flatMap Hierarchy.Op.asked, n.length < 2 ^ 32)
    (hConfig : Hierarchy.new.run ops = .ok config)
    (hOrderly : Orderly (ops.flatMap Hierarchy.Op.asked)) (clients : κ → Client)
    (calls : List (ClientOp κ)) :
    serveRouted host appenders config clients calls = servedAs (config.deliver appenders)
      (ops.flatMap Hierarchy.Op.asked) (serve host.passing clients calls) := by
  have hLinked := Linked.new.run hSizes hConfig
  rw [List.nil_append] at hLinked
  have hServed := serveRouted_eq appenders hOrderly
    (fun protocol => protocol.namesFit fun _ => hStrings) calls clients (Grown.refl hLinked)
  rwa [List.append_nil] at hServed

theorem byteHost_stringsFit : byteHost.StringsFit := by
  intro bytes msg readBytes h entries hMap
  subst hMap
  cases bytes with
  | nil => cases h
  | cons byte bytes =>
    simp only [byteHost, unpackByte] at h
    split_ifs at h <;> cases h
    simp

/-- A message of the Bytes protocol of the level `ERROR` and a logger with a short name -/
def errorMessage (name : LogString) : List UInt8 :=
  [0, 0, 0, UInt8.ofNat name.length] ++ name ++ [0, 0, 0x9C, 0x40] ++ List.replicate 28 0

/-- Of two clients whose bytes come in turns, one sends an event of the logger `a.b`, and the other one of
`.x` in front of it. -/
theorem serveRouted_of_config_sample : ∃ config,
    Hierarchy.new.run Hierarchy.configOps = .ok config ∧
    (serveRouted byteHost (fun _ => ⟨false, .all, []⟩) config (fun _ => .new)
      [.accept true, .forceLog true (Bytes.start ++ (errorMessage [0x61, 0x2E, 0x62]).take 9),
        .accept false, .forceLog true ((errorMessage [0x61, 0x2E, 0x62]).drop 9),
        .forceLog false (Bytes.start ++ errorMessage [0x2E, 0x78] ++
          errorMessage [0x61, 0x2E, 0x62]),
        .forceLog true (errorMessage [0x61])]).map
        (fun call => (call.1, call.2.map fun delivery =>
          (delivery.event.logger, delivery.appenders))) =
      [(.ok true, []), (.ok true, [([0x61, 0x2E, 0x62], [1, 0])]), (.error .hang, [])] := by
  refine ⟨_, rfl, ?_⟩
  rw [serveRouted_of_config _ byteHost_stringsFit Hierarchy.configOps_asked rfl (by decide)]
  rfl

end LogSocket
