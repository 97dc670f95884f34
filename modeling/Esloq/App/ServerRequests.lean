/-
**Requests to the server, from the call to its callback (`ServerDataServiceApiImpl.java`,
`SendToServerIntentService.java`, `HttpsCommunication.java`, `LockDataRepositoryImpl.java`).**

A call asks for an ID token. The token tasks complete in any order; a request whose token has come is
started as an intent, and one worker exchanges the intents with the server one after the other. What comes
back is handled on the main thread in the same order, but an exception on the way leaves a request without
a callback. A message of the server may arrive in between, and the process may die at any time.

* `handleAction`, `result` — what the worker sends of an exchange, and what the receiver calls back.
* `ServerCall.onResult` — the callbacks of the repository.
* `ServerRequests.step` — a call, a token, an exchange, a result, a message, or the end of the process.
* `Tracked` — the invariant: what is started, exchanged and handled passes two queues in a row.
* `requests_in_server_order` — for every run, requests take effect in the order in which the server was
  asked, each at most once, and as long as the process lives all that are conclusive do.
-/

import Esloq.App.Preferences
import Esloq.App.SessionKey
import Esloq.Lib.Fifo

namespace Esloq

open Machine Prefixes Fifo

/-! ### One request -/

/-- The methods of `ServerDataServiceApiImpl`. -/
inductive ServerCall
  | fetchUserData
  | registerUserDevice
  | addLock (mac : String) (name : Option String) (lockClockwise : Bool)
  | removeLock (mac : String)
  | addUser (email mac : String) (isAdmin : Bool)
  | removeUser (userId : Int32) (lockMac : String)
  | addLog (lockMac : String) (locked : Bool)
  | requestSessionKey (lockMac : String)
  | log (message : String)
  deriving DecidableEq

/-- What comes of an exchange over HTTPS. -/
inductive HttpExchange (J : Type)
  | ioException
  /-- The status, and the JSON object in the body, if it is one. -/
  | answered (status : Nat) (body : Option J)

section Request

variable {J : Type} (json : OrgJson J)

/-- `HttpsCommunication.readJson`; the outer `none` is an exception, the inner one is `null`. -/
def readJson : HttpExchange J → Option (Option J)
  | .ioException => none
  | .answered status body => if status = 200 then body.map some else some none

/-- `handleActionPost` and `handleActionGet`: what is sent to the receiver; `none` where an exception is
caught. -/
def handleAction (exchange : HttpExchange J) : Option (Reply J) :=
  (readJson exchange).map fun
    | some httpResponse => .response (some httpResponse)
    | none => .failed

/-- `onReceiveResult`: the object that the callback gets on success; the outer `none` where a
`JSONException` is caught and nothing is called back. -/
def Reply.result : Reply J → Option (Option J)
  | .failed => some none
  | .response jsonResponse => do
      let jsonResponse ← jsonResponse
      let success ← json.getBoolean jsonResponse "success"
      if success then return some jsonResponse
      let error ← json.getJSONObject jsonResponse "error"
      let _ ← json.getString error "message"
      return none

/-- What an exchange is concluded with: `none` where nothing is called back. -/
def HttpExchange.conclusion (exchange : HttpExchange J) : Option (Option J) :=
  (handleAction exchange).bind (Reply.result json)

/-- A reply to `requestSessionKey` is called back with its result. -/
theorem onReceiveResult_eq (decode : String → Option (List UInt8)) (reply : Reply J)
    (c : Cryptography) :
    onReceiveResult json decode reply c =
      match reply.result json with
      | some jsonObject => onSessionKeyResult json decode jsonObject c
      | none => .pure c := by
  cases reply with
  | failed => rfl
  | response jsonResponse =>
      cases jsonResponse with
      | none => rfl
      | some jsonResponse =>
          cases success : json.getBoolean jsonResponse "success" with
          | none => simp [onReceiveResult, required, Reply.result, success, catchJson, Turn.pure]
          | some succeeded =>
              cases succeeded with
              | true =>
                  simp [onReceiveResult, required, Reply.result, success, catchJson_onSessionKeyResult]
              | false =>
                  simp only [onReceiveResult, required, Reply.result, success]
                  cases error : json.getJSONObject jsonResponse "error" with
                  | none => simp [success, error, catchJson, Turn.pure]
                  | some object =>
                      cases message : json.getString object "message" with
                      | none => simp [success, error, message, catchJson, Turn.pure]
                      | some text =>
                          simp [success, error, message, catchJson, onSessionKeyResult,
                            communicationReady, Turn.emit]

/-! ### What the app holds -/

/-- What the callbacks of the repository change: the stored data, the static fields of `Cryptography`, and
the preferences. -/
structure Held where
  data : LocalData
  keys : Cryptography
  preferences : Preferences

/-- What a successful call changes in the stored data. -/
def ServerCall.confirmed (jsonObject : J) : ServerCall → Option (DataInput J)
  | .fetchUserData => some (.parseAndStore jsonObject)
  | .addLock mac name lockClockwise => some (.addLock mac name lockClockwise)
  | .addUser _ mac isAdmin => some (.addUser jsonObject mac isAdmin)
  | .removeLock mac => some (.removeLock mac)
  | .removeUser userId lockMac => some (.removeUser userId lockMac)
  | .registerUserDevice | .addLog .. | .requestSessionKey _ | .log _ => none

variable (java : JavaText) (decode : String → Option (List UInt8))

/-- A change of the stored data, and the exception that ends it. -/
def Held.store (input : DataInput J) (held : Held) : Held × Option JavaError :=
  ({ held with data := input.step java json held.data },
    (input.script java json held.data.userId).fault)

/-- The callbacks of `LockDataRepositoryImpl`; an exception that they do not catch gets through. -/
def ServerCall.onResult (jsonObject : Option J) (held : Held) (call : ServerCall) :
    Held × Option JavaError :=
  match call with
  | .registerUserDevice =>
      ({ held with preferences := held.preferences.setRegistrationTokenSentToServer jsonObject.isSome }, none)
  | .requestSessionKey _ =>
      let turn := onSessionKeyResult json decode jsonObject held.keys
      ({ held with keys := turn.state }, turn.fault)
  | call =>
      match jsonObject.bind call.confirmed with
      | some input => held.store json java input
      | none => (held, none)

end Request

/-! ### Requests together -/

/-- A request is numbered when it is called. -/
abbrev NumberedCall := Nat × ServerCall

/-- The requests that wait for their token, for the worker and for the main thread. -/
structure ServerRequests (J : Type) where
  count : Nat
  tasks : List NumberedCall
  intents : List NumberedCall
  results : List (NumberedCall × Reply J)
  held : Held

/-- What happens to the requests. -/
inductive RequestInput (J : Type)
  /-- A method is called, with whether a user is signed in. -/
  | call (call : ServerCall) (signedIn : Bool)
  /-- The token task of a request completes. -/
  | onComplete (number : Nat) (successful : Bool)
  /-- The worker has exchanged its next intent. -/
  | exchange (exchange : HttpExchange J)
  /-- The main thread handles the next result. -/
  | onReceiveResult
  /-- A message of the server arrives. -/
  | messageReceived (message : Message)
  /-- The system ends the process. -/
  | killed

/-- What can be observed of the requests. -/
inductive RequestEvent (J : Type)
  | started (request : NumberedCall)
  | exchanged (request : NumberedCall) (exchange : HttpExchange J)
  | received (request : NumberedCall) (reply : Reply J)
  | onResult (request : NumberedCall) (jsonObject : Option J)
  | message (message : Message)
  | died

namespace ServerRequests

variable {J : Type}

/-- The app when it is started. -/
def start (held : Held) : ServerRequests J := ⟨0, [], [], [], held⟩

/-- After the end of the process: what is stored stays. -/
def restarted (s : ServerRequests J) : ServerRequests J :=
  { s with tasks := [], intents := [], results := []
           held := { s.held with keys := ⟨none, none, zeroNonce⟩ } }

/-- Something has been stored, and an exception ends the process. -/
def finish (outcome : Held × Option JavaError) (events : List (RequestEvent J)) (s : ServerRequests J) :
    Turn (ServerRequests J) (RequestEvent J) Empty :=
  let s := { s with held := outcome.1 }
  match outcome.2 with
  | none => .emit s events
  | some _ => .emit s.restarted (events ++ [.died])

variable (java : JavaText) (json : OrgJson J) (decode : String → Option (List UInt8))

/-- One input. -/
def step (input : RequestInput J) (s : ServerRequests J) :
    Turn (ServerRequests J) (RequestEvent J) Empty :=
  match input with
  | .call call signedIn =>
      -- without a user there is an `IllegalStateException`
      if signedIn then .pure { s with count := s.count + 1, tasks := s.tasks ++ [(s.count, call)] }
      else .emit s.restarted [.died]
  | .onComplete number successful =>
      match s.tasks.lookup number with
      | none => .pure s
      | some call =>
          let s := { s with tasks := s.tasks.filter (·.1 ≠ number) }
          if successful then .emit { s with intents := s.intents ++ [(number, call)] } [.started (number, call)]
          else .pure s
  | .exchange exchange =>
      match s.intents with
      | [] => .pure s
      | request :: intents =>
          .emit
            { s with intents := intents
                     results := s.results ++ ((handleAction exchange).map (request, ·)).toList }
            [.exchanged request exchange]
  | .onReceiveResult =>
      match s.results with
      | [] => .pure s
      | (request, reply) :: results =>
          let s := { s with results := results }
          match reply.result json with
          | none => .emit s [.received request reply]
          | some jsonObject =>
              s.finish (request.2.onResult json java decode jsonObject s.held)
                [.received request reply, .onResult request jsonObject]
  | .messageReceived message =>
      s.finish (s.held.store json java (.messageReceived message)) [.message message]
  | .killed => .emit s.restarted [.died]

/-! ### What a trace says -/

/-- The requests whose token has come, in order. -/
def started (trace : List (RequestEvent J)) : List NumberedCall :=
  trace.filterMap fun
    | .started request => some request
    | _ => none

/-- What the server was asked, in order. -/
def exchanges (trace : List (RequestEvent J)) : List (NumberedCall × HttpExchange J) :=
  trace.filterMap fun
    | .exchanged request exchange => some (request, exchange)
    | _ => none

/-- What the main thread has received. -/
def replies (trace : List (RequestEvent J)) : List (NumberedCall × Reply J) :=
  trace.filterMap fun
    | .received request reply => some (request, reply)
    | _ => none

/-- What has been called back. -/
def callbacks (trace : List (RequestEvent J)) : List (NumberedCall × Option J) :=
  trace.filterMap fun
    | .onResult request jsonObject => some (request, jsonObject)
    | _ => none

/-- What a callback changes in the stored data. -/
def change (callback : NumberedCall × Option J) : Option (DataInput J) :=
  callback.2.bind callback.1.2.confirmed

/-- What has changed the stored data: the callbacks and the messages. -/
def dataInputs (trace : List (RequestEvent J)) : List (DataInput J) :=
  trace.filterMap fun
    | .onResult request jsonObject => change (request, jsonObject)
    | .message message => some (.messageReceived message)
    | _ => none

/-- What an exchange is sent on as. -/
def sentOn (exchanged : NumberedCall × HttpExchange J) : Option (NumberedCall × Reply J) :=
  (handleAction exchanged.2).map (exchanged.1, ·)

/-- What a reply is called back as. -/
def calledBack (received : NumberedCall × Reply J) : Option (NumberedCall × Option J) :=
  (received.2.result json).map (received.1, ·)

/-- What an exchange is called back as. -/
def concluded (exchanged : NumberedCall × HttpExchange J) : Option (NumberedCall × Option J) :=
  (exchanged.2.conclusion json).map (exchanged.1, ·)

theorem concluded_eq (exchanged : NumberedCall × HttpExchange J) :
    concluded json exchanged = (sentOn exchanged).bind (calledBack json) := by
  rw [concluded, HttpExchange.conclusion, sentOn]
  cases handleAction exchanged.2 <;> rfl

section Append

variable (first second : List (RequestEvent J))

@[simp] theorem started_append : started (first ++ second) = started first ++ started second :=
  List.filterMap_append

@[simp] theorem exchanges_append : exchanges (first ++ second) = exchanges first ++ exchanges second :=
  List.filterMap_append

@[simp] theorem replies_append : replies (first ++ second) = replies first ++ replies second :=
  List.filterMap_append

@[simp] theorem callbacks_append : callbacks (first ++ second) = callbacks first ++ callbacks second :=
  List.filterMap_append

@[simp] theorem dataInputs_append :
    dataInputs (first ++ second) = dataInputs first ++ dataInputs second := List.filterMap_append

end Append

/-! ### The invariant -/

/-- The intents and the results each pass a queue, the callbacks are those of the results, the data are
what has changed them, and every request has a number of its own. -/
structure Tracked (before : LocalData) (past : List (RequestEvent J)) (s : ServerRequests J) : Prop where
  intents : Passes (.died ∈ past) (started past) ((exchanges past).map Prod.fst) s.intents
  results : Passes (.died ∈ past) ((exchanges past).filterMap sentOn) (replies past) s.results
  called : callbacks past = (replies past).filterMap (calledBack json)
  data : s.held.data = After (DataInput.step java json) (dataInputs past) before
  apart : ((started past ++ s.tasks).map Prod.fst).Nodup
  counted : ∀ request ∈ started past ++ s.tasks, request.1 < s.count

section Step

variable {java : JavaText} {json : OrgJson J} {decode : String → Option (List UInt8)}
  {before : LocalData} {past : List (RequestEvent J)} {s : ServerRequests J}

theorem tracked_start (held : Held) : Tracked java json held.data [] (start held) where
  intents := .empty
  results := .empty
  called := rfl
  data := rfl
  apart := List.nodup_nil
  counted _ member := absurd member List.not_mem_nil

/-- The end of the process clears the queues. -/
theorem Tracked.died (tracked : Tracked java json before past s) :
    Tracked java json before (past ++ [.died]) s.restarted := by
  have started' : started (past ++ [.died]) = started past :=
    (started_append past _).trans (List.append_nil _)
  have exchanges' : exchanges (past ++ [.died]) = exchanges past :=
    (exchanges_append past _).trans (List.append_nil _)
  have replies' : replies (past ++ [.died]) = replies past :=
    (replies_append past _).trans (List.append_nil _)
  have callbacks' : callbacks (past ++ [.died]) = callbacks past :=
    (callbacks_append past _).trans (List.append_nil _)
  have dataInputs' : dataInputs (past ++ [.died]) = dataInputs past :=
    (dataInputs_append past _).trans (List.append_nil _)
  have dead : (.died : RequestEvent J) ∈ past ++ [.died] := by simp
  constructor
  · rw [started', exchanges']
    exact tracked.intents.clear dead
  · rw [exchanges', replies']
    exact tracked.results.clear dead
  · rw [callbacks', replies']
    exact tracked.called
  · rw [dataInputs']
    exact tracked.data
  · rw [started']
    have fewer := (List.Sublist.refl (started past)).append (List.nil_sublist s.tasks)
    exact tracked.apart.sublist (fewer.map Prod.fst)
  · rw [started']
    intro request member
    exact tracked.counted request (List.mem_append_left _ (by simpa [restarted] using member))

/-- So does an exception, after what came before it. -/
theorem Tracked.finish {outcome : Held × Option JavaError} {events : List (RequestEvent J)}
    (tracked : Tracked java json before (past ++ events) { s with held := outcome.1 }) :
    Tracked java json before (past ++ (s.finish outcome events).events)
      (s.finish outcome events).state := by
  rw [ServerRequests.finish]
  cases outcome.2 with
  | none => exact tracked
  | some error =>
      have died := tracked.died
      rwa [List.append_assoc] at died

theorem Tracked.call (tracked : Tracked java json before past s) (call : ServerCall) :
    Tracked java json before past
      { s with count := s.count + 1, tasks := s.tasks ++ [(s.count, call)] } where
  intents := tracked.intents
  results := tracked.results
  called := tracked.called
  data := tracked.data
  apart := by
    show ((started past ++ (s.tasks ++ [(s.count, call)])).map Prod.fst).Nodup
    rw [← List.append_assoc, List.map_append, List.nodup_append]
    refine ⟨tracked.apart, List.nodup_singleton _, fun number member new isNew => ?_⟩
    obtain ⟨request, earlier, rfl⟩ := List.mem_map.mp member
    intro same
    have below := tracked.counted request earlier
    rw [same, List.mem_singleton.mp isNew] at below
    exact Nat.lt_irrefl _ below
  counted request member := by
    have member : request ∈ started past ++ (s.tasks ++ [(s.count, call)]) := member
    rw [← List.append_assoc, List.mem_append] at member
    rcases member with earlier | new
    · exact Nat.lt_succ_of_lt (tracked.counted request earlier)
    · rw [List.mem_singleton.mp new]
      exact Nat.lt_succ_self s.count

/-- A task that fails ends its request. -/
theorem Tracked.onFailure (tracked : Tracked java json before past s) (number : Nat) :
    Tracked java json before past { s with tasks := s.tasks.filter (·.1 ≠ number) } where
  intents := tracked.intents
  results := tracked.results
  called := tracked.called
  data := tracked.data
  apart := by
    have fewer := (List.Sublist.refl (started past)).append
      (List.filter_sublist (p := fun task : NumberedCall => task.1 ≠ number) (l := s.tasks))
    exact tracked.apart.sublist (fewer.map Prod.fst)
  counted request member := by
    rcases List.mem_append.mp member with start | task
    · exact tracked.counted request (List.mem_append_left _ start)
    · exact tracked.counted request (List.mem_append_right _ (List.mem_of_mem_filter task))

/-- A token starts its request. -/
theorem Tracked.onToken (tracked : Tracked java json before past s) {number : Nat} {call : ServerCall}
    (waits : s.tasks.lookup number = some call) :
    Tracked java json before (past ++ [.started (number, call)])
      { s with tasks := s.tasks.filter (·.1 ≠ number), intents := s.intents ++ [(number, call)] } := by
  have started' : started (past ++ [.started (number, call)]) = started past ++ [(number, call)] :=
    started_append past _
  have exchanges' : exchanges (past ++ [.started (number, call)]) = exchanges past :=
    (exchanges_append past _).trans (List.append_nil _)
  have replies' : replies (past ++ [.started (number, call)]) = replies past :=
    (replies_append past _).trans (List.append_nil _)
  have member : (number, call) ∈ s.tasks := by
    obtain ⟨front, back, split, -⟩ := List.lookup_eq_some_iff.mp waits
    rw [split]
    simp
  have fewer := tracked.onFailure number
  constructor
  · rw [started', exchanges']
    exact (tracked.intents.put (some (number, call))).of_iff (by simp)
  · rw [exchanges', replies']
    exact tracked.results.of_iff (by simp)
  · rw [replies', ← tracked.called]
    simp [callbacks]
  · have same : dataInputs (past ++ [.started (number, call)]) = dataInputs past :=
      (dataInputs_append past _).trans (List.append_nil _)
    rw [same]
    exact tracked.data
  · have apart := fewer.apart
    have all := tracked.apart
    rw [List.map_append, List.nodup_append] at all apart
    rw [started', List.map_append, List.map_append, List.nodup_append, List.nodup_append]
    refine ⟨⟨apart.1, List.nodup_singleton _, fun other earlier new isNew => ?_⟩, apart.2.1,
      fun other earlier later isLater => ?_⟩
    · rw [List.mem_singleton.mp isNew]
      exact all.2.2 other earlier number (List.mem_map_of_mem member)
    · rcases List.mem_append.mp earlier with start | new
      · exact apart.2.2 other start later isLater
      · rw [List.mem_singleton.mp new]
        obtain ⟨task, kept, rfl⟩ := List.mem_map.mp isLater
        exact fun same => absurd same.symm (by simpa using (List.mem_filter.mp kept).2)
  · rw [started']
    intro request isRequest
    rw [List.append_assoc, List.mem_append, List.mem_append, List.mem_singleton] at isRequest
    rcases isRequest with start | rfl | task
    · exact tracked.counted request (List.mem_append_left _ start)
    · exact tracked.counted _ (List.mem_append_right _ member)
    · exact fewer.counted request (List.mem_append_right _ task)

/-- An exchange takes an intent, and may send a result. -/
theorem Tracked.exchange (tracked : Tracked java json before past s) {request : NumberedCall}
    {intents : List NumberedCall} (next : s.intents = request :: intents) (exchange : HttpExchange J) :
    Tracked java json before (past ++ [.exchanged request exchange])
      { s with intents := intents
               results := s.results ++ ((handleAction exchange).map (request, ·)).toList } := by
  have exchanges' : exchanges (past ++ [.exchanged request exchange]) =
      exchanges past ++ [(request, exchange)] := exchanges_append past _
  have started' : started (past ++ [.exchanged request exchange]) = started past :=
    (started_append past _).trans (List.append_nil _)
  have replies' : replies (past ++ [.exchanged request exchange]) = replies past :=
    (replies_append past _).trans (List.append_nil _)
  have callbacks' : callbacks (past ++ [.exchanged request exchange]) = callbacks past :=
    (callbacks_append past _).trans (List.append_nil _)
  have dataInputs' : dataInputs (past ++ [.exchanged request exchange]) = dataInputs past :=
    (dataInputs_append past _).trans (List.append_nil _)
  have first := tracked.intents
  rw [next] at first
  constructor
  · rw [started', exchanges', List.map_append]
    exact first.take.of_iff (by simp)
  · have sent : [(request, exchange)].filterMap sentOn =
        ((handleAction exchange).map (request, ·)).toList := by
      cases found : handleAction exchange <;> simp [sentOn, found]
    rw [exchanges', replies', List.filterMap_append, sent]
    exact (tracked.results.put _).of_iff (by simp)
  · rw [callbacks', replies']
    exact tracked.called
  · rw [dataInputs']
    exact tracked.data
  · rw [started']
    exact tracked.apart
  · rw [started']
    exact tracked.counted

/-- A result is taken; where something is called back, it stores what it changes. -/
theorem Tracked.received (tracked : Tracked java json before past s) {request : NumberedCall}
    {reply : Reply J} {results : List (NumberedCall × Reply J)}
    (next : s.results = (request, reply) :: results) {held : Held}
    (stored : held.data = After (DataInput.step java json)
      ((reply.result json).bind fun jsonObject => change (request, jsonObject)).toList s.held.data) :
    Tracked java json before
      (past ++ .received request reply :: ((reply.result json).map (.onResult request)).toList)
      { s with results := results, held := held } := by
  have second := tracked.results
  rw [next] at second
  have ends : ∀ events : List (RequestEvent J), past ++ .received request reply :: events =
      past ++ ([.received request reply] ++ events) := fun _ => rfl
  have each : ∀ {α : Type} (part : List (RequestEvent J) → List α),
      (∀ jsonObject, part [.onResult request jsonObject] = []) → part [] = [] →
      part ((reply.result json).map (.onResult request)).toList = [] := by
    intro α part silent nothing
    cases reply.result json with
    | none => exact nothing
    | some jsonObject => exact silent jsonObject
  have started' := each started (fun _ => rfl) rfl
  have exchanges' := each exchanges (fun _ => rfl) rfl
  have replies' := each replies (fun _ => rfl) rfl
  have alive : (.died : RequestEvent J) ∈ past ++ ([.received request reply] ++
      ((reply.result json).map (.onResult request)).toList) ↔ .died ∈ past := by
    cases reply.result json <;> simp
  rw [ends]
  constructor
  · rw [started_append, started_append, exchanges_append, exchanges_append, started', exchanges']
    refine Passes.of_iff ?_ alive
    simpa [started, exchanges] using tracked.intents
  · rw [exchanges_append, exchanges_append, exchanges', replies_append, replies_append, replies']
    refine Passes.of_iff ?_ alive
    simpa [exchanges, replies] using second.take
  · rw [callbacks_append, callbacks_append, replies_append, replies_append, replies',
      List.filterMap_append, tracked.called]
    congr 1
    cases found : reply.result json with
    | none => simp [callbacks, replies, calledBack, found]
    | some jsonObject => simp [callbacks, replies, calledBack, found]
  · rw [dataInputs_append, dataInputs_append, after_append, ← tracked.data, stored]
    congr 1
    cases reply.result json with
    | none => rfl
    | some jsonObject => cases found : change (request, jsonObject) <;> simp [dataInputs, found]
  · rw [started_append, started_append, started']
    simpa [started] using tracked.apart
  · rw [started_append, started_append, started']
    simpa [started] using tracked.counted

/-- A message changes the data. -/
theorem Tracked.message (tracked : Tracked java json before past s) (message : Message) :
    Tracked java json before (past ++ [.message message])
      { s with held := (s.held.store json java (.messageReceived message)).1 } := by
  have started' : started (past ++ [.message message]) = started past :=
    (started_append past _).trans (List.append_nil _)
  have exchanges' : exchanges (past ++ [.message message]) = exchanges past :=
    (exchanges_append past _).trans (List.append_nil _)
  have replies' : replies (past ++ [.message message]) = replies past :=
    (replies_append past _).trans (List.append_nil _)
  have callbacks' : callbacks (past ++ [.message message]) = callbacks past :=
    (callbacks_append past _).trans (List.append_nil _)
  constructor
  · rw [started', exchanges']
    exact tracked.intents.of_iff (by simp)
  · rw [exchanges', replies']
    exact tracked.results.of_iff (by simp)
  · rw [callbacks', replies']
    exact tracked.called
  · rw [dataInputs_append, after_append, ← tracked.data]
    rfl
  · rw [started']
    exact tracked.apart
  · rw [started']
    exact tracked.counted

/-- The callbacks of the repository store what they change. -/
theorem onResult_data (jsonObject : Option J) (held : Held) (call : ServerCall) :
    (call.onResult json java decode jsonObject held).1.data =
      After (DataInput.step java json) (jsonObject.bind call.confirmed).toList held.data := by
  cases call with
  | fetchUserData | addLock | removeLock | addUser | removeUser => cases jsonObject <;> rfl
  | registerUserDevice | addLog | requestSessionKey | log => cases jsonObject <;> rfl

/-- **Every input keeps the invariant.** -/
theorem step_tracked (input : RequestInput J) (tracked : Tracked java json before past s) :
    Tracked java json before (past ++ (step java json decode input s).events)
      (step java json decode input s).state := by
  have quiet : ∀ {s' : ServerRequests J}, Tracked java json before past s' →
      Tracked java json before (past ++ (Turn.pure s' : Turn _ (RequestEvent J) Empty).events) s' := by
    intro s' kept
    rwa [Turn.pure, List.append_nil]
  cases input with
  | killed => exact tracked.died
  | messageReceived message => exact (tracked.message message).finish
  | call call signedIn =>
      rw [step]
      split
      · exact quiet (tracked.call call)
      · exact tracked.died
  | onComplete number successful =>
      rw [step]
      cases waits : s.tasks.lookup number with
      | none => exact quiet tracked
      | some call =>
          dsimp only
          split
          · exact tracked.onToken waits
          · exact quiet (tracked.onFailure number)
  | exchange exchange =>
      rw [step]
      cases next : s.intents with
      | nil => exact quiet tracked
      | cons request intents => exact tracked.exchange next exchange
  | onReceiveResult =>
      rw [step]
      cases next : s.results with
      | nil => exact quiet tracked
      | cons result results =>
          obtain ⟨request, reply⟩ := result
          dsimp only
          cases found : reply.result json with
          | none =>
              have received := tracked.received next
                (show s.held.data = After _ _ s.held.data by rw [found]; rfl)
              rwa [found] at received
          | some jsonObject =>
              have received := tracked.received next
                (show (request.2.onResult json java decode jsonObject s.held).1.data = After _ _ s.held.data by
                  rw [found]; exact onResult_data jsonObject s.held request.2)
              rw [found] at received
              exact received.finish

theorem run_tracked (held : Held) (inputs : List (RequestInput J)) :
    Tracked java json held.data (run (step java json decode) inputs (start held)).events
      (run (step java json decode) inputs (start held)).state := by
  induction inputs using List.reverseRecOn with
  | nil => exact tracked_start held
  | append_singleton inputs input ih =>
      rw [run_concat]
      exact step_tracked input ih

end Step

/-! ### The order of the server -/

section Order

variable (java : JavaText) (json : OrgJson J) (decode : String → Option (List UInt8))

/-- Without messages the callbacks alone change the data. -/
theorem dataInputs_eq {trace : List (RequestEvent J)} (quiet : ∀ message, .message message ∉ trace) :
    dataInputs trace = (callbacks trace).filterMap change := by
  rw [dataInputs, callbacks, List.filterMap_filterMap]
  refine List.filterMap_congr fun event member => ?_
  cases event with
  | message message => exact absurd member (quiet message)
  | _ => rfl

/-- The server is asked for each request at most once, in the order in which the tokens have come; the
callbacks come in the order in which the server was asked, and the data are what they and the messages
have made of them. As long as the process lives, and nothing waits for the main thread, every conclusive
exchange has been called back, and without messages the data are what the server has confirmed. -/
structure InServerOrder (before : LocalData) (trace : List (RequestEvent J)) (s : ServerRequests J) :
    Prop where
  once : ((exchanges trace).map fun exchanged => exchanged.1.1).Nodup
  asked : List.Sublist ((exchanges trace).map Prod.fst) (started trace)
  order : List.Sublist (callbacks trace) ((exchanges trace).filterMap (concluded json))
  data : s.held.data = After (DataInput.step java json) (dataInputs trace) before
  all : .died ∉ trace → s.results = [] →
    callbacks trace = (exchanges trace).filterMap (concluded json)
  follows : .died ∉ trace → s.results = [] → (∀ message, .message message ∉ trace) →
    s.held.data = After (DataInput.step java json)
      ((exchanges trace).filterMap fun exchanged => (concluded json exchanged).bind change) before

/-- **Requests take effect in the order of the server.** In every run, however the token tasks complete,
whatever the exchanges come to, and whenever messages arrive or the process dies. -/
theorem requests_in_server_order (held : Held) (inputs : List (RequestInput J)) :
    let turn := run (step java json decode) inputs (start held)
    InServerOrder java json held.data turn.events turn.state := by
  intro turn
  have tracked : Tracked java json held.data turn.events turn.state := run_tracked held inputs
  have same : (fun exchanged : NumberedCall × HttpExchange J => (sentOn exchanged).bind (calledBack json)) =
      concluded json := funext fun exchanged => (concluded_eq json exchanged).symm
  -- what is called back passes both queues
  have through : Passes (.died ∈ turn.events) ((exchanges turn.events).filterMap (concluded json))
      (callbacks turn.events) ([] ++ turn.state.results.filterMap (calledBack json)) := by
    have called : Passes (.died ∈ turn.events) ((replies turn.events).filterMap (calledBack json))
        (callbacks turn.events) [] := by
      rw [tracked.called]
      exact ⟨by rw [List.append_nil], fun _ => List.append_nil _⟩
    have both := tracked.results.through called
    rwa [List.filterMap_filterMap, same] at both
  have all : .died ∉ turn.events → turn.state.results = [] →
      callbacks turn.events = (exchanges turn.events).filterMap (concluded json) := by
    intro alive empty
    have whole := through.whole alive
    rwa [empty, List.filterMap_nil, List.append_nil, List.append_nil] at whole
  refine ⟨?_, tracked.intents.taken_sublist, through.taken_sublist, tracked.data, all, ?_⟩
  · have numbers := tracked.intents.taken_sublist.map Prod.fst
    rw [List.map_map] at numbers
    have apart := tracked.apart
    rw [List.map_append, List.nodup_append] at apart
    exact apart.1.sublist numbers
  · intro alive empty quiet
    rw [tracked.data, dataInputs_eq quiet, all alive empty, List.filterMap_filterMap]

end Order

end ServerRequests

end Esloq
