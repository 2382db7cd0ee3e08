import StudStuff.Lib.Transitions
import StudStuff.Network.SplitByLines

/-!
# Sending and receiving

`GrpcMessageSender` and `GrpcReceiverServiceImpl`, as a transition system over some channel. The
sender calls `SendData` for one message after another and does not look at what `Send` returns. The
receiver runs `SendData` in a thread of its own for each request that it is handed, and what these
threads print is mixed character by character: `std::cout` is synchronised with `stdio`, so no
character is lost, but a text is not printed at once.

The channel is not part of the repository. It is a parameter that says, after what has happened so
far, which request it may hand to the receiver and what a call of `SendData` may return, and all
that is assumed of it is `Channel.Faithful`: a request that it hands over is that of a call, and a
call returns the status `OK` only with what an execution of `SendData` for this call has answered.
It may try a call again, hand a request over late, while the sender is with a later message, or
never, and lose answers. The history of events, and which thread has printed a character, are not
data of the program.
-/

set_option autoImplicit false
set_option relaxedAutoImplicit false

namespace StudStuff.Network

open NetLog

/-! ### Requests and responses -/

/-- `TransferRequest`. -/
structure TransferRequest where
  sourceService : Text
  timestampUtc : Text
  payload : Text
  deriving DecidableEq, Repr

/-- `TransferResponse`. -/
structure TransferResponse where
  success : Bool
  message : Text
  deriving DecidableEq, Repr

/-- `grpc::Status`. -/
structure Status where
  errorCode : ℕ
  errorMessage : Text
  deriving DecidableEq, Repr

/-- `grpc::Status::OK`. -/
def Status.OK : Status := ⟨0, []⟩

def Status.ok (status : Status) : Bool := status.errorCode = 0

/-! ### The receiver -/

/-- What `ConsoleMessageHandler::Handle` prints. -/
def ConsoleMessageHandler.handle (message : LogMessage) : Text :=
  "\n=== Received Data ===\nSource: ".toList ++ message.sourceService ++
    "\nTimestamp: ".toList ++ message.timestampUtc ++ "\nPayload: ".toList ++ message.payload ++
      "\n=====================".toList ++ ['\n']

/-- `GrpcReceiverServiceImpl::SendData`: the message that it hands to its handler, and what it
answers. -/
def sendData (request : TransferRequest) : LogMessage × Status × TransferResponse :=
  (⟨request.sourceService, request.timestampUtc, request.payload⟩, .OK,
    ⟨true, "Data received successfully".toList⟩)

/-! ### The sender -/

/-- The request that `GrpcMessageSender::Send` makes. -/
def toRequest (message : LogMessage) : TransferRequest :=
  ⟨message.sourceService, message.timestampUtc, message.payload⟩

/-- What `GrpcMessageSender::HandleResponse` prints. -/
def handleResponse (status : Status) (response : TransferResponse) : Text :=
  if !status.ok then
    "gRPC error. Code=".toList ++ Nat.toDigits 10 status.errorCode ++
      " Message=".toList ++ status.errorMessage ++ ['\n']
  else if !response.success then
    "Receiver rejected message: ".toList ++ response.message ++ ['\n']
  else "Ok. ResponseMessage=".toList ++ response.message ++ ['\n']

/-- What `GrpcMessageSender::Send` returns. -/
def sendResult (status : Status) (response : TransferResponse) : Bool :=
  status.ok && response.success

/-! ### The channel -/

/-- What happens between the program and the channel. -/
inductive Event
  /-- `Send` calls `SendData`. -/
  | call (request : TransferRequest)
  /-- A thread of the receiver begins to run `SendData`, for the call at some index. -/
  | receive (index : ℕ) (request : TransferRequest)
  /-- The thread is through with `SendData`. -/
  | answer (handling : ℕ) (status : Status) (response : TransferResponse)
  /-- The call of `SendData` returns to `Send`. -/
  | complete (status : Status) (response : TransferResponse)
  deriving DecidableEq, Repr

/-- The requests of the calls. -/
def called (history : List Event) : List TransferRequest :=
  history.filterMap fun
    | .call request => some request
    | _ => none

/-- The indices of the calls for which threads of the receiver have begun to run `SendData`. -/
def received (history : List Event) : List ℕ :=
  history.filterMap fun
    | .receive index _ => some index
    | _ => none

/-- What the calls have returned. -/
def completed (history : List Event) : List (Status × TransferResponse) :=
  history.filterMap fun
    | .complete status response => some (status, response)
    | _ => none

/-- A channel: what it may do after some history. -/
structure Channel where
  /-- The channel may hand a request to the receiver, for the call at some index. -/
  delivers : List Event → ℕ → TransferRequest → Prop
  /-- The call that is under way may return. -/
  returns : List Event → Status → TransferResponse → Prop

/-- What `Send` and `SendData` rely on. -/
structure Channel.Faithful (channel : Channel) : Prop where
  /-- What is handed to the receiver is the request of a call. -/
  intact : ∀ {history : List Event} {index : ℕ} {request : TransferRequest},
    channel.delivers history index request → (called history)[index]? = some request
  /-- The status is `OK` only where the answer is that of the receiver to the last call. -/
  answered : ∀ {history : List Event} {status : Status} {response : TransferResponse},
    channel.returns history status response → status.ok = true →
      ∃ handling index, .answer handling status response ∈ history ∧
        (received history)[handling]? = some index ∧ index + 1 = (called history).length

/-! ### The sender and the receiver -/

/-- A run of `SendData` by a thread of the receiver. -/
structure Handling where
  index : ℕ
  request : TransferRequest
  /-- What the thread has still to print. -/
  rest : Text
  returned : Bool
  deriving DecidableEq, Repr

/-- The state of a transfer. The sender is in its loop at the index `results.length`. -/
structure Transfer where
  calling : Bool
  results : List Bool
  senderConsole : Text
  handlings : List Handling
  /-- The characters that the receiver has printed, each with the index of the thread. -/
  receiverConsole : List (ℕ × Char)
  history : List Event
  deriving DecidableEq, Repr

/-- The sender is before its loop. -/
def Transfer.start : Transfer where
  calling := false
  results := []
  senderConsole := []
  handlings := []
  receiverConsole := []
  history := []

/-- What is seen on the console of the receiver. -/
def Transfer.printed (s : Transfer) : Text := s.receiverConsole.map Prod.snd

/-- What the thread at some index has printed. -/
def printedBy (console : List (ℕ × Char)) (k : ℕ) : Text :=
  (console.filter (·.1 = k)).map Prod.snd

/-- `Send` calls `SendData`. -/
def Transfer.call (s : Transfer) (message : LogMessage) : Transfer :=
  { s with
    calling := true
    history := s.history ++ [.call (toRequest message)] }

/-- A thread of the receiver begins to run `SendData`. -/
def Transfer.receive (s : Transfer) (index : ℕ) (request : TransferRequest) : Transfer :=
  { s with
    handlings := s.handlings ++
      [⟨index, request, ConsoleMessageHandler.handle (sendData request).1, false⟩]
    history := s.history ++ [.receive index request] }

/-- A thread of the receiver prints the next character. -/
def Transfer.print (s : Transfer) (k : ℕ) (handling : Handling) (character : Char) (rest : Text) :
    Transfer :=
  { s with
    handlings := s.handlings.set k { handling with rest := rest }
    receiverConsole := s.receiverConsole ++ [(k, character)] }

/-- A thread of the receiver returns from `SendData`. -/
def Transfer.answer (s : Transfer) (k : ℕ) (handling : Handling) : Transfer :=
  { s with
    handlings := s.handlings.set k { handling with returned := true }
    history := s.history ++
      [.answer k (sendData handling.request).2.1 (sendData handling.request).2.2] }

/-- `SendData` returns to the sender, and so does `Send`. -/
def Transfer.complete (s : Transfer) (status : Status) (response : TransferResponse) : Transfer :=
  { s with
    calling := false
    results := s.results ++ [sendResult status response]
    senderConsole := s.senderConsole ++ handleResponse status response
    history := s.history ++ [.complete status response] }

/-- One step of the sender, of a thread of the receiver or of the channel. -/
inductive Step (channel : Channel) (messages : List LogMessage) : Transfer → Transfer → Prop
  /-- The sender calls `SendData` for its next message. -/
  | call {s : Transfer} (message : LogMessage) (hcalling : s.calling = false)
      (hmessage : messages[s.results.length]? = some message) :
      Step channel messages s (s.call message)
  | receive {s : Transfer} (index : ℕ) (request : TransferRequest)
      (hdelivers : channel.delivers s.history index request) :
      Step channel messages s (s.receive index request)
  | print {s : Transfer} (k : ℕ) (handling : Handling) (character : Char) (rest : Text)
      (hhandling : s.handlings[k]? = some handling) (hrest : handling.rest = character :: rest) :
      Step channel messages s (s.print k handling character rest)
  | answer {s : Transfer} (k : ℕ) (handling : Handling)
      (hhandling : s.handlings[k]? = some handling) (hrest : handling.rest = [])
      (hreturned : handling.returned = false) :
      Step channel messages s (s.answer k handling)
  | complete {s : Transfer} (status : Status) (response : TransferResponse)
      (hcalling : s.calling = true) (hreturns : channel.returns s.history status response) :
      Step channel messages s (s.complete status response)

/-- The states that a transfer reaches over a channel. -/
def Reachable (channel : Channel) (messages : List LogMessage) (s : Transfer) : Prop :=
  Relation.ReflTransGen (Step channel messages) .start s

/-! ### Runs that are played back -/

section Playback

variable {messages : List LogMessage} {history : List Event} {s s' : Transfer}

/-- The channel that does what was recorded. -/
def recorded (history : List Event) : Channel where
  delivers before index request := before ++ [.receive index request] <+: history
  returns before status response := before ++ [.complete status response] <+: history

/-- A faithful channel may do this after some events. -/
def Event.isSound (before : List Event) : Event → Bool
  | .receive index request => (called before)[index]? = some request
  | .complete status response => !status.ok || before.any fun
    | .answer handling status' response' => status' = status && response' = response &&
        (received before)[handling]?.any (· + 1 = (called before).length)
    | _ => false
  | _ => true

/-- Everything that was recorded may be done by a faithful channel. -/
def isSound (history : List Event) : Bool :=
  (List.range history.length).all fun n ↦ history[n]?.all (Event.isSound (history.take n))

theorem isSound_of_recorded (hsound : isSound history = true) {before : List Event} {event : Event}
    (hrecorded : before ++ [event] <+: history) : event.isSound before = true := by
  obtain ⟨after, rfl⟩ := hrecorded
  have hat := List.all_eq_true.mp hsound before.length (by simp)
  simpa using hat

theorem faithful_recorded (hsound : isSound history = true) : (recorded history).Faithful where
  intact hdelivers := of_decide_eq_true (isSound_of_recorded hsound hdelivers)
  answered {before status response} hreturns hok := by
    have hany := isSound_of_recorded hsound hreturns
    rw [Event.isSound, hok, Bool.not_true, Bool.false_or, List.any_eq_true] at hany
    obtain ⟨event, hmem, hanswer⟩ := hany
    cases event with
    | answer handling status' response' =>
      simp only [Bool.and_eq_true, decide_eq_true_eq, Option.any_eq_true] at hanswer
      obtain ⟨⟨rfl, rfl⟩, index, hindex, hlast⟩ := hanswer
      exact ⟨handling, index, hmem, hindex, hlast⟩
    | call _ => cases hanswer
    | receive _ _ => cases hanswer
    | complete _ _ => cases hanswer

/-- What happens next: an event, or a thread of the receiver prints. -/
def Transfer.act (messages : List LogMessage) (s : Transfer) : Event ⊕ ℕ → Option Transfer
  | .inl (.call request) => do
    let message ← messages[s.results.length]?
    if s.calling = false ∧ toRequest message = request then some (s.call message) else none
  | .inl (.receive index request) => some (s.receive index request)
  | .inl (.answer k status response) => do
    let handling ← s.handlings[k]?
    if handling.rest = [] ∧ handling.returned = false ∧
        (sendData handling.request).2 = (status, response) then some (s.answer k handling)
    else none
  | .inl (.complete status response) =>
    if s.calling then some (s.complete status response) else none
  | .inr k => do
    let handling ← s.handlings[k]?
    match handling.rest with
    | [] => none
    | character :: rest => some (s.print k handling character rest)

/-- The events of a schedule. -/
def events (schedule : List (Event ⊕ ℕ)) : List Event :=
  schedule.filterMap Sum.getLeft?

/-- What happens next is a step over the channel that has recorded it. -/
theorem Step.of_act {action : Event ⊕ ℕ} (hact : s.act messages action = some s') :
    s'.history = s.history ++ events [action] ∧
      (s'.history <+: history → Step (recorded history) messages s s') := by
  cases action with
  | inl event =>
    cases event with
    | call request =>
      obtain ⟨message, hmessage, hnext⟩ := Option.bind_eq_some_iff.mp hact
      split_ifs at hnext with hcall
      obtain ⟨hcalling, rfl⟩ := hcall
      obtain rfl := Option.some.inj hnext
      exact ⟨rfl, fun _ ↦ .call message hcalling hmessage⟩
    | receive index request =>
      obtain rfl := Option.some.inj hact
      exact ⟨rfl, fun hrecorded ↦ .receive index request hrecorded⟩
    | answer k status response =>
      obtain ⟨handling, hhandling, hnext⟩ := Option.bind_eq_some_iff.mp hact
      split_ifs at hnext with hanswer
      obtain ⟨hrest, hreturned, hdata⟩ := hanswer
      obtain rfl := Option.some.inj hnext
      refine ⟨?_, fun _ ↦ .answer k handling hhandling hrest hreturned⟩
      rw [Transfer.answer, hdata]
      rfl
    | complete status response =>
      rw [Transfer.act] at hact
      split_ifs at hact with hcalling
      obtain rfl := Option.some.inj hact
      exact ⟨rfl, fun hrecorded ↦ .complete status response hcalling hrecorded⟩
  | inr k =>
    obtain ⟨handling, hhandling, hnext⟩ := Option.bind_eq_some_iff.mp hact
    cases hrest : handling.rest with
    | nil =>
      rw [hrest] at hnext
      cases hnext
    | cons character rest =>
      rw [hrest] at hnext
      obtain rfl := Option.some.inj hnext
      exact ⟨(List.append_nil _).symm, fun _ ↦ .print k handling character rest hhandling hrest⟩

/-- Play a schedule, and test the state to which it leads. -/
def testAfter (messages : List LogMessage) (test : Transfer → Bool) :
    List (Event ⊕ ℕ) → Transfer → Bool
  | [], s => test s
  | action :: rest, s => (s.act messages action).any (testAfter messages test rest)

theorem Reachable.exists_of_testAfter {test : Transfer → Bool} {schedule : List (Event ⊕ ℕ)}
    (h : Reachable (recorded history) messages s)
    (hhistory : s.history ++ events schedule <+: history)
    (htest : testAfter messages test schedule s = true) :
    ∃ s', Reachable (recorded history) messages s' ∧ test s' = true := by
  induction schedule generalizing s with
  | nil => exact ⟨s, h, htest⟩
  | cons action rest ih =>
    obtain ⟨s', hact, htest'⟩ := Option.any_eq_true _ _ |>.mp htest
    obtain ⟨hafter, hstep⟩ := Step.of_act hact
    have hevents : s'.history ++ events rest <+: history := by
      rw [hafter, List.append_assoc, events, events, ← List.filterMap_append]
      exact hhistory
    have hrecorded := (List.prefix_append s'.history (events rest)).trans hevents
    exact ih (h.tail (hstep hrecorded)) hevents htest'

/-- A schedule that can be played leads to a state that is reached. -/
theorem exists_of_testAfter (messages : List LogMessage) (schedule : List (Event ⊕ ℕ))
    (test : Transfer → Bool) (htest : testAfter messages test schedule .start = true) :
    ∃ s, Reachable (recorded (events schedule)) messages s ∧ test s = true :=
  Reachable.exists_of_testAfter .refl (List.prefix_refl _) htest

end Playback

end StudStuff.Network
