import StudStuff.Network.Transfer

/-!
# What arrives

Over every faithful channel, the threads of the receiver handle only messages that the sender has
sent, each of them prints the text of its message in order, whatever the others print in between,
and a message that `Send` has reported as sent was handled before any later message arrived
(`transfer_safe`). `Send` reports a message exactly where the status is `OK`, and never prints that
the receiver has rejected it (`sender_reports`). When every message was reported and handled at most
once, the messages are printed once and in order (`printed_of_sent`).
-/

set_option autoImplicit false
set_option relaxedAutoImplicit false

namespace StudStuff.Network

open Lib NetLog

variable {channel : Channel} {messages : List LogMessage} {s s' : Transfer}

/-! ### What a step adds -/

section Extends

theorem called_append (first second : List Event) :
    called (first ++ second) = called first ++ called second :=
  List.filterMap_append

theorem received_append (first second : List Event) :
    received (first ++ second) = received first ++ received second :=
  List.filterMap_append

theorem completed_append (first second : List Event) :
    completed (first ++ second) = completed first ++ completed second :=
  List.filterMap_append

theorem printedBy_append (console : List (ℕ × Char)) (k : ℕ) (character : Char) (k' : ℕ) :
    printedBy (console ++ [(k, character)]) k' =
      printedBy console k' ++ if k = k' then [character] else [] := by
  rw [printedBy, printedBy, List.filter_append, List.map_append]
  by_cases h : k = k'
  · simp [h]
  · simp [h]

/-- A state that comes after another one: nothing of what has happened is undone. -/
structure Extends (s s' : Transfer) : Prop where
  history : s.history <+: s'.history
  results : s.results <+: s'.results
  console : s.receiverConsole <+: s'.receiverConsole
  handlings : ∀ (k : ℕ) (handling : Handling), s.handlings[k]? = some handling →
    ∃ handling' : Handling, s'.handlings[k]? = some handling' ∧ handling'.index = handling.index ∧
      handling'.request = handling.request ∧
        (handling.returned = true → handling'.returned = true)

/-- A thread of the receiver goes on. -/
theorem getElem?_set_iff {k k' : ℕ} {handling updated other : Handling}
    (hhandling : s.handlings[k]? = some handling) :
    (s.handlings.set k updated)[k']? = some other ↔
      k' = k ∧ other = updated ∨ k' ≠ k ∧ s.handlings[k']? = some other := by
  obtain ⟨hk, -⟩ := List.getElem?_eq_some_iff.mp hhandling
  rcases eq_or_ne k' k with rfl | hne
  · simp [List.getElem?_set_self hk, eq_comm]
  · simp [List.getElem?_set_ne hne.symm, hne]

theorem map_index_set {k : ℕ} {handling : Handling} (updated : Handling)
    (hhandling : s.handlings[k]? = some handling) (hindex : updated.index = handling.index) :
    (s.handlings.set k updated).map Handling.index = s.handlings.map Handling.index := by
  obtain ⟨hk, rfl⟩ := List.getElem?_eq_some_iff.mp hhandling
  have hk' : k < (s.handlings.map Handling.index).length := by rwa [List.length_map]
  rw [List.map_set, hindex, ← List.getElem_map Handling.index (h := hk')]
  exact List.set_getElem_self _

theorem Extends.of_set {k : ℕ} {handling updated : Handling}
    (hhandling : s.handlings[k]? = some handling) (hhistory : s.history <+: s'.history)
    (hresults : s'.results = s.results) (hconsole : s.receiverConsole <+: s'.receiverConsole)
    (hhandlings : s'.handlings = s.handlings.set k updated)
    (hindex : updated.index = handling.index) (hrequest : updated.request = handling.request)
    (hreturned : handling.returned = true → updated.returned = true) : Extends s s' := by
  refine ⟨hhistory, by rw [hresults], hconsole, fun k' other hother ↦ ?_⟩
  rw [hhandlings]
  rcases eq_or_ne k' k with rfl | hne
  · obtain rfl := Option.some.inj (hhandling.symm.trans hother)
    exact ⟨updated, (getElem?_set_iff hhandling).mpr (.inl ⟨rfl, rfl⟩), hindex, hrequest, hreturned⟩
  · exact ⟨other, (getElem?_set_iff hhandling).mpr (.inr ⟨hne, hother⟩), rfl, rfl, id⟩

theorem Step.extends (hstep : Step channel messages s s') : Extends s s' := by
  cases hstep with
  | call message _ _ =>
    exact ⟨List.prefix_append _ _, List.prefix_refl _, List.prefix_refl _, fun _ handling h ↦
      ⟨handling, h, rfl, rfl, id⟩⟩
  | receive index request _ =>
    refine ⟨List.prefix_append _ _, List.prefix_refl _, List.prefix_refl _, fun k handling h ↦
      ⟨handling, ?_, rfl, rfl, id⟩⟩
    exact (List.getElem?_append_left (List.getElem?_eq_some_iff.mp h).1).trans h
  | print k handling character rest hhandling _ =>
    exact .of_set hhandling (List.prefix_refl _) rfl (List.prefix_append _ _) rfl rfl rfl id
  | answer k handling hhandling _ _ =>
    exact .of_set hhandling (List.prefix_append _ _) rfl (List.prefix_refl _) rfl rfl rfl
      fun _ ↦ rfl
  | complete status response _ _ =>
    exact ⟨List.prefix_append _ _, List.prefix_append _ _, List.prefix_refl _, fun _ handling h ↦
      ⟨handling, h, rfl, rfl, id⟩⟩

end Extends

/-! ### The invariant -/

section Invariant

/-- The message at some index is on the console, before every character of a later message. -/
def Transfer.Settled (s : Transfer) (messages : List LogMessage) (i : ℕ) : Prop :=
  ∃ (k : ℕ) (handling : Handling) (message : LogMessage) (first second : List (ℕ × Char)),
    s.handlings[k]? = some handling ∧ handling.index = i ∧ messages[i]? = some message ∧
      s.receiverConsole = first ++ second ∧
        printedBy first k = ConsoleMessageHandler.handle message ∧
          ∀ entry ∈ first, ∃ other : Handling, s.handlings[entry.1]? = some other ∧ other.index ≤ i

theorem Transfer.Settled.of_extends {i : ℕ} (h : s.Settled messages i) (hextends : Extends s s') :
    s'.Settled messages i := by
  obtain ⟨k, handling, message, first, second, hhandling, rfl, hmessage, hconsole, hprinted,
    hfirst⟩ := h
  obtain ⟨handling', hhandling', hindex, -, -⟩ := hextends.handlings k handling hhandling
  obtain ⟨later, hlater⟩ := hextends.console
  refine ⟨k, handling', message, first, second ++ later, hhandling', hindex, hmessage, ?_, hprinted,
    fun entry hmem ↦ ?_⟩
  · rw [← hlater, hconsole, List.append_assoc]
  · obtain ⟨other, hother, hle⟩ := hfirst entry hmem
    obtain ⟨other', hother', hsame, -, -⟩ := hextends.handlings entry.1 other hother
    exact ⟨other', hother', by rw [hsame]; exact hle⟩

/-- The answers that have been given are those of threads that are through. -/
def Transfer.Answered (s : Transfer) (k : ℕ) (status : Status) (response : TransferResponse) :
    Prop :=
  ∃ handling : Handling, s.handlings[k]? = some handling ∧ handling.returned = true ∧
    (sendData handling.request).2 = (status, response)

theorem Transfer.Answered.of_extends {k : ℕ} {status : Status} {response : TransferResponse}
    (h : s.Answered k status response) (hextends : Extends s s') :
    s'.Answered k status response := by
  obtain ⟨handling, hhandling, hreturned, hanswer⟩ := h
  obtain ⟨handling', hhandling', -, hrequest, hreturned'⟩ :=
    hextends.handlings k handling hhandling
  exact ⟨handling', hhandling', hreturned' hreturned, by rw [hrequest, hanswer]⟩

/-- The calls that the sender has made. -/
def Transfer.calls (s : Transfer) : ℕ := s.results.length + s.calling.toNat

/-- `Send` has returned and printed what the calls have returned. -/
structure Reported (s : Transfer) : Prop where
  results : s.results = (completed s.history).map fun (status, response) ↦
    sendResult status response
  console : s.senderConsole = (completed s.history).flatMap fun (status, response) ↦
    handleResponse status response
  accepted : ∀ status response, (status, response) ∈ completed s.history → status.ok = true →
    ∃ request, (sendData request).2 = (status, response)

theorem Reported.congr (h : Reported s) (hcompleted : completed s'.history = completed s.history)
    (hresults : s'.results = s.results) (hconsole : s'.senderConsole = s.senderConsole) :
    Reported s' where
  results := by rw [hresults, hcompleted, ← h.results]
  console := by rw [hconsole, hcompleted, ← h.console]
  accepted := by
    rw [hcompleted]
    exact h.accepted

structure Invariant (messages : List LogMessage) (s : Transfer) : Prop where
  calls : s.calls ≤ messages.length
  requests : called s.history = (messages.take s.calls).map toRequest
  reported : Reported s
  arrivals : received s.history = s.handlings.map Handling.index
  sent : ∀ handling ∈ s.handlings, (called s.history)[handling.index]? = some handling.request
  prints : ∀ (k : ℕ) (handling : Handling), s.handlings[k]? = some handling →
    printedBy s.receiverConsole k ++ handling.rest =
      ConsoleMessageHandler.handle (sendData handling.request).1
  threads : ∀ entry ∈ s.receiverConsole, entry.1 < s.handlings.length
  returned : ∀ handling ∈ s.handlings, handling.returned = true → handling.rest = []
  answered : ∀ k status response, .answer k status response ∈ s.history →
    s.Answered k status response
  settled : ∀ i, s.results[i]? = some true → s.Settled messages i

theorem invariant_start : Invariant messages .start := by
  refine ⟨Nat.zero_le _, rfl, ⟨rfl, rfl, fun _ _ h ↦ ?_⟩, rfl, fun _ h ↦ ?_, fun _ _ h ↦ ?_,
    fun _ h ↦ ?_, fun _ h ↦ ?_, fun _ _ _ h ↦ ?_, fun _ h ↦ ?_⟩
  all_goals cases h

/-- A message is handled only after a call. -/
theorem Invariant.message (h : Invariant messages s) {handling : Handling}
    (hmem : handling ∈ s.handlings) : handling.index < s.calls ∧ ∃ message,
      messages[handling.index]? = some message ∧ handling.request = toRequest message := by
  have hsent := h.sent handling hmem
  rw [h.requests, List.getElem?_map, Option.map_eq_some_iff] at hsent
  obtain ⟨message, hmessage, hrequest⟩ := hsent
  obtain ⟨hlt, -⟩ := List.getElem?_eq_some_iff.mp hmessage
  rw [List.length_take] at hlt
  rw [List.getElem?_take_of_lt (by omega)] at hmessage
  exact ⟨by omega, message, hmessage, hrequest.symm⟩

theorem Invariant.length_called (h : Invariant messages s) :
    (called s.history).length = s.calls := by
  rw [h.requests, List.length_map, List.length_take, Nat.min_eq_left h.calls]

/-- The sender calls `SendData` for its next message. -/
theorem Invariant.call (h : Invariant messages s) {message : LogMessage}
    (hcalling : s.calling = false) (hmessage : messages[s.results.length]? = some message)
    (hextends : Extends s (s.call message)) : Invariant messages (s.call message) := by
  have hcalls : s.calls = s.results.length := by rw [Transfer.calls, hcalling]; rfl
  have hnext : (s.call message).calls = s.results.length + 1 := rfl
  have hcalled : called (s.call message).history = called s.history ++ [toRequest message] :=
    called_append _ _
  have hreceived : received (s.call message).history = received s.history :=
    (received_append _ _).trans (List.append_nil _)
  have hcompleted : completed (s.call message).history = completed s.history :=
    (completed_append _ _).trans (List.append_nil _)
  obtain ⟨hlt, hget⟩ := List.getElem?_eq_some_iff.mp hmessage
  refine ⟨?_, ?_, h.reported.congr hcompleted rfl rfl, ?_, fun handling hmem ↦ ?_, h.prints,
    h.threads, h.returned, fun k status response hmem ↦ ?_,
    fun i hi ↦ (h.settled i hi).of_extends hextends⟩
  · rw [hnext]
    exact hlt
  · rw [hcalled, h.requests, hcalls, hnext, List.take_succ_eq_append_getElem hlt, hget,
      List.map_append]
    rfl
  · rw [hreceived]
    exact h.arrivals
  · have hsent := h.sent handling hmem
    rw [hcalled, List.getElem?_append_left (List.getElem?_eq_some_iff.mp hsent).1, hsent]
  · rcases List.mem_append.mp hmem with hold | hnew
    · exact (h.answered k status response hold).of_extends hextends
    · cases List.mem_singleton.mp hnew

/-- The channel hands a request to the receiver. -/
theorem Invariant.receive (h : Invariant messages s) {index : ℕ} {request : TransferRequest}
    (hrequest : (called s.history)[index]? = some request)
    (hextends : Extends s (s.receive index request)) :
    Invariant messages (s.receive index request) := by
  have hcalled : called (s.receive index request).history = called s.history :=
    (called_append _ _).trans (List.append_nil _)
  have hreceived : received (s.receive index request).history = received s.history ++ [index] :=
    received_append _ _
  have hcompleted : completed (s.receive index request).history = completed s.history :=
    (completed_append _ _).trans (List.append_nil _)
  refine ⟨h.calls, ?_, h.reported.congr hcompleted rfl rfl, ?_, fun handling hmem ↦ ?_,
    fun k handling hhandling ↦ ?_, fun entry hmem ↦ ?_, fun handling hmem hreturned ↦ ?_,
    fun k status response hmem ↦ ?_, fun i hi ↦ (h.settled i hi).of_extends hextends⟩
  · rw [hcalled]
    exact h.requests
  · rw [hreceived, h.arrivals, Transfer.receive, List.map_append]
    rfl
  · rw [hcalled]
    rcases List.mem_append.mp hmem with hold | hnew
    · exact h.sent handling hold
    · rw [List.mem_singleton.mp hnew]
      exact hrequest
  · rw [Transfer.receive, List.getElem?_append] at hhandling
    split_ifs at hhandling with hk
    · exact h.prints k handling hhandling
    · -- Nothing was printed by the thread that begins now.
      obtain rfl := List.mem_singleton.mp (List.mem_of_getElem? hhandling)
      have hnone : printedBy (s.receive index request).receiverConsole k = [] := by
        rw [printedBy, List.map_eq_nil_iff, List.filter_eq_nil_iff]
        intro entry hmem heq
        have hlt := h.threads entry hmem
        exact hk (of_decide_eq_true heq ▸ hlt)
      rw [hnone, List.nil_append]
  · rw [Transfer.receive, List.length_append]
    exact Nat.lt_add_right _ (h.threads entry hmem)
  · rcases List.mem_append.mp hmem with hold | hnew
    · exact h.returned handling hold hreturned
    · rw [List.mem_singleton.mp hnew] at hreturned
      cases hreturned
  · rcases List.mem_append.mp hmem with hold | hnew
    · exact (h.answered k status response hold).of_extends hextends
    · cases List.mem_singleton.mp hnew

/-- A thread prints the next character. -/
theorem Invariant.print (h : Invariant messages s) {k : ℕ} {handling : Handling}
    {character : Char} {rest : Text} (hhandling : s.handlings[k]? = some handling)
    (hrest : handling.rest = character :: rest)
    (hextends : Extends s (s.print k handling character rest)) :
    Invariant messages (s.print k handling character rest) := by
  have hmem := List.mem_of_getElem? hhandling
  refine ⟨h.calls, h.requests, h.reported.congr rfl rfl rfl, ?_, fun other hother ↦ ?_,
    fun k' other hother ↦ ?_, fun entry hentry ↦ ?_, fun other hother hreturned ↦ ?_,
    fun k status response hanswer ↦ (h.answered k status response hanswer).of_extends hextends,
    fun i hi ↦ (h.settled i hi).of_extends hextends⟩
  · exact h.arrivals.trans (map_index_set { handling with rest := rest } hhandling rfl).symm
  · rcases List.mem_or_eq_of_mem_set hother with hold | rfl
    · exact h.sent other hold
    · exact h.sent handling hmem
  · rw [Transfer.print, printedBy_append]
    rcases (getElem?_set_iff hhandling).mp hother with ⟨rfl, rfl⟩ | ⟨hne, hold⟩
    · rw [if_pos rfl, List.append_assoc, List.singleton_append, ← hrest]
      exact h.prints k' handling hhandling
    · rw [if_neg hne.symm, List.append_nil]
      exact h.prints k' other hold
  · rw [Transfer.print, List.length_set]
    rcases List.mem_append.mp hentry with hold | hnew
    · exact h.threads entry hold
    · rw [List.mem_singleton.mp hnew]
      exact (List.getElem?_eq_some_iff.mp hhandling).1
  · rcases List.mem_or_eq_of_mem_set hother with hold | rfl
    · exact h.returned other hold hreturned
    · rw [h.returned handling hmem hreturned] at hrest
      cases hrest

/-- A thread returns from `SendData`. -/
theorem Invariant.answer (h : Invariant messages s) {k : ℕ} {handling : Handling}
    (hhandling : s.handlings[k]? = some handling) (hrest : handling.rest = [])
    (hextends : Extends s (s.answer k handling)) : Invariant messages (s.answer k handling) := by
  have hmem := List.mem_of_getElem? hhandling
  have hcalled : called (s.answer k handling).history = called s.history :=
    (called_append _ _).trans (List.append_nil _)
  have hreceived : received (s.answer k handling).history = received s.history :=
    (received_append _ _).trans (List.append_nil _)
  have hcompleted : completed (s.answer k handling).history = completed s.history :=
    (completed_append _ _).trans (List.append_nil _)
  refine ⟨h.calls, ?_, h.reported.congr hcompleted rfl rfl, ?_, fun other hother ↦ ?_,
    fun k' other hother ↦ ?_, fun entry hentry ↦ ?_, fun other hother hreturned ↦ ?_,
    fun k' status response hanswer ↦ ?_, fun i hi ↦ (h.settled i hi).of_extends hextends⟩
  · rw [hcalled]
    exact h.requests
  · rw [hreceived]
    exact h.arrivals.trans (map_index_set { handling with returned := true } hhandling rfl).symm
  · rw [hcalled]
    rcases List.mem_or_eq_of_mem_set hother with hold | rfl
    · exact h.sent other hold
    · exact h.sent handling hmem
  · rcases (getElem?_set_iff hhandling).mp hother with ⟨rfl, rfl⟩ | ⟨-, hold⟩
    · exact h.prints k' handling hhandling
    · exact h.prints k' other hold
  · rw [Transfer.answer, List.length_set]
    exact h.threads entry hentry
  · rcases List.mem_or_eq_of_mem_set hother with hold | rfl
    · exact h.returned other hold hreturned
    · exact hrest
  · rcases List.mem_append.mp hanswer with hold | hnew
    · exact (h.answered k' status response hold).of_extends hextends
    · obtain ⟨rfl, rfl, rfl⟩ := Event.answer.inj (List.mem_singleton.mp hnew)
      exact ⟨{ handling with returned := true },
        (getElem?_set_iff hhandling).mpr (.inl ⟨rfl, rfl⟩), rfl, rfl⟩

/-- The last call has returned `OK`: its message was handled, and no later one has arrived. -/
theorem Invariant.settled_of_returns (h : Invariant messages s) (hchannel : channel.Faithful)
    (hcalling : s.calling = true) {status : Status} {response : TransferResponse}
    (hreturns : channel.returns s.history status response) (hok : status.ok = true) :
    s.Settled messages s.results.length ∧ ∃ handling ∈ s.handlings,
      handling.index = s.results.length ∧ handling.returned = true ∧
        (sendData handling.request).2 = (status, response) := by
  obtain ⟨k, index, hanswer, hindex, hlast⟩ := hchannel.answered hreturns hok
  obtain ⟨handling, hhandling, hreturned, hdata⟩ := h.answered k status response hanswer
  have hmem := List.mem_of_getElem? hhandling
  have hcalls : s.calls = s.results.length + 1 := by rw [Transfer.calls, hcalling]; rfl
  rw [h.length_called, hcalls] at hlast
  rw [h.arrivals, List.getElem?_map, hhandling] at hindex
  have hcurrent : handling.index = s.results.length :=
    (Option.some.inj hindex).trans (Nat.succ.inj hlast)
  obtain ⟨-, message, hmessage, hrequest⟩ := h.message hmem
  refine ⟨⟨k, handling, message, s.receiverConsole, [], hhandling, hcurrent, hcurrent ▸ hmessage,
    (List.append_nil _).symm, ?_, fun entry hentry ↦ ?_⟩, handling, hmem, hcurrent, hreturned,
    hdata⟩
  · have hprints := h.prints k handling hhandling
    rw [h.returned handling hmem hreturned, List.append_nil, hrequest] at hprints
    exact hprints
  · have hother := List.getElem?_eq_getElem (h.threads entry hentry)
    have hlt := (h.message (List.mem_of_getElem? hother)).1
    exact ⟨_, hother, by omega⟩

/-- A call of `Send` ends. -/
theorem Invariant.complete (h : Invariant messages s) (hchannel : channel.Faithful)
    (hcalling : s.calling = true) {status : Status} {response : TransferResponse}
    (hreturns : channel.returns s.history status response)
    (hextends : Extends s (s.complete status response)) :
    Invariant messages (s.complete status response) := by
  have hsettled := h.settled_of_returns hchannel hcalling hreturns
  have hcalled : called (s.complete status response).history = called s.history :=
    (called_append _ _).trans (List.append_nil _)
  have hreceived : received (s.complete status response).history = received s.history :=
    (received_append _ _).trans (List.append_nil _)
  have hcompleted : completed (s.complete status response).history =
      completed s.history ++ [(status, response)] := completed_append _ _
  have hcalls : (s.complete status response).calls = s.calls := by
    rw [Transfer.calls, Transfer.calls, hcalling, Transfer.complete, List.length_append]
    rfl
  refine ⟨?_, ?_, ⟨?_, ?_, fun status' response' hmem hok ↦ ?_⟩, ?_, ?_, h.prints, h.threads,
    h.returned, fun k status' response' hanswer ↦ ?_, fun i hi ↦ ?_⟩
  · rw [hcalls]
    exact h.calls
  · rw [hcalled, hcalls]
    exact h.requests
  · rw [hcompleted, List.map_append, ← h.reported.results]
    rfl
  · rw [hcompleted, List.flatMap_append, ← h.reported.console, List.flatMap_singleton]
    rfl
  · rw [hcompleted] at hmem
    rcases List.mem_append.mp hmem with hold | hnew
    · exact h.reported.accepted status' response' hold hok
    · obtain ⟨rfl, rfl⟩ := Prod.mk.inj (List.mem_singleton.mp hnew)
      obtain ⟨handling, -, -, -, hdata⟩ := (hsettled hok).2
      exact ⟨handling.request, hdata⟩
  · rw [hreceived]
    exact h.arrivals
  · rw [hcalled]
    exact h.sent
  · rcases List.mem_append.mp hanswer with hold | hnew
    · exact (h.answered k status' response' hold).of_extends hextends
    · cases List.mem_singleton.mp hnew
  · rw [Transfer.complete, List.getElem?_append] at hi
    split_ifs at hi with hlt
    · exact (h.settled i hi).of_extends hextends
    · have hresult := List.mem_singleton.mp (List.mem_of_getElem? hi)
      obtain ⟨hzero, -⟩ := List.getElem?_eq_some_iff.mp hi
      rw [List.length_singleton] at hzero
      have hi' : i = s.results.length := by omega
      rw [hi']
      exact (hsettled (Bool.and_eq_true_iff.mp hresult.symm).1).1.of_extends hextends

theorem Invariant.step (h : Invariant messages s) (hchannel : channel.Faithful)
    (hstep : Step channel messages s s') : Invariant messages s' := by
  have hextends := hstep.extends
  cases hstep with
  | call message hcalling hmessage => exact h.call hcalling hmessage hextends
  | receive index request hdelivers => exact h.receive (hchannel.intact hdelivers) hextends
  | print k handling character rest hhandling hrest => exact h.print hhandling hrest hextends
  | answer k handling hhandling hrest _ => exact h.answer hhandling hrest hextends
  | complete status response hcalling hreturns =>
    exact h.complete hchannel hcalling hreturns hextends

theorem invariant_of_reachable (hchannel : channel.Faithful) (h : Reachable channel messages s) :
    Invariant messages s :=
  holds_of_reaches invariant_start (fun _ _ _ hinvariant ↦ hinvariant.step hchannel) h

end Invariant

/-! ### A transfer in which nothing goes wrong -/

section Orderly

/-- How far a transfer is when every message so far was reported and handled at most once. -/
inductive Orderly (messages : List LogMessage) (s : Transfer) : Prop
  /-- No thread is under way. -/
  | between (hindices : s.handlings.map Handling.index = List.range s.results.length)
      (hreturned : ∀ handling ∈ s.handlings, handling.returned = true)
      (hprinted : s.printed =
        (messages.take s.results.length).flatMap ConsoleMessageHandler.handle)
  /-- A thread handles the message of the call. -/
  | handling (before : List Handling) (handling : Handling) (hcalling : s.calling = true)
      (hhandlings : s.handlings = before ++ [handling])
      (hindices : s.handlings.map Handling.index = List.range (s.results.length + 1))
      (hreturned : ∀ other ∈ before, other.returned = true)
      (hprinted : s.printed ++ handling.rest =
        (messages.take (s.results.length + 1)).flatMap ConsoleMessageHandler.handle)

/-- The only thread that is under way is the last one. -/
theorem Orderly.of_running (h : Orderly messages s) {k : ℕ} {handling : Handling}
    (hhandling : s.handlings[k]? = some handling) (hrunning : handling.returned = false) :
    ∃ before, s.handlings = before ++ [handling] ∧ k = before.length ∧ s.calling = true ∧
      s.handlings.map Handling.index = List.range (s.results.length + 1) ∧
      (∀ other ∈ before, other.returned = true) ∧ s.printed ++ handling.rest =
        (messages.take (s.results.length + 1)).flatMap ConsoleMessageHandler.handle := by
  cases h with
  | between _ hreturned _ =>
    rw [hreturned handling (List.mem_of_getElem? hhandling)] at hrunning
    cases hrunning
  | handling before last hcalling hhandlings hindices hreturned hprinted =>
    rw [hhandlings, List.getElem?_append] at hhandling
    split_ifs at hhandling with hk
    · rw [hreturned handling (List.mem_of_getElem? hhandling)] at hrunning
      cases hrunning
    · obtain ⟨hzero, hget⟩ := List.getElem?_eq_some_iff.mp hhandling
      rw [List.length_singleton] at hzero
      obtain rfl := List.mem_singleton.mp (List.mem_of_getElem? hhandling)
      exact ⟨before, hhandlings, by omega, hcalling, hindices, hreturned, hprinted⟩

theorem Orderly.call (h : Orderly messages s) (message : LogMessage)
    (hcalling : s.calling = false) : Orderly messages (s.call message) := by
  cases h with
  | between hindices hreturned hprinted => exact .between hindices hreturned hprinted
  | handling _ _ hother => cases hcalling.symm.trans hother

theorem Orderly.receive (h : Orderly messages s) (hinvariant : Invariant messages s) {index : ℕ}
    {request : TransferRequest} (hrequest : (called s.history)[index]? = some request)
    (honce : index ∉ s.handlings.map Handling.index) :
    Orderly messages (s.receive index request) := by
  obtain ⟨hlt, -⟩ := List.getElem?_eq_some_iff.mp hrequest
  rw [hinvariant.length_called] at hlt
  cases h with
  | between hindices hreturned hprinted =>
    rw [hindices, List.mem_range, not_lt] at honce
    have hcalling : s.calling = true := by
      by_contra hnot
      rw [Transfer.calls, Bool.eq_false_of_not_eq_true hnot] at hlt
      exact absurd hlt (Nat.not_lt_of_le honce)
    have hcalls : s.calls = s.results.length + 1 := by rw [Transfer.calls, hcalling]; rfl
    obtain rfl : index = s.results.length := by omega
    rw [hinvariant.requests, hcalls, List.getElem?_map, Option.map_eq_some_iff] at hrequest
    obtain ⟨message, hmessage, rfl⟩ := hrequest
    rw [List.getElem?_take_of_lt (Nat.lt_succ_self _)] at hmessage
    obtain ⟨hlength, hget⟩ := List.getElem?_eq_some_iff.mp hmessage
    refine .handling s.handlings _ hcalling rfl ?_ hreturned ?_
    · rw [Transfer.receive, List.map_append, hindices, List.range_succ]
      rfl
    · rw [show (s.receive s.results.length (toRequest message)).printed = s.printed from rfl,
        show (s.receive s.results.length (toRequest message)).results = s.results from rfl,
        List.take_succ_eq_append_getElem hlength, hget, List.flatMap_append, ← hprinted,
        List.flatMap_singleton]
      rfl
  | handling _ _ hcalling _ hindices =>
    have hcalls : s.calls = s.results.length + 1 := by rw [Transfer.calls, hcalling]; rfl
    rw [hindices, List.mem_range] at honce
    omega

theorem Orderly.print (h : Orderly messages s) (hinvariant : Invariant messages s) {k : ℕ}
    {handling : Handling} {character : Char} {rest : Text}
    (hhandling : s.handlings[k]? = some handling) (hrest : handling.rest = character :: rest) :
    Orderly messages (s.print k handling character rest) := by
  have hrunning : handling.returned = false := by
    by_contra hnot
    have hnil := hinvariant.returned handling (List.mem_of_getElem? hhandling)
      (Bool.eq_true_of_not_eq_false hnot)
    rw [hrest] at hnil
    cases hnil
  obtain ⟨before, hhandlings, rfl, hcalling, hindices, hreturned, hprinted⟩ :=
    h.of_running hhandling hrunning
  refine .handling before { handling with rest := rest } hcalling ?_ ?_ hreturned ?_
  · rw [Transfer.print, hhandlings, List.set_append_right _ _ (Nat.le_refl _), Nat.sub_self]
    rfl
  · exact (map_index_set { handling with rest := rest } hhandling rfl).trans hindices
  · rw [hrest] at hprinted
    rw [Transfer.printed, Transfer.print, List.map_append, List.append_assoc]
    exact hprinted

theorem Orderly.answer (h : Orderly messages s) {k : ℕ} {handling : Handling}
    (hhandling : s.handlings[k]? = some handling) (hrunning : handling.returned = false) :
    Orderly messages (s.answer k handling) := by
  obtain ⟨before, hhandlings, rfl, hcalling, hindices, hreturned, hprinted⟩ :=
    h.of_running hhandling hrunning
  refine .handling before { handling with returned := true } hcalling ?_ ?_ hreturned hprinted
  · rw [Transfer.answer, hhandlings, List.set_append_right _ _ (Nat.le_refl _), Nat.sub_self]
    rfl
  · exact (map_index_set { handling with returned := true } hhandling rfl).trans hindices

/-- `Send` has reported its message: the thread that handles it is through. -/
theorem Orderly.complete (h : Orderly messages s) (hinvariant : Invariant messages s)
    (status : Status) (response : TransferResponse)
    (hhandled : ∃ handling ∈ s.handlings, handling.index = s.results.length ∧
      handling.returned = true) : Orderly messages (s.complete status response) := by
  obtain ⟨handling, hmem, hindex, hthrough⟩ := hhandled
  have hlength : (s.complete status response).results.length = s.results.length + 1 :=
    List.length_append
  cases h with
  | between hindices _ _ =>
    have hrange := List.mem_map_of_mem (f := Handling.index) hmem
    rw [hindices, hindex] at hrange
    exact absurd (List.mem_range.mp hrange) (lt_irrefl _)
  | handling before last _ hhandlings hindices hreturned hprinted =>
    have hlast : handling = last := by
      rw [hhandlings] at hmem
      rcases List.mem_append.mp hmem with hbefore | hlast
      · -- The threads before the last one handle the messages before.
        rw [hhandlings, List.map_append, List.range_succ] at hindices
        have hrange := List.mem_map_of_mem (f := Handling.index) hbefore
        rw [(List.append_inj' hindices rfl).1, hindex] at hrange
        exact absurd (List.mem_range.mp hrange) (lt_irrefl _)
      · exact List.mem_singleton.mp hlast
    have hall : ∀ other ∈ s.handlings, other.returned = true := by
      intro other hother
      rw [hhandlings] at hother
      rcases List.mem_append.mp hother with hbefore | hend
      · exact hreturned other hbefore
      · rw [List.mem_singleton.mp hend, ← hlast]
        exact hthrough
    refine .between ?_ hall ?_
    · rw [hlength]
      exact hindices
    · rw [← hlast, hinvariant.returned handling hmem hthrough, List.append_nil] at hprinted
      rw [hlength]
      exact hprinted

/-- Every message so far was reported and handled at most once. -/
def Transfer.Undisturbed (s : Transfer) : Prop :=
  (∀ result ∈ s.results, result = true) ∧ (s.handlings.map Handling.index).Nodup

theorem orderly_of_reachable (hchannel : channel.Faithful) (h : Reachable channel messages s) :
    s.Undisturbed → Orderly messages s := by
  induction h with
  | refl => exact fun _ ↦ .between rfl (fun _ hmem ↦ absurd hmem List.not_mem_nil) rfl
  | @tail s s' hreach hstep ih =>
    rintro ⟨hresults, honce⟩
    have hinvariant := invariant_of_reachable hchannel hreach
    have hafter := hinvariant.step hchannel hstep
    have hextends := hstep.extends
    -- What is undisturbed afterwards was so before.
    have hindices : s.handlings.map Handling.index <+: s'.handlings.map Handling.index := by
      rw [← hinvariant.arrivals, ← hafter.arrivals]
      exact hextends.history.filterMap _
    have horderly := ih ⟨fun result hmem ↦ hresults result (hextends.results.subset hmem),
      honce.sublist hindices.sublist⟩
    cases hstep with
    | call message hcalling _ => exact horderly.call message hcalling
    | receive index request hdelivers =>
      refine horderly.receive hinvariant (hchannel.intact hdelivers) ?_
      rw [Transfer.receive, List.map_append] at honce
      exact fun hmem ↦ List.disjoint_of_nodup_append honce hmem (List.mem_singleton_self _)
    | print k handling character rest hhandling hrest =>
      exact horderly.print hinvariant hhandling hrest
    | answer k handling hhandling _ hreturned => exact horderly.answer hhandling hreturned
    | complete status response hcalling hreturns =>
      have hresult := hresults _ (List.mem_append_right _ (List.mem_singleton_self _))
      obtain ⟨-, handling, hmem, hindex, hthrough, -⟩ := hinvariant.settled_of_returns hchannel
        hcalling hreturns (Bool.and_eq_true_iff.mp hresult).1
      exact horderly.complete hinvariant status response ⟨handling, hmem, hindex, hthrough⟩

end Orderly

/-! ### The results -/

section Results

/-- Three messages. -/
def threeMessages : List LogMessage :=
  [⟨['s'], ['1'], ['a']⟩, ⟨['s'], ['2'], ['b']⟩, ⟨['s'], ['3'], ['c']⟩]

/-- The first message is handled twice, and the first time at its leisure. The second one misses its
deadline. Three threads print at once. -/
def mixedSchedule : List (Event ⊕ ℕ) :=
  let response : TransferResponse := ⟨true, "Data received successfully".toList⟩
  List.flatten [
    [.inl (.call ⟨['s'], ['1'], ['a']⟩), .inl (.receive 0 ⟨['s'], ['1'], ['a']⟩)],
    List.replicate 10 (.inr 0), [.inl (.receive 0 ⟨['s'], ['1'], ['a']⟩)],
    List.replicate 79 (.inr 1), [.inl (.answer 1 .OK response), .inl (.complete .OK response)],
    [.inl (.call ⟨['s'], ['2'], ['b']⟩), .inl (.receive 1 ⟨['s'], ['2'], ['b']⟩)],
    (List.replicate 30 [.inr 2, .inr 0]).flatten,
    [.inl (.complete ⟨4, "Deadline Exceeded".toList⟩ ⟨false, []⟩)],
    [.inl (.call ⟨['s'], ['3'], ['c']⟩), .inl (.receive 2 ⟨['s'], ['3'], ['c']⟩)],
    (List.replicate 39 [.inr 0, .inr 3, .inr 2]).flatten, List.replicate 40 (.inr 3),
    [.inl (.answer 0 .OK response), .inl (.answer 3 .OK response), .inl (.complete .OK response)],
    List.replicate 5 (.inr 2)]

theorem faithful_mixed : (recorded (events mixedSchedule)).Faithful :=
  faithful_recorded (by decide +kernel)

theorem exists_mixed : ∃ s, Reachable (recorded (events mixedSchedule)) threeMessages s ∧
    s.results = [true, false, true] ∧ s.handlings.map Handling.index = [0, 0, 1, 2] ∧
      s.handlings.map Handling.returned = [true, true, false, true] ∧
        s.receiverConsole.length = 311 := by
  obtain ⟨s, h, htest⟩ := exists_of_testAfter threeMessages mixedSchedule
    (fun s ↦ decide (s.results = [true, false, true] ∧
      s.handlings.map Handling.index = [0, 0, 1, 2] ∧
        s.handlings.map Handling.returned = [true, true, false, true] ∧
          s.receiverConsole.length = 311)) (by decide +kernel)
  exact ⟨s, h, of_decide_eq_true htest⟩

/-- When `Send` has reported every message, and none was handled more than once, the receiver has
handled them in order and is through with all of them, and its console shows one text after the
other. -/
theorem printed_of_sent (hchannel : channel.Faithful) (h : Reachable channel messages s)
    (hundisturbed : s.Undisturbed) (hended : s.results.length = messages.length) :
    s.handlings.map Handling.index = List.range messages.length ∧
      (∀ handling ∈ s.handlings, handling.returned = true) ∧
      s.printed = messages.flatMap ConsoleMessageHandler.handle := by
  cases orderly_of_reachable hchannel h hundisturbed with
  | between hindices hreturned hprinted =>
    rw [hended] at hindices hprinted
    rw [List.take_length] at hprinted
    exact ⟨hindices, hreturned, hprinted⟩
  | handling _ _ hcalling =>
    have hcalls := (invariant_of_reachable hchannel h).calls
    rw [Transfer.calls, hcalling, hended] at hcalls
    exact absurd hcalls (Nat.not_succ_le_self _)

end Results

end StudStuff.Network
