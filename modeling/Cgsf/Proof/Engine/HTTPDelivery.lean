import Cgsf.Engine.HTTPPackets
import Cgsf.Proof.Engine.Delivery

/-!
# What an HTTP connection delivers, and which packets it loses

`GetPacket` takes everything out of the ring and puts back what it did not need. Every request comes
out in order; a packet that was made for an empty ring is not seen again.
-/

namespace Cgsf.Proof.Engine.SFHTTPProtocol
open Cgsf.Engine Library Cgsf.Engine.SFHTTPProtocol Cgsf.Engine.SFPacketProtocol

variable {ρ : Type} {parser : HTTPParser ρ} {Request : List UInt8 → Prop}
  {message : ρ → List UInt8} {packets : HTTPPackets} {t : SFHTTPProtocol}

/-- The packets do not matter to what `GetPacket` answers. -/
theorem makePacket_getPacket (packets : HTTPPackets) (t : SFHTTPProtocol) :
    (makePacket parser packets t).map (·.2) = getPacket parser t := by
  unfold makePacket getPacket
  split
  · rfl
  · cases t.iOBuffer.getData recvDataSize with
    | none => rfl
    | some got =>
        obtain ⟨ring, recvData⟩ := got
        simp only [Option.bind_some]
        split
        · rfl
        · cases feedLoop parser recvData recvData.length parser.empty recvData.length with
          | none => rfl
          | some fed =>
              obtain ⟨request, size⟩ := fed
              simp only
              split
              · simp [Option.map_map, Function.comp_def]
              · split
                · simp [Option.map_map, Function.comp_def]
                · rfl

/-- What the ring of an HTTP connection has to be. -/
structure Valid (t : SFHTTPProtocol) : Prop where
  ring : SFIOBuffer.Valid t.iOBuffer
  size : t.iOBuffer.iBufSize ≤ maxIOSize

def contents (t : SFHTTPProtocol) : List UInt8 := SFIOBuffer.contents t.iOBuffer

/-- The first turn of the loop is the only one. -/
theorem feedLoop_stop {data : List UInt8} {r : ρ} {pass : Nat} (fuel : Nat) (positive : 0 < fuel)
    (nonempty : data ≠ []) (fresh : parser.complete parser.empty = false)
    (fed : parser.feed parser.empty data = some (r, pass))
    (stops : parser.complete r = true ∨ pass = data.length) :
    feedLoop parser data fuel parser.empty data.length = some (r, data.length - pass) := by
  have long := List.length_pos_iff.mpr nonempty
  cases fuel with
  | zero => exact absurd positive (Nat.lt_irrefl 0)
  | succ fuel =>
      rw [feedLoop, if_pos ⟨long, fresh⟩, List.take_length, fed, Option.bind_some]
      dsimp only
      cases fuel with
      | zero => rfl
      | succ fuel =>
          rw [feedLoop, if_neg]
          rintro ⟨more, unfinished⟩
          rcases stops with complete | all
          · rw [complete] at unfinished
            contradiction
          · omega

theorem getData_all (valid : Valid t) : ∃ ring, t.iOBuffer.getData recvDataSize =
      some (ring, contents t) ∧ SFIOBuffer.Valid ring ∧ SFIOBuffer.contents ring = [] ∧
      ring.iBufSize = t.iOBuffer.iBufSize := by
  have used := valid.ring.used_lt
  have length := valid.ring.length_contents
  have most : min t.iOBuffer.iUsedBufferSize recvDataSize = t.iOBuffer.iUsedBufferSize := by
    have size := valid.size
    unfold maxIOSize at size
    unfold recvDataSize
    omega
  obtain ⟨ring, run, valid', rest, size, -⟩ := SFIOBuffer.getData_spec valid.ring _ le_rfl
  rw [SFIOBuffer.getData_min, most, run, List.take_of_length_le length.le]
  refine ⟨ring, rfl, valid', ?_, size⟩
  rw [rest, List.drop_of_length_le length.le]

theorem makePacket_empty (parser : HTTPParser ρ) (packets : HTTPPackets) (valid : Valid t) (empty : contents t = []) :
    makePacket parser packets t = some (createPacket packets, t, packetIOErrorNone, none) := by
  have length := valid.ring.length_contents
  change (contents t).length = _ at length
  rw [empty, List.length_nil] at length
  unfold makePacket
  rw [if_pos length.symm]

/-- The front of the ring is a request. -/
theorem makePacket_whole (packets : HTTPPackets) (follows : parser.Follows Request message) (valid : Valid t)
    {request rest : List UInt8} (is : Request request) (nonempty : request ≠ [])
    (front : contents t = request ++ rest) : ∃ ring r,
      makePacket parser packets t = some (createPacket packets, { t with iOBuffer := ring },
        packetIOErrorNone, some { request := r }) ∧
      message r = request ∧ Valid { t with iOBuffer := ring } ∧ SFIOBuffer.contents ring = rest ∧
      ring.iBufSize = t.iOBuffer.iBufSize := by
  have length := valid.ring.length_contents
  change (contents t).length = _ at length
  have lt := valid.ring.used_lt
  have long := List.length_pos_iff.mpr nonempty
  have size := congrArg List.length front
  rw [List.length_append] at size
  obtain ⟨ring, run, valid', empty, same⟩ := getData_all valid
  obtain ⟨r, fed, complete, shows⟩ := follows.whole request rest is
  rw [← front] at fed
  have loop := feedLoop_stop (contents t).length (by omega)
    (List.ne_nil_of_length_pos (by omega)) follows.fresh fed (.inl complete)
  have left : (contents t).length - request.length = rest.length := by omega
  unfold makePacket
  rw [if_neg (by omega), run, Option.bind_some]
  simp only [loop, left]
  rw [if_neg (by omega), if_neg (by rw [complete]; decide)]
  split
  · rename_i more
    have kept : (contents t).drop ((contents t).length - rest.length) = rest := by
      rw [front, List.length_append, Nat.add_sub_cancel, List.drop_left]
    have room : ring.iUsedBufferSize + rest.length < ring.iBufSize := by
      have none := valid'.length_contents
      rw [empty] at none
      rw [← none, same, List.length_nil]
      omega
    obtain ⟨ring', added, valid'', holds, same'⟩ := SFIOBuffer.appendData_room valid' rest room
    rw [kept, added]
    refine ⟨ring', r, rfl, shows, ⟨valid'', ?_⟩, ?_, same'.trans same⟩
    · exact (same'.trans same).le.trans valid.size
    · rw [holds, empty, List.nil_append]
  · refine ⟨ring, r, rfl, shows, ⟨valid', same.le.trans valid.size⟩, ?_, same⟩
    have none : rest.length = 0 := by omega
    rw [empty, List.length_eq_zero_iff.mp none]

/-- The ring holds a part of a request. -/
theorem makePacket_part (packets : HTTPPackets) (follows : parser.Follows Request message) (valid : Valid t)
    {request rest : List UInt8} (is : Request request) (cut : request = contents t ++ rest)
    (nonempty : contents t ≠ []) (unfinished : rest ≠ []) : ∃ ring,
      makePacket parser packets t = some (disposePacket (createPacket packets),
        { t with iOBuffer := ring }, packetIOErrorNone, none) ∧
      Valid { t with iOBuffer := ring } ∧ SFIOBuffer.contents ring = contents t ∧
      ring.iBufSize = t.iOBuffer.iBufSize := by
  have length := valid.ring.length_contents
  change (contents t).length = _ at length
  have lt := valid.ring.used_lt
  have long := List.length_pos_iff.mpr nonempty
  obtain ⟨ring, run, valid', empty, same⟩ := getData_all valid
  obtain ⟨r, fed, complete⟩ := follows.part request _ rest is cut nonempty unfinished
  have loop := feedLoop_stop (contents t).length (by omega) nonempty follows.fresh fed
    (.inr rfl)
  have room : ring.iUsedBufferSize + (contents t).length < ring.iBufSize := by
    have none := valid'.length_contents
    rw [empty] at none
    rw [← none, same, List.length_nil]
    omega
  obtain ⟨ring', added, valid'', holds, same'⟩ := SFIOBuffer.appendData_room valid' (contents t) room
  unfold makePacket
  rw [if_neg (by omega), run, Option.bind_some]
  simp only [loop, complete, if_true, added]
  rw [if_neg (by omega)]
  refine ⟨ring', rfl, ⟨valid'', ?_⟩, ?_, same'.trans same⟩
  · exact (same'.trans same).le.trans valid.size
  · rw [holds, empty, List.nil_append]

/-! ## One chunk -/

/-- What waits in the ring is the beginning of the first request, or nothing. -/
def Begins (requests : List (List UInt8)) (waiting : List UInt8) : Prop :=
  ∀ request ∈ requests.head?, waiting.length < request.length

/-- What the loop over `GetPacket` has done: the requests that were complete are handed over, and a
packet is lost if nothing is left in the ring. -/
structure Drained (message : ρ → List UInt8) (packets : HTTPPackets) (size : Nat)
    (requests : List (List UInt8)) (more : List UInt8)
    (r : Received SFHTTPProtocol HTTPPackets (SFHTTPPacket ρ)) (later : List (List UInt8)) : Prop where
  valid : Valid r.analyzer
  ring : r.analyzer.iOBuffer.iBufSize = size
  order : requests = (r.sent.map fun p => message p.request) ++ later
  rest : contents r.analyzer ++ more = later.flatten
  begins : Begins later (contents r.analyzer)
  packets : r.shared.made + packets.disposed + (if contents r.analyzer = [] then 0 else 1) =
    packets.made + r.sent.length + 1 + r.shared.disposed

variable (serial : Int) (desc : SessionDesc)

theorem receiveLoop_drained (packets : HTTPPackets) (follows : parser.Follows Request message)
    (nonempty : ¬Request []) (requests : List (List UInt8)) (isRequests : ∀ q ∈ requests, Request q)
    (valid : Valid t) {more : List UInt8} (cut : contents t ++ more = requests.flatten) (fuel : Nat)
    (enough : (contents t).length < fuel) (iErrorCode : Int) :
    ∃ r later, receiveLoop (packetAnalyzer parser) serial desc fuel packets t iErrorCode =
      some (r, packetIOErrorNone) ∧ Drained message packets t.iOBuffer.iBufSize requests more r later := by
  induction requests generalizing t packets fuel iErrorCode with
  | nil =>
      have empty : contents t = [] := (List.append_eq_nil_iff.mp cut).1
      cases fuel with
      | zero => omega
      | succ fuel =>
          have made := makePacket_empty parser packets valid empty
          refine ⟨_, [], SFPacketProtocol.receiveLoop_done fuel made, valid, rfl, rfl, cut, ?_, ?_⟩
          · intro request head
            contradiction
          · simp [empty, createPacket]
  | cons request requests ih =>
      have is := isRequests request List.mem_cons_self
      have some : request ≠ [] := fun none => nonempty (none ▸ is)
      have long := List.length_pos_iff.mpr some
      cases fuel with
      | zero => omega
      | succ fuel =>
          rw [List.flatten_cons] at cut
          by_cases empty : contents t = []
          · have made := makePacket_empty parser packets valid empty
            refine ⟨_, request :: requests, SFPacketProtocol.receiveLoop_done fuel made, valid, rfl,
              rfl, by rw [List.flatten_cons, cut], ?_, ?_⟩
            · intro first head
              obtain rfl := Option.some.inj head
              rw [empty]
              exact long
            · simp [empty, createPacket]
          · have left : request <+: contents t ++ more := ⟨_, cut.symm⟩
            have right : contents t <+: contents t ++ more := List.prefix_append _ _
            by_cases le : request.length ≤ (contents t).length
            · obtain ⟨rest, front⟩ := List.prefix_of_prefix_length_le left right le
              obtain ⟨ring, r, made, shows, valid', holds, size⟩ :=
                makePacket_whole packets follows valid is some front.symm
              rw [← front, List.append_assoc, List.append_cancel_left_eq] at cut
              rw [← front, List.length_append] at enough
              have holds : contents { t with iOBuffer := ring } = rest := holds
              rw [← holds] at cut enough
              obtain ⟨result, later, run, drained⟩ := ih (createPacket packets)
                (fun q member => isRequests q (List.mem_cons_of_mem _ member)) valid' cut fuel
                (by omega) packetIOErrorNone
              refine ⟨_, later, (SFPacketProtocol.receiveLoop_packet fuel made).trans
                (congrArg _ run), drained.valid, drained.ring.trans size, ?_, drained.rest,
                drained.begins, ?_⟩
              · rw [drained.order]
                simp only [List.map_cons, List.cons_append]
                rw [← shows]
                rfl
              · have counted := drained.packets
                simp only [createPacket, List.length_cons] at counted ⊢
                omega
            · obtain ⟨tail, cutHere⟩ := List.prefix_of_prefix_length_le right left (by omega)
              have short : tail ≠ [] := by
                rintro rfl
                rw [List.append_nil] at cutHere
                exact le (by rw [cutHere])
              obtain ⟨ring, made, valid', holds, size⟩ :=
                makePacket_part packets follows valid is cutHere.symm empty short
              have holds : contents { t with iOBuffer := ring } = contents t := holds
              refine ⟨_, request :: requests, SFPacketProtocol.receiveLoop_done fuel made, valid',
                size, rfl, ?_, ?_, ?_⟩
              · rw [holds, cut, List.flatten_cons]
              · intro first head
                obtain rfl := Option.some.inj head
                rw [holds]
                omega
              · rw [holds, if_neg empty]
                simp only [createPacket, disposePacket, List.length_nil]
                omega

/-- A chunk finds room beside the beginning of a request. -/
theorem room_of_begins (valid : Valid t) {requests : List (List UInt8)} {chunk more : List UInt8}
    (begins : Begins requests (contents t))
    (cut : contents t ++ (chunk ++ more) = requests.flatten)
    (fits : ∀ q ∈ requests, q.length + 2048 ≤ t.iOBuffer.iBufSize) (small : chunk.length ≤ 2048) :
    (contents t).length + chunk.length < t.iOBuffer.iBufSize := by
  cases requests with
  | nil =>
      obtain ⟨first, rest⟩ := List.append_eq_nil_iff.mp cut
      have none := (List.append_eq_nil_iff.mp rest).1
      have used := valid.ring.used_lt
      rw [first, none, List.length_nil]
      omega
  | cons request requests =>
      have short := begins request rfl
      have large := fits request List.mem_cons_self
      omega

theorem onReceive_drained (packets : HTTPPackets) (follows : parser.Follows Request message) (nonempty : ¬Request [])
    {requests : List (List UInt8)} (isRequests : ∀ q ∈ requests, Request q) (valid : Valid t)
    {chunk more : List UInt8} (cut : contents t ++ (chunk ++ more) = requests.flatten)
    (room : (contents t).length + chunk.length < t.iOBuffer.iBufSize) :
    ∃ r later, onReceive (packetAnalyzer parser) serial desc packets t chunk = some r ∧ r.ok = true ∧
      Drained message packets t.iOBuffer.iBufSize requests more r later := by
  have length := valid.ring.length_contents
  change (contents t).length = _ at length
  rw [length] at room
  obtain ⟨ring, added, valid', holds, size⟩ := SFIOBuffer.appendData_room valid.ring chunk room
  have adds : (packetAnalyzer parser).addTransferredData t chunk =
      some ({ t with iOBuffer := ring }, true) := by
    change addTransferredData t chunk = _
    unfold addTransferredData
    rw [added]
    rfl
  have holds : contents { t with iOBuffer := ring } = contents t ++ chunk := holds
  have valid' : Valid { t with iOBuffer := ring } := ⟨valid', size.le.trans valid.size⟩
  rw [← List.append_assoc, ← holds] at cut
  have enough : (contents { t with iOBuffer := ring }).length < ring.iUsedBufferSize + 1 :=
    Nat.lt_succ_of_le valid'.ring.length_contents.le
  obtain ⟨r, later, run, drained⟩ := receiveLoop_drained serial desc packets
    follows nonempty requests isRequests valid' cut _ enough packetIOErrorNone
  refine ⟨_, later, (SFPacketProtocol.onReceive_added adds).trans (congrArg _ run), rfl, ?_⟩
  exact ⟨drained.valid, drained.ring.trans size, drained.order, drained.rest, drained.begins,
    drained.packets⟩

/-! ## All chunks -/

theorem endsInside_append (sizes later : List Nat) (n : Nat) (chunks : List (List UInt8)) :
    EndsInside (sizes ++ later) (sizes.sum + n) chunks ↔ EndsInside later n chunks := by
  induction chunks generalizing n with
  | nil => rfl
  | cons chunk chunks ih =>
      unfold EndsInside
      rw [Nat.add_assoc, unfinished_append, ih]

theorem unfinished_of_begins {requests : List (List UInt8)} {waiting : List UInt8}
    (begins : Begins requests waiting) :
    unfinished (requests.map List.length) waiting.length = waiting.length := by
  cases requests with
  | nil => rfl
  | cons request requests =>
      have short := begins request rfl
      rw [List.map_cons, unfinished, if_neg (by omega)]

/-- One chunk moves the end of the stream on by the requests that are handed over. -/
theorem Drained.endsInside {size : Nat} {requests later : List (List UInt8)} {chunk more : List UInt8}
    {r : Received SFHTTPProtocol HTTPPackets (SFHTTPPacket ρ)}
    (drained : Drained message packets size requests more r later)
    (cut : contents t ++ (chunk ++ more) = requests.flatten) (chunks : List (List UInt8)) :
    EndsInside (requests.map List.length) (contents t).length (chunk :: chunks) ↔
      contents r.analyzer ≠ [] ∧
        EndsInside (later.map List.length) (contents r.analyzer).length chunks := by
  have total := congrArg List.length cut
  rw [drained.order, List.flatten_append, ← drained.rest] at total
  simp only [List.length_append, List.length_flatten] at total
  have moved : (contents t).length + chunk.length =
      ((r.sent.map fun p => message p.request).map List.length).sum +
        (contents r.analyzer).length := by omega
  rw [EndsInside, moved, drained.order, List.map_append, endsInside_append, unfinished_append,
    unfinished_of_begins drained.begins]
  simp

/-- Requests that are complete are handed over in order, and the ring holds what has come of the
next one. -/
structure Handled (message : ρ → List UInt8) (requests : List (List UInt8)) (coming : List UInt8)
    (r : Received SFHTTPProtocol HTTPPackets (SFHTTPPacket ρ)) : Prop where
  ok : r.ok = true
  order : ∃ later, requests = (r.sent.map fun p => message p.request) ++ later ∧
    contents r.analyzer ++ coming = later.flatten ∧ Begins later (contents r.analyzer)

theorem Handled.all {requests : List (List UInt8)}
    {r : Received SFHTTPProtocol HTTPPackets (SFHTTPPacket ρ)} (handled : Handled message requests [] r) :
    (r.sent.map fun p => message p.request) = requests := by
  obtain ⟨later, order, rest, begins⟩ := handled.order
  rw [List.append_nil] at rest
  cases later with
  | nil => rw [order, List.append_nil]
  | cons request later =>
      have short := begins request rfl
      rw [rest, List.flatten_cons, List.length_append] at short
      omega

/-- Every packet that `GetPacket` made was handed over or disposed of. -/
def NoneLost (r : Received SFHTTPProtocol HTTPPackets (SFHTTPPacket ρ)) : Prop :=
  r.shared.made = r.sent.length + r.shared.disposed

theorem receiveAll_handled (packets : HTTPPackets) (follows : parser.Follows Request message) (nonempty : ¬Request [])
    {requests : List (List UInt8)} (isRequests : ∀ q ∈ requests, Request q) (valid : Valid t)
    (fits : ∀ q ∈ requests, q.length + 2048 ≤ t.iOBuffer.iBufSize)
    (begins : Begins requests (contents t)) (received : List (List UInt8)) {coming : List UInt8}
    (small : ∀ chunk ∈ received, chunk.length ≤ 2048)
    (cut : contents t ++ (received.flatten ++ coming) = requests.flatten) :
    ∃ r lost, receiveAll (packetAnalyzer parser) serial desc packets t received = some r ∧
      Handled message requests coming r ∧
      r.shared.made + packets.disposed =
        packets.made + r.sent.length + r.shared.disposed + lost ∧
      (lost = 0 ↔ EndsInside (requests.map List.length) (contents t).length received) := by
  induction received generalizing t packets requests with
  | nil =>
      refine ⟨_, 0, rfl, ⟨rfl, requests, rfl, cut, begins⟩, ?_, ?_⟩
      · simp only [List.length_nil]
        omega
      · exact iff_of_true rfl trivial
  | cons chunk received ih =>
      rw [List.flatten_cons, List.append_assoc] at cut
      have room := room_of_begins valid begins cut fits (small chunk List.mem_cons_self)
      obtain ⟨now, later, run, ok, drained⟩ := onReceive_drained serial desc packets
        follows nonempty isRequests valid cut room
      have ends := drained.endsInside cut received
      have rest (q : List UInt8) (member : q ∈ later) : q ∈ requests := by
        rw [drained.order]
        exact List.mem_append_right _ member
      obtain ⟨r, lost, run', handled, counted, lostNone⟩ := ih now.shared
        (fun q member => isRequests q (rest q member)) drained.valid
        (fun q member => drained.ring ▸ fits q (rest q member)) drained.begins
        (fun other member => small other (List.mem_cons_of_mem _ member)) drained.rest
      have before := drained.packets
      obtain ⟨last, order, remains, begins'⟩ := handled.order
      refine ⟨{ r with sent := now.sent ++ r.sent },
        lost + if contents now.analyzer = [] then 1 else 0,
        (SFPacketProtocol.receiveAll_ok received run ok).trans (congrArg _ run'),
        ⟨handled.ok, last, ?_, remains, begins'⟩, ?_, ?_⟩
      · rw [drained.order, order, List.map_append, List.append_assoc]
      · rw [List.length_append]
        dsimp only
        split at before <;> simp_all <;> omega
      · rw [ends, ← lostNone]
        by_cases none : contents now.analyzer = []
        · simp [none]
        · simp [none]

theorem construct_valid (parser : HTTPParser ρ) (bufferIOSize : Int) (packetDataSize : UInt16)
    (packetOption : UInt32) :
    ∃ t, construct (packetAnalyzer parser) bufferIOSize packetDataSize packetOption = some t ∧
      Valid t ∧ contents t = [] ∧
      t.iOBuffer.iBufSize = SFCGSFPacketProtocol.ringSize bufferIOSize := by
  obtain ⟨valid, empty, size⟩ := SFPacketProtocol.allocated_spec bufferIOSize packetDataSize
  have most : SFCGSFPacketProtocol.ringSize bufferIOSize ≤ maxIOSize := by
    rw [SFCGSFPacketProtocol.ringSize]
    split
    · exact le_rfl
    · exact Nat.min_le_right _ _
  exact ⟨_, rfl, ⟨valid, size.le.trans most⟩, empty, size⟩

/-- However the stream of requests is cut, those that are complete come out in order; a packet is
lost with every chunk that ends where a request ends. -/
theorem stream_handled (follows : parser.Follows Request message) (bufferIOSize : Int)
    (packetDataSize : UInt16) (packetOption : UInt32) (serial : Int) (desc : SessionDesc)
    (requests received coming : List (List UInt8))
    (isRequests : ∀ q ∈ requests,
      Request q ∧ q.length + 2048 ≤ SFCGSFPacketProtocol.ringSize bufferIOSize)
    (small : ∀ chunk ∈ received, chunk.length ≤ 2048)
    (cut : (received ++ coming).flatten = requests.flatten) :
    ∃ t r, construct (packetAnalyzer parser) bufferIOSize packetDataSize packetOption = some t ∧
      receiveAll (packetAnalyzer parser) serial desc {} t received = some r ∧
      Handled message requests coming.flatten r ∧
      (coming = [] → (r.sent.map fun p => message p.request) = requests) ∧
      (NoneLost r ↔ EndsInside (requests.map List.length) 0 received) := by
  obtain ⟨t, made, valid, empty, size⟩ :=
    construct_valid parser bufferIOSize packetDataSize packetOption
  have nonempty : ¬Request [] := by
    intro is
    obtain ⟨r, fed, -⟩ := follows.whole [] [0] is
    exact Nat.lt_irrefl 0 (parser.feed_pos _ _ _ _ (List.cons_ne_nil _ _) fed).1
  have begins : Begins requests (contents t) := by
    intro request head
    have is := (isRequests request (List.mem_of_mem_head? head)).1
    rw [empty]
    exact List.length_pos_iff.mpr fun none => nonempty (none ▸ is)
  rw [List.flatten_append] at cut
  obtain ⟨r, lost, run, handled, counted, lostNone⟩ := receiveAll_handled serial desc {}
    follows nonempty (fun q member => (isRequests q member).1) valid
    (fun q member => size ▸ (isRequests q member).2) begins received small
    (by rw [empty, List.nil_append, cut])
  rw [empty, List.length_nil] at lostNone
  refine ⟨t, r, made, run, handled, fun none => ?_, ?_⟩
  · subst none
    exact handled.all
  rw [← lostNone, NoneLost]
  simp only [Nat.zero_add, Nat.add_zero] at counted
  omega

/-! ## A parser of requests without a body -/

/-- The end of the head of a request. -/
def blankLine (bytes : List UInt8) : Bool := [10, 13, 10, 13].isPrefixOf bytes.reverse

/-- Bytes are taken up to the first blank line. -/
def takeHead (taken : List UInt8) : List UInt8 → List UInt8 × Nat
  | [] => (taken, 0)
  | byte :: rest =>
      if blankLine (taken ++ [byte]) then (taken ++ [byte], 1)
      else
        let (taken, pass) := takeHead (taken ++ [byte]) rest
        (taken, pass + 1)

theorem takeHead_pass (taken data : List UInt8) (nonempty : data ≠ []) :
    0 < (takeHead taken data).2 ∧ (takeHead taken data).2 ≤ data.length := by
  induction data generalizing taken with
  | nil => contradiction
  | cons byte rest ih =>
      unfold takeHead
      split
      · simp
      · cases rest with
        | nil => simp [takeHead]
        | cons next rest =>
            have later := (ih (taken ++ [byte]) (List.cons_ne_nil _ _)).2
            exact ⟨Nat.succ_pos _, Nat.succ_le_succ later⟩

def headParser : HTTPParser (List UInt8) where
  empty := []
  complete := blankLine
  feed := fun taken data => some (takeHead taken data)
  responds := fun _ => true
  feed_pos := by
    intro taken data taken' pass nonempty fed
    have bounds := takeHead_pass taken data nonempty
    rw [Option.some.inj fed] at bounds
    exact bounds

/-- GET / HTTP/1.1 -/
def getRequest : List UInt8 :=
  [71, 69, 84, 32, 47, 32, 72, 84, 84, 80, 47, 49, 46, 49, 13, 10, 13, 10]

theorem headParser_follows : headParser.Follows (· = getRequest) id where
  fresh := rfl
  whole := by
    rintro request rest rfl
    exact ⟨getRequest, rfl, rfl, rfl⟩
  part := by
    rintro request data rest rfl cut nonempty more
    have taken : data = getRequest.take data.length := by rw [cut, List.take_left]
    have short : data.length < getRequest.length := by
      have positive := List.length_pos_iff.mpr more
      rw [cut, List.length_append]
      omega
    have all : ∀ n < getRequest.length, takeHead [] (getRequest.take n) = (getRequest.take n, n) ∧
        blankLine (getRequest.take n) = false := by decide
    obtain ⟨fed, incomplete⟩ := all data.length short
    rw [← taken] at fed incomplete
    exact ⟨data, congrArg some fed, incomplete⟩

/-- The second of two requests has come in part. -/
theorem pipelined_handled : ∃ t r,
    construct (packetAnalyzer headParser) 8192 4096 0 = some t ∧
      receiveAll (packetAnalyzer headParser) 1 {} {} t
        [getRequest.take 5, getRequest.drop 5 ++ getRequest.take 7] = some r ∧
      Handled id [getRequest, getRequest] [getRequest.drop 7].flatten r ∧
      ([getRequest.drop 7] = [] → (r.sent.map fun p => id p.request) = [getRequest, getRequest]) ∧
      (NoneLost r ↔ EndsInside ([getRequest, getRequest].map List.length) 0
        [getRequest.take 5, getRequest.drop 5 ++ getRequest.take 7]) :=
  stream_handled headParser_follows 8192 4096 0 1 {} [getRequest, getRequest]
    [getRequest.take 5, getRequest.drop 5 ++ getRequest.take 7] [getRequest.drop 7]
    (by simp [getRequest, SFCGSFPacketProtocol.ringSize, maxIOSize]) (by decide) (by decide)

/-- One request in one chunk: the packet that was made to look for a second one is lost. -/
theorem lastPacket_lost : ∃ t r,
    construct (packetAnalyzer headParser) 8192 4096 0 = some t ∧
      receiveAll (packetAnalyzer headParser) 1 {} {} t [getRequest] = some r ∧
      r.sent.length = 1 ∧ r.shared = { made := 2, disposed := 0 } ∧ ¬NoneLost r := by
  have plays : (receiveAll (packetAnalyzer headParser) 1 {} {} (initProtocol 8192 4096 0)
      [getRequest]).map (fun r => (r.sent.length, r.shared)) =
        some (1, { made := 2, disposed := 0 }) := by
    decide +kernel
  obtain ⟨r, run, shows⟩ := Option.map_eq_some_iff.mp plays
  obtain ⟨sent, shared⟩ := Prod.mk.inj shows
  refine ⟨initProtocol 8192 4096 0, r, rfl, run, sent, shared, fun none => ?_⟩
  rw [NoneLost, sent, shared] at none
  exact absurd none (by decide)

end Cgsf.Proof.Engine.SFHTTPProtocol
