import VmSpect.Vms.NbdHandshake
import VmSpect.Vms.NbdOpen

/-!
# Connecting to `qemu-nbd`

`NbdTransport::connect` of `src/vms/nbd.rs` with a system and a peer that may do anything: every
call on the socket returns whatever it likes, errors of any kind among it. `NbdHandshake` has the
handshake with a server that conforms to the protocol.

A deadline is given by the rounds before it: when there are none left, the next look at the clock
finds that it has passed. An error of the client is one of its own, or has the kind of an error of
the system (`connect_throws`).
-/

namespace VmSpect.Nbd

open Bytes Words

/-! ## The system -/

/-- What the system answers in a round of `read_exact_until` or `write_all_until`: to the call that
sets the timeout, and to the one after it. A read is given by its bytes. -/
structure StreamRound where
  setTimeout : Except IoError Unit
  read : Except IoError (List UInt8)
  write : Except IoError ℕ
  flush : Except IoError Unit

/-- What the system answers to a call of `connect`. -/
structure Connection where
  /-- Whether the deadline of the session has passed before. -/
  expired : Bool
  /-- `UnixStream::connect`. -/
  connectUnix : Except IoError Unit
  /-- `to_socket_addrs`, and for each address whether the deadline has passed, and
  `TcpStream::connect_timeout`. -/
  addresses : Except IoError (List (Bool × Except IoError Unit))
  setNodelay : Except IoError Unit
  /-- The rounds of the handshake. -/
  rounds : List StreamRound
  /-- The timeouts that are set at the end of the handshake. -/
  setReadTimeout : Except IoError Unit
  setWriteTimeout : Except IoError Unit

/-! ## The client -/

/-- The error of `remaining`. -/
def timedOut (context : String) : IoError := ⟨.timedOut, s!"Timed out {context}"⟩

/-- `contextualize_timeout`. -/
def contextualizeTimeout (context : String) (e : IoError) : IoError :=
  if e.kind ∈ [.timedOut, .wouldBlock] then timedOut context
  else ⟨e.kind, s!"NBD {context}: {e.message}"⟩

/-- `read_exact_until`: the bytes, and the rounds that are left. -/
def readExactUntil (context : String) :
    List StreamRound → ℕ → Except IoError (List UInt8 × List StreamRound)
  | rounds, 0 => .ok ([], rounds)
  | [], _ + 1 => .error (timedOut context)
  | round :: rest, needed + 1 => do
    round.setTimeout
    let bytes ← round.read.mapError (contextualizeTimeout context)
    -- A read returns at most as many bytes as fit into the buffer.
    match bytes.take (needed + 1) with
    | [] => .error ⟨.unexpectedEof, s!"NBD {context}: connection closed"⟩
    | byte :: more => do
      let (others, rest) ← readExactUntil context rest (needed - more.length)
      pure (byte :: more ++ others, rest)

/-- `write_all_until`: the rounds that are left. The last one is the flush. -/
def writeAllUntil (context : String) :
    List StreamRound → List UInt8 → Except IoError (List StreamRound)
  | [], _ => .error (timedOut context)
  | round :: rest, [] => do
    round.setTimeout
    round.flush.mapError (contextualizeTimeout context)
    pure rest
  | round :: rest, byte :: more => do
    round.setTimeout
    let n ← round.write.mapError (contextualizeTimeout context)
    if n = 0 then .error ⟨.writeZero, s!"NBD {context}: connection closed"⟩
    else writeAllUntil context rest ((byte :: more).drop n)

/-- `handshake`, with the size of the export. -/
def handshake (c : Connection) : Except IoError ℕ := do
  let (banner, rounds) ← readExactUntil "reading NBD banner" c.rounds 18
  checkBanner banner
  let rounds ← writeAllUntil "sending NBD client flags" rounds clientFlags
  let rounds ← writeAllUntil "requesting NBD export" rounds optionRequest
  let (resp, _) ← readExactUntil "reading NBD export reply" rounds 134
  c.setReadTimeout
  c.setWriteTimeout
  pure (ofBe (slice resp 0 8))

/-- The loop of `connect_tcp_with_timeouts` over the addresses. -/
def connectAddresses : List (Bool × Except IoError Unit) → Option IoError → Except IoError Unit
  | [], last => .error (last.getD ⟨.addrNotAvailable, "NBD address did not resolve"⟩)
  | (true, _) :: _, _ => .error (timedOut "connecting to NBD server")
  | (false, .ok ()) :: _, _ => .ok ()
  | (false, .error e) :: rest, _ => connectAddresses rest (some e)

/-- `NbdTransport::connect`, over a UNIX socket or over TCP. -/
def connect (unixSocket : Bool) (c : Connection) : Except IoError ℕ :=
  if c.expired then .error (timedOut "connecting to qemu-nbd")
  else if unixSocket then do
    c.connectUnix
    handshake c
  else do
    let addresses ← c.addresses
    connectAddresses addresses none
    c.setNodelay
    handshake c

/-- What a round of the connection loop meets, with the connection. -/
structure SocketAttempt where
  /-- `try_wait`, as in `NbdAttempt`. -/
  tryWait : Except (IoError × String) (Option (Option ℤ × String))
  connection : Connection
  /-- The `stderr` of the child, if it is terminated. -/
  stderr : String

/-- The round as the connection loop sees it; `session` is what becomes of an open stream. -/
def SocketAttempt.toAttempt {ν : Type} (session : ℕ → ν) (unixSocket : Bool) (a : SocketAttempt) :
    NbdAttempt ν where
  tryWait := a.tryWait
  connect := ((connect unixSocket a.connection).map session).mapError fun e => (e, a.stderr)

/-! ## Where errors come from -/

/-- The code throws only what satisfies `P`, and returns only what satisfies `Q`. -/
def Meets {ε α : Type} (P : ε → Prop) (Q : α → Prop) : Except ε α → Prop
  | .error e => P e
  | .ok a => Q a

/-- A sequence, by what its first part throws and returns. -/
theorem Meets.bind {ε α β : Type} {P : ε → Prop} {Q : α → Prop} {R : β → Prop} {x : Except ε α}
    {f : α → Except ε β} (hx : Meets P Q x) (hf : ∀ a, Q a → Meets P R (f a)) :
    Meets P R (x >>= f) := by
  cases x with
  | error e => exact hx
  | ok a => exact hf a hx

/-- The call fails with an error of this kind. -/
def FailsWith {α : Type} (kind : ErrorKind) (x : Except IoError α) : Prop :=
  ∃ e, x = .error e ∧ e.kind = kind

/-- A call all of whose failures are of kinds that satisfy `K`. -/
theorem meets_of_failsWith {α : Type} {K : ErrorKind → Prop} {x : Except IoError α}
    (h : ∀ kind, FailsWith kind x → K kind) : Meets (K ·.kind) (fun _ => True) x := by
  cases x with
  | error e => exact h e.kind ⟨e, rfl, rfl⟩
  | ok a => trivial

/-- The kinds of the client's own errors. -/
def clientKinds : List ErrorKind :=
  [.timedOut, .unexpectedEof, .writeZero, .invalidData, .unsupported, .addrNotAvailable]

/-- A call of a round fails with an error of this kind. -/
def StreamRound.Fails (kind : ErrorKind) (round : StreamRound) : Prop :=
  FailsWith kind round.setTimeout ∨ FailsWith kind round.read ∨ FailsWith kind round.write ∨
    FailsWith kind round.flush

/-- A call of a connection fails with an error of this kind. -/
def Connection.Fails (kind : ErrorKind) (c : Connection) : Prop :=
  FailsWith kind c.connectUnix ∨ FailsWith kind c.addresses ∨
    (∃ addresses, c.addresses = .ok addresses ∧ ∃ address ∈ addresses, FailsWith kind address.2) ∨
    FailsWith kind c.setNodelay ∨ (∃ round ∈ c.rounds, round.Fails kind) ∨
    FailsWith kind c.setReadTimeout ∨ FailsWith kind c.setWriteTimeout

section Meets

variable {K : ErrorKind → Prop} {α : Type}

/-- An error that is put into its context has its own kind, or that of a timeout. -/
theorem meets_contextualized (hclient : ∀ kind ∈ clientKinds, K kind) (context : String)
    {x : Except IoError α} (h : ∀ kind, FailsWith kind x → K kind) :
    Meets (K ·.kind) (fun _ => True) (x.mapError (contextualizeTimeout context)) := by
  cases x with
  | ok a => trivial
  | error e =>
    show K (contextualizeTimeout context e).kind
    unfold contextualizeTimeout
    split
    · exact hclient .timedOut (by decide)
    · exact h e.kind ⟨e, rfl, rfl⟩

/-- All failures of the rounds are of kinds that satisfy `K`. -/
def RoundsMeet (K : ErrorKind → Prop) (rounds : List StreamRound) : Prop :=
  ∀ round ∈ rounds, ∀ kind, round.Fails kind → K kind

/-- A read of a full buffer. -/
theorem readExactUntil_meets (hclient : ∀ kind ∈ clientKinds, K kind) (context : String)
    {rounds : List StreamRound} (hrounds : RoundsMeet K rounds) (needed : ℕ) :
    Meets (K ·.kind) (fun r => RoundsMeet K r.2) (readExactUntil context rounds needed) := by
  induction rounds generalizing needed with
  | nil =>
    rcases needed with _ | needed
    · exact hrounds
    · exact hclient .timedOut (by decide)
  | cons round rest ih =>
    rcases needed with _ | needed
    · exact hrounds
    · have hround := hrounds round List.mem_cons_self
      have hrest : RoundsMeet K rest := fun r hr => hrounds r (List.mem_cons_of_mem round hr)
      have htimeout := meets_of_failsWith fun kind h => hround kind (Or.inl h)
      have hread := meets_contextualized hclient context
        fun kind h => hround kind (Or.inr (Or.inl h))
      refine htimeout.bind fun _ _ => hread.bind fun bytes _ => ?_
      split
      · exact hclient .unexpectedEof (by decide)
      · exact (ih hrest _).bind fun read hleft => hleft

/-- A write of a full buffer. -/
theorem writeAllUntil_meets (hclient : ∀ kind ∈ clientKinds, K kind) (context : String)
    {rounds : List StreamRound} (hrounds : RoundsMeet K rounds) (buffer : List UInt8) :
    Meets (K ·.kind) (RoundsMeet K) (writeAllUntil context rounds buffer) := by
  induction rounds generalizing buffer with
  | nil => exact hclient .timedOut (by decide)
  | cons round rest ih =>
    have hround := hrounds round List.mem_cons_self
    have hrest : RoundsMeet K rest := fun r hr => hrounds r (List.mem_cons_of_mem round hr)
    have htimeout := meets_of_failsWith fun kind h => hround kind (Or.inl h)
    have hwrite := meets_contextualized hclient context
      fun kind h => hround kind (Or.inr (Or.inr (Or.inl h)))
    have hflush := meets_contextualized hclient context
      fun kind h => hround kind (Or.inr (Or.inr (Or.inr h)))
    rcases buffer with _ | ⟨byte, more⟩
    · exact htimeout.bind fun _ _ => hflush.bind fun _ _ => hrest
    · refine htimeout.bind fun _ _ => hwrite.bind fun n _ => ?_
      split
      · exact hclient .writeZero (by decide)
      · exact ih hrest _

/-- The check of the banner. -/
theorem checkBanner_meets (hclient : ∀ kind ∈ clientKinds, K kind) (banner : List UInt8) :
    Meets (K ·.kind) (fun _ => True) (checkBanner banner) := by
  unfold checkBanner
  split
  · exact hclient .invalidData (by decide)
  · split
    · exact hclient .unsupported (by decide)
    · trivial

/-- The attempts to connect to the addresses. -/
theorem connectAddresses_meets (hclient : ∀ kind ∈ clientKinds, K kind)
    {addresses : List (Bool × Except IoError Unit)} {last : Option IoError}
    (haddresses : ∀ address ∈ addresses, ∀ kind, FailsWith kind address.2 → K kind)
    (hlast : ∀ e, last = some e → K e.kind) :
    Meets (K ·.kind) (fun _ => True) (connectAddresses addresses last) := by
  induction addresses generalizing last with
  | nil =>
    rcases last with _ | e
    · exact hclient .addrNotAvailable (by decide)
    · exact hlast e rfl
  | cons address rest ih =>
    obtain ⟨expired, answer⟩ := address
    rcases expired with _ | _
    · rcases answer with e | _
      · refine ih (fun a ha => haddresses a (List.mem_cons_of_mem _ ha)) fun e' he' => ?_
        obtain rfl := Option.some.inj he'
        exact haddresses _ List.mem_cons_self e.kind ⟨e, rfl, rfl⟩
      · trivial
    · exact hclient .timedOut (by decide)

end Meets

/-- An error of `connect` is one of the client, or has the kind of a call that failed. -/
theorem connect_fails {unixSocket : Bool} {c : Connection} {kind : ErrorKind}
    (h : FailsWith kind (connect unixSocket c)) : kind ∈ clientKinds ∨ c.Fails kind := by
  let K : ErrorKind → Prop := fun k => k ∈ clientKinds ∨ c.Fails k
  have hclient : ∀ k ∈ clientKinds, K k := fun k hk => Or.inl hk
  have hrounds : RoundsMeet K c.rounds := fun round hr k hk => by
    exact Or.inr (Or.inr (Or.inr (Or.inr (Or.inr (Or.inl ⟨round, hr, hk⟩)))))
  have hhandshake : Meets (K ·.kind) (fun _ => True) (handshake c) := by
    refine (readExactUntil_meets hclient _ hrounds 18).bind fun banner hleft => ?_
    refine (checkBanner_meets hclient _).bind fun _ _ => ?_
    refine (writeAllUntil_meets hclient _ hleft _).bind fun rounds hleft => ?_
    refine (writeAllUntil_meets hclient _ hleft _).bind fun rounds hleft => ?_
    refine (readExactUntil_meets hclient _ hleft 134).bind fun resp _ => ?_
    refine (meets_of_failsWith fun k hk => ?_).bind fun _ _ => ?_
    · exact Or.inr (Or.inr (Or.inr (Or.inr (Or.inr (Or.inr (Or.inl hk))))))
    refine (meets_of_failsWith fun k hk => ?_).bind fun _ _ => trivial
    exact Or.inr (Or.inr (Or.inr (Or.inr (Or.inr (Or.inr (Or.inr hk))))))
  have hconnect : Meets (K ·.kind) (fun _ => True) (connect unixSocket c) := by
    unfold connect
    split
    · exact hclient .timedOut (by decide)
    · split
      · refine (meets_of_failsWith fun k hk => ?_).bind fun _ _ => hhandshake
        exact Or.inr (Or.inl hk)
      · cases haddr : c.addresses with
        | error e => exact Or.inr (Or.inr (Or.inl ⟨e, haddr, rfl⟩))
        | ok addresses =>
          have htried : Meets (K ·.kind) (fun _ => True) (connectAddresses addresses none) := by
            refine connectAddresses_meets hclient (fun address ha k hk => ?_) fun e he => ?_
            · exact Or.inr (Or.inr (Or.inr (Or.inl ⟨addresses, haddr, address, ha, hk⟩)))
            · cases he
          refine htried.bind fun _ _ => ?_
          refine (meets_of_failsWith fun k hk => ?_).bind fun _ _ => hhandshake
          exact Or.inr (Or.inr (Or.inr (Or.inr (Or.inl hk))))
  obtain ⟨e, he, rfl⟩ := h
  rw [he] at hconnect
  exact hconnect

end VmSpect.Nbd
