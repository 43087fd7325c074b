import VmSpect.Vms.Nbd

/-!
# `NbdStream::handshake` and a whole session

The newstyle handshake of `src/vms/nbd.rs` with a server that offers one export, and after it a
sequence of reads. The server sends its banner, waits for the flags of the client and for its
option, and answers with the size of the export, its flags and 124 zeros. From then on it replies to
the reads that it is asked for. The client reads and writes in pieces of any size. Nothing times out
here, and no party hangs up; `Nbd` has the runs in which that happens.

`Greeted` is what the two parties have exchanged at any time of the handshake. Every event leads
from such a state to another one, with fewer bytes and steps ahead, or to the open session
(`Greeted.step`), and some event can always happen (`Greeted.enabled`).
-/

namespace VmSpect.Nbd

open Bytes Words Interleaving

/-! ## What the handshake sends -/

/-- `NBD_IHAVEOPT_MAGIC`. -/
def ihaveoptMagic : ℕ := 0x49484156454F5054

/-- `NBD_OPT_EXPORT_NAME`. -/
def optExportName : ℕ := 1

/-- The bytes of `NBDMAGIC`. -/
def nbdMagic : List UInt8 := [0x4E, 0x42, 0x44, 0x4D, 0x41, 0x47, 0x49, 0x43]

/-- The banner of a server. -/
def bannerBytes (flags : ℕ) : List UInt8 := nbdMagic ++ toBe 8 ihaveoptMagic ++ toBe 2 flags

/-- The flags of the client, `NBD_FLAG_C_FIXED_NEWSTYLE`. -/
def clientFlags : List UInt8 := toBe 4 1

/-- The option of the client: the export with the empty name. -/
def optionRequest : List UInt8 := toBe 8 ihaveoptMagic ++ toBe 4 optExportName ++ toBe 4 0

/-- The answer of a server to the option: the size of the export, its flags and the padding. -/
def exportReply (size flags : ℕ) : List UInt8 := toBe 8 size ++ toBe 2 flags ++ List.replicate 124 0

/-- The name of the export that a client asks for, once its flags and its option are complete. -/
def requestedExport (received : List UInt8) : Option (List UInt8) :=
  if received.length < 20 then none
  else if ofBe (slice received 4 8) = ihaveoptMagic ∧ ofBe (slice received 12 4) = optExportName ∧
      received.length = 20 + ofBe (slice received 16 4) then
    some (received.drop 20)
  else none

/-- The checks on a banner. -/
def checkBanner (banner : List UInt8) : Except IoError Unit :=
  if slice banner 0 8 ≠ nbdMagic then .error ⟨.invalidData, "Invalid NBD signature from the server"⟩
  else if ofBe (slice banner 8 8) ≠ ihaveoptMagic then
    .error ⟨.unsupported, "The NBD server does not use the newstyle handshake"⟩
  else .ok ()

/-! ## The handshake -/

/-- A server of one export: what it serves, the size of which it can tell in 64 bits, and the flags
that it announces. -/
structure Server where
  disk : List UInt8
  fits : disk.length < 2^64
  handshakeFlags : ℕ
  transmissionFlags : ℕ

/-- Where the client is in `handshake`. -/
inductive Greeter where
  /-- In `read_exact_until` for the banner. -/
  | banner (got : List UInt8)
  /-- In `write_all_until` for the flags, with the bytes still to be written. -/
  | flags (rest : List UInt8)
  /-- In `write_all_until` for the option. -/
  | option (rest : List UInt8)
  /-- In `read_exact_until` for the answer. -/
  | offer (got : List UInt8)

/-- The two parties during the handshake, and what is under way to the client. -/
structure Greeting where
  client : Greeter
  /-- The bytes of the client that have reached the server. -/
  received : List UInt8
  /-- The server has sent its banner. -/
  announced : Bool
  /-- The server has sent its answer to the option. -/
  accepted : Bool
  /-- The bytes that the server has sent and the client has not read. -/
  unread : List UInt8

/-- Where a session is. -/
inductive Phase where
  | greeting (g : Greeting)
  | failed (e : IoError)
  /-- After the handshake, with the size that the client has read. -/
  | opened (exportSize : ℕ) (s : State)

/-- What can happen next in a session. -/
inductive SessionEvent where
  | announce
  | accept
  | write (n : ℕ)
  | flush
  | receive (n : ℕ)
  /-- The caller makes its next call of `read_range`. -/
  | call
  /-- The server replies to a request that it holds. -/
  | reply (i : ℕ)

namespace Greeting

/-- The client writes the next `n` bytes of `rest`. -/
def write (g : Greeting) (rest : List UInt8) (next : List UInt8 → Greeter) (n : ℕ) : Option Phase :=
  if 0 < n ∧ n ≤ rest.length then
    some (.greeting { g with client := next (rest.drop n), received := g.received ++ rest.take n })
  else none

/-- `read_exact_until` gets `n` more bytes of the banner or of the answer. -/
def receive (g : Greeting) (n : ℕ) : Option Phase :=
  match g.client with
  | .banner got =>
    if 0 < n ∧ n ≤ 18 - got.length ∧ n ≤ g.unread.length then
      let banner := got ++ g.unread.take n
      let g := { g with unread := g.unread.drop n }
      if banner.length < 18 then some (.greeting { g with client := .banner banner })
      else
        match checkBanner banner with
        | .error e => some (.failed e)
        | .ok () => some (.greeting { g with client := .flags clientFlags })
    else none
  | .offer got =>
    if 0 < n ∧ n ≤ 134 - got.length ∧ n ≤ g.unread.length then
      let resp := got ++ g.unread.take n
      let g := { g with unread := g.unread.drop n }
      if resp.length < 134 then some (.greeting { g with client := .offer resp })
      else some (.opened (ofBe (slice resp 0 8)) { start with unread := g.unread })
    else none
  | _ => none

/-- One event of the handshake. -/
def step (server : Server) (e : SessionEvent) (g : Greeting) : Option Phase :=
  match e with
  | .announce =>
    if g.announced then none
    else some (.greeting { g with
      announced := true
      unread := g.unread ++ bannerBytes server.handshakeFlags })
  | .accept =>
    if g.accepted then none
    else if requestedExport g.received = some [] then
      some (.greeting { g with
        accepted := true
        unread := g.unread ++ exportReply server.disk.length server.transmissionFlags })
    else none
  | .write n =>
    match g.client with
    | .flags rest => g.write rest .flags n
    | .option rest => g.write rest .option n
    | _ => none
  | .flush =>
    match g.client with
    | .flags [] => some (.greeting { g with client := .option optionRequest })
    | .option [] => some (.greeting { g with client := .offer [] })
    | _ => none
  | .receive n => g.receive n
  | .call => none
  | .reply _ => none

end Greeting

/-! ## The session -/

/-- A session: where it is, the calls that are still to be made, and the requests that the server
has replied to. -/
structure Session where
  phase : Phase
  calls : List (ℕ × ℕ)
  served : List Request

/-- A connection over which nothing has been sent. -/
def Session.start (calls : List (ℕ × ℕ)) : Session where
  phase := .greeting ⟨.banner [], [], false, false, []⟩
  calls := calls
  served := []

namespace Session

/-- An event of the open session that the client and the server take part in. -/
def within (server : Server) (σ : Session) (exportSize : ℕ) (s : State) (e : Event) :
    Option Session :=
  (Nbd.step server.disk e s).map fun s => { σ with phase := .opened exportSize s }

/-- One event of a session. -/
def step (server : Server) (e : SessionEvent) (σ : Session) : Option Session :=
  match σ.phase with
  | .greeting g => (g.step server e).map fun phase => { σ with phase }
  | .failed _ => none
  | .opened exportSize s =>
    match e with
    | .write n => σ.within server exportSize s (.write n)
    | .flush => σ.within server exportSize s .flush
    | .receive n => σ.within server exportSize s (.receive n)
    | .call =>
      match s.client, σ.calls with
      | .idle, (offset, len) :: rest =>
        some { σ with phase := .opened exportSize (s.call exportSize offset len), calls := rest }
      | _, _ => none
    | .reply i =>
      match s.pending[i]? with
      | none => none
      | some r =>
        { σ with served := σ.served ++ [r] }.within server exportSize s (.reply i 0)
    | _ => none

end Session

/-! ## What the handshake does -/

/-- What the client and the server have exchanged during the handshake. -/
inductive Greeted (server : Server) : Greeting → Prop where
  | silent : Greeted server ⟨.banner [], [], false, false, []⟩
  | banner (got unread : List UInt8) (h : got ++ unread = bannerBytes server.handshakeFlags)
      (hlen : got.length < 18) : Greeted server ⟨.banner got, [], true, false, unread⟩
  | flags (received rest : List UInt8) (h : received ++ rest = clientFlags) :
      Greeted server ⟨.flags rest, received, true, false, []⟩
  | option (received rest : List UInt8) (h : received ++ rest = clientFlags ++ optionRequest) :
      Greeted server ⟨.option rest, received, true, false, []⟩
  | optionAccepted : Greeted server ⟨.option [], clientFlags ++ optionRequest, true, true,
      exportReply server.disk.length server.transmissionFlags⟩
  | offerWaiting : Greeted server ⟨.offer [], clientFlags ++ optionRequest, true, false, []⟩
  | offer (got unread : List UInt8)
      (h : got ++ unread = exportReply server.disk.length server.transmissionFlags)
      (hlen : got.length < 134) :
      Greeted server ⟨.offer got, clientFlags ++ optionRequest, true, true, unread⟩

/-- How many bytes and steps the client has ahead of it in the handshake. -/
def Greeter.left : Greeter → ℕ
  | .banner got => 18 - got.length + 156
  | .flags rest => rest.length + 152
  | .option rest => rest.length + 135
  | .offer got => 134 - got.length

/-- The same for both parties. -/
def Greeting.left (g : Greeting) : ℕ :=
  g.client.left + (if g.announced then 0 else 1) + (if g.accepted then 0 else 1)

/-- The texts of the handshake have fixed lengths. -/
@[simp] theorem length_bannerBytes (flags : ℕ) : (bannerBytes flags).length = 18 := by
  simp [bannerBytes, nbdMagic]

@[simp] theorem length_exportReply (size flags : ℕ) : (exportReply size flags).length = 134 := by
  simp [exportReply]

@[simp] theorem length_clientFlags : clientFlags.length = 4 := length_toBe 4 1

@[simp] theorem length_optionRequest : optionRequest.length = 16 := by
  simp [optionRequest]

/-- The banner of a newstyle server passes the checks. -/
theorem checkBanner_bannerBytes (flags : ℕ) : checkBanner (bannerBytes flags) = .ok () := by
  have hmagic : slice (bannerBytes flags) 0 8 = nbdMagic := by
    simpa [bannerBytes] using slice_field [] (toBe 8 ihaveoptMagic ++ toBe 2 flags) rfl
      (show nbdMagic.length = 8 from rfl)
  have hopt : slice (bannerBytes flags) 8 8 = toBe 8 ihaveoptMagic := by
    simpa [bannerBytes] using slice_field nbdMagic (toBe 2 flags) (i := 8) rfl
      (length_toBe 8 ihaveoptMagic)
  rw [checkBanner, hmagic, hopt, ofBe_toBe (by norm_num [ihaveoptMagic])]
  simp

/-- The client asks for the export with the empty name. -/
theorem requestedExport_complete : requestedExport (clientFlags ++ optionRequest) = some [] := by
  decide

/-- The server does not see an option before it is complete. -/
theorem requestedExport_short {received : List UInt8} (h : received.length < 20) :
    requestedExport received = none := by
  rw [requestedExport, if_pos h]

/-- The size of the export stands at the front of the answer. -/
theorem ofBe_exportReply {size flags : ℕ} (h : size < 2^64) :
    ofBe (slice (exportReply size flags) 0 8) = size := by
  have hfield : slice (exportReply size flags) 0 8 = toBe 8 size := by
    simpa [exportReply] using slice_field [] (toBe 2 flags ++ List.replicate 124 0) rfl
      (length_toBe 8 size)
  rw [hfield, ofBe_toBe (w := 8) h]

section Handshake

variable {server : Server} {g : Greeting} {e : SessionEvent} {phase : Phase}

/-- A piece of a text is written. -/
theorem Greeting.write_cases {rest : List UInt8} {next : List UInt8 → Greeter} {n : ℕ}
    (h : g.write rest next n = some phase) : 0 < n ∧ n ≤ rest.length ∧
      phase = .greeting { g with
        client := next (rest.drop n), received := g.received ++ rest.take n } := by
  unfold Greeting.write at h
  -- A write of no bytes, or of more than there are, is no event.
  split at h
  · rename_i hn
    exact ⟨hn.1, hn.2, (Option.some.inj h).symm⟩
  · cases h

/-- A piece of a text is moved from its second part to its first. -/
theorem append_take_drop {α : Type} {a b whole : List α} (h : a ++ b = whole) (n : ℕ) :
    (a ++ b.take n) ++ b.drop n = whole := by
  rw [List.append_assoc, List.take_append_drop, h]

/-- The banner is read piece by piece. -/
theorem Greeted.receive_banner {got unread : List UInt8} {n : ℕ}
    (hwhole : got ++ unread = bannerBytes server.handshakeFlags)
    (h : Greeting.receive ⟨.banner got, [], true, false, unread⟩ n = some phase) :
    ∃ g', phase = .greeting g' ∧ Greeted server g' ∧
      g'.left < (⟨.banner got, [], true, false, unread⟩ : Greeting).left := by
  have hlength := congrArg List.length hwhole
  rw [List.length_append, length_bannerBytes] at hlength
  -- What has been read and what has not still make up the banner.
  have hsplit := append_take_drop hwhole n
  simp only [Greeting.receive] at h
  split at h
  · rename_i hn
    have hpiece : (got ++ unread.take n).length = got.length + n := by
      rw [List.length_append, List.length_take]
      omega
    split at h
    · rename_i hshort
      obtain rfl := Option.some.inj h
      refine ⟨_, rfl, .banner _ _ hsplit hshort, ?_⟩
      simp only [Greeting.left, Greeter.left, hpiece]
      omega
    · -- The banner is complete, so nothing is unread, and it passes the checks.
      rename_i hfull
      have hrest : unread.drop n = [] := List.drop_eq_nil_of_le (by omega)
      rw [hrest, List.append_nil] at hsplit
      rw [hsplit, checkBanner_bannerBytes, hrest] at h
      obtain rfl := Option.some.inj h
      refine ⟨_, rfl, .flags [] _ rfl, ?_⟩
      simp only [Greeting.left, Greeter.left, length_clientFlags]
      omega
  · cases h

/-- The answer of the server is read piece by piece, and the session is open when it is complete. -/
theorem Greeted.receive_offer {got unread : List UInt8} {n : ℕ}
    (hwhole : got ++ unread = exportReply server.disk.length server.transmissionFlags)
    (hlen : got.length < 134)
    (h : Greeting.receive ⟨.offer got, clientFlags ++ optionRequest, true, true, unread⟩ n =
      some phase) :
    (∃ g', phase = .greeting g' ∧ Greeted server g' ∧ g'.left <
        (⟨.offer got, clientFlags ++ optionRequest, true, true, unread⟩ : Greeting).left) ∨
      phase = .opened server.disk.length start := by
  have hlength := congrArg List.length hwhole
  rw [List.length_append, length_exportReply] at hlength
  have hsplit := append_take_drop hwhole n
  simp only [Greeting.receive] at h
  split at h
  · rename_i hn
    have hpiece : (got ++ unread.take n).length = got.length + n := by
      rw [List.length_append, List.length_take]
      omega
    split at h
    · rename_i hshort
      obtain rfl := Option.some.inj h
      refine Or.inl ⟨_, rfl, .offer _ _ hsplit hshort, ?_⟩
      simp only [Greeting.left, Greeter.left, hpiece]
      omega
    · -- The answer is complete, and its first eight bytes are the size of the disk.
      rename_i hfull
      have hrest : unread.drop n = [] := List.drop_eq_nil_of_le (by omega)
      rw [hrest, List.append_nil] at hsplit
      rw [hsplit, ofBe_exportReply server.fits, hrest] at h
      exact Or.inr (Option.some.inj h).symm
  · cases h

/-- The handshake goes on as the protocol says, up to the answer of the server. -/
theorem Greeted.step (hg : Greeted server g)
    (h : g.step server e = some phase) :
    (∃ g', phase = .greeting g' ∧ Greeted server g' ∧ g'.left < g.left) ∨
      (phase = .opened server.disk.length start ∧ 0 < g.left) := by
  cases hg with
  -- Until the server sends its banner the client has nothing to read.
  | silent =>
    cases e with
    | announce =>
      obtain rfl := Option.some.inj h
      exact Or.inl ⟨_, rfl, .banner [] _ rfl (by simp), by simp [Greeting.left]⟩
    | receive n =>
      simp [Greeting.step, Greeting.receive] at h
      omega
    | _ => cases h
  | banner got unread hwhole hlen =>
    cases e with
    | receive n => exact Or.inl (Greeted.receive_banner hwhole h)
    | _ => cases h
  -- Four bytes are too few for the server to see an option.
  | flags received rest hwhole =>
    have hlength := congrArg List.length hwhole
    rw [List.length_append, length_clientFlags] at hlength
    cases e with
    | write n =>
      obtain ⟨hpos, hn, rfl⟩ := Greeting.write_cases h
      refine Or.inl ⟨_, rfl, .flags _ _ (append_take_drop hwhole n), ?_⟩
      simp only [Greeting.left, Greeter.left, List.length_drop]
      omega
    | flush =>
      cases rest with
      | nil =>
        obtain rfl := Option.some.inj h
        rw [List.append_nil] at hwhole
        subst hwhole
        exact Or.inl ⟨_, rfl, .option _ _ rfl, by simp [Greeting.left, Greeter.left]⟩
      | cons b rest => cases h
    | accept =>
      simp [Greeting.step, requestedExport_short (show received.length < 20 by omega)] at h
    | _ => cases h
  -- The server answers once the option is complete, before or after the client has flushed it.
  | option received rest hwhole =>
    have hlength := congrArg List.length hwhole
    rw [List.length_append, List.length_append, length_clientFlags, length_optionRequest] at hlength
    cases e with
    | write n =>
      obtain ⟨hpos, hn, rfl⟩ := Greeting.write_cases h
      refine Or.inl ⟨_, rfl, .option _ _ (append_take_drop hwhole n), ?_⟩
      simp only [Greeting.left, Greeter.left, List.length_drop]
      omega
    | flush =>
      cases rest with
      | nil =>
        obtain rfl := Option.some.inj h
        rw [List.append_nil] at hwhole
        subst hwhole
        exact Or.inl ⟨_, rfl, .offerWaiting, by simp [Greeting.left, Greeter.left]⟩
      | cons b rest => cases h
    | accept =>
      cases rest with
      | nil =>
        rw [List.append_nil] at hwhole
        subst hwhole
        simp only [Greeting.step, requestedExport_complete, Bool.false_eq_true, if_false, if_true]
          at h
        obtain rfl := Option.some.inj h
        exact Or.inl ⟨_, rfl, .optionAccepted, by simp [Greeting.left]⟩
      | cons b rest =>
        rw [List.length_cons] at hlength
        simp [Greeting.step, requestedExport_short (show received.length < 20 by omega)] at h
    | _ => cases h
  -- The answer came before the flush: the client has not started to read it.
  | optionAccepted =>
    cases e with
    | flush =>
      obtain rfl := Option.some.inj h
      exact Or.inl ⟨_, rfl, .offer [] _ rfl (by simp), by simp [Greeting.left, Greeter.left]⟩
    | write n =>
      obtain ⟨hpos, hn, -⟩ := Greeting.write_cases h
      rw [List.length_nil] at hn
      omega
    | _ => cases h
  -- The client waits for the answer, and only the server can move.
  | offerWaiting =>
    cases e with
    | accept =>
      simp only [Greeting.step, requestedExport_complete, Bool.false_eq_true, if_false, if_true]
        at h
      obtain rfl := Option.some.inj h
      exact Or.inl ⟨_, rfl, .offer [] _ rfl (by simp), by simp [Greeting.left]⟩
    | receive n =>
      simp [Greeting.step, Greeting.receive] at h
      omega
    | _ => cases h
  | offer got unread hwhole hlen =>
    cases e with
    | receive n =>
      refine (Greeted.receive_offer hwhole hlen h).imp_right fun hopened => ⟨hopened, ?_⟩
      simp only [Greeting.left, Greeter.left]
      omega
    | _ => cases h

/-- Some event of the handshake can always happen. -/
theorem Greeted.enabled (hg : Greeted server g) : ∃ e phase, g.step server e = some phase := by
  cases hg with
  | silent => exact ⟨.announce, _, rfl⟩
  -- What is missing of the banner is unread, so that one byte of it can be read.
  | banner got unread hwhole hlen =>
    have hlength := congrArg List.length hwhole
    rw [List.length_append, length_bannerBytes] at hlength
    refine ⟨.receive 1, ?_⟩
    simp only [Greeting.step, Greeting.receive]
    rw [if_pos (by omega)]
    split
    · exact ⟨_, rfl⟩
    · split <;> exact ⟨_, rfl⟩
  | flags received rest hwhole =>
    cases rest with
    | nil => exact ⟨.flush, _, rfl⟩
    | cons b rest =>
      refine ⟨.write 1, ?_⟩
      simp only [Greeting.step, Greeting.write]
      exact ⟨_, if_pos (by simp)⟩
  | option received rest hwhole =>
    cases rest with
    | nil => exact ⟨.flush, _, rfl⟩
    | cons b rest =>
      refine ⟨.write 1, ?_⟩
      simp only [Greeting.step, Greeting.write]
      exact ⟨_, if_pos (by simp)⟩
  | optionAccepted => exact ⟨.flush, _, rfl⟩
  | offerWaiting =>
    refine ⟨.accept, ?_⟩
    simp only [Greeting.step, requestedExport_complete, Bool.false_eq_true, if_false, if_true]
    exact ⟨_, rfl⟩
  | offer got unread hwhole hlen =>
    have hlength := congrArg List.length hwhole
    rw [List.length_append, length_exportReply] at hlength
    refine ⟨.receive 1, ?_⟩
    simp only [Greeting.step, Greeting.receive]
    rw [if_pos (by omega)]
    split
    · exact ⟨_, rfl⟩
    · exact ⟨_, rfl⟩

end Handshake

end VmSpect.Nbd
