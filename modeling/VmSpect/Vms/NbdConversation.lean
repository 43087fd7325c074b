import VmSpect.Vms.NbdHandshake
import VmSpect.Vms.NbdReads

/-!
# Sessions over NBD from end to end

A session with a server that conforms to the protocol, in which nothing times out: the handshake
tells the size of the export, and every call returns the bytes of the disk, however the streams are
cut into pieces. Between two calls nothing is under way (`Conversation.idle`), and during a call
what is under way is the rest of its request or the rest of its reply (`Exchange`). Every event
brings the session closer to its end (`Session.left`), so that a session that cannot go on has made
all of its calls.
-/

namespace VmSpect.Nbd

open Bytes Words Interleaving

/-! ## What a session is meant to do -/

/-- A call that reads nothing, and sends no request. -/
def Vacant (D : List UInt8) (c : ℕ × ℕ) : Prop := c.2 = 0 ∨ D.length ≤ c.1

instance decidableVacant (D : List UInt8) (c : ℕ × ℕ) : Decidable (Vacant D c) := by
  unfold Vacant
  infer_instance

/-- A call with the answer that it is meant to get: the bytes of the disk, up to its end. -/
def answer (D : List UInt8) (c : ℕ × ℕ) : Result := ⟨c.1, c.2, .ok (slice D c.1 c.2)⟩

/-- The request id after some calls. -/
def nextId (D : List UInt8) : ℕ → List (ℕ × ℕ) → ℕ
  | id, [] => id
  | id, c :: rest => if Vacant D c then nextId D id rest else nextId D (addw id 1) rest

/-- The requests that some calls are meant to send. -/
def requestsOf (D : List UInt8) : ℕ → List (ℕ × ℕ) → List Request
  | _, [] => []
  | id, c :: rest =>
    if Vacant D c then requestsOf D id rest
    else ⟨cmdRead, id, c.1, min c.2 (D.length - c.1)⟩ :: requestsOf D (addw id 1) rest

/-- The requests that have reached the server: those that it has replied to, and those that it still
holds. -/
def Session.sent (σ : Session) : List Request :=
  match σ.phase with
  | .opened _ s => σ.served ++ s.pending
  | _ => σ.served

/-- What holds in every state of a session with a server, for the calls that are to be made. -/
structure Session.Correct (server : Server) (calls : List (ℕ × ℕ)) (σ : Session) : Prop where
  /-- The handshake does not fail. -/
  greeted : ∀ e, σ.phase ≠ .failed e
  /-- It tells the size of the export. -/
  exportSize : ∀ size s, σ.phase = .opened size s → size = server.disk.length
  /-- The calls that have returned got their answers. -/
  results : ∀ size s, σ.phase = .opened size s →
    s.results = (calls.take s.results.length).map (answer server.disk)
  /-- The server has decoded the requests of the calls. -/
  requests : σ.sent <+: requestsOf server.disk 1 calls
  /-- A request does not have the handle of one of the `2^64 - 1` requests before it. -/
  fresh : ∀ (i j : ℕ) (r r' : Request), σ.sent[i]? = some r → σ.sent[j]? = some r' → i < j →
    j < i + 2^64 → r.handle ≠ r'.handle
  /-- When no call is under way, all that the server has sent or is going to send has been read. -/
  settled : ∀ size s, σ.phase = .opened size s → s.client = .idle →
    s.unread = [] ∧ s.pending = [] ∧ s.partialRequest = []

/-- All calls have been made and have returned, after all of their requests. -/
structure Session.Finished (server : Server) (calls : List (ℕ × ℕ)) (σ : Session) : Prop where
  opened : ∃ s, σ.phase = .opened server.disk.length s ∧ s.client = .idle ∧
    s.results = calls.map (answer server.disk)
  made : σ.calls = []
  requests : σ.served = requestsOf server.disk 1 calls

/-! ## One call -/

/-- A call that sends a request: it reads at least one byte and fewer than `2^32`. -/
structure Call.Regular (D : List UInt8) (call : Call) : Prop where
  sound : call.Sound D
  offset_lt : call.offset < 2^64
  pos : 0 < call.adjustedLen
  small : call.adjustedLen < 2^32

/-- The reply to a call. -/
def Call.reply (D : List UInt8) (call : Call) : List UInt8 :=
  replyHeader 0 call.id ++ slice D call.offset call.adjustedLen

/-- What the client and the server have exchanged during a call, and whether the server has
replied. -/
inductive Exchange (D : List UInt8) (call : Call) :
    Client → List UInt8 → List Request → List UInt8 → Bool → Prop where
  | writing (front rest : List UInt8)
      (h : front ++ rest = requestBytes call.id call.offset call.adjustedLen) (hrest : rest ≠ []) :
      Exchange D call (.sending call rest) front [] [] false
  | sent : Exchange D call (.sending call []) [] [call.request] [] false
  | sentReplied : Exchange D call (.sending call []) [] [] (call.reply D) true
  | waiting : Exchange D call (.header call []) [] [call.request] [] false
  | header (got unread : List UInt8) (h : got ++ unread = call.reply D) (hlen : got.length < 16) :
      Exchange D call (.header call got) [] [] unread true
  | payload (got unread : List UInt8) (h : got ++ unread = slice D call.offset call.adjustedLen)
      (hlen : got.length < call.adjustedLen) :
      Exchange D call (.payload call got) [] [] unread true

/-- How many bytes and steps a call has ahead of it, apart from the reply of the server. -/
def Client.left : Client → ℕ
  | .idle => 0
  | .sending call rest => rest.length + 17 + call.adjustedLen
  | .header call got => 16 - got.length + call.adjustedLen
  | .payload call got => call.adjustedLen - got.length

/-- The replies that are to come. -/
def State.repliesDue (s : State) : ℕ :=
  s.pending.length + match s.client with
    | .sending _ (_ :: _) => 1
    | _ => 0

/-- How much is left of a call. -/
def State.left (s : State) : ℕ := s.client.left + s.repliesDue

/-- The state of an open session during a call, by what has been exchanged. -/
def during (requestId : ℕ) (results : List Result) (client : Client) (partialRequest : List UInt8)
    (pending : List Request) (unread : List UInt8) : State where
  client := client
  requestId := requestId
  results := results
  partialRequest := partialRequest
  pending := pending
  poisoned := false
  closed := false
  unread := unread

section Call

variable {D : List UInt8} {call : Call} {id : ℕ} {results : List Result} {t : State}

/-- The data of a regular call. -/
theorem Call.Regular.length_slice (hcall : call.Regular D) :
    (slice D call.offset call.adjustedLen).length = call.adjustedLen := by
  have hinside := hcall.sound.inside
  rw [Bytes.length_slice]
  omega

/-- The header of the reply passes the checks. -/
theorem checkHeader_replyHeader {id : ℕ} (h : id < 2^64) :
    checkHeader id (replyHeader 0 id) = .ok () := by
  have hmagic : slice (replyHeader 0 id) 0 4 = toBe 4 replyMagic := by
    simpa [replyHeader] using slice_field [] (toBe 4 0 ++ toBe 8 id) rfl (length_toBe 4 replyMagic)
  have herror : slice (replyHeader 0 id) 4 4 = toBe 4 0 := by
    simpa [replyHeader] using slice_field (toBe 4 replyMagic) (toBe 8 id) (i := 4)
      (length_toBe 4 replyMagic) (length_toBe 4 0)
  have hhandle : slice (replyHeader 0 id) 8 8 = toBe 8 id := by
    simpa [replyHeader] using slice_field (toBe 4 replyMagic ++ toBe 4 0) [] (i := 8) (by simp)
      (length_toBe 8 id)
  rw [checkHeader, hmagic, herror, hhandle, ofBe_toBe (by norm_num [replyMagic]),
    ofBe_toBe (by norm_num), ofBe_toBe (w := 8) h]
  simp

/-- The server replies to a regular call with the data of the disk. -/
theorem Call.Regular.replyBytes (hcall : call.Regular D) :
    replyBytes D call.request 0 = some (call.reply D) := by
  have hinside := hcall.sound.inside
  have hmod : call.adjustedLen % 2^32 = call.adjustedLen := Nat.mod_eq_of_lt hcall.small
  unfold Nbd.replyBytes Call.request Call.reply
  rw [hmod, if_pos rfl, if_pos ⟨rfl, hinside⟩]

variable {client : Client} {front unread : List UInt8} {pending : List Request}
  {replied : Bool}

/-- What an event makes of a call: it goes on, or it returns the bytes of the disk after all of the
reply has been read. -/
def Advances (D : List UInt8) (call : Call) (id : ℕ) (results : List Result) (s : State)
    (replied : Bool) (t : State) : Prop :=
  (∃ client front pending unread,
    t = during id results client front pending unread ∧
      Exchange D call client front pending unread replied ∧ t.left < s.left) ∨
  (replied = true ∧ t = during id (results ++ [answer D (call.offset, call.len)]) .idle [] [] [] ∧
    t.left < s.left)

/-- What is left of a call that is still writing: the reply is to come. -/
theorem State.left_writing {rest : List UInt8} (hrest : rest ≠ []) :
    (during id results (.sending call rest) front [] []).left =
      rest.length + 18 + call.adjustedLen := by
  obtain ⟨b, tail, rfl⟩ := List.exists_cons_of_ne_nil hrest
  simp only [State.left, State.repliesDue, Client.left, during, List.length_nil]
  omega

/-- A piece of the request reaches the server, which waits for the rest of it. -/
theorem serverReceive_short {bytes : List UInt8} (h : (front ++ bytes).length < 28) :
    (during id results client front [] []).serverReceive bytes =
      during id results client (front ++ bytes) [] [] := by
  unfold during State.serverReceive
  rw [if_neg Bool.false_ne_true, if_pos h]

/-- The last piece of the request reaches the server, which reads it as it was meant. -/
theorem serverReceive_complete (hcall : call.Regular D) {bytes : List UInt8}
    (h : front ++ bytes = requestBytes call.id call.offset call.adjustedLen) :
    (during id results client front [] []).serverReceive bytes =
      during id results client [] [call.request] [] := by
  unfold during State.serverReceive
  rw [if_neg Bool.false_ne_true, h, if_neg (by simp), List.take_of_length_le (by simp),
    List.drop_of_length_le (by simp),
    parseRequest_requestBytes hcall.sound.id_lt hcall.offset_lt]
  rfl

/-- A piece of the request is written. -/
theorem Exchange.write (hcall : call.Regular D)
    (h : Exchange D call client front pending unread replied) {n : ℕ}
    (hstep : Nbd.step D (.write n) (during id results client front pending unread) = some t) :
    Advances D call id results (during id results client front pending unread) replied t := by
  cases h with
  | writing _ rest hwhole hrest =>
    have hlength := congrArg List.length hwhole
    rw [List.length_append, length_requestBytes] at hlength
    have hsplit := append_take_drop hwhole n
    have hpos : 0 < rest.length := List.length_pos_iff.mpr hrest
    by_cases hn : 0 < n ∧ n ≤ rest.length
    · replace hstep := (if_pos hn).symm.trans hstep
      obtain rfl := Option.some.inj hstep
      refine Or.inl ?_
      by_cases hshort : n < rest.length
      · -- The request is not complete yet.
        have hne : rest.drop n ≠ [] := List.ne_nil_of_length_pos (by rw [List.length_drop]; omega)
        rw [serverReceive_short (by rw [List.length_append, List.length_take]; omega)]
        refine ⟨_, _, _, _, rfl, .writing _ _ hsplit hne, ?_⟩
        have hleft : (during id results (.sending call (rest.drop n)) (front ++ rest.take n)
            [] []).left = rest.length - n + 18 + call.adjustedLen := by
          rw [State.left_writing hne, List.length_drop]
        rw [State.left_writing hrest]
        exact hleft.trans_lt (by omega)
      · have hdrop : rest.drop n = [] := List.drop_eq_nil_of_le (by omega)
        rw [hdrop, List.append_nil] at hsplit
        rw [serverReceive_complete hcall hsplit, hdrop]
        refine ⟨_, _, _, _, rfl, .sent, ?_⟩
        rw [State.left_writing hrest]
        simp only [State.left, State.repliesDue, Client.left, during, List.length_cons,
          List.length_nil]
        omega
    · cases (if_neg hn).symm.trans hstep
  | sent =>
    simp [Nbd.step, during] at hstep
    omega
  | sentReplied =>
    simp [Nbd.step, during] at hstep
    omega
  | waiting => cases hstep
  | header got unread hwhole hlen => cases hstep
  | payload got unread hwhole hlen => cases hstep

/-- The request has been written, and is flushed. -/
theorem Exchange.flush (h : Exchange D call client front pending unread replied)
    (hstep : Nbd.step D .flush (during id results client front pending unread) = some t) :
    Advances D call id results (during id results client front pending unread) replied t := by
  cases h with
  | writing _ rest hwhole hrest =>
    obtain ⟨b, tail, rfl⟩ := List.exists_cons_of_ne_nil hrest
    cases hstep
  | sent =>
    obtain rfl := Option.some.inj hstep
    refine Or.inl ⟨_, _, _, _, rfl, .waiting, ?_⟩
    simp [State.left, State.repliesDue, Client.left, during]
  | sentReplied =>
    obtain rfl := Option.some.inj hstep
    refine Or.inl ⟨_, _, _, _, rfl, .header [] _ rfl (by simp), ?_⟩
    simp [State.left, State.repliesDue, Client.left, during]
  | waiting => cases hstep
  | header got unread hwhole hlen => cases hstep
  | payload got unread hwhole hlen => cases hstep

/-- A piece of the header is read. -/
theorem Exchange.receive_header (hcall : call.Regular D) {got : List UInt8} {n : ℕ}
    (hwhole : got ++ unread = call.reply D) (hlen : got.length < 16)
    (hstep : (during id results (.header call got) [] [] unread).receive n = some t) :
    Advances D call id results (during id results (.header call got) [] [] unread) true t := by
  have hlength := congrArg List.length hwhole
  rw [List.length_append, Call.reply, List.length_append, length_replyHeader, hcall.length_slice]
    at hlength
  have hsmall := hcall.small
  unfold during at hstep
  simp only [State.receive] at hstep
  by_cases hn : 0 < n ∧ n ≤ 16 - got.length ∧ n ≤ unread.length
  · -- The reply is only cut in another place.
    rw [if_pos hn] at hstep
    have hsplit := append_take_drop hwhole n
    have hpiece : (got ++ unread.take n).length = got.length + n := by
      rw [List.length_append, List.length_take]
      omega
    by_cases hshort : (got ++ unread.take n).length < 16
    · rw [if_pos hshort] at hstep
      obtain rfl := Option.some.inj hstep
      refine Or.inl ⟨_, _, _, _, rfl, .header _ _ hsplit hshort, ?_⟩
      simp only [State.left, State.repliesDue, Client.left, during, hpiece, List.length_nil]
      omega
    · -- The pieces make up the header, and the data is left to be read.
      rw [if_neg hshort] at hstep
      obtain ⟨hheader, hdata⟩ := List.append_inj hsplit (by rw [length_replyHeader]; omega)
      rw [hheader, checkHeader_replyHeader hcall.sound.id_lt, hdata] at hstep
      dsimp only at hstep
      rw [if_neg (by rw [maxVecLen]; omega)] at hstep
      obtain rfl := Option.some.inj hstep
      refine Or.inl ⟨_, _, _, _, rfl, .payload [] _ rfl hcall.pos, ?_⟩
      simp only [State.left, State.repliesDue, Client.left, during, List.length_nil]
      omega
  · rw [if_neg hn] at hstep
    cases hstep

/-- A piece of the data is read. -/
theorem Exchange.receive_payload (hcall : call.Regular D) {got : List UInt8} {n : ℕ}
    (hwhole : got ++ unread = slice D call.offset call.adjustedLen)
    (hlen : got.length < call.adjustedLen)
    (hstep : (during id results (.payload call got) [] [] unread).receive n = some t) :
    Advances D call id results (during id results (.payload call got) [] [] unread) true t := by
  have hlength := congrArg List.length hwhole
  rw [List.length_append, hcall.length_slice] at hlength
  unfold during at hstep
  simp only [State.receive] at hstep
  by_cases hn : 0 < n ∧ n ≤ call.adjustedLen - got.length ∧ n ≤ unread.length
  · rw [if_pos hn] at hstep
    have hsplit := append_take_drop hwhole n
    have hpiece : (got ++ unread.take n).length = got.length + n := by
      rw [List.length_append, List.length_take]
      omega
    by_cases hshort : (got ++ unread.take n).length < call.adjustedLen
    · rw [if_pos hshort] at hstep
      obtain rfl := Option.some.inj hstep
      refine Or.inl ⟨_, _, _, _, rfl, .payload _ _ hsplit hshort, ?_⟩
      simp only [State.left, State.repliesDue, Client.left, during, hpiece, List.length_nil]
      omega
    · -- The last piece: all of the reply has been read, and the data is that of the disk.
      have hrest : unread.drop n = [] := List.drop_eq_nil_of_le (by omega)
      rw [hrest, List.append_nil] at hsplit
      rw [if_neg hshort, hsplit, hrest, hcall.sound.adjusted, slice_min_length] at hstep
      obtain rfl := Option.some.inj hstep
      refine Or.inr ⟨rfl, rfl, ?_⟩
      simp only [State.left, State.repliesDue, Client.left, during, State.finish, List.length_nil]
      omega
  · rw [if_neg hn] at hstep
    cases hstep

/-- A piece of the reply is read. -/
theorem Exchange.receive (hcall : call.Regular D)
    (h : Exchange D call client front pending unread replied) {n : ℕ}
    (hstep : (during id results client front pending unread).receive n = some t) :
    Advances D call id results (during id results client front pending unread) replied t := by
  cases h with
  | writing _ rest hwhole hrest => cases hstep
  | sent => cases hstep
  | sentReplied => cases hstep
  | waiting =>
    simp [State.receive, during] at hstep
    omega
  | header got unread hwhole hlen => exact Exchange.receive_header hcall hwhole hlen hstep
  | payload got unread hwhole hlen => exact Exchange.receive_payload hcall hwhole hlen hstep

/-- The server replies, to the call and once. -/
theorem Exchange.reply (hcall : call.Regular D)
    (h : Exchange D call client front pending unread replied) {i : ℕ} {r : Request}
    (hr : pending[i]? = some r)
    (hstep : Nbd.step D (.reply i 0) (during id results client front pending unread) =
      some t) :
    r = call.request ∧ replied = false ∧
      Advances D call id results (during id results client front pending unread) true t := by
  -- At most one request is held, the one of this call.
  have hpending : ∀ {r : Request}, [call.request][i]? = some r → i = 0 ∧ r = call.request := by
    intro r hr
    cases i with
    | zero => exact ⟨rfl, (Option.some.inj hr).symm⟩
    | succ i => cases hr
  cases h with
  | writing _ rest hwhole hrest => cases hr
  | sent =>
    obtain ⟨rfl, rfl⟩ := hpending hr
    simp only [Nbd.step, during, List.getElem?_cons_zero, hcall.replyBytes] at hstep
    obtain rfl := Option.some.inj hstep
    refine ⟨rfl, rfl, Or.inl ⟨_, _, _, _, rfl, .sentReplied, ?_⟩⟩
    simp [State.left, State.repliesDue, Client.left, during]
  | sentReplied => cases hr
  | waiting =>
    obtain ⟨rfl, rfl⟩ := hpending hr
    simp only [Nbd.step, during, List.getElem?_cons_zero, hcall.replyBytes] at hstep
    obtain rfl := Option.some.inj hstep
    refine ⟨rfl, rfl, Or.inl ⟨_, _, _, _, rfl, .header [] _ rfl (by simp), ?_⟩⟩
    simp [State.left, State.repliesDue, Client.left, during]
  | header got unread hwhole hlen => cases hr
  | payload got unread hwhole hlen => cases hr

/-- `read_exact_until` can read what has come of the header or of the data. -/
theorem State.receive_enabled {s : State} {call : Call} {got : List UInt8} {n : ℕ} (hn : 0 < n)
    (hunread : n ≤ s.unread.length)
    (h : (s.client = .header call got ∧ n ≤ 16 - got.length) ∨
      (s.client = .payload call got ∧ n ≤ call.adjustedLen - got.length)) :
    ∃ t, s.receive n = some t := by
  unfold State.receive
  rcases h with ⟨hclient, hroom⟩ | ⟨hclient, hroom⟩
  · rw [hclient]
    dsimp only
    rw [if_pos ⟨hn, hroom, hunread⟩]
    split
    · exact ⟨_, rfl⟩
    · split
      · exact ⟨_, rfl⟩
      · split <;> exact ⟨_, rfl⟩
  · rw [hclient]
    dsimp only
    rw [if_pos ⟨hn, hroom, hunread⟩]
    split <;> exact ⟨_, rfl⟩

/-- A call that has not returned can go on, by an event of one of the parties. -/
theorem Exchange.enabled (id : ℕ) (results : List Result) (hcall : call.Regular D)
    (h : Exchange D call client front pending unread replied) :
    ∃ t, Nbd.step D (.write 1) (during id results client front pending unread) = some t ∨
      Nbd.step D .flush (during id results client front pending unread) = some t ∨
      Nbd.step D (.receive 1) (during id results client front pending unread) = some t ∨
      (pending = [call.request] ∧
        Nbd.step D (.reply 0 0) (during id results client front pending unread) = some t) := by
  cases h with
  | writing _ rest hwhole hrest =>
    have hpos : 0 < rest.length := List.length_pos_iff.mpr hrest
    exact ⟨_, Or.inl (if_pos ⟨Nat.one_pos, hpos⟩)⟩
  | sent => exact ⟨_, Or.inr (Or.inl rfl)⟩
  | sentReplied => exact ⟨_, Or.inr (Or.inl rfl)⟩
  -- The client waits, and the server can reply.
  | waiting =>
    obtain ⟨t, ht⟩ : ∃ t, Nbd.step D (.reply 0 0)
        (during id results (.header call []) [] [call.request] []) = some t := by
      simp only [Nbd.step, during, List.getElem?_cons_zero, hcall.replyBytes]
      exact ⟨_, rfl⟩
    exact ⟨t, Or.inr (Or.inr (Or.inr ⟨rfl, ht⟩))⟩
  | header got _ hwhole hlen =>
    have hlength := congrArg List.length hwhole
    rw [List.length_append, Call.reply, List.length_append, length_replyHeader, hcall.length_slice]
      at hlength
    obtain ⟨t, ht⟩ := State.receive_enabled
      (s := during id results (.header call got) [] [] unread) Nat.one_pos
      (show 1 ≤ unread.length by omega) (Or.inl ⟨rfl, by omega⟩)
    exact ⟨t, Or.inr (Or.inr (Or.inl ht))⟩
  | payload got _ hwhole hlen =>
    have hlength := congrArg List.length hwhole
    rw [List.length_append, hcall.length_slice] at hlength
    obtain ⟨t, ht⟩ := State.receive_enabled
      (s := during id results (.payload call got) [] [] unread) Nat.one_pos
      (show 1 ≤ unread.length by omega) (Or.inr ⟨rfl, by omega⟩)
    exact ⟨t, Or.inr (Or.inr (Or.inl ht))⟩

end Call

/-! ## The requests of a sequence of calls -/

section Requests

variable {D : List UInt8}

/-- The ids of a sequence of calls go on where those of its first part end. -/
theorem nextId_append (id : ℕ) (done rest : List (ℕ × ℕ)) :
    nextId D id (done ++ rest) = nextId D (nextId D id done) rest := by
  induction done generalizing id with
  | nil => rfl
  | cons c done ih =>
    rw [List.cons_append, nextId, nextId]
    split
    · exact ih id
    · exact ih (addw id 1)

/-- The requests of a sequence of calls, likewise. -/
theorem requestsOf_append (id : ℕ) (done rest : List (ℕ × ℕ)) :
    requestsOf D id (done ++ rest) =
      requestsOf D id done ++ requestsOf D (nextId D id done) rest := by
  induction done generalizing id with
  | nil => rfl
  | cons c done ih =>
    rw [List.cons_append, requestsOf, requestsOf, nextId]
    split
    · exact ih id
    · rw [ih (addw id 1), List.cons_append]

/-- Ids stay words. -/
theorem nextId_lt {id : ℕ} (h : id < 2^64) (calls : List (ℕ × ℕ)) : nextId D id calls < 2^64 := by
  induction calls generalizing id with
  | nil => exact h
  | cons c calls ih =>
    rw [nextId]
    split
    · exact ih h
    · exact ih (addw_lt id 1)

/-- The handles count the requests. -/
theorem handle_requestsOf {id : ℕ} (h : id < 2^64) {calls : List (ℕ × ℕ)} {i : ℕ} {r : Request}
    (hr : (requestsOf D id calls)[i]? = some r) : r.handle = (id + i) % 2^64 := by
  induction calls generalizing id i with
  | nil => cases hr
  | cons c calls ih =>
    rw [requestsOf] at hr
    split at hr
    · exact ih h hr
    · cases i with
      | zero =>
        obtain rfl := Option.some.inj hr
        exact (Nat.mod_eq_of_lt h).symm
      | succ i =>
        rw [ih (addw_lt id 1) hr, addw, Nat.mod_add_mod, Nat.add_right_comm, Nat.add_assoc]

/-- No two requests have the same handle, unless `2^64 - 1` requests are between them. -/
theorem handle_fresh {calls : List (ℕ × ℕ)} {i j : ℕ} {r r' : Request}
    (hr : (requestsOf D 1 calls)[i]? = some r) (hr' : (requestsOf D 1 calls)[j]? = some r')
    (hlt : i < j) (hnear : j < i + 2^64) : r.handle ≠ r'.handle := by
  rw [handle_requestsOf (by norm_num) hr, handle_requestsOf (by norm_num) hr']
  omega

end Requests

/-! ## The session -/

/-- What one call takes at most, in bytes and steps. -/
def callCost (D : List UInt8) (c : ℕ × ℕ) : ℕ := 47 + min c.2 (D.length - c.1)

/-- How much is left of a phase. -/
def Phase.left : Phase → ℕ
  | .greeting g => g.left
  | .failed _ => 0
  | .opened _ s => s.left

/-- How much is left of a session. -/
def Session.left (server : Server) (σ : Session) : ℕ :=
  σ.phase.left + (σ.calls.map (callCost server.disk)).sum

/-- The session between two calls, after the calls `done`. -/
def Session.between (server : Server) (done rest : List (ℕ × ℕ)) : Session where
  phase := .opened server.disk.length
    (during (nextId server.disk 1 done) (done.map (answer server.disk)) .idle [] [] [])
  calls := rest
  served := requestsOf server.disk 1 done

/-- What a session is in after any run: the handshake, the time between two calls, or a call, with
the calls `done` before it and the calls `rest` after it. -/
inductive Conversation (server : Server) (calls : List (ℕ × ℕ)) : Session → Prop where
  | greeting (g : Greeting) (hg : Greeted server g) :
      Conversation server calls ⟨.greeting g, calls, []⟩
  | idle (done rest : List (ℕ × ℕ)) (h : done ++ rest = calls) :
      Conversation server calls (.between server done rest)
  | busy (done rest : List (ℕ × ℕ)) (call : Call)
      (h : done ++ (call.offset, call.len) :: rest = calls) (hcall : call.Regular server.disk)
      (hid : call.id = nextId server.disk 1 done) (client : Client) (front : List UInt8)
      (pending : List Request) (unread : List UInt8) (replied : Bool)
      (hx : Exchange server.disk call client front pending unread replied) :
      Conversation server calls ⟨.opened server.disk.length
        (during (addw call.id 1) (done.map (answer server.disk)) client front pending unread),
        rest, requestsOf server.disk 1 done ++ if replied then [call.request] else []⟩

section Session

variable {server : Server} {calls done rest : List (ℕ × ℕ)} {call : Call}

/-- A regular call is not vacant. -/
theorem Call.Regular.not_vacant {D : List UInt8} (h : call.Regular D) :
    ¬ Vacant D (call.offset, call.len) := by
  have hadjusted := h.sound.adjusted
  have hpos := h.pos
  rintro (hlen | hoffset)
  · dsimp only at hlen
    omega
  · dsimp only at hoffset
    omega

/-- The request of a regular call is the one that it is meant to send. -/
theorem Call.Regular.requestsOf_eq {D : List UInt8} (h : call.Regular D)
    (hid : call.id = nextId D 1 done) :
    requestsOf D 1 (done ++ [(call.offset, call.len)]) = requestsOf D 1 done ++ [call.request] := by
  rw [requestsOf_append, requestsOf, if_neg h.not_vacant, requestsOf, ← hid, Call.request,
    Nat.mod_eq_of_lt h.small, h.sound.adjusted]

/-- A regular call takes one id. -/
theorem Call.Regular.nextId_eq {D : List UInt8} (h : call.Regular D)
    (hid : call.id = nextId D 1 done) :
    nextId D 1 (done ++ [(call.offset, call.len)]) = addw call.id 1 := by
  rw [nextId_append, nextId, if_neg h.not_vacant, nextId, hid]

/-- A vacant call sends nothing, and takes no id. -/
theorem requestsOf_vacant {D : List UInt8} (done : List (ℕ × ℕ)) {c : ℕ × ℕ} (h : Vacant D c) :
    requestsOf D 1 (done ++ [c]) = requestsOf D 1 done ∧
      nextId D 1 (done ++ [c]) = nextId D 1 done := by
  rw [requestsOf_append, nextId_append, requestsOf, nextId, if_pos h, if_pos h, requestsOf, nextId,
    List.append_nil]
  exact ⟨rfl, rfl⟩

/-- A call that goes on or returns leaves the session as it should be. -/
theorem Conversation.advance (h : done ++ (call.offset, call.len) :: rest = calls)
    (hcall : call.Regular server.disk) (hid : call.id = nextId server.disk 1 done) {s t : State}
    {replied : Bool}
    (ht : Advances server.disk call (addw call.id 1) (done.map (answer server.disk)) s replied t) :
    Conversation server calls ⟨.opened server.disk.length t, rest,
      requestsOf server.disk 1 done ++ if replied then [call.request] else []⟩ ∧
    t.left < s.left := by
  rcases ht with ⟨client, front, pending, unread, rfl, hx, hleft⟩ | ⟨rfl, rfl, hleft⟩
  · exact ⟨.busy done rest call h hcall hid client front pending unread replied hx, hleft⟩
  · refine ⟨?_, hleft⟩
    have hidle : Conversation server calls
        (.between server (done ++ [(call.offset, call.len)]) rest) :=
      .idle _ _ (by rw [List.append_assoc]; exact h)
    unfold Session.between at hidle
    rw [hcall.requestsOf_eq hid, hcall.nextId_eq hid, List.map_append] at hidle
    exact hidle

/-- A call that is made asks for its bytes, or returns at once when there are none. -/
theorem Conversation.of_call {offset len : ℕ} (h : done ++ (offset, len) :: rest = calls)
    (hsmall : min len (server.disk.length - offset) < 2^32) :
    Conversation server calls ⟨.opened server.disk.length
      ((during (nextId server.disk 1 done) (done.map (answer server.disk)) .idle [] [] []).call
        server.disk.length offset len), rest, requestsOf server.disk 1 done⟩ ∧
    ((during (nextId server.disk 1 done) (done.map (answer server.disk)) .idle [] [] []).call
      server.disk.length offset len).left < callCost server.disk (offset, len) := by
  have hfits := server.fits
  unfold State.call
  by_cases hvacant : len = 0 ∨ server.disk.length ≤ offset
  · -- No byte of the disk is asked for, and no request is sent.
    rw [if_pos hvacant]
    have hanswer : answer server.disk (offset, len) = ⟨offset, len, .ok []⟩ := by
      have hnone : (slice server.disk offset len).length = 0 := by
        rw [Bytes.length_slice]
        omega
      rw [answer, List.eq_nil_of_length_eq_zero hnone]
    refine ⟨?_, ?_⟩
    · have hidle : Conversation server calls (.between server (done ++ [(offset, len)]) rest) :=
        .idle _ _ (by rw [List.append_assoc]; exact h)
      unfold Session.between at hidle
      obtain ⟨hrequests, hid⟩ := requestsOf_vacant (c := (offset, len)) done hvacant
      rw [hrequests, hid, List.map_append, List.map_singleton, hanswer] at hidle
      exact hidle
    · simp [State.left, State.repliesDue, Client.left, during, callCost]
  · rw [if_neg hvacant]
    have hid : nextId server.disk 1 done < 2^64 := nextId_lt (by norm_num) done
    have hregular : Call.Regular server.disk
        ⟨nextId server.disk 1 done, offset, len, min len (server.disk.length - offset)⟩ :=
      ⟨⟨hid, by dsimp only; omega, rfl⟩, by dsimp only; omega, by dsimp only; omega, hsmall⟩
    -- The request is still to be written, and no byte of it has reached the server.
    have hne : requestBytes (nextId server.disk 1 done) offset
        (min len (server.disk.length - offset)) ≠ [] := List.ne_nil_of_length_pos (by simp)
    refine ⟨?_, ?_⟩
    · have hbusy := Conversation.busy done rest _ h hregular rfl _ _ _ _ _ (.writing [] _ rfl hne)
      rw [if_neg Bool.false_ne_true, List.append_nil] at hbusy
      exact hbusy
    · refine (State.left_writing hne).trans_lt ?_
      rw [length_requestBytes, callCost]
      dsimp only
      omega

variable {σ τ : Session} {e : SessionEvent}

/-- The events of an open session that are events of its two parties. -/
theorem Session.within_cases {size : ℕ} {s : State} {event : Event}
    (h : σ.within server size s event = some τ) :
    ∃ t, Nbd.step server.disk event s = some t ∧ τ = { σ with phase := .opened size t } := by
  obtain ⟨t, ht, hτ⟩ := Option.map_eq_some_iff.mp h
  exact ⟨t, ht, hτ.symm⟩

/-- No new call is made during a call. -/
theorem Exchange.client_ne_idle {D : List UInt8} {client : Client} {front unread : List UInt8}
    {pending : List Request} {replied : Bool}
    (h : Exchange D call client front pending unread replied) : client ≠ .idle := by
  intro hidle
  cases h <;> cases hidle

/-- One event of a call. -/
theorem Conversation.step_busy (h : done ++ (call.offset, call.len) :: rest = calls)
    (hcall : call.Regular server.disk) (hid : call.id = nextId server.disk 1 done) {client : Client}
    {front unread : List UInt8} {pending : List Request} {replied : Bool}
    (hx : Exchange server.disk call client front pending unread replied)
    (hs : Session.step server e ⟨.opened server.disk.length
      (during (addw call.id 1) (done.map (answer server.disk)) client front pending unread),
      rest, requestsOf server.disk 1 done ++ if replied then [call.request] else []⟩ = some τ) :
    Conversation server calls τ ∧ τ.left server < Session.left server ⟨.opened server.disk.length
      (during (addw call.id 1) (done.map (answer server.disk)) client front pending unread),
      rest, requestsOf server.disk 1 done ++ if replied then [call.request] else []⟩ := by
  cases e with
  | write n =>
    obtain ⟨t, ht, rfl⟩ := Session.within_cases hs
    obtain ⟨hconv, hleft⟩ := Conversation.advance h hcall hid (hx.write hcall ht)
    exact ⟨hconv, Nat.add_lt_add_right hleft _⟩
  | flush =>
    obtain ⟨t, ht, rfl⟩ := Session.within_cases hs
    obtain ⟨hconv, hleft⟩ := Conversation.advance h hcall hid (hx.flush ht)
    exact ⟨hconv, Nat.add_lt_add_right hleft _⟩
  | receive n =>
    obtain ⟨t, ht, rfl⟩ := Session.within_cases hs
    obtain ⟨hconv, hleft⟩ := Conversation.advance h hcall hid (hx.receive hcall ht)
    exact ⟨hconv, Nat.add_lt_add_right hleft _⟩
  -- The only event that adds to the served requests; a call is replied to once.
  | reply i =>
    cases hr : pending[i]? with
    | none => simp [Session.step, during, hr] at hs
    | some r =>
      simp only [Session.step, during, hr] at hs
      obtain ⟨t, ht, rfl⟩ := Session.within_cases hs
      obtain ⟨rfl, rfl, hadvances⟩ := hx.reply hcall hr ht
      obtain ⟨hconv, hleft⟩ := Conversation.advance h hcall hid hadvances
      rw [if_pos rfl] at hconv
      rw [if_neg Bool.false_ne_true, List.append_nil]
      exact ⟨hconv, Nat.add_lt_add_right hleft _⟩
  | call =>
    have hbusy := hx.client_ne_idle
    cases client with
    | idle => exact absurd rfl hbusy
    | _ => cases hs
  | _ => cases hs

/-- Every event keeps the session as it should be, and brings it closer to its end. -/
theorem Conversation.step (hcalls : ∀ c ∈ calls, min c.2 (server.disk.length - c.1) < 2^32)
    (h : Conversation server calls σ) (hs : Session.step server e σ = some τ) :
    Conversation server calls τ ∧ τ.left server < σ.left server := by
  cases h with
  | greeting g hg =>
    obtain ⟨phase, hphase, rfl⟩ := Option.map_eq_some_iff.mp hs
    rcases hg.step hphase with ⟨g', rfl, hg', hleft⟩ | ⟨rfl, hleft⟩
    · exact ⟨.greeting g' hg', Nat.add_lt_add_right hleft _⟩
    · exact ⟨.idle [] calls rfl, Nat.add_lt_add_right hleft _⟩
  -- Between two calls only the caller can move.
  | idle done rest hdone =>
    cases e with
    | call =>
      cases rest with
      | nil => cases hs
      | cons c rest =>
        obtain ⟨offset, len⟩ := c
        obtain rfl := Option.some.inj hs
        have hsmall := hcalls (offset, len) (by simp [← hdone])
        obtain ⟨hconv, hleft⟩ := Conversation.of_call hdone hsmall
        refine ⟨hconv, ?_⟩
        simp only [Session.left, Phase.left, Session.between, List.map_cons, List.sum_cons]
        omega
    | write n => cases hs
    | flush => cases hs
    | receive n => cases hs
    | reply i => cases hs
    | announce => cases hs
    | accept => cases hs
  | busy done rest call hdone hcall hid client front pending unread replied hx =>
    exact Conversation.step_busy hdone hcall hid hx hs

/-- A session goes on until all of its calls have returned. -/
theorem Conversation.enabled (h : Conversation server calls σ) :
    (∃ e τ, Session.step server e σ = some τ) ∨ σ = .between server calls [] := by
  cases h with
  | greeting g hg =>
    obtain ⟨e, phase, hphase⟩ := hg.enabled
    exact Or.inl ⟨e, _, Option.map_eq_some_iff.mpr ⟨phase, hphase, rfl⟩⟩
  | idle done rest hdone =>
    cases rest with
    | nil =>
      rw [List.append_nil] at hdone
      exact Or.inr (by rw [hdone])
    | cons c rest => exact Or.inl ⟨.call, _, rfl⟩
  | busy done rest call hdone hcall hid client front pending unread replied hx =>
    obtain ⟨t, ht⟩ := hx.enabled (addw call.id 1) (done.map (answer server.disk)) hcall
    rcases ht with ht | ht | ht | ⟨rfl, ht⟩
    · exact Or.inl ⟨.write 1, _, Option.map_eq_some_iff.mpr ⟨t, ht, rfl⟩⟩
    · exact Or.inl ⟨.flush, _, Option.map_eq_some_iff.mpr ⟨t, ht, rfl⟩⟩
    · exact Or.inl ⟨.receive 1, _, Option.map_eq_some_iff.mpr ⟨t, ht, rfl⟩⟩
    · exact Or.inl ⟨.reply 0, _, Option.map_eq_some_iff.mpr ⟨t, ht, rfl⟩⟩

/-- The request of a call has been replied to, or is held by the server, or has not been sent. -/
theorem Exchange.request_cases {D : List UInt8} {client : Client} {front unread : List UInt8}
    {pending : List Request} {replied : Bool}
    (h : Exchange D call client front pending unread replied) :
    (if replied then [call.request] else []) ++ pending <+: [call.request] := by
  cases h with
  | writing => exact List.nil_prefix
  | sent => exact List.prefix_rfl
  | sentReplied => exact List.prefix_rfl
  | waiting => exact List.prefix_rfl
  | header => exact List.prefix_rfl
  | payload => exact List.prefix_rfl

/-- The server has got the requests of the calls, as far as they have been made. -/
theorem Conversation.sent_prefix (h : Conversation server calls σ) :
    σ.sent <+: requestsOf server.disk 1 calls := by
  cases h with
  | greeting g hg => exact List.nil_prefix
  | idle done rest hdone =>
    rw [← hdone, requestsOf_append]
    show requestsOf server.disk 1 done ++ [] <+: _
    rw [List.append_nil]
    exact List.prefix_append _ _
  | busy done rest call hdone hcall hid client front pending unread replied hx =>
    have hcalls : calls = (done ++ [(call.offset, call.len)]) ++ rest := by
      rw [← hdone, List.append_assoc]
      rfl
    rw [hcalls, requestsOf_append, hcall.requestsOf_eq hid, List.append_assoc]
    show (requestsOf server.disk 1 done ++ _) ++ pending <+: _
    rw [List.append_assoc]
    exact (List.prefix_append_right_inj _).mpr (hx.request_cases.trans (List.prefix_append _ _))

/-- The calls that have returned got their answers. -/
theorem answers_prefix {D : List UInt8} {results : List Result} (h : done ++ rest = calls)
    (hresults : results = done.map (answer D)) :
    results = (calls.take results.length).map (answer D) := by
  rw [hresults, List.length_map, ← h, List.take_left]

/-- The invariant, in terms of what the caller and the server see. -/
theorem Conversation.correct (h : Conversation server calls σ) : σ.Correct server calls := by
  have hsent := h.sent_prefix
  -- Handles are compared in the list of all requests, of which those sent are the front.
  have hfresh : ∀ (i j : ℕ) (r r' : Request), σ.sent[i]? = some r → σ.sent[j]? = some r' → i < j →
      j < i + 2^64 → r.handle ≠ r'.handle := by
    intro i j r r' hr hr' hlt hnear
    obtain ⟨more, hmore⟩ := hsent
    have hfront : ∀ {k : ℕ} {r : Request}, σ.sent[k]? = some r →
        (requestsOf server.disk 1 calls)[k]? = some r := by
      intro k r hk
      rw [← hmore, List.getElem?_append_left (List.getElem?_eq_some_iff.mp hk).1, hk]
    exact handle_fresh (hfront hr) (hfront hr') hlt hnear
  cases h with
  | greeting g hg =>
    refine ⟨?_, ?_, ?_, hsent, hfresh, ?_⟩
    · rintro e ⟨⟩
    · rintro size s ⟨⟩
    · rintro size s ⟨⟩
    · rintro size s ⟨⟩
  | idle done rest hdone =>
    refine ⟨?_, ?_, ?_, hsent, hfresh, ?_⟩
    · rintro e ⟨⟩
    · rintro size s ⟨⟩
      rfl
    · rintro size s ⟨⟩
      exact answers_prefix hdone rfl
    · rintro size s ⟨⟩ -
      exact ⟨rfl, rfl, rfl⟩
  | busy done rest call hdone hcall hid client front pending unread replied hx =>
    refine ⟨?_, ?_, ?_, hsent, hfresh, ?_⟩
    · rintro e ⟨⟩
    · rintro size s ⟨⟩
      rfl
    · rintro size s ⟨⟩
      exact answers_prefix hdone rfl
    · rintro size s ⟨⟩ hidle
      exact absurd hidle hx.client_ne_idle

/-- Every run of a session, however the two streams are cut into pieces, opens the export, gets the
bytes of the disk for every call and leaves nothing unread; no run is longer than the bytes and
steps of its calls allow; and one that cannot go on has made all of the calls. -/
theorem session_correct (server : Server) (calls : List (ℕ × ℕ))
    (hcalls : ∀ c ∈ calls, min c.2 (server.disk.length - c.1) < 2^32)
    (es : List SessionEvent) (σ : Session)
    (h : run (Session.step server) es (Session.start calls) = some σ) :
    σ.Correct server calls ∧ es.length ≤ 176 + (calls.map (callCost server.disk)).sum ∧
      ((∀ e, Session.step server e σ = none) → σ.Finished server calls) := by
  have hgreeting : Conversation server calls (Session.start calls) := .greeting _ .silent
  -- Every event keeps the invariant and takes something from what is left.
  obtain ⟨hconv, hbound⟩ := run_bounded (Conversation server calls) (Session.left server) hgreeting
    (fun e s t hs he => hs.step hcalls he) h
  refine ⟨hconv.correct, ?_, ?_⟩
  · have hstart : (Session.start calls).left server =
        176 + (calls.map (callCost server.disk)).sum := rfl
    omega
  · intro hstuck
    rcases hconv.enabled with ⟨e, τ, he⟩ | rfl
    · rw [hstuck e] at he
      cases he
    · exact ⟨⟨_, rfl, rfl, rfl⟩, rfl, rfl⟩

set_option maxRecDepth 4000 in
/-- The session of `session_correct` on a disk of three bytes, with one read over its end. -/
theorem session_correct_small :
    ∃ es, run (Session.step ⟨[1, 2, 3], by decide, 0, 0⟩) es (Session.start [(1, 5)]) =
        some (.between ⟨[1, 2, 3], by decide, 0, 0⟩ [(1, 5)] []) ∧
      Session.Finished ⟨[1, 2, 3], by decide, 0, 0⟩ [(1, 5)]
        (.between ⟨[1, 2, 3], by decide, 0, 0⟩ [(1, 5)] []) := by
  have hrun : run (Session.step ⟨[1, 2, 3], by decide, 0, 0⟩)
      [.announce, .receive 18, .write 4, .flush, .write 10, .write 6, .flush, .accept, .receive 134,
        .call, .write 28, .flush, .reply 0, .receive 7, .receive 9, .receive 2]
      (Session.start [(1, 5)]) = some (.between ⟨[1, 2, 3], by decide, 0, 0⟩ [(1, 5)] []) := rfl
  refine ⟨_, hrun, (session_correct _ _ (by decide) _ _ hrun).2.2 ?_⟩
  intro e
  cases e <;> rfl

end Session

end VmSpect.Nbd
