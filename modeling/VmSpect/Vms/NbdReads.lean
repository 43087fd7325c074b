import VmSpect.Vms.Nbd

/-!
# Which reads over NBD return the bytes of the disk

When a call gives up, the rest of its reply is still under way, and the next call reads it as its
own reply. The data in it comes from the guest, which can put a header with the next request id
there: `not_readsExact_forged` is such a run. `undisturbed_exact` gives the condition under which no
call returns anything but the bytes of the disk: when a call starts, what is left over from earlier
calls must not be readable as the header of a successful reply to it.

The proof follows the bytes that reach the client from the start of a call on. Until the header is
complete they are none, or they cannot start with the header that the call waits for, or they start
with the reply to it (`Situation`).
-/

namespace VmSpect.Nbd

open Bytes Words Interleaving

/-! ## The condition -/

/-- Nothing that is left over from earlier calls can be taken for the reply to a call that starts
now: no earlier request has its id, also not one that is put together from a request that was cut
short; the unread bytes, continued by a reply, do not start with the header of a successful reply to
it; and a length that does not fit 32 bits is asked for only when no other reply is to come. -/
def State.Undisturbed (D : List UInt8) (s : State) (offset len : ℕ) : Prop :=
  (∀ r ∈ s.pending, r.handle ≠ s.requestId) ∧
  (s.partialRequest = [] ∨ ofBe (slice (s.partialRequest ++
    requestBytes s.requestId offset (min len (D.length - offset))) 8 8) ≠ s.requestId) ∧
  (s.unread = [] ∨
    ¬ (s.unread ++ toBe 4 replyMagic).take 16 <+: replyHeader 0 s.requestId) ∧
  (min len (D.length - offset) < 2^32 ∨ s.pending = [])

instance (D : List UInt8) (s : State) (offset len : ℕ) : Decidable (s.Undisturbed D offset len) := by
  unfold State.Undisturbed
  infer_instance

/-- A step, when it does not start a disturbed call. -/
def undisturbedStep (D : List UInt8) (e : Event) (s : State) : Option State :=
  match e with
  | .call offset len =>
    if len = 0 ∨ D.length ≤ offset ∨ s.Undisturbed D offset len then step D e s else none
  | _ => step D e s

/-! ## The texts on the wire -/

@[simp] theorem length_requestBytes (id offset length : ℕ) :
    (requestBytes id offset length).length = 28 := by
  simp [requestBytes]

@[simp] theorem length_replyHeader (error handle : ℕ) : (replyHeader error handle).length = 16 := by
  simp [replyHeader]

/-- The server reads a request as it was meant. -/
theorem parseRequest_requestBytes {id offset length : ℕ} (hid : id < 2^64) (hoffset : offset < 2^64) :
    parseRequest (requestBytes id offset length) = some ⟨cmdRead, id, offset, length % 2^32⟩ := by
  -- Each field, between the fields before it and those after it.
  have hmagic : slice (requestBytes id offset length) 0 4 = toBe 4 requestMagic := by
    simpa [requestBytes] using slice_field [] _ rfl (length_toBe 4 requestMagic)
  have hcommand : slice (requestBytes id offset length) 6 2 = toBe 2 cmdRead := by
    simpa [requestBytes] using slice_field (toBe 4 requestMagic ++ toBe 2 0) _ (i := 6)
      (by simp) (length_toBe 2 cmdRead)
  have hhandle : slice (requestBytes id offset length) 8 8 = toBe 8 id := by
    simpa [requestBytes] using slice_field (toBe 4 requestMagic ++ toBe 2 0 ++
      toBe 2 cmdRead) _ (i := 8) (by simp) (length_toBe 8 id)
  have hoff : slice (requestBytes id offset length) 16 8 = toBe 8 offset := by
    simpa [requestBytes] using slice_field (toBe 4 requestMagic ++ toBe 2 0 ++
      toBe 2 cmdRead ++ toBe 8 id) _ (i := 16) (by simp) (length_toBe 8 offset)
  have hlen : slice (requestBytes id offset length) 24 4 = toBe 4 length := by
    simpa [requestBytes] using slice_field (toBe 4 requestMagic ++ toBe 2 0 ++
      toBe 2 cmdRead ++ toBe 8 id ++ toBe 8 offset) [] (i := 24) (by simp)
      (length_toBe 4 length)
  rw [parseRequest, hmagic, hcommand, hhandle, hoff, hlen,
    if_pos (ofBe_toBe (by norm_num [requestMagic])), ofBe_toBe (n := cmdRead) (by norm_num [cmdRead]),
    ofBe_toBe (w := 8) hid, ofBe_toBe (w := 8) hoffset, ofBe_toBe_mod]

/-- Headers are equal only when they carry the same error and handle. -/
theorem replyHeader_inj {e e' h h' : ℕ} (heq : replyHeader e h = replyHeader e' h') :
    e % 2^32 = e' % 2^32 ∧ h % 2^64 = h' % 2^64 := by
  unfold replyHeader at heq
  obtain ⟨hfirst, hhandle⟩ := List.append_inj' heq (by simp)
  obtain ⟨-, herror⟩ := List.append_inj' hfirst (by simp)
  refine ⟨?_, ?_⟩
  · simpa [ofBe_toBe_mod] using congrArg ofBe herror
  · simpa [ofBe_toBe_mod] using congrArg ofBe hhandle

/-- The only header that passes the checks is that of a successful reply to the call. -/
theorem eq_replyHeader_of_checkHeader {id : ℕ} {header : List UInt8} (hlen : header.length = 16)
    (h : checkHeader id header = .ok ()) : header = replyHeader 0 id := by
  unfold checkHeader at h
  dsimp only at h
  split_ifs at h with hmagic herror hhandle
  rw [ne_eq, not_not] at hmagic herror hhandle
  have hparts : header = slice header 0 4 ++ slice header 4 4 ++ slice header 8 8 := by
    rw [← slice_add header 0 4 4, ← slice_add header 0 8 8, slice, List.drop_zero,
      List.take_of_length_le (by omega)]
  have h0 : (slice header 0 4).length = 4 := by rw [length_slice]; omega
  have h4 : (slice header 4 4).length = 4 := by rw [length_slice]; omega
  have h8 : (slice header 8 8).length = 8 := by rw [length_slice]; omega
  rw [hparts, replyHeader, ← toBe_ofBe h0, ← toBe_ofBe h4, ← toBe_ofBe h8, hmagic, herror, hhandle]

/-! ## What a call in progress may meet -/

/-- The request of a call, as the server reads it. -/
def Call.request (call : Call) : Request :=
  ⟨cmdRead, call.id, call.offset, call.adjustedLen % 2^32⟩

/-- A call is inside the disk, and its length is cut to it. -/
structure Call.Sound (D : List UInt8) (call : Call) : Prop where
  id_lt : call.id < 2^64
  inside : call.offset + call.adjustedLen ≤ D.length
  adjusted : call.adjustedLen = min call.len (D.length - call.offset)

/-- Among the requests that the server holds, and the one that it may still put together from the
bytes it is about to get, only that of the call itself has its id. -/
structure Requests (call : Call) (s : State) (rest : List UInt8) : Prop where
  pending : ∀ r ∈ s.pending, r.handle = call.id → r = call.request
  room : s.partialRequest.length + rest.length < 56
  coming : s.poisoned = false → 28 ≤ s.partialRequest.length + rest.length → ∀ r,
    parseRequest ((s.partialRequest ++ rest).take 28) = some r → r.handle = call.id →
    r = call.request

/-- The bytes `t` that have reached the client since the call started, while it waits for its
header. -/
inductive Situation (D : List UInt8) (call : Call) (s : State) (rest t : List UInt8) : Prop where
  /-- Nothing came, and unless the length fits 32 bits at most one reply is to come. -/
  | silent (ht : t = [])
      (hlen : call.adjustedLen < 2^32 ∨
        s.pending.length + (s.partialRequest.length + rest.length) / 28 ≤ 1)
  /-- They are not the start of the reply that the call waits for. -/
  | foreign (ht : t ≠ [])
      (hheader : ¬ (t ++ toBe 4 replyMagic).take 16 <+: replyHeader 0 call.id)
  /-- They start with that reply, and if its data is too short then nothing else is to come. -/
  | answered (tail : List UInt8)
      (ht : t = replyHeader 0 call.id ++
        (slice D call.offset (call.adjustedLen % 2^32) ++ tail))
      (hlen : call.adjustedLen < 2^32 ∨ (tail = [] ∧ s.pending = [] ∧
        s.partialRequest.length + rest.length < 28))

/-- Once the header has been read: the data of the reply, and what comes after it. -/
structure Receiving (D : List UInt8) (call : Call) (s : State) (t : List UInt8) : Prop where
  data : ∃ tail, t = slice D call.offset (call.adjustedLen % 2^32) ++ tail ∧
    (call.adjustedLen < 2^32 ∨ (tail = [] ∧ s.pending = []))

/-- What holds of the client in every state of a run without disturbed calls. -/
def ClientInv (D : List UInt8) (s : State) : Client → Prop
  | .idle => True
  | .sending call rest =>
    call.Sound D ∧ Requests call s rest ∧ Situation D call s rest s.unread
  | .header call got =>
    call.Sound D ∧ Requests call s [] ∧ Situation D call s [] (got ++ s.unread)
  | .payload call got => call.Sound D ∧ Receiving D call s (got ++ s.unread)

/-- The invariant of a run without disturbed calls. -/
structure Inv (D : List UInt8) (s : State) : Prop where
  requestId_lt : s.requestId < 2^64
  partial_lt : s.partialRequest.length < 28
  handle_lt : ∀ r ∈ s.pending, r.handle < 2^64
  exact : ∀ r ∈ s.results, r.Exact D
  client : ClientInv D s s.client

/-! ## Replies -/

/-- A reply starts with a header, and is a successful one only with the data of the disk. -/
theorem replyBytes_cases {D : List UInt8} {r : Request} {error : ℕ} {bytes : List UInt8}
    (h : replyBytes D r error = some bytes) :
    (error % 2^32 ≠ 0 ∧ bytes = replyHeader error r.handle) ∨
    bytes = replyHeader 0 r.handle ++ slice D r.offset r.length := by
  unfold replyBytes at h
  split_ifs at h with herror hread hlt
  · exact Or.inr (Option.some.inj h).symm
  · refine Or.inl ⟨?_, (Option.some.inj h).symm⟩
    rw [Nat.mod_eq_of_lt hlt]
    exact herror

/-- A reply starts with the magic. -/
theorem replyBytes_magic {D : List UInt8} {r : Request} {error : ℕ} {bytes : List UInt8}
    (h : replyBytes D r error = some bytes) : ∃ tail, bytes = toBe 4 replyMagic ++ tail := by
  rcases replyBytes_cases h with ⟨-, rfl⟩ | rfl
  · exact ⟨_, List.append_assoc _ _ _⟩
  · exact ⟨_, by simp only [replyHeader, List.append_assoc]; rfl⟩

/-- Bytes that are not the start of the awaited reply do not become it by another reply. -/
theorem foreign_append {t tail h : List UInt8}
    (hforeign : ¬ (t ++ toBe 4 replyMagic).take 16 <+: h) :
    ¬ (t ++ (toBe 4 replyMagic ++ tail) ++ toBe 4 replyMagic).take 16 <+: h := by
  intro hpre
  refine hforeign (List.IsPrefix.trans ?_ hpre)
  refine List.IsPrefix.take ⟨tail ++ toBe 4 replyMagic, ?_⟩ 16
  simp only [List.append_assoc]

/-- At least 16 bytes that start with another header than the awaited one. -/
theorem foreign_of_header {header h : List UInt8} (tail : List UInt8) (hlen : header.length = 16)
    (hne : header ≠ h) (hh : h.length = 16) :
    ¬ (header ++ tail ++ toBe 4 replyMagic).take 16 <+: h := by
  rw [List.append_assoc, List.take_left' hlen]
  intro hpre
  exact hne (hpre.eq_of_length (by omega))

section Preserved

variable {D : List UInt8} {call : Call} {s : State} {rest t : List UInt8}

/-- A reply to a request that the server holds. -/
theorem Situation.reply (h : Situation D call s rest t) (hreq : Requests call s rest)
    (hid : call.id < 2^64) {i error : ℕ} {r : Request} (hr : s.pending[i]? = some r)
    (hhandle : r.handle < 2^64) {bytes : List UInt8} (hbytes : replyBytes D r error = some bytes) :
    Situation D call { s with pending := s.pending.eraseIdx i, unread := s.unread ++ bytes } rest
      (t ++ bytes) := by
  have hi : i < s.pending.length := (List.getElem?_eq_some_iff.mp hr).1
  cases h with
  | silent ht hlen =>
    subst ht
    rw [List.nil_append]
    rcases replyBytes_cases hbytes with ⟨herror, rfl⟩ | rfl
    · refine .foreign (List.ne_nil_of_length_pos (by simp)) ?_
      have hforeign := foreign_of_header [] (length_replyHeader error r.handle)
        (h := replyHeader 0 call.id) (fun heq => herror (by simpa using (replyHeader_inj heq).1))
        (length_replyHeader 0 call.id)
      rwa [List.append_nil] at hforeign
    · by_cases hown : r.handle = call.id
      · -- The reply to the call itself.
        have hrequest := hreq.pending r (List.mem_of_getElem? hr) hown
        refine .answered [] (by rw [hrequest, List.append_nil]; rfl) ?_
        refine hlen.imp_right fun hone => ⟨rfl, ?_, ?_⟩
        · refine List.eq_nil_of_length_eq_zero ?_
          show (s.pending.eraseIdx i).length = 0
          rw [List.length_eraseIdx_of_lt hi]
          omega
        · show s.partialRequest.length + rest.length < 28
          omega
      · refine .foreign (List.ne_nil_of_length_pos (by simp)) ?_
        refine foreign_of_header _ (length_replyHeader 0 r.handle) (fun heq => hown ?_)
          (length_replyHeader 0 call.id)
        have hmod := (replyHeader_inj heq).2
        rwa [Nat.mod_eq_of_lt hhandle, Nat.mod_eq_of_lt hid] at hmod
  -- Nothing that comes after a foreign start makes it the awaited reply.
  | foreign ht hheader =>
    obtain ⟨tail, rfl⟩ := replyBytes_magic hbytes
    exact .foreign (List.append_ne_nil_of_left_ne_nil ht _) (foreign_append hheader)
  -- More replies come after the data of the awaited one.
  | answered tail ht hlen =>
    refine .answered (tail ++ bytes) (by rw [ht]; simp only [List.append_assoc]) ?_
    refine hlen.imp_right fun hnone => ?_
    rw [hnone.2.1] at hi
    exact absurd hi (Nat.not_lt_zero i)

/-- Fewer requests do not put a call in another situation. -/
theorem Situation.fewer (h : Situation D call s rest t) {s' : State} {rest' : List UInt8}
    (hbudget : s'.pending.length + (s'.partialRequest.length + rest'.length) / 28 ≤
      s.pending.length + (s.partialRequest.length + rest.length) / 28) :
    Situation D call s' rest' t := by
  cases h with
  | silent ht hlen => exact .silent ht (hlen.imp_right fun h => hbudget.trans h)
  | foreign ht hheader => exact .foreign ht hheader
  | answered tail ht hlen =>
    refine .answered tail ht (hlen.imp_right fun ⟨htail, hpending, hroom⟩ => ⟨htail, ?_, ?_⟩)
    · rw [hpending, List.length_nil] at hbudget
      exact List.eq_nil_of_length_eq_zero (by omega)
    · rw [hpending, List.length_nil] at hbudget
      omega

/-- Part of the request reaches the server. -/
theorem Requests.write (h : Requests call s rest) (hsent : s.partialRequest.length < 28) {n : ℕ}
    (hn : n ≤ rest.length) :
    Requests call (s.serverReceive (rest.take n)) (rest.drop n) ∧
    (s.serverReceive (rest.take n)).partialRequest.length < 28 ∧
    (s.serverReceive (rest.take n)).pending.length +
      ((s.serverReceive (rest.take n)).partialRequest.length + (rest.drop n).length) / 28 ≤
      s.pending.length + (s.partialRequest.length + rest.length) / 28 := by
  have hroom := h.room
  have htake : (rest.take n).length = n := by rw [List.length_take]; omega
  have hdrop : (rest.drop n).length = rest.length - n := List.length_drop
  -- What the server has of the request and what is still to come are together as before.
  have hwhole : s.partialRequest ++ rest.take n ++ rest.drop n = s.partialRequest ++ rest := by
    rw [List.append_assoc, List.take_append_drop]
  unfold State.serverReceive
  split
  · -- The server reads no more.
    rename_i hpoisoned
    refine ⟨⟨h.pending, by omega, fun hp => ?_⟩, hsent, ?_⟩
    · rw [hpoisoned] at hp
      cases hp
    · have := Nat.div_le_div_right (c := 28) (show s.partialRequest.length + (rest.drop n).length ≤
        s.partialRequest.length + rest.length by omega)
      omega
  · rename_i hpoisoned
    split
    · -- The bytes do not complete a request.
      rename_i hshort
      rw [List.length_append, htake] at hshort
      refine ⟨⟨h.pending, ?_, ?_⟩, ?_, ?_⟩
      · simp only [List.length_append, htake]
        omega
      · -- The request that they will complete is the one that was coming.
        intro hp hlen r hparse
        dsimp only at hlen hparse
        rw [List.length_append, htake] at hlen
        rw [hwhole] at hparse
        exact h.coming hp (by omega) r hparse
      · simp only [List.length_append, htake]
        omega
      · simp only [List.length_append, htake]
        have : s.partialRequest.length + n + (rest.drop n).length =
          s.partialRequest.length + rest.length := by omega
        rw [this]
    · -- They complete the first 28 bytes, which are those of the request that was coming.
      rename_i hlong
      rw [List.length_append, htake] at hlong
      have hfull : (s.partialRequest ++ rest.take n).take 28 = (s.partialRequest ++ rest).take 28 := by
        rw [← hwhole]
        refine (List.take_append_of_le_length ?_).symm
        rw [List.length_append, htake]
        omega
      rw [hfull]
      split
      · -- A request is complete: it is that of the call, or has another id.
        rename_i r hparse
        refine ⟨⟨?_, ?_, ?_⟩, ?_, ?_⟩
        · -- It waits for its reply behind those that do already.
          intro r' hr' hown
          rcases List.mem_append.mp hr' with hr' | hr'
          · exact h.pending r' hr' hown
          · obtain rfl := List.mem_singleton.mp hr'
            exact h.coming (by simpa using hpoisoned) (by omega) r' hparse hown
        · simp only [List.length_drop, List.length_append, htake]
          omega
        · -- The call has no more than one request to write.
          intro _ hlen
          simp only [List.length_drop, List.length_append, htake] at hlen
          omega
        · simp only [List.length_drop, List.length_append, htake]
          omega
        · simp only [List.length_drop, List.length_append, List.length_singleton, htake]
          omega
      · -- What is complete is no request, after which the server reads no more.
        refine ⟨⟨h.pending, ?_, ?_⟩, ?_, ?_⟩
        · simp only [List.length_nil]
          omega
        · intro hp
          cases hp
        · simp only [List.length_nil]
          omega
        · simp only [List.length_nil]
          omega

/-- The parsed handle of a request is that of its bytes 8 to 16. -/
theorem handle_of_parseRequest {bytes : List UInt8} {r : Request}
    (h : parseRequest (bytes.take 28) = some r) : r.handle = ofBe (slice bytes 8 8) := by
  unfold parseRequest at h
  split at h
  · obtain rfl := Option.some.inj h
    show ofBe (slice (bytes.take 28) 8 8) = ofBe (slice bytes 8 8)
    rw [slice, slice, List.drop_take, List.take_take, Nat.min_eq_left (by norm_num)]
  · cases h

/-- A parsed handle is a word. -/
theorem handle_lt_of_parseRequest {bytes : List UInt8} {r : Request}
    (h : parseRequest bytes = some r) : r.handle < 2^64 := by
  unfold parseRequest at h
  split at h
  · obtain rfl := Option.some.inj h
    refine ofBe_lt (w := 8) ?_
    rw [length_slice]
    omega
  · cases h

/-- A call that starts undisturbed waits for its own reply only. -/
theorem clientInv_call (hD : D.length < 2^64) (h : Inv D s) {offset len : ℕ}
    (hoffset : offset < D.length) (hs : s.Undisturbed D offset len) :
    ClientInv D { s with
        client := .sending ⟨s.requestId, offset, len, min len (D.length - offset)⟩
          (requestBytes s.requestId offset (min len (D.length - offset)))
        requestId := addw s.requestId 1 }
      (.sending ⟨s.requestId, offset, len, min len (D.length - offset)⟩
        (requestBytes s.requestId offset (min len (D.length - offset)))) := by
  obtain ⟨hpending, hrequest, hunread, hlen⟩ := hs
  have hsent := h.partial_lt
  -- A length of 32 bits or more is asked for only when nothing else is to come.
  have hbudget : min len (D.length - offset) < 2^32 ∨
      s.pending.length + (s.partialRequest.length + 28) / 28 ≤ 1 := by
    refine hlen.imp_right fun hnone => ?_
    rw [hnone, List.length_nil]
    omega
  refine ⟨⟨h.requestId_lt, ?_, rfl⟩, ⟨fun r hr hown => absurd hown (hpending r hr), ?_, ?_⟩, ?_⟩
  · show offset + min len (D.length - offset) ≤ D.length
    omega
  · rw [length_requestBytes]
    show s.partialRequest.length + 28 < 56
    omega
  · intro _ _ r hparse hown
    rcases hrequest with hnone | hother
    · dsimp only at hparse
      rw [hnone, List.nil_append, List.take_of_length_le (by rw [length_requestBytes]),
        parseRequest_requestBytes h.requestId_lt (by omega)] at hparse
      exact (Option.some.inj hparse).symm
    · exact absurd ((handle_of_parseRequest hparse).symm.trans hown) hother
  · by_cases hempty : s.unread = []
    · exact .silent hempty (by rw [length_requestBytes]; exact hbudget)
    · exact .foreign hempty (hunread.resolve_left hempty)

/-- Nothing but the bytes of the disk is handed out once the header was the right one. -/
theorem Receiving.exact {data : List UInt8} (h : Receiving D call s (data ++ t))
    (hcall : call.Sound D) (hlen : data.length = call.adjustedLen) :
    data = slice D call.offset call.len := by
  obtain ⟨tail, ht, hfits⟩ := h.data
  have hinside := hcall.inside
  have hreply : (slice D call.offset (call.adjustedLen % 2^32)).length =
      call.adjustedLen % 2^32 := by
    rw [length_slice]
    have := Nat.mod_le call.adjustedLen (2^32)
    omega
  have hmod : call.adjustedLen % 2^32 = call.adjustedLen := by
    rcases hfits with hfits | ⟨rfl, -⟩
    · exact Nat.mod_eq_of_lt hfits
    · -- The data of the reply is shorter than what was read, and nothing came after it.
      have hlength := congrArg List.length ht
      rw [List.length_append, List.length_append, hreply, hlen, List.length_nil] at hlength
      have := Nat.mod_le call.adjustedLen (2^32)
      omega
  rw [hmod] at ht hreply
  have hdata := (List.append_inj ht (by rw [hlen, hreply])).1
  rw [hdata, hcall.adjusted, slice_min_length]

/-- A complete header that passes the checks is the right one, and the data follows it. -/
theorem Situation.receiving {header : List UInt8} (h : Situation D call s [] (header ++ t))
    (hlen : header.length = 16) (hcheck : checkHeader call.id header = .ok ()) :
    Receiving D call s t := by
  have heq := eq_replyHeader_of_checkHeader hlen hcheck
  cases h with
  | silent ht =>
    rw [List.append_eq_nil_iff] at ht
    rw [ht.1] at hlen
    cases hlen
  | foreign ht hheader =>
    refine absurd ?_ hheader
    rw [List.append_assoc, List.take_left' hlen, heq]
  | answered tail ht hfits =>
    rw [heq] at ht
    exact ⟨tail, List.append_cancel_left ht, hfits.imp_right fun ⟨htail, hnone, _⟩ => ⟨htail, hnone⟩⟩

/-- A call returns an error, or the bytes of the disk. -/
theorem Inv.finish (h : Inv D s) {outcome : Except (Stop IoError) (List UInt8)}
    (hexact : ∀ data, outcome = .ok data → data = slice D call.offset call.len) :
    Inv D (s.finish call outcome) := by
  refine ⟨h.requestId_lt, h.partial_lt, h.handle_lt, fun r hr => ?_, trivial⟩
  rcases List.mem_append.mp hr with hr | hr
  · exact h.exact r hr
  · rw [List.mem_singleton.mp hr]
    exact hexact

/-- The client gets more bytes of the header or the data. -/
theorem Inv.receive (h : Inv D s) {n : ℕ} {s' : State} (hs' : s.receive n = some s') : Inv D s' := by
  have hclient := h.client
  unfold State.receive at hs'
  split at hs'
  · rename_i call got hc
    rw [hc] at hclient
    obtain ⟨hcall, hreq, hsit⟩ := hclient
    split at hs'
    · rename_i hn
      obtain ⟨hpos, hleft, hunread⟩ := hn
      -- What has come since the start of the call is only cut in another place.
      have hbytes : got ++ s.unread = (got ++ s.unread.take n) ++ s.unread.drop n := by
        rw [List.append_assoc, List.take_append_drop]
      rw [hbytes] at hsit
      have hlen : (got ++ s.unread.take n).length = got.length + n := by
        rw [List.length_append, List.length_take, Nat.min_eq_left hunread]
      dsimp only at hs'
      split at hs'
      · obtain rfl := Option.some.inj hs'
        exact ⟨h.requestId_lt, h.partial_lt, h.handle_lt, h.exact, hcall,
          ⟨hreq.pending, hreq.room, hreq.coming⟩, hsit.fewer le_rfl⟩
      · rename_i hfull
        have hmoved : Inv D { s with unread := s.unread.drop n, client := .idle } :=
          ⟨h.requestId_lt, h.partial_lt, h.handle_lt, h.exact, trivial⟩
        split at hs'
        · obtain rfl := Option.some.inj hs'
          exact hmoved.finish (by simp)
        · rename_i hcheck
          have hreceiving := hsit.receiving (by omega) hcheck
          split at hs'
          · obtain rfl := Option.some.inj hs'
            exact hmoved.finish (by simp)
          · obtain rfl := Option.some.inj hs'
            exact ⟨h.requestId_lt, h.partial_lt, h.handle_lt, h.exact, hcall, ⟨hreceiving.data⟩⟩
    · cases hs'
  · rename_i call got hc
    rw [hc] at hclient
    obtain ⟨hcall, hrec⟩ := hclient
    split at hs'
    · rename_i hn
      obtain ⟨hpos, hleft, hunread⟩ := hn
      have hbytes : got ++ s.unread = (got ++ s.unread.take n) ++ s.unread.drop n := by
        rw [List.append_assoc, List.take_append_drop]
      rw [hbytes] at hrec
      have hlen : (got ++ s.unread.take n).length = got.length + n := by
        rw [List.length_append, List.length_take, Nat.min_eq_left hunread]
      dsimp only at hs'
      split at hs'
      · obtain rfl := Option.some.inj hs'
        exact ⟨h.requestId_lt, h.partial_lt, h.handle_lt, h.exact, hcall, ⟨hrec.data⟩⟩
      · have hmoved : Inv D { s with unread := s.unread.drop n, client := .idle } :=
          ⟨h.requestId_lt, h.partial_lt, h.handle_lt, h.exact, trivial⟩
        obtain rfl := Option.some.inj hs'
        refine hmoved.finish fun data hdata => ?_
        obtain rfl := Except.ok.inj hdata
        exact hrec.exact hcall (by omega)
    · cases hs'
  · cases hs'

/-- A reply, whatever the client is doing. -/
theorem Inv.reply (h : Inv D s) {i error : ℕ} {r : Request} (hr : s.pending[i]? = some r)
    {bytes : List UInt8} (hbytes : replyBytes D r error = some bytes) :
    Inv D { s with pending := s.pending.eraseIdx i, unread := s.unread ++ bytes } := by
  have hhandle := h.handle_lt r (List.mem_of_getElem? hr)
  have hfewer : ∀ r' ∈ s.pending.eraseIdx i, r' ∈ s.pending := fun r' hr' =>
    List.eraseIdx_subset hr'
  refine ⟨h.requestId_lt, h.partial_lt, fun r' hr' => h.handle_lt r' (hfewer r' hr'), h.exact, ?_⟩
  have hclient := h.client
  show ClientInv D _ s.client
  cases hc : s.client with
  | idle => trivial
  | sending call rest =>
    rw [hc] at hclient
    obtain ⟨hcall, hreq, hsit⟩ := hclient
    exact ⟨hcall, ⟨fun r' hr' => hreq.pending r' (hfewer r' hr'), hreq.room, hreq.coming⟩,
      (hsit.reply hreq hcall.id_lt hr hhandle hbytes).fewer le_rfl⟩
  | header call got =>
    rw [hc] at hclient
    obtain ⟨hcall, hreq, hsit⟩ := hclient
    refine ⟨hcall, ⟨fun r' hr' => hreq.pending r' (hfewer r' hr'), hreq.room, hreq.coming⟩, ?_⟩
    rw [← List.append_assoc]
    exact (hsit.reply hreq hcall.id_lt hr hhandle hbytes).fewer le_rfl
  -- The data of the reply is already under way, and this comes after it.
  | payload call got =>
    rw [hc] at hclient
    obtain ⟨hcall, ⟨tail, ht, hlen⟩⟩ := hclient
    refine ⟨hcall, ⟨tail ++ bytes, ?_, ?_⟩⟩
    · rw [← List.append_assoc, ht, List.append_assoc]
    · refine hlen.imp_right fun hnone => ?_
      rw [hnone.2] at hr
      cases hr

/-- The server hangs up. -/
theorem Inv.close (h : Inv D s) : Inv D { s with closed := true, pending := [] } := by
  refine ⟨h.requestId_lt, h.partial_lt, by simp, h.exact, ?_⟩
  have hclient := h.client
  show ClientInv D _ s.client
  have hbudget : ∀ k, ([] : List Request).length + k ≤ s.pending.length + k := by simp
  cases hc : s.client with
  | idle => trivial
  | sending call rest =>
    rw [hc] at hclient
    obtain ⟨hcall, hreq, hsit⟩ := hclient
    exact ⟨hcall, ⟨by simp, hreq.room, hreq.coming⟩, hsit.fewer (hbudget _)⟩
  | header call got =>
    rw [hc] at hclient
    obtain ⟨hcall, hreq, hsit⟩ := hclient
    exact ⟨hcall, ⟨by simp, hreq.room, hreq.coming⟩, hsit.fewer (hbudget _)⟩
  | payload call got =>
    rw [hc] at hclient
    obtain ⟨hcall, ⟨tail, ht, hlen⟩⟩ := hclient
    exact ⟨hcall, ⟨tail, ht, hlen.imp_right fun hnone => ⟨hnone.1, rfl⟩⟩⟩

/-- Requests that reach the server have words for handles. -/
theorem handle_lt_serverReceive (h : ∀ r ∈ s.pending, r.handle < 2^64) (bytes : List UInt8) :
    ∀ r ∈ (s.serverReceive bytes).pending, r.handle < 2^64 := by
  unfold State.serverReceive
  split
  · exact h
  · split
    · exact h
    · split
      · rename_i r' hparse
        intro r hr
        rcases List.mem_append.mp hr with hr | hr
        · exact h r hr
        · rw [List.mem_singleton.mp hr]
          exact handle_lt_of_parseRequest hparse
      · exact h

/-- What reaches the server changes neither the client nor what is under way to it. -/
theorem serverReceive_frame (bytes : List UInt8) :
    (s.serverReceive bytes).requestId = s.requestId ∧
    (s.serverReceive bytes).results = s.results ∧ (s.serverReceive bytes).unread = s.unread := by
  unfold State.serverReceive
  split
  · exact ⟨rfl, rfl, rfl⟩
  · split
    · exact ⟨rfl, rfl, rfl⟩
    · split <;> exact ⟨rfl, rfl, rfl⟩

/-- Every step keeps the invariant, as long as no call starts disturbed. -/
theorem Inv.step (hD : D.length < 2^64) (h : Inv D s) {e : Event} {s' : State}
    (hs' : undisturbedStep D e s = some s') : Inv D s' := by
  have hclient := h.client
  cases e with
  | call offset len =>
    simp only [undisturbedStep, Nbd.step] at hs'
    split at hs'
    · rename_i hcond
      split at hs'
      · rename_i hidle
        obtain rfl := Option.some.inj hs'
        unfold State.call
        split
        · -- A call that returns at once asks for no byte of the disk.
          rename_i hnone
          refine ⟨h.requestId_lt, h.partial_lt, h.handle_lt, fun r hr => ?_, ?_⟩
          · rcases List.mem_append.mp hr with hr | hr
            · exact h.exact r hr
            · rw [List.mem_singleton.mp hr]
              intro data hdata
              obtain rfl := Except.ok.inj hdata
              refine (List.eq_nil_of_length_eq_zero ?_).symm
              rw [length_slice]
              dsimp only
              omega
          · show ClientInv D _ s.client
            rw [hidle]
            trivial
        · rename_i hsome
          rw [not_or, not_le] at hsome
          have hund : s.Undisturbed D offset len := by
            rcases hcond with hlen | hoff | hund
            · exact absurd hlen hsome.1
            · exact absurd hoff (not_le.mpr hsome.2)
            · exact hund
          exact ⟨addw_lt _ _, h.partial_lt, h.handle_lt, h.exact,
            clientInv_call hD h hsome.2 hund⟩
      · cases hs'
    · cases hs'
  -- A part of the request reaches the server, and nothing reaches the client.
  | write n =>
    simp only [undisturbedStep, Nbd.step] at hs'
    split at hs'
    · rename_i call rest hc
      rw [hc] at hclient
      obtain ⟨hcall, hreq, hsit⟩ := hclient
      split at hs'
      · rename_i hn
        obtain rfl := Option.some.inj hs'
        obtain ⟨hreq', hsent, hbudget⟩ := hreq.write h.partial_lt hn.2
        obtain ⟨hid, hresults, hunread⟩ := serverReceive_frame (s := s) (rest.take n)
        refine ⟨?_, hsent, handle_lt_serverReceive h.handle_lt _, ?_, hcall, ?_, ?_⟩
        · exact hid ▸ h.requestId_lt
        · exact hresults ▸ h.exact
        · exact ⟨hreq'.pending, hreq'.room, hreq'.coming⟩
        · show Situation D call _ (rest.drop n) (s.serverReceive (rest.take n)).unread
          rw [hunread]
          exact hsit.fewer hbudget
      · cases hs'
    · cases hs'
  | flush =>
    simp only [undisturbedStep, Nbd.step] at hs'
    split at hs'
    · rename_i call hc
      rw [hc] at hclient
      obtain ⟨hcall, hreq, hsit⟩ := hclient
      obtain rfl := Option.some.inj hs'
      exact ⟨h.requestId_lt, h.partial_lt, h.handle_lt, h.exact, hcall,
        ⟨hreq.pending, hreq.room, hreq.coming⟩, hsit.fewer le_rfl⟩
    · cases hs'
  | receive n => exact h.receive hs'
  -- A call that times out returns no data, whatever is still under way.
  | expire =>
    simp only [undisturbedStep, Nbd.step, Option.map_eq_some_iff] at hs'
    obtain ⟨⟨call, context⟩, -, rfl⟩ := hs'
    exact h.finish (by simp)
  | hangup =>
    simp only [undisturbedStep, Nbd.step] at hs'
    split at hs'
    · obtain ⟨⟨call, context⟩, -, rfl⟩ := Option.map_eq_some_iff.mp hs'
      exact h.finish (by simp)
    · cases hs'
  | reply i error =>
    simp only [undisturbedStep, Nbd.step] at hs'
    split at hs'
    · cases hs'
    · split at hs'
      · cases hs'
      · rename_i r hr
        obtain ⟨bytes, hbytes, rfl⟩ := Option.map_eq_some_iff.mp hs'
        exact h.reply hr hbytes
  | close =>
    simp only [undisturbedStep, Nbd.step] at hs'
    split at hs'
    · obtain rfl := Option.some.inj hs'
      exact h.close
    · cases hs'

end Preserved

/-! ## Runs -/

/-- Every call that returns data returns the bytes of the disk, whatever the server, the network and
the clock do. -/
def ReadsExact (D : List UInt8) : Prop :=
  ∀ es s, run (step D) es start = some s → ∀ r ∈ s.results, r.Exact D

/-- In every run in which no call starts disturbed, every call that returns data returns the bytes
of the disk. -/
theorem undisturbed_exact (D : List UInt8) (hD : D.length < 2^64) (es : List Event) (s : State)
    (hrun : run (undisturbedStep D) es start = some s) : ∀ r ∈ s.results, r.Exact D := by
  have hinv : Inv D s := by
    refine run_invariant (Inv D) ?_ (fun e s s' hs hs' => hs.step hD hs') hrun
    exact ⟨by norm_num [start], by norm_num [start], by simp [start], by simp [start], trivial⟩
  exact hinv.exact

/-- A disk of four bytes. -/
def sampleDisk : List UInt8 := [1, 2, 3, 4]

/-- A call that returns, one that gives up before its header, and one that meets the late reply to
the second and is out of step. -/
def sampleRun : List Event :=
  [.call 0 2, .write 28, .flush, .reply 0 0, .receive 16, .receive 2,
    .call 1 2, .write 10, .write 18, .flush, .expire,
    .call 2 2, .write 28, .flush, .reply 0 0, .receive 7, .receive 9]

/-- The sample run has no disturbed call, its first call returns the bytes of the disk, and the
others fail. -/
theorem undisturbed_exact_sample : ∃ s, run (undisturbedStep sampleDisk) sampleRun start = some s ∧
    s.results.map (fun r => r.outcome.toOption) = [some [1, 2], none, none] ∧
    ∀ r ∈ s.results, r.Exact sampleDisk := by
  have h : (run (undisturbedStep sampleDisk) sampleRun start).map
      (fun s => s.results.map fun r => r.outcome.toOption) = some [some [1, 2], none, none] := by
    decide
  obtain ⟨s, hs, hres⟩ := Option.map_eq_some_iff.mp h
  exact ⟨s, hs, hres, undisturbed_exact sampleDisk (by norm_num [sampleDisk]) sampleRun s hs⟩

/-- A disk whose guest has written the header of a reply to the second request, and two bytes. -/
def forgedDisk : List UInt8 := replyHeader 0 2 ++ [0xAA, 0xBB]

/-- The first call reads the whole disk and gives up after its header. The second call, for the
first two bytes, takes the data that is left over for its reply, and returns the last two bytes. -/
theorem not_readsExact_forged : ¬ ReadsExact forgedDisk := by
  intro h
  have hrun : (run (step forgedDisk)
      [.call 0 18, .write 28, .flush, .reply 0 0, .receive 16, .expire,
        .call 0 2, .write 28, .flush, .receive 16, .receive 2] start).map
      (fun s => s.results.map fun r => (r.offset, r.len, r.outcome.toOption)) =
      some [(0, 18, none), (0, 2, some [0xAA, 0xBB])] := by decide
  obtain ⟨s, hs, hres⟩ := Option.map_eq_some_iff.mp hrun
  have hmem : (0, 2, some [0xAA, 0xBB]) ∈
      s.results.map fun r => (r.offset, r.len, r.outcome.toOption) := by
    rw [hres]
    simp
  obtain ⟨⟨offset, len, outcome⟩, hr, heq⟩ := List.mem_map.mp hmem
  simp only [Prod.mk.injEq] at heq
  obtain ⟨rfl, rfl, hdata⟩ := heq
  cases outcome with
  | error stop => cases hdata
  | ok data =>
    obtain rfl := Option.some.inj hdata
    exact absurd (h _ s hs _ hr _ rfl) (by decide)

end VmSpect.Nbd
