import VmSpect.Vms.NbdReads

/-!
# The length of a request and the length of its reply

`read_range` waits for `adjusted_len` bytes, which is a `usize`, and asks for `adjusted_len as u32`
bytes. The two are the same number below `2^32`. From there on the server is asked for the rest of
the division by `2^32`, and the client waits for data that no server will send.
-/

namespace VmSpect.Nbd

open Bytes Words Interleaving

/-! ## What a call waits for -/

/-- A call waits for the bytes that it was asked for, as far as the disk has them. -/
def Call.Sized (D : List UInt8) (call : Call) : Prop :=
  call.adjustedLen = min call.len (D.length - call.offset)

/-- A call that returns data returns as many bytes as it was asked for, as far as the disk has
them. -/
def Result.Sized (D : List UInt8) (r : Result) : Prop :=
  ∀ data, r.outcome = .ok data → data.length = min r.len (D.length - r.offset)

/-- What a client holds is no more than it waits for. -/
def ClientSized (D : List UInt8) : Client → Prop
  | .idle => True
  | .sending call _ => call.Sized D
  | .header call _ => call.Sized D
  | .payload call got => call.Sized D ∧ got.length ≤ call.adjustedLen

/-- The lengths of a stream: of the data that was returned, and of the data that is awaited. -/
structure Measured (D : List UInt8) (s : State) : Prop where
  requestId_lt : s.requestId < 2^64
  results : ∀ r ∈ s.results, r.Sized D
  client : ClientSized D s.client

variable {D : List UInt8} {s : State}

/-- A call returns an error, or as many bytes as it was to return. -/
theorem Measured.finish (h : Measured D s) (call : Call)
    {outcome : Except (Stop IoError) (List UInt8)}
    (ho : Result.Sized D ⟨call.offset, call.len, outcome⟩) : Measured D (s.finish call outcome) := by
  refine ⟨h.requestId_lt, ?_, trivial⟩
  exact List.forall_mem_append.mpr ⟨h.results, List.forall_mem_singleton.mpr ho⟩

/-- An error is no data. -/
theorem Result.Sized.of_error (offset len : ℕ) (e : Stop IoError) :
    Result.Sized D ⟨offset, len, .error e⟩ := fun _ hdata => absurd hdata (by simp)

/-- A call starts, or returns at once what there is to read, which is nothing. -/
theorem Measured.call (h : Measured D s) (hidle : s.client = .idle) (offset len : ℕ) :
    Measured D (s.call D.length offset len) := by
  unfold State.call
  split
  · rename_i hnone
    refine ⟨h.requestId_lt, ?_, ?_⟩
    · refine List.forall_mem_append.mpr ⟨h.results, List.forall_mem_singleton.mpr ?_⟩
      intro data hdata
      obtain rfl := Except.ok.inj hdata
      rw [List.length_nil]
      dsimp only
      omega
    · show ClientSized D s.client
      rw [hidle]
      trivial
  · exact ⟨addw_lt _ _, h.results, rfl⟩

/-- The client receives bytes of the header or of the data. -/
theorem Measured.receive (h : Measured D s) {n : ℕ} {s' : State} (hs' : s.receive n = some s') :
    Measured D s' := by
  have hclient := h.client
  unfold State.receive at hs'
  rcases hc : s.client with _ | ⟨call, rest⟩ | ⟨call, got⟩ | ⟨call, got⟩
  · rw [hc] at hs'
    exact absurd hs' (Option.some_ne_none _).symm
  · rw [hc] at hs'
    exact absurd hs' (Option.some_ne_none _).symm
  · rw [hc] at hs' hclient
    dsimp only at hs'
    have hread : Measured D { s with unread := s.unread.drop n } :=
      ⟨h.requestId_lt, h.results, h.client⟩
    split at hs'
    · split at hs'
      · obtain rfl := Option.some.inj hs'
        exact ⟨h.requestId_lt, h.results, hclient⟩
      · split at hs'
        · obtain rfl := Option.some.inj hs'
          exact hread.finish call (Result.Sized.of_error _ _ _)
        · split at hs'
          · obtain rfl := Option.some.inj hs'
            exact hread.finish call (Result.Sized.of_error _ _ _)
          · obtain rfl := Option.some.inj hs'
            exact ⟨h.requestId_lt, h.results, hclient, Nat.zero_le _⟩
    · exact absurd hs' (Option.some_ne_none _).symm
  · rw [hc] at hs' hclient
    dsimp only at hs'
    obtain ⟨hcall, hgot⟩ := hclient
    split at hs'
    · rename_i hn
      have hlen : (got ++ s.unread.take n).length = got.length + n := by
        rw [List.length_append, List.length_take, Nat.min_eq_left hn.2.2]
      split at hs'
      · rename_i hless
        obtain rfl := Option.some.inj hs'
        exact ⟨h.requestId_lt, h.results, hcall, hless.le⟩
      · -- The last byte is there: the client has never taken more than it waits for.
        rename_i hmore
        obtain rfl := Option.some.inj hs'
        refine Measured.finish (s := { s with unread := s.unread.drop n })
          ⟨h.requestId_lt, h.results, h.client⟩ call ?_
        intro data hdata
        obtain rfl := Except.ok.inj hdata
        have hsized : call.adjustedLen = min call.len (D.length - call.offset) := hcall
        dsimp only
        omega
    · exact absurd hs' (Option.some_ne_none _).symm

/-- Every step keeps the lengths. -/
theorem Measured.step (h : Measured D s) {e : Event} {s' : State}
    (hs' : Nbd.step D e s = some s') : Measured D s' := by
  have hclient := h.client
  rcases e with ⟨offset, len⟩ | n | _ | n | _ | _ | ⟨i, error⟩ | _
  · simp only [Nbd.step] at hs'
    split at hs'
    · rename_i hidle
      obtain rfl := Option.some.inj hs'
      exact h.call hidle offset len
    · cases hs'
  · simp only [Nbd.step] at hs'
    split at hs'
    · rename_i call rest hc
      rw [hc] at hclient
      split at hs'
      · obtain rfl := Option.some.inj hs'
        obtain ⟨hid, hresults, -⟩ := serverReceive_frame (s := s) (rest.take n)
        exact ⟨hid ▸ h.requestId_lt, hresults ▸ h.results, hclient⟩
      · cases hs'
    · cases hs'
  · simp only [Nbd.step] at hs'
    split at hs'
    · rename_i call hc
      rw [hc] at hclient
      obtain rfl := Option.some.inj hs'
      exact ⟨h.requestId_lt, h.results, hclient⟩
    · cases hs'
  · exact h.receive hs'
  · simp only [Nbd.step, Option.map_eq_some_iff] at hs'
    obtain ⟨⟨call, context⟩, -, rfl⟩ := hs'
    exact h.finish call (Result.Sized.of_error _ _ _)
  · simp only [Nbd.step] at hs'
    split at hs'
    · obtain ⟨⟨call, context⟩, -, rfl⟩ := Option.map_eq_some_iff.mp hs'
      exact h.finish call (Result.Sized.of_error _ _ _)
    · cases hs'
  · simp only [Nbd.step] at hs'
    split at hs'
    · cases hs'
    · split at hs'
      · cases hs'
      · obtain ⟨bytes, -, rfl⟩ := Option.map_eq_some_iff.mp hs'
        exact ⟨h.requestId_lt, h.results, h.client⟩
  · simp only [Nbd.step] at hs'
    split at hs'
    · obtain rfl := Option.some.inj hs'
      exact ⟨h.requestId_lt, h.results, h.client⟩
    · cases hs'

/-- A stream after the handshake has the lengths. -/
theorem measured_start : Measured D start :=
  ⟨by norm_num [start], fun _ hr => absurd hr List.not_mem_nil, trivial⟩

/-- Every call that returns data returns as many bytes as it was asked for, as far as the disk has
them, whatever the server, the network and the clock do. -/
theorem Measured.run {t : State} (h : Measured D s) {es : List Event}
    (hrun : run (Nbd.step D) es s = some t) : Measured D t :=
  run_invariant (Measured D) h (fun _ _ _ hs hs' => hs.step hs') hrun

/-! ## What a call asks for -/

/-- The request that a call writes asks, at the offset of the call, for as many bytes as the call
waits for and returns: those it was asked for, as far as the disk has them. -/
def LengthsAgree (D : List UInt8) (s : State) (offset len : ℕ) : Prop :=
  ∃ call bytes request, (s.call D.length offset len).client = .sending call bytes ∧
    parseRequest bytes = some request ∧ request.command = cmdRead ∧ request.offset = offset ∧
    request.length = min len (D.length - offset) ∧ call.adjustedLen = request.length ∧
    ∀ es t data, run (step D) es (s.call D.length offset len) = some t →
      t.results[s.results.length]? = some ⟨offset, len, .ok data⟩ → data.length = request.length

/-- The client when a call has started that has something to read. -/
theorem client_call {exportSize offset len : ℕ} (hoffset : offset < exportSize) (hlen : 0 < len) :
    (s.call exportSize offset len).client =
      .sending ⟨s.requestId, offset, len, min len (exportSize - offset)⟩
        (requestBytes s.requestId offset (min len (exportSize - offset))) := by
  have hread : ¬(len = 0 ∨ exportSize ≤ offset) := by omega
  unfold State.call
  rw [if_neg hread]

/-- In every state of every run, the request of a call agrees with what the call waits for and
returns exactly when that is less than `2^32` bytes. -/
theorem lengthsAgree_iff (hD : D.length < 2^64) {es : List Event}
    (hrun : run (step D) es start = some s) (hidle : s.client = .idle) {offset len : ℕ}
    (hoffset : offset < D.length) (hlen : 0 < len) :
    LengthsAgree D s offset len ↔ min len (D.length - offset) < 2^32 := by
  have hmeasured : Measured D s := measured_start.run hrun
  have hparse : parseRequest (requestBytes s.requestId offset (min len (D.length - offset))) =
      some ⟨cmdRead, s.requestId, offset, min len (D.length - offset) % 2^32⟩ :=
    parseRequest_requestBytes hmeasured.requestId_lt (hoffset.trans hD)
  constructor
  · rintro ⟨call, bytes, request, hclient, hrequest, -, -, hasked, -, -⟩
    rw [client_call hoffset hlen] at hclient
    obtain ⟨-, rfl⟩ := Client.sending.inj hclient
    obtain rfl := Option.some.inj (hparse.symm.trans hrequest)
    rw [← hasked]
    exact Nat.mod_lt _ (by norm_num)
  · intro hsmall
    rw [Nat.mod_eq_of_lt hsmall] at hparse
    refine ⟨_, _, _, client_call hoffset hlen, hparse, rfl, rfl, rfl, rfl, ?_⟩
    intro es' t data hrun' hresult
    have hreturned := ((hmeasured.call hidle offset len).run hrun').results _
      (List.mem_of_getElem? hresult)
    exact hreturned data rfl

/-- A call for two bytes of the sample disk asks for two bytes. -/
theorem lengthsAgree_sample : LengthsAgree sampleDisk start 0 2 :=
  (lengthsAgree_iff (by norm_num [sampleDisk])
    (show run (step sampleDisk) [] start = some start from rfl) rfl (by norm_num [sampleDisk])
    (by norm_num)).mpr (by norm_num [sampleDisk])

/-- A disk of 4 GiB. -/
def largeDisk : List UInt8 := List.replicate (2^32) 0

/-- A call for the whole of a disk of 4 GiB waits for `2^32` bytes, and its request asks for
none. -/
theorem not_lengthsAgree_largeDisk :
    (∃ call bytes, (start.call largeDisk.length 0 (2^32)).client = .sending call bytes ∧
      call.adjustedLen = 2^32 ∧ parseRequest bytes = some ⟨cmdRead, 1, 0, 0⟩) ∧
    ¬ LengthsAgree largeDisk start 0 (2^32) := by
  have hlength : largeDisk.length = 2^32 := List.length_replicate
  generalize largeDisk = D at hlength ⊢
  have hclient : (start.call D.length 0 (2^32)).client =
      .sending ⟨1, 0, 2^32, 2^32⟩ (requestBytes 1 0 (2^32)) := by
    have hcall : (start.call D.length 0 (2^32)).client =
        .sending ⟨1, 0, 2^32, min (2^32) (D.length - 0)⟩
          (requestBytes 1 0 (min (2^32) (D.length - 0))) :=
      client_call (by omega) (by norm_num)
    rw [hlength, Nat.sub_zero, Nat.min_self] at hcall
    rw [hlength]
    exact hcall
  have hparse : parseRequest (requestBytes 1 0 (2^32)) = some ⟨cmdRead, 1, 0, 0⟩ :=
    parseRequest_requestBytes (by norm_num) (by norm_num)
  refine ⟨⟨_, _, hclient, rfl, hparse⟩, ?_⟩
  rintro ⟨call, bytes, request, hcall, hrequest, -, -, hasked, -, -⟩
  obtain ⟨-, rfl⟩ := Client.sending.inj (hclient.symm.trans hcall)
  obtain rfl := Option.some.inj (hparse.symm.trans hrequest)
  rw [hlength] at hasked
  exact absurd hasked (by norm_num)

end VmSpect.Nbd
