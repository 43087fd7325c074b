import VmSpect.Lib.Stateful
import VmSpect.Vms.VirtualDisk

/-!
# `VirtualDisk` is a cursor over the bytes of the driver

`Cursor.answer` is a cursor over a part of a fixed content, without a cache and without failures.
`run_cursor` relates every sequence of calls on a fresh `VirtualDisk` to it: the calls that do not
fail answer as the cursor does when it is given those calls alone. So a call that fails leaves
nothing behind that a later answer depends on.

The cache only ever holds what the driver holds at the place of the chunk (`Keeps`), which one round
of the loop needs (`copyChunks_spec`).
-/

namespace VmSpect

open Bytes Words Stateful

/-- The calls on a view. -/
inductive DiskCall where
  | read (buf : List UInt8)
  | seek (pos : SeekFrom)
  | readAt (pos : ℕ) (buf : List UInt8)
  | readAtOffset (offset : ℕ) (buf : List UInt8)

/-- What they return: the number of bytes and the buffer, or the new position. -/
inductive DiskAnswer where
  | read (result : Except (Stop IoError) (ℕ × List UInt8))
  | seek (result : Except IoError ℕ)
  | readAtOffset (result : Except (Stop VmSpectError) (ℕ × List UInt8))

/-- The answer of a read that was stopped below the view. -/
inductive DiskAnswer.StoppedBy : DiskAnswer → Stop IoError → Prop where
  | read (stop) : StoppedBy (.read (.error stop)) stop
  | readAtOffset (e) : StoppedBy (.readAtOffset (.error (.error (.io e)))) (.error e)
  | panic : StoppedBy (.readAtOffset (.error .panic)) .panic

/-- Whether a read returned normally; a seek always does. -/
def DiskAnswer.returned : DiskAnswer → Bool
  | read (.error _) => false
  | readAtOffset (.error _) => false
  | _ => true

namespace Cursor

/-- How many bytes a read of `want` bytes at `pos` transfers: no more than are left of the view, and
than are left of the disk. -/
def readable (D : List UInt8) (base length pos want : ℕ) : ℕ :=
  min want (min (length - pos) (D.length - base - pos))

/-- A read of the view from `base` on: the bytes of the disk, and the rest of the buffer as it
was. -/
def read (D : List UInt8) (base length pos : ℕ) (buf : List UInt8) : ℕ × List UInt8 :=
  let n := readable D base length pos buf.length
  (n, slice D (base + pos) n ++ buf.drop n)

/-- The answer of the cursor at `pos` to a call, and where the cursor is after it. -/
def answer (D : List UInt8) (base length pos : ℕ) : DiskCall → DiskAnswer × ℕ
  | .read buf =>
    (.read (.ok (read D base length pos buf)), pos + readable D base length pos buf.length)
  | .seek target =>
    let new := VirtualDisk.seekTarget length pos target
    if new < 0 then (.seek (.error ⟨.invalidInput, "seek to a negative position"⟩), pos)
    else (.seek (.ok (new.toNat % 2^64)), new.toNat % 2^64)
  | .readAt p buf => (.read (.ok (read D base length p buf)), pos)
  | .readAtOffset p buf => (.readAtOffset (.ok (read D base length p buf)), pos)

/-- The answers to a list of calls, and where the cursor ends. -/
def answers (D : List UInt8) (base length : ℕ) : ℕ → List DiskCall → List DiskAnswer × ℕ
  | pos, [] => ([], pos)
  | pos, call :: rest =>
    let (first, next) := answer D base length pos call
    let (others, last) := answers D base length next rest
    (first :: others, last)

end Cursor

namespace VirtualDisk

section Calls

variable {m : Type → Type} [Monad m]

/-- One call on the view. -/
def perform (driver : VmDriver m) (disk : VirtualDisk) :
    DiskCall → m (VirtualDisk × DiskAnswer)
  | .read buf => do
    let (disk', result) ← disk.read driver buf
    pure (disk', .read result)
  | .seek pos =>
    let (disk', result) := disk.seek pos
    pure (disk', .seek result)
  | .readAt pos buf => do
    let (disk', result) ← disk.readAt driver pos buf
    pure (disk', .read result)
  | .readAtOffset offset buf => do
    let (disk', result) ← disk.readAtOffset driver offset buf
    pure (disk', .readAtOffset result)

/-- A sequence of calls on the view, with the answer to each of them. -/
def performAll (driver : VmDriver m) (disk : VirtualDisk) :
    List DiskCall → m (VirtualDisk × List (DiskCall × DiskAnswer))
  | [] => pure (disk, [])
  | call :: rest => do
    let (disk', answer) ← disk.perform driver call
    let (disk'', others) ← disk'.performAll driver rest
    pure (disk'', (call, answer) :: others)

end Calls

end VirtualDisk

variable {σ : Type}

/-- The driver fills a buffer that lies inside the disk from the fixed content `D`, or fails. -/
structure VmDriver.Serves (driver : VmDriver (StateM σ)) (D : List UInt8) : Prop where
  size : driver.virtualSize = D.length
  fills : ∀ offset len data st, offset + len ≤ D.length →
    ((driver.readRange offset len).run st).1 = .ok data → data = slice D offset len

/-- What can stop a read on a view with chunks of `chunkSize` bytes: an error of the driver, passed
on with its text, or a chunk that is too long for a vector. -/
inductive VmDriver.Stops (driver : VmDriver (StateM σ)) (chunkSize : ℕ) : Stop IoError → Prop where
  | failed (offset len st e) (h : ((driver.readRange offset len).run st).1 = .error e) :
      Stops driver chunkSize (.error (IoError.ofOther e.toText))
  | capacity (h : maxVecLen < chunkSize) : Stops driver chunkSize .panic

namespace VirtualDisk

/-- `disk'` is the view `disk` with another cache, each chunk of which is what the disk holds
there. -/
structure Keeps (D : List UInt8) (disk disk' : VirtualDisk) : Prop where
  base : disk'.base = disk.base
  length : disk'.length = disk.length
  position : disk'.position = disk.position
  chunkSize : disk'.chunkSize = disk.chunkSize
  cached : ∀ entry ∈ disk'.cache,
    entry.2 = slice D (disk.base + entry.1 * disk.chunkSize) disk.chunkSize

/-- A view keeps itself when its cache is right. -/
theorem Keeps.refl {D : List UInt8} {disk : VirtualDisk} (h : ∀ entry ∈ disk.cache,
    entry.2 = slice D (disk.base + entry.1 * disk.chunkSize) disk.chunkSize) : Keeps D disk disk :=
  ⟨rfl, rfl, rfl, rfl, h⟩

/-- What two calls keep is kept. -/
theorem Keeps.trans {D : List UInt8} {disk disk' disk'' : VirtualDisk} (h : Keeps D disk disk')
    (h' : Keeps D disk' disk'') : Keeps D disk disk'' where
  base := h'.base.trans h.base
  length := h'.length.trans h.length
  position := h'.position.trans h.position
  chunkSize := h'.chunkSize.trans h.chunkSize
  cached := by
    intro entry hentry
    rw [← h.base, ← h.chunkSize]
    exact h'.cached entry hentry

section Refines

variable {driver : VmDriver (StateM σ)} {D : List UInt8}

/-- A chunk that starts below `2^64` is loaded as the disk holds it. -/
theorem loadChunk_spec (hD : driver.Serves D) (disk : VirtualDisk) {chunkIndex : ℕ}
    (hfit : disk.base + chunkIndex * disk.chunkSize < 2^64) :
    Always (disk.loadChunk driver chunkIndex) fun result =>
      (∃ stop, result = .error stop ∧ driver.Stops disk.chunkSize stop) ∨
      result = .ok (slice D (disk.base + chunkIndex * disk.chunkSize) disk.chunkSize) := by
  have hmul : mulw chunkIndex disk.chunkSize = chunkIndex * disk.chunkSize := mulw_of_lt (by omega)
  unfold loadChunk
  rw [hmul, addw_of_lt hfit]
  split
  · exact Always.pure (Or.inl ⟨.panic, rfl, .capacity ‹_›⟩)
  · dsimp only
    split
    · rename_i hcap hlt
      rw [hD.size] at hlt ⊢
      refine Always.bind (P := fun r => ∃ st, ((driver.readRange _ _).run st).1 = r)
        (fun st => ⟨st, rfl⟩) ?_
      rintro r ⟨st, hr⟩
      cases r with
      | error e => exact Always.pure (Or.inl ⟨_, rfl, .failed _ _ st e hr⟩)
      | ok data =>
        refine Always.pure (Or.inr ?_)
        -- The driver is asked for what is left of the disk, which is where a slice is cut off.
        rw [hD.fills _ _ data st (by omega) hr, slice_min_length]
    · rename_i hcap hge
      rw [hD.size, not_lt] at hge
      exact Always.pure (Or.inr (by rw [slice, List.drop_of_length_le hge, List.take_nil]))

/-- A fetched chunk is what the disk holds, whether it was cached or not. -/
theorem fetchChunk_spec (hD : driver.Serves D) {disk : VirtualDisk} (hdisk : Keeps D disk disk)
    {chunkIndex : ℕ} (hfit : disk.base + chunkIndex * disk.chunkSize < 2^64) :
    Always (disk.fetchChunk driver chunkIndex) fun fetched => Keeps D disk fetched.1 ∧
      ((∃ stop, fetched.2 = .error stop ∧ driver.Stops disk.chunkSize stop) ∨
      fetched.2 = .ok (slice D (disk.base + chunkIndex * disk.chunkSize) disk.chunkSize)) := by
  unfold fetchChunk
  split
  · -- A hit moves the entry to the front.
    rename_i entry hfind
    have hmem : entry ∈ disk.cache := List.mem_of_find?_eq_some hfind
    have hindex : entry.1 = chunkIndex := by simpa using List.find?_some hfind
    refine Always.bind (P := fun _ => True) (fun _ => trivial) fun _ _ => Always.pure ⟨?_, ?_⟩
    · refine ⟨rfl, rfl, rfl, rfl, fun e he => hdisk.cached e ?_⟩
      rcases List.mem_cons.mp he with rfl | he
      · exact hmem
      · exact List.mem_of_mem_eraseP he
    · right
      rw [hdisk.cached entry hmem, hindex]
  · -- A miss loads the chunk, and may evict the entry that was used least recently.
    refine Always.bind (loadChunk_spec hD disk hfit) ?_
    rintro result (⟨stop, rfl, hstop⟩ | rfl)
    · exact Always.pure ⟨hdisk, Or.inl ⟨stop, rfl, hstop⟩⟩
    · refine Always.pure ⟨⟨rfl, rfl, rfl, rfl, fun e he => ?_⟩, Or.inr rfl⟩
      rcases List.mem_cons.mp he with rfl | he
      · rfl
      · refine hdisk.cached e ?_
        simp only [evicted] at he
        split at he
        · exact List.mem_of_mem_dropLast he
        · exact he

/-- The loop, once `transferred` bytes are in the buffer: it ends with all bytes that are asked for
and are there, or it is stopped. -/
theorem copyChunks_spec (hD : driver.Serves D) (pos total transferred : ℕ) (buf : List UInt8)
    {disk : VirtualDisk} (hdisk : Keeps D disk disk) (hview : disk.base + disk.length < 2^64)
    (htotal : pos + total ≤ disk.length) (hle : transferred ≤ total)
    (hthere : transferred ≤ D.length - disk.base - pos) :
    Always (copyChunks driver pos total disk transferred
      (slice D (disk.base + pos) transferred ++ buf.drop transferred)) fun result =>
      Keeps D disk result.1 ∧
      ((∃ stop, result.2 = .error stop ∧ driver.Stops disk.chunkSize stop) ∨
      result.2 = .ok (min total (D.length - disk.base - pos),
        slice D (disk.base + pos) (min total (D.length - disk.base - pos)) ++
          buf.drop (min total (D.length - disk.base - pos)))) := by
  induction hleft : total - transferred using Nat.strong_induction_on generalizing disk transferred with
  | _ left ih =>
    subst hleft
    rw [copyChunks]
    split
    · rename_i hlt
      have hcur : addw pos transferred = pos + transferred := addw_of_lt (by omega)
      -- The current position is `within` bytes after the start of its chunk.
      have hsplit := Nat.div_add_mod' (pos + transferred) disk.chunkSize
      have hwithin := Nat.mod_lt (pos + transferred) disk.chunkSize_pos
      dsimp only
      rw [hcur]
      generalize hq : (pos + transferred) / disk.chunkSize = chunkIndex at *
      generalize hr : (pos + transferred) % disk.chunkSize = within at *
      refine Always.bind (fetchChunk_spec hD hdisk (by omega)) ?_
      rintro ⟨disk', fetched⟩ ⟨hkeeps, ⟨stop, rfl, hstop⟩ | rfl⟩
      · exact Always.pure ⟨hkeeps, Or.inl ⟨stop, rfl, hstop⟩⟩
      · dsimp only
        rw [length_slice]
        split
        · -- The chunk ends before the position, and so does the disk.
          rename_i hend
          have hall : min total (D.length - disk.base - pos) = transferred := by omega
          exact Always.pure ⟨hkeeps, Or.inr (by rw [hall])⟩
        · rename_i hmore
          generalize hcopy : min (total - transferred)
            (min disk.chunkSize (D.length - (disk.base + chunkIndex * disk.chunkSize)) - within) =
            toCopy
          have hgot : (slice D (disk.base + pos) transferred).length = transferred := by
            rw [length_slice]
            omega
          have hpiece : slice (slice D (disk.base + chunkIndex * disk.chunkSize) disk.chunkSize)
              within toCopy = slice D (disk.base + pos + transferred) toCopy := by
            rw [slice_slice (by omega)]
            congr 1
            omega
          have hlen : (slice D (disk.base + pos + transferred) toCopy).length = toCopy := by
            rw [length_slice]
            omega
          have hwrite := writeAt_append (slice D (disk.base + pos) transferred)
            (buf.drop transferred) (slice D (disk.base + pos + transferred) toCopy)
          rw [hgot, hlen, ← slice_add, List.drop_drop] at hwrite
          rw [hpiece, hwrite]
          have hnext := @ih (total - (transferred + toCopy)) (by omega) (transferred + toCopy) disk'
          rw [hkeeps.base, hkeeps.length, hkeeps.chunkSize] at hnext
          refine (hnext ?_ hview htotal (by omega) (by omega) rfl).mono ?_
          · exact ⟨rfl, rfl, rfl, rfl, by
              rw [hkeeps.base, hkeeps.chunkSize]; exact hkeeps.cached⟩
          · rintro result ⟨hresult, hend⟩
            exact ⟨hkeeps.trans hresult, hend⟩
    · have hall : min total (D.length - disk.base - pos) = transferred := by omega
      exact Always.pure ⟨hdisk, Or.inr (by rw [hall])⟩

/-- A read is the read of the cursor, or it is stopped. -/
theorem readWithCache_spec (hD : driver.Serves D) {disk : VirtualDisk} (hdisk : Keeps D disk disk)
    (hview : disk.base + disk.length < 2^64) (pos : ℕ) (buf : List UInt8) :
    Always (disk.readWithCache driver pos buf) fun result => Keeps D disk result.1 ∧
      ((∃ stop, result.2 = .error stop ∧ driver.Stops disk.chunkSize stop) ∨
      result.2 = .ok (Cursor.read D disk.base disk.length pos buf)) := by
  unfold readWithCache
  split
  · rename_i hnone
    have hzero : Cursor.readable D disk.base disk.length pos buf.length = 0 := by
      unfold Cursor.readable
      rcases hnone with h | rfl
      · omega
      · simp
    refine Always.pure ⟨hdisk, Or.inr ?_⟩
    simp [Cursor.read, hzero, slice]
  · have hn : Cursor.readable D disk.base disk.length pos buf.length =
        min (min (disk.length - pos) buf.length) (D.length - disk.base - pos) := by
      unfold Cursor.readable
      omega
    -- The loop starts with nothing transferred.
    have hloop := copyChunks_spec hD pos (min (disk.length - pos) buf.length) 0 buf hdisk hview
      (by omega) (Nat.zero_le _) (Nat.zero_le _)
    have hstart : slice D (disk.base + pos) 0 ++ buf.drop 0 = buf := by simp [slice]
    rw [hstart, ← hn] at hloop
    exact hloop

/-- The view from `base` on in chunks of `chunkSize` bytes, with a right cache. -/
structure View (D : List UInt8) (base length chunkSize : ℕ) (disk : VirtualDisk) : Prop where
  base_eq : disk.base = base
  length_eq : disk.length = length
  chunkSize_eq : disk.chunkSize = chunkSize
  position_lt : disk.position < 2^64
  cached : ∀ entry ∈ disk.cache, entry.2 = slice D (base + entry.1 * chunkSize) chunkSize

/-- A view with a right cache keeps itself. -/
theorem View.keeps {base length chunkSize : ℕ} {disk : VirtualDisk}
    (h : View D base length chunkSize disk) : Keeps D disk disk :=
  Keeps.refl (by rw [h.base_eq, h.chunkSize_eq]; exact h.cached)

/-- A kept view is a view again, wherever its cursor is put. -/
theorem Keeps.view {base length chunkSize : ℕ} {disk disk' : VirtualDisk} (h : Keeps D disk disk')
    (hdisk : View D base length chunkSize disk) {position : ℕ} (hpos : position < 2^64) :
    View D base length chunkSize { disk' with position } where
  base_eq := h.base.trans hdisk.base_eq
  length_eq := h.length.trans hdisk.length_eq
  chunkSize_eq := h.chunkSize.trans hdisk.chunkSize_eq
  position_lt := hpos
  cached := by
    intro entry hentry
    rw [← hdisk.base_eq, ← hdisk.chunkSize_eq]
    exact h.cached entry hentry

/-- A kept view is a view. -/
theorem Keeps.view_self {base length chunkSize : ℕ} {disk disk' : VirtualDisk}
    (h : Keeps D disk disk') (hdisk : View D base length chunkSize disk) :
    View D base length chunkSize disk' :=
  h.view hdisk (h.position ▸ hdisk.position_lt)

/-- Every call answers as the cursor and moves as it, or is stopped and does not move. -/
theorem perform_spec (hD : driver.Serves D) {base length chunkSize : ℕ} {disk : VirtualDisk}
    (hdisk : View D base length chunkSize disk) (hview : base + length < 2^64) (call : DiskCall) :
    Always (disk.perform driver call) fun result => View D base length chunkSize result.1 ∧
      ((result.2, result.1.position) = Cursor.answer D base length disk.position call ∨
      (∃ stop, result.2.StoppedBy stop ∧ driver.Stops chunkSize stop) ∧
        result.1.position = disk.position) := by
  have hread := readWithCache_spec hD hdisk.keeps
    (by rw [hdisk.base_eq, hdisk.length_eq]; exact hview)
  rw [hdisk.base_eq, hdisk.length_eq, hdisk.chunkSize_eq] at hread
  cases call with
  | seek target =>
    obtain rfl := hdisk.length_eq
    have hseek : disk.perform driver (.seek target) =
        pure ((disk.seek target).1, .seek (disk.seek target).2) := rfl
    rw [hseek]
    unfold seek Cursor.answer
    dsimp only
    split
    · exact Always.pure ⟨hdisk, Or.inl rfl⟩
    · exact Always.pure ⟨hdisk.keeps.view hdisk (Nat.mod_lt _ (by norm_num)), Or.inl rfl⟩
  | read buf =>
    simp only [perform, VirtualDisk.read, bind_assoc]
    refine Always.bind (hread disk.position buf) ?_
    rintro ⟨disk', result⟩ ⟨hkeeps, ⟨stop, rfl, hstop⟩ | rfl⟩
    · exact Always.pure ⟨hkeeps.view_self hdisk, Or.inr ⟨⟨stop, .read stop, hstop⟩,
        hkeeps.position⟩⟩
    · -- The cursor stays inside the view, or does not move at all.
      have hmove : addw disk'.position (Cursor.readable D base length disk.position buf.length) =
          disk.position + Cursor.readable D base length disk.position buf.length := by
        have hlt := hdisk.position_lt
        have hpos : disk'.position = disk.position := hkeeps.position
        rw [hpos]
        refine addw_of_lt ?_
        unfold Cursor.readable
        omega
      refine Always.pure ⟨hkeeps.view hdisk (addw_lt _ _), Or.inl ?_⟩
      simp only [Cursor.answer, Cursor.read]
      rw [hmove]
  -- A read at a position of its own does not move the cursor.
  | readAt pos buf =>
    simp only [perform, VirtualDisk.readAt]
    refine Always.bind (hread pos buf) ?_
    rintro ⟨disk', result⟩ ⟨hkeeps, ⟨stop, rfl, hstop⟩ | rfl⟩
    · exact Always.pure ⟨hkeeps.view_self hdisk, Or.inr ⟨⟨stop, .read stop, hstop⟩,
        hkeeps.position⟩⟩
    · refine Always.pure ⟨hkeeps.view_self hdisk, Or.inl ?_⟩
      exact congrArg (Prod.mk _) hkeeps.position
  | readAtOffset offset buf =>
    simp only [perform, VirtualDisk.readAtOffset, bind_assoc]
    refine Always.bind (hread offset buf) ?_
    rintro ⟨disk', result⟩ ⟨hkeeps, ⟨stop, rfl, hstop⟩ | rfl⟩
    · cases stop with
      | error e =>
        exact Always.pure ⟨hkeeps.view_self hdisk, Or.inr ⟨⟨.error e, .readAtOffset e, hstop⟩,
          hkeeps.position⟩⟩
      | panic =>
        exact Always.pure ⟨hkeeps.view_self hdisk, Or.inr ⟨⟨.panic, .panic, hstop⟩,
          hkeeps.position⟩⟩
    · refine Always.pure ⟨hkeeps.view_self hdisk, Or.inl ?_⟩
      exact congrArg (Prod.mk _) hkeeps.position

end Refines

/-- A driver over five bytes that fails on its first call and counts its calls. -/
def flakyDriver : VmDriver (StateM ℕ) where
  virtualSize := 5
  readRange offset len := fun calls =>
    (if calls = 0 then .error (.other "unavailable") else .ok (slice [10, 20, 30, 40, 50] offset len),
      calls + 1)
  recordCacheHit := pure ()

end VirtualDisk

end VmSpect
