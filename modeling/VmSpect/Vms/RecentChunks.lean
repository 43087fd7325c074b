import VmSpect.Lib.Recency
import VmSpect.Vms.CacheBound

/-!
# The cache of a view holds the most recently used chunks

`fetchChunk` is the only part of a view that changes its cache. One fetch that returns is one more
use of its chunk (`fetchChunk_cachedChunks`), and one that fails or panics leaves the cache alone.
So after any sequence of accesses the cached chunks are the most recent ones of those that returned,
and an access asks the driver for a chunk when it is not among them (`cachedChunks_mostRecent`).
Reads are such accesses: `allAccesses` lists the chunks that calls access, and
`performAll_accesses` shows that the calls do nothing else to the cache and the driver.
-/

namespace VmSpect

open Bytes Words Stateful Recency

/-- What a view asks of its driver. -/
inductive DriverCall where
  | readRange (offset len : ℕ)
  | recordCacheHit
  deriving DecidableEq

variable {σ : Type}

/-- The driver, with a log of what it is asked. -/
def VmDriver.logged (driver : VmDriver (StateM σ)) : VmDriver (StateM (σ × List DriverCall)) where
  virtualSize := driver.virtualSize
  readRange offset len := modifyGet fun s =>
    let r := (driver.readRange offset len).run s.1
    (r.1, r.2, s.2 ++ [.readRange offset len])
  recordCacheHit := modifyGet fun s =>
    ((), (driver.recordCacheHit.run s.1).2, s.2 ++ [.recordCacheHit])

namespace VirtualDisk

/-- The chunks that are cached, the most recently used one first. -/
def cachedChunks (disk : VirtualDisk) : List ℕ := disk.cache.map Prod.fst

/-- Accesses to chunks, one after the other: the view after them, and those that returned. -/
def accessAll {m : Type → Type} [Monad m] (driver : VmDriver m) (disk : VirtualDisk) :
    List ℕ → m (VirtualDisk × List ℕ)
  | [] => pure (disk, [])
  | i :: rest => do
    let (disk', fetched) ← disk.fetchChunk driver i
    let (disk'', returned) ← disk'.accessAll driver rest
    pure (disk'', if fetched.isOk then i :: returned else returned)

/-- What an access to a chunk asks of the driver. -/
def requests (driver : VmDriver (StateM σ)) (disk : VirtualDisk) (i : ℕ) (st : σ) :
    List DriverCall :=
  ((disk.fetchChunk driver.logged i).run (st, [])).2.2

/-! ## One access -/

/-- The chunks of a cache without its first entry for `i`. -/
theorem map_fst_eraseP (cache : List (ℕ × List UInt8)) (i : ℕ) :
    (cache.eraseP fun entry => entry.1 = i).map Prod.fst = (cache.map Prod.fst).erase i := by
  have hsame : (fun entry : ℕ × List UInt8 => decide (entry.1 = i)) = (i == ·) ∘ Prod.fst := by
    funext entry
    rw [Function.comp_apply, beq_eq_decide, decide_eq_decide]
    exact eq_comm
  rw [List.erase_eq_eraseP, List.eraseP_map, hsame]

/-- The chunks that are cached once there is room for one more. -/
theorem map_fst_evicted (disk : VirtualDisk) : disk.evicted.map Prod.fst =
    if disk.maxChunks ≤ disk.cachedChunks.length then disk.cachedChunks.dropLast
    else disk.cachedChunks := by
  unfold evicted cachedChunks
  rw [List.length_map]
  split
  · exact List.map_dropLast
  · rfl

/-- A chunk without an entry is not cached. -/
theorem notMem_cachedChunks {disk : VirtualDisk} {i : ℕ}
    (h : disk.cache.find? (fun entry => entry.1 = i) = none) : i ∉ disk.cachedChunks := by
  intro hmem
  obtain ⟨entry, he, hindex⟩ := List.mem_map.mp hmem
  exact List.find?_eq_none.mp h entry he (decide_eq_true hindex)

/-- The chunk of an entry is cached. -/
theorem mem_cachedChunks {disk : VirtualDisk} {i : ℕ} {entry : ℕ × List UInt8}
    (h : disk.cache.find? (fun entry => entry.1 = i) = some entry) :
    entry.1 = i ∧ i ∈ disk.cachedChunks := by
  have hindex : entry.1 = i := by simpa using List.find?_some h
  exact ⟨hindex, hindex ▸ List.mem_map_of_mem (List.mem_of_find?_eq_some h)⟩

/-- An access changes nothing but the cache. If it returns it is one more use of its chunk, and
otherwise the cache is as it was. -/
theorem fetchChunk_cachedChunks (driver : VmDriver (StateM σ)) (disk : VirtualDisk) (i : ℕ) :
    Always (disk.fetchChunk driver i) fun r => (∃ cache, r.1 = { disk with cache }) ∧
      r.1.cachedChunks =
        if r.2.isOk then touch disk.maxChunks disk.cachedChunks i else disk.cachedChunks := by
  unfold fetchChunk
  split
  · rename_i entry hfind
    obtain ⟨hindex, hmem⟩ := mem_cachedChunks hfind
    refine Always.bind (P := fun _ => True) (fun _ => trivial) fun _ _ => Always.pure ⟨⟨_, rfl⟩, ?_⟩
    have hfront : touch disk.maxChunks disk.cachedChunks i = i :: disk.cachedChunks.erase i :=
      if_pos hmem
    have hcache : entry.1 :: (disk.cache.eraseP fun entry => entry.1 = i).map Prod.fst =
        touch disk.maxChunks disk.cachedChunks i := by
      rw [hfront, hindex, map_fst_eraseP]
      rfl
    exact hcache.trans (if_pos rfl).symm
  · rename_i hfind
    have hfront : touch disk.maxChunks disk.cachedChunks i = i :: disk.evicted.map Prod.fst := by
      rw [map_fst_evicted]
      exact if_neg (notMem_cachedChunks hfind)
    refine Always.bind (P := fun _ => True) (fun _ => trivial) ?_
    rintro (stop | data) -
    · exact Always.pure ⟨⟨disk.cache, rfl⟩, rfl⟩
    · exact Always.pure ⟨⟨_, rfl⟩, hfront.symm.trans (if_pos rfl).symm⟩

/-- What the load of a chunk asks of the driver: the part of the chunk that the disk has. -/
theorem loadChunk_requests (driver : VmDriver (StateM σ)) (disk : VirtualDisk) (i : ℕ) (st : σ) :
    ((disk.loadChunk driver.logged i).run (st, [])).2.2 =
      if maxVecLen < disk.chunkSize then []
      else if addw disk.base (mulw i disk.chunkSize) < driver.virtualSize then
        [.readRange (addw disk.base (mulw i disk.chunkSize))
          (min disk.chunkSize (driver.virtualSize - addw disk.base (mulw i disk.chunkSize)))]
      else [] := by
  unfold loadChunk
  split
  · rfl
  · dsimp only
    generalize addw disk.base (mulw i disk.chunkSize) = place
    have hsize : driver.logged.virtualSize = driver.virtualSize := rfl
    rw [hsize]
    split
    · rw [run_bind_snd (by rintro (e | data) s <;> rfl)]
      rfl
    · rfl

/-- What an access asks of the driver: to note the hit when the chunk is cached, and otherwise what
the load of the chunk asks. -/
theorem requests_eq (driver : VmDriver (StateM σ)) (disk : VirtualDisk) (i : ℕ) (st : σ) :
    disk.requests driver i st =
      if i ∈ disk.cachedChunks then [.recordCacheHit]
      else ((disk.loadChunk driver.logged i).run (st, [])).2.2 := by
  unfold requests fetchChunk
  split
  · rename_i entry hfind
    rw [if_pos (mem_cachedChunks hfind).2]
    rfl
  · rename_i hfind
    rw [if_neg (notMem_cachedChunks hfind), run_bind_snd (by rintro (e | data) s <;> rfl)]

/-- An access asks the driver at most once: to note the hit when the chunk is cached, and for the
bytes of a chunk inside the disk when it is not and a vector can hold a chunk. -/
theorem requests_spec (driver : VmDriver (StateM σ)) (hsize : driver.virtualSize < 2^64)
    (disk : VirtualDisk) (i : ℕ) (st : σ) :
    (disk.requests driver i st).length ≤ 1 ∧
    (.recordCacheHit ∈ disk.requests driver i st ↔ i ∈ disk.cachedChunks) ∧
    (disk.base + i * disk.chunkSize < driver.virtualSize →
      (.readRange (disk.base + i * disk.chunkSize)
          (min disk.chunkSize (driver.virtualSize - (disk.base + i * disk.chunkSize))) ∈
        disk.requests driver i st ↔ i ∉ disk.cachedChunks ∧ disk.chunkSize ≤ maxVecLen)) := by
  -- A place inside the disk is one that the code computes without wrapping.
  have hword (hplace : disk.base + i * disk.chunkSize < driver.virtualSize) :
      addw disk.base (mulw i disk.chunkSize) = disk.base + i * disk.chunkSize := by
    rw [mulw_of_lt (by omega), addw_of_lt (by omega)]
  rw [requests_eq, loadChunk_requests]
  split
  · rename_i hhit
    exact ⟨le_refl 1, iff_of_true List.mem_cons_self hhit,
      fun _ => iff_of_false (by simp) fun hmiss => hmiss.1 hhit⟩
  rename_i hmiss
  split
  · rename_i hlong
    exact ⟨Nat.zero_le 1, iff_of_false List.not_mem_nil hmiss,
      fun _ => iff_of_false List.not_mem_nil fun hfit => absurd hfit.2 (by omega)⟩
  rename_i hfit
  split
  · refine ⟨le_refl 1, iff_of_false (by simp) hmiss, fun hplace => ?_⟩
    rw [hword hplace]
    exact iff_of_true List.mem_cons_self ⟨hmiss, by omega⟩
  · rename_i hout
    refine ⟨Nat.zero_le 1, iff_of_false List.not_mem_nil hmiss, fun hplace => ?_⟩
    rw [hword hplace] at hout
    exact absurd hplace hout

/-! ## Sequences of accesses -/

/-- After any sequence of accesses, the cached chunks are the most recently used ones of those that
returned, those of an earlier history included. -/
theorem accessAll_cachedChunks (driver : VmDriver (StateM σ)) (accesses history : List ℕ)
    {disk : VirtualDisk} (hroom : 0 < disk.maxChunks)
    (hdisk : disk.cachedChunks = mostRecent disk.maxChunks history) :
    Always (disk.accessAll driver accesses) fun r => (∃ cache, r.1 = { disk with cache }) ∧
      r.1.cachedChunks = mostRecent disk.maxChunks (history ++ r.2) := by
  induction accesses generalizing disk history with
  | nil => exact Always.pure ⟨⟨disk.cache, rfl⟩, by rw [List.append_nil, hdisk]⟩
  | cons i rest ih =>
    refine Always.bind (fetchChunk_cachedChunks driver disk i) ?_
    rintro ⟨disk', fetched⟩ ⟨⟨cache, rfl⟩, hcached⟩
    -- The history goes on with the chunk if it was fetched.
    have hnext : ({ disk with cache } : VirtualDisk).cachedChunks =
        mostRecent disk.maxChunks (history ++ if fetched.isOk then [i] else []) := by
      rw [hcached, hdisk]
      split
      · exact touch_mostRecent hroom history i
      · rw [List.append_nil]
    refine Always.bind (ih _ hroom hnext) ?_
    rintro ⟨disk'', returned⟩ ⟨⟨cache', rfl⟩, hcached'⟩
    refine Always.pure ⟨⟨cache', rfl⟩, hcached'.trans ?_⟩
    rw [List.append_assoc]
    split <;> rfl

/-- The view and the state of the driver after a computation on the view. -/
def ending {α : Type} (r : (VirtualDisk × α) × σ) : VirtualDisk × σ := (r.1.1, r.2)

/-- One access after the other. -/
theorem accessAll_cons (driver : VmDriver (StateM σ)) (disk : VirtualDisk) (i : ℕ) (rest : List ℕ)
    (st : σ) :
    ending ((disk.accessAll driver (i :: rest)).run st) =
      ending (((ending ((disk.fetchChunk driver i).run st)).1.accessAll driver rest).run
        (ending ((disk.fetchChunk driver i).run st)).2) := rfl

/-- One sequence of accesses after the other. -/
theorem accessAll_append (driver : VmDriver (StateM σ)) (disk : VirtualDisk) (first second : List ℕ)
    (st : σ) :
    ending ((disk.accessAll driver (first ++ second)).run st) =
      ending (((ending ((disk.accessAll driver first).run st)).1.accessAll driver second).run
        (ending ((disk.accessAll driver first).run st)).2) := by
  induction first generalizing disk st with
  | nil => rfl
  | cons i rest ih => rw [List.cons_append, accessAll_cons, ih, accessAll_cons]

/-! ## The accesses of reads -/

/-- The chunks that the loop of `read_with_cache` accesses, from a state of the driver on. -/
def loopAccesses (driver : VmDriver (StateM σ)) (pos total : ℕ) (disk : VirtualDisk)
    (transferred : ℕ) (st : σ) : List ℕ :=
  if _h : transferred < total then
    let currentOffset := addw pos transferred
    let chunkIndex := currentOffset / disk.chunkSize
    let withinChunk := currentOffset % disk.chunkSize
    let r := (disk.fetchChunk driver chunkIndex).run st
    chunkIndex :: match r.1.2 with
      | .error _ => []
      | .ok data =>
        if _hw : data.length ≤ withinChunk then []
        else loopAccesses driver pos total r.1.1
          (transferred + min (total - transferred) (data.length - withinChunk)) r.2
  else []
  termination_by total - transferred
  decreasing_by
    have hdata : addw pos transferred % disk.chunkSize < data.length := Nat.lt_of_not_le _hw
    omega

/-- The chunks that `read_with_cache` accesses. -/
def readAccesses (driver : VmDriver (StateM σ)) (disk : VirtualDisk) (pos : ℕ) (buf : List UInt8)
    (st : σ) : List ℕ :=
  if disk.length ≤ pos ∨ buf = [] then []
  else loopAccesses driver pos (min (disk.length - pos) buf.length) disk 0 st

/-- The chunks that a call accesses. -/
def callAccesses (driver : VmDriver (StateM σ)) (disk : VirtualDisk) (st : σ) : DiskCall → List ℕ
  | .read buf => disk.readAccesses driver disk.position buf st
  | .seek _ => []
  | .readAt pos buf => disk.readAccesses driver pos buf st
  | .readAtOffset offset buf => disk.readAccesses driver offset buf st

/-- The chunks that a sequence of calls accesses. -/
def allAccesses (driver : VmDriver (StateM σ)) (disk : VirtualDisk) (st : σ) :
    List DiskCall → List ℕ
  | [] => []
  | call :: rest =>
    let next := ending ((disk.perform driver call).run st)
    disk.callAccesses driver st call ++ next.1.allAccesses driver next.2 rest

/-- The loop ends as its accesses do. -/
theorem copyChunks_accesses (driver : VmDriver (StateM σ)) (pos total : ℕ) (disk : VirtualDisk)
    (transferred : ℕ) (buf : List UInt8) (st : σ) :
    ending ((copyChunks driver pos total disk transferred buf).run st) =
      ending ((disk.accessAll driver (loopAccesses driver pos total disk transferred st)).run
        st) := by
  induction hleft : total - transferred using Nat.strong_induction_on
    generalizing disk transferred buf st with
  | _ left ih =>
    rw [copyChunks, loopAccesses]
    split
    · rename_i hlt
      dsimp only
      rw [accessAll_cons, run_bind]
      generalize (disk.fetchChunk driver (addw pos transferred / disk.chunkSize)).run st = r
      obtain ⟨⟨disk', stop | data⟩, st'⟩ := r
      · rfl
      · dsimp only
        split
        · rfl
        · exact ih _ (by omega) disk' _ _ st' rfl
    · rfl

/-- A read ends as its accesses do. -/
theorem readWithCache_accesses (driver : VmDriver (StateM σ)) (disk : VirtualDisk) (pos : ℕ)
    (buf : List UInt8) (st : σ) :
    ending ((disk.readWithCache driver pos buf).run st) =
      ending ((disk.accessAll driver (disk.readAccesses driver pos buf st)).run st) := by
  unfold readWithCache readAccesses
  split
  · rfl
  · exact copyChunks_accesses driver pos _ disk 0 buf st

/-- A view elsewhere, and the driver as it is. -/
def movedTo (position : ℕ) (s : VirtualDisk × σ) : VirtualDisk × σ := ({ s.1 with position }, s.2)

/-- Where the cursor stands does not matter to an access. -/
theorem fetchChunk_moved (driver : VmDriver (StateM σ)) (disk : VirtualDisk) (position i : ℕ)
    (st : σ) :
    ending ((({ disk with position } : VirtualDisk).fetchChunk driver i).run st) =
      movedTo position (ending ((disk.fetchChunk driver i).run st)) := by
  unfold fetchChunk
  dsimp only
  split
  · rfl
  · have hload : ({ disk with position } : VirtualDisk).loadChunk driver i =
        disk.loadChunk driver i := rfl
    rw [hload, run_bind, run_bind]
    generalize (disk.loadChunk driver i).run st = r
    obtain ⟨stop | data, st'⟩ := r
    · rfl
    · rfl

/-- Nor to a sequence of accesses. -/
theorem accessAll_moved (driver : VmDriver (StateM σ)) (disk : VirtualDisk) (position : ℕ)
    (accesses : List ℕ) (st : σ) :
    ending ((({ disk with position } : VirtualDisk).accessAll driver accesses).run st) =
      movedTo position (ending ((disk.accessAll driver accesses).run st)) := by
  induction accesses generalizing disk st with
  | nil => rfl
  | cons i rest ih =>
    rw [accessAll_cons, fetchChunk_moved, accessAll_cons]
    exact ih _ _

/-- What only moves the cursor after a computation ends where the computation does, but for the
cursor. -/
theorem movedTo_ending_bind {α β : Type} {c : StateM σ (VirtualDisk × α)}
    {f : VirtualDisk × α → StateM σ (VirtualDisk × β)} {position : ℕ}
    (hf : ∀ r st, movedTo position (ending ((f r).run st)) = movedTo position (r.1, st)) (st : σ) :
    movedTo position (ending ((c >>= f).run st)) = movedTo position (ending (c.run st)) :=
  hf _ _

/-- A call does nothing to the cache and the driver but its accesses. -/
theorem perform_accesses (driver : VmDriver (StateM σ)) (disk : VirtualDisk) (st : σ)
    (call : DiskCall) :
    ending ((disk.accessAll driver (disk.callAccesses driver st call)).run st) =
      movedTo disk.position (ending ((disk.perform driver call).run st)) := by
  have hread (pos : ℕ) (buf : List UInt8) :
      ending ((disk.accessAll driver (disk.readAccesses driver pos buf st)).run st) =
        movedTo disk.position (ending ((disk.readWithCache driver pos buf).run st)) := by
    rw [readWithCache_accesses]
    exact accessAll_moved driver disk disk.position _ st
  rcases call with buf | target | ⟨pos, buf⟩ | ⟨offset, buf⟩
  · refine (hread disk.position buf).trans ?_
    unfold perform VirtualDisk.read
    rw [movedTo_ending_bind (by rintro ⟨disk', result⟩ st'; rfl),
      movedTo_ending_bind (by rintro ⟨disk', stop | ⟨n, buf'⟩⟩ st' <;> rfl)]
  · have hseek : ending ((disk.perform driver (.seek target)).run st) =
        ((disk.seek target).1, st) := rfl
    rw [hseek]
    unfold seek
    dsimp only
    split
    · rfl
    · rfl
  · exact hread pos buf
  · refine (hread offset buf).trans ?_
    unfold perform VirtualDisk.readAtOffset
    rw [movedTo_ending_bind (by rintro ⟨disk', result⟩ st'; rfl),
      movedTo_ending_bind (by rintro ⟨disk', (e | _) | result⟩ st' <;> rfl)]

/-- Nor does a sequence of calls. -/
theorem performAll_accesses (driver : VmDriver (StateM σ)) (disk : VirtualDisk) (st : σ)
    (calls : List DiskCall) :
    ending ((disk.accessAll driver (disk.allAccesses driver st calls)).run st) =
      movedTo disk.position (ending ((disk.performAll driver calls).run st)) := by
  induction calls generalizing disk st with
  | nil => rfl
  | cons call rest ih =>
    have hcons : ending ((disk.performAll driver (call :: rest)).run st) =
        ending (((ending ((disk.perform driver call).run st)).1.performAll driver rest).run
          (ending ((disk.perform driver call).run st)).2) := rfl
    rw [allAccesses, accessAll_append, perform_accesses, hcons]
    generalize ending ((disk.perform driver call).run st) = next
    have hmoved := accessAll_moved driver next.1 disk.position
      (next.1.allAccesses driver next.2 rest) next.2
    rw [ih] at hmoved
    exact hmoved

/-! ## An exact cache of the most recently used chunks -/

/-- A view of `new` has room for at least four chunks. -/
theorem new_maxChunks {base length chunkSize : ℕ} {disk : VirtualDisk}
    (hnew : new base length chunkSize = some disk) : 4 ≤ disk.maxChunks := by
  unfold new at hnew
  dsimp only at hnew
  split at hnew
  · rw [← Option.some.inj hnew]
    exact Nat.le_max_left _ _
  · exact absurd hnew (Option.some_ne_none _).symm

/-- A view of `new` over any driver. Calls on it do nothing to the cache and the driver but the
accesses to chunks that they cause. After any sequence of accesses, in particular after each one
that calls cause, the cache lists the most recently used different chunks of those whose access
returned, the most recent one first, as many as there is room for. One more access notes a hit
exactly when its chunk is among them. For a chunk inside the disk, it asks the driver for the bytes
of the chunk exactly when it is not among them and a vector can hold a chunk. -/
theorem cachedChunks_mostRecent (driver : VmDriver (StateM σ)) (hsize : driver.virtualSize < 2^64)
    {base length chunkSize : ℕ} {disk : VirtualDisk}
    (hnew : new base length chunkSize = some disk) :
    (∀ calls st,
      ending ((disk.accessAll driver (disk.allAccesses driver st calls)).run st) =
        movedTo 0 (ending ((disk.performAll driver calls).run st))) ∧
    ∀ accesses st,
      let r := (disk.accessAll driver accesses).run st
      let recent := mostRecent disk.maxChunks r.1.2
      r.1.1.cachedChunks = recent ∧ recent.Nodup ∧ recent.length ≤ disk.maxChunks ∧
      ∀ i,
        let asked := r.1.1.requests driver i r.2
        let place := base + i * disk.chunkSize
        asked.length ≤ 1 ∧ (.recordCacheHit ∈ asked ↔ i ∈ recent) ∧
        (place < driver.virtualSize →
          (.readRange place (min disk.chunkSize (driver.virtualSize - place)) ∈ asked ↔
            i ∉ recent ∧ disk.chunkSize ≤ maxVecLen)) := by
  obtain ⟨hbase, -, hposition, hempty⟩ := new_fresh hnew
  refine ⟨fun calls st => ?_, fun accesses st => ?_⟩
  · rw [performAll_accesses, hposition]
  · have hstart : disk.cachedChunks = mostRecent disk.maxChunks [] := by
      unfold cachedChunks
      rw [hempty]
      exact List.take_nil.symm
    have hroom : 0 < disk.maxChunks := Nat.lt_of_lt_of_le (by norm_num) (new_maxChunks hnew)
    obtain ⟨⟨cache, hview⟩, hcached⟩ := accessAll_cachedChunks driver accesses [] hroom hstart st
    rw [List.nil_append] at hcached
    dsimp only
    refine ⟨hcached, nodup_mostRecent _ _, length_mostRecent_le _ _, fun i => ?_⟩
    have hasked := requests_spec driver hsize
      ((disk.accessAll driver accesses).run st).1.1 i ((disk.accessAll driver accesses).run st).2
    rw [hcached] at hasked
    rw [hview] at hasked ⊢
    rw [← hbase]
    exact hasked

/-- A view of 1024 bytes over zeros, in chunks of 512: after its chunks 0, 1 and 0 were used, both
are cached and the first one was used last. -/
theorem cachedChunks_mostRecent_zeros : ∃ disk, new 0 1024 512 = some disk ∧
    ((disk.accessAll (zeroDriver 1024) [0, 1, 0]).run ()).1.1.cachedChunks = [0, 1] := by
  have hround : nextPowerOfTwo 512 = 512 := by
    rw [nextPowerOfTwo_eq (by norm_num)]
    exact congrArg (2^·) (Nat.clog_pow 2 9 (by norm_num))
  have hnew : new 0 1024 512 = some ⟨0, 1024, 0, 512, [], 512, by norm_num⟩ := by
    unfold new
    simp [hround]
  refine ⟨_, hnew, ?_⟩
  have hcached := ((cachedChunks_mostRecent (zeroDriver 1024) (by decide) hnew).2 [0, 1, 0] ()).1
  exact hcached.trans (by decide)

/-- A chunk size of `2^63`: a read of the first byte of a disk accesses chunk 0, which lies inside
the disk and is not cached, and the driver is not asked for it. -/
theorem huge_chunk_unasked : ∃ disk, new 0 1 (2^63) = some disk ∧
    disk.allAccesses (zeroDriver 1) () [.read [0]] = [0] ∧ 0 ∉ disk.cachedChunks ∧
    disk.base + 0 * disk.chunkSize < (zeroDriver 1).virtualSize ∧
    disk.requests (zeroDriver 1) 0 () = [] := by
  obtain ⟨disk, hnew, hroomy⟩ := new_roomy 0 1 (le_refl (2^63))
  obtain ⟨hbase, hlength, hposition, hempty⟩ := new_fresh hnew
  have hround : nextPowerOfTwo (max (2^63) 512) = 2^63 := by
    rw [Nat.max_eq_left (by norm_num), nextPowerOfTwo_eq (le_refl _), Nat.clog_pow _ _ (by norm_num)]
  have hlong : maxVecLen < disk.chunkSize := by
    rw [hroomy.chunkSize, hround]
    norm_num [maxVecLen]
  have hmiss : 0 ∉ disk.cachedChunks := by
    unfold cachedChunks
    rw [hempty]
    exact List.not_mem_nil
  refine ⟨disk, hnew, ?_, hmiss, by rw [hbase, Nat.zero_mul]; exact Nat.one_pos, ?_⟩
  · have hpanic : disk.fetchChunk (zeroDriver 1) 0 = pure (disk, .error .panic) := by
      unfold fetchChunk loadChunk
      rw [hempty, if_pos hlong]
      rfl
    have hread : disk.allAccesses (zeroDriver 1) () [.read [0]] =
        disk.readAccesses (zeroDriver 1) disk.position [0] () ++ [] := rfl
    have hstart : ¬(disk.length ≤ 0 ∨ [(0 : UInt8)] = []) := by
      rw [hlength]
      decide
    rw [hread, List.append_nil, hposition, readAccesses, if_neg hstart, hlength, loopAccesses,
      dif_pos (by decide)]
    dsimp only
    rw [addw_of_lt (by norm_num), Nat.zero_add, Nat.zero_div, hpanic]
    rfl
  · rw [requests_eq, if_neg hmiss, loadChunk_requests, if_pos hlong]

end VirtualDisk

end VmSpect
