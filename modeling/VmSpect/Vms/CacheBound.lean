import VmSpect.Vms.Cursor

/-!
# How much the cache of a view holds

The comment in `VirtualDisk::new` promises about 64 MiB of cache whatever the chunk size is. The
number of chunks is 64 MiB divided by the chunk size, but at least four, so from chunks of 32 MiB on
four of them are more than that. The largest chunk size is an exception, for no buffer of that size
can be allocated and every load panics.
-/

namespace VmSpect

open Bytes Words Stateful

variable {σ : Type}

/-- The driver fills the whole buffer that it is given, or fails. -/
def VmDriver.Fills (driver : VmDriver (StateM σ)) : Prop :=
  ∀ offset len, Always (driver.readRange offset len) fun r => ∀ data, r = .ok data →
    data.length = len

namespace VirtualDisk

/-! ## Invariants of a view -/

section Invariants

variable {driver : VmDriver (StateM σ)} {P : VirtualDisk → Prop}

/-- What the fetch of a chunk keeps, the loop over the chunks keeps. -/
theorem copyChunks_keeps
    (hfetch : ∀ disk i, P disk → Always (fetchChunk driver disk i) fun r => P r.1)
    (pos total transferred : ℕ) (buf : List UInt8) {disk : VirtualDisk} (hdisk : P disk) :
    Always (copyChunks driver pos total disk transferred buf) fun r => P r.1 := by
  induction hleft : total - transferred using Nat.strong_induction_on
    generalizing disk transferred buf with
  | _ left ih =>
    rw [copyChunks]
    split
    · rename_i hlt
      refine Always.bind (hfetch _ _ hdisk) ?_
      rintro ⟨disk', stop | data⟩ hdisk'
      · exact Always.pure hdisk'
      · dsimp only
        split
        · exact Always.pure hdisk'
        · exact ih _ (by omega) _ _ hdisk' rfl
    · exact Always.pure hdisk

/-- What the fetch of a chunk keeps, a read keeps. -/
theorem readWithCache_keeps
    (hfetch : ∀ disk i, P disk → Always (fetchChunk driver disk i) fun r => P r.1)
    (pos : ℕ) (buf : List UInt8) {disk : VirtualDisk} (hdisk : P disk) :
    Always (disk.readWithCache driver pos buf) fun r => P r.1 := by
  unfold readWithCache
  split
  · exact Always.pure hdisk
  · exact copyChunks_keeps hfetch pos _ 0 buf hdisk

/-- What the fetch of a chunk keeps, and a new position too, every call keeps. -/
theorem perform_keeps
    (hfetch : ∀ disk i, P disk → Always (fetchChunk driver disk i) fun r => P r.1)
    (hmove : ∀ disk position, P disk → P { disk with position }) {disk : VirtualDisk}
    (hdisk : P disk) (call : DiskCall) :
    Always (disk.perform driver call) fun r => P r.1 := by
  rcases call with buf | target | ⟨pos, buf⟩ | ⟨offset, buf⟩
  · simp only [perform, VirtualDisk.read, bind_assoc]
    refine Always.bind (readWithCache_keeps hfetch disk.position buf hdisk) ?_
    rintro ⟨disk', stop | ⟨n, buf'⟩⟩ hdisk'
    · exact Always.pure hdisk'
    · exact Always.pure (hmove disk' _ hdisk')
  · have hseek : disk.perform driver (.seek target) =
        pure ((disk.seek target).1, .seek (disk.seek target).2) := rfl
    rw [hseek]
    unfold seek
    dsimp only
    split
    · exact Always.pure hdisk
    · exact Always.pure (hmove disk _ hdisk)
  · simp only [perform, VirtualDisk.readAt]
    refine Always.bind (readWithCache_keeps hfetch pos buf hdisk) ?_
    rintro ⟨disk', result⟩ hdisk'
    exact Always.pure hdisk'
  · simp only [perform, VirtualDisk.readAtOffset, bind_assoc]
    refine Always.bind (readWithCache_keeps hfetch offset buf hdisk) ?_
    rintro ⟨disk', (e | _) | result⟩ hdisk'
    all_goals exact Always.pure hdisk'

/-- What the fetch of a chunk keeps, and a new position too, every sequence of calls keeps. -/
theorem performAll_keeps
    (hfetch : ∀ disk i, P disk → Always (fetchChunk driver disk i) fun r => P r.1)
    (hmove : ∀ disk position, P disk → P { disk with position }) (calls : List DiskCall)
    {disk : VirtualDisk} (hdisk : P disk) :
    Always (disk.performAll driver calls) fun r => P r.1 := by
  induction calls generalizing disk with
  | nil => exact Always.pure hdisk
  | cons call rest ih =>
    refine Always.bind (perform_keeps hfetch hmove hdisk call) ?_
    rintro ⟨disk', answer⟩ hdisk'
    refine Always.bind (ih hdisk') ?_
    rintro ⟨disk'', history⟩ hdisk''
    exact Always.pure hdisk''

end Invariants

/-! ## The bound -/

/-- The bytes that the cache holds. -/
def cachedBytes (disk : VirtualDisk) : ℕ := (disk.cache.map fun entry => entry.2.length).sum

/-- A view with chunks of `size` bytes, as `new` makes it: no more chunks are cached than there is
room for, and none is longer than a chunk. -/
structure Roomy (size : ℕ) (disk : VirtualDisk) : Prop where
  chunkSize : disk.chunkSize = size
  maxChunks : disk.maxChunks = max 4 (min (64 * 1024 * 1024 / size) 512)
  count : disk.cache.length ≤ disk.maxChunks
  chunks : ∀ entry ∈ disk.cache, entry.2.length ≤ size

/-- A loaded chunk is no longer than a chunk. -/
theorem loadChunk_length {driver : VmDriver (StateM σ)} (hfills : driver.Fills)
    (disk : VirtualDisk) (i : ℕ) :
    Always (disk.loadChunk driver i) fun r => ∀ data, r = .ok data →
      data.length ≤ disk.chunkSize := by
  unfold loadChunk
  split
  · exact Always.pure fun data hdata => absurd hdata (by simp)
  · dsimp only
    split
    · refine Always.bind (hfills _ _) ?_
      rintro (e | data) hdata
      · exact Always.pure fun data hdata => absurd hdata (by simp)
      · refine Always.pure fun data' hdata' => ?_
        obtain rfl := Except.ok.inj hdata'
        rw [hdata _ rfl]
        exact Nat.min_le_left _ _
    · refine Always.pure fun data hdata => ?_
      obtain rfl := Except.ok.inj hdata
      exact Nat.zero_le _

/-- After an eviction there is room for one more chunk. -/
theorem Roomy.length_evicted {size : ℕ} {disk : VirtualDisk} (h : Roomy size disk) :
    disk.evicted.length + 1 ≤ disk.maxChunks := by
  have hcount := h.count
  have hmax := h.maxChunks
  unfold evicted
  split
  · rw [List.length_dropLast]
    omega
  · omega

/-- Fetching a chunk keeps to the room. -/
theorem Roomy.fetchChunk {size : ℕ} {driver : VmDriver (StateM σ)} (hfills : driver.Fills)
    {disk : VirtualDisk} (hdisk : Roomy size disk) (i : ℕ) :
    Always (VirtualDisk.fetchChunk driver disk i) fun r => Roomy size r.1 := by
  unfold VirtualDisk.fetchChunk
  split
  · -- A hit moves the entry to the front.
    rename_i entry hfind
    have hmem : entry ∈ disk.cache := List.mem_of_find?_eq_some hfind
    have hindex : decide (entry.1 = i) = true := by simpa using List.find?_some hfind
    have hlength : (disk.cache.eraseP fun e => e.1 = i).length = disk.cache.length - 1 :=
      List.length_eraseP_of_mem hmem hindex
    have hpos : 0 < disk.cache.length := List.length_pos_of_mem hmem
    refine Always.bind (P := fun _ => True) (fun _ => trivial) fun _ _ => Always.pure ?_
    refine ⟨hdisk.chunkSize, hdisk.maxChunks, ?_, ?_⟩
    · have hcount := hdisk.count
      rw [List.length_cons, hlength]
      dsimp only
      omega
    · exact List.forall_mem_cons.mpr
        ⟨hdisk.chunks entry hmem, fun e he => hdisk.chunks e (List.mem_of_mem_eraseP he)⟩
  · -- A miss loads the chunk, and makes room for it first.
    refine Always.bind (loadChunk_length hfills disk i) ?_
    rintro (stop | data) hdata
    · exact Always.pure hdisk
    · refine Always.pure ⟨hdisk.chunkSize, hdisk.maxChunks, hdisk.length_evicted, ?_⟩
      refine List.forall_mem_cons.mpr ⟨hdisk.chunkSize ▸ hdata data rfl, fun e he => ?_⟩
      unfold evicted at he
      split at he
      · exact hdisk.chunks e (List.mem_of_mem_dropLast he)
      · exact hdisk.chunks e he

/-- As many chunks as there is room for are no more than 64 MiB, up to chunks of 16 MiB. -/
theorem Roomy.cachedBytes_le {size : ℕ} {disk : VirtualDisk} (h : Roomy size disk)
    (hpos : 0 < size) (hsize : size ≤ 2^24) : disk.cachedBytes ≤ 64 * 1024 * 1024 := by
  have hfour : 4 ≤ 64 * 1024 * 1024 / size := (Nat.le_div_iff_mul_le hpos).mpr (by omega)
  have hmax : disk.maxChunks ≤ 64 * 1024 * 1024 / size := by
    rw [h.maxChunks]
    omega
  have hsum : disk.cachedBytes ≤ disk.cache.length * size := by
    have hle := List.sum_le_card_nsmul (disk.cache.map fun entry => entry.2.length) size
      (List.forall_mem_map.mpr h.chunks)
    rwa [List.length_map, smul_eq_mul] at hle
  calc disk.cachedBytes ≤ disk.cache.length * size := hsum
    _ ≤ 64 * 1024 * 1024 / size * size := Nat.mul_le_mul_right _ (h.count.trans hmax)
    _ ≤ 64 * 1024 * 1024 := Nat.div_mul_le_self _ _

/-- Chunks that no buffer can hold are never cached. -/
theorem fetchChunk_panics {driver : VmDriver (StateM σ)} {disk : VirtualDisk}
    (hdisk : maxVecLen < disk.chunkSize ∧ disk.cache = []) (i : ℕ) :
    Always (fetchChunk driver disk i) fun r => maxVecLen < r.1.chunkSize ∧ r.1.cache = [] := by
  unfold fetchChunk loadChunk
  rw [hdisk.2, if_pos hdisk.1]
  exact Always.pure hdisk

/-- A view of `new` covers what it was asked for, stands at its start and has nothing cached. -/
theorem new_fresh {base length chunkSize : ℕ} {disk : VirtualDisk}
    (hnew : new base length chunkSize = some disk) :
    disk.base = base ∧ disk.length = length ∧ disk.position = 0 ∧ disk.cache = [] := by
  unfold new at hnew
  dsimp only at hnew
  split at hnew
  · rw [← Option.some.inj hnew]
    exact ⟨rfl, rfl, rfl, rfl⟩
  · exact absurd hnew (Option.some_ne_none _).symm

/-- A view of `new`, for a chunk size that can be rounded. -/
theorem new_roomy (base length : ℕ) {chunkSize : ℕ} (h : chunkSize ≤ 2^63) :
    ∃ disk, new base length chunkSize = some disk ∧
      Roomy (nextPowerOfTwo (max chunkSize 512)) disk :=
  ⟨_, dif_pos (nextPowerOfTwo_pos (by omega)), rfl, rfl, Nat.zero_le _,
    fun _ he => absurd he List.not_mem_nil⟩

/-! ## When the bound holds -/

/-- For a chunk size: `new` makes a view whose chunk size is a power of two of at least 512, and
whatever is called on it, over whatever driver, the cache holds at most 64 MiB. -/
def CacheBounded (chunkSize : ℕ) : Prop :=
  ∀ base length, ∃ disk, new base length chunkSize = some disk ∧ 512 ≤ disk.chunkSize ∧
    (∃ k, disk.chunkSize = 2^k) ∧
    ∀ (σ : Type) (driver : VmDriver (StateM σ)), driver.Fills → ∀ calls,
      Always (disk.performAll driver calls) fun r => r.1.cachedBytes ≤ 64 * 1024 * 1024

/-- A driver over a disk of zeros. -/
def zeroDriver (size : ℕ) : VmDriver (StateM Unit) where
  virtualSize := size
  readRange _ len := pure (.ok (List.replicate len 0))
  recordCacheHit := pure ()

/-- The driver over zeros fills its buffers. -/
theorem zeroDriver_fills (size : ℕ) : (zeroDriver size).Fills := by
  refine fun offset len => Always.pure fun data hdata => ?_
  obtain rfl := Except.ok.inj hdata
  exact List.length_replicate

/-- A read of one byte at the start of a chunk that is not cached loads the whole chunk. -/
theorem perform_readAt_zero {disk : VirtualDisk} {chunks i : ℕ} (hbase : disk.base = 0)
    (hlength : disk.length = chunks * disk.chunkSize) (hi : i < chunks)
    (hfit : chunks * disk.chunkSize < 2^64) (hvec : disk.chunkSize ≤ maxVecLen)
    (hmiss : ∀ entry ∈ disk.cache, entry.1 ≠ i) (hroom : disk.cache.length < disk.maxChunks) :
    ∃ answer, disk.perform (zeroDriver (chunks * disk.chunkSize)) (.readAt (i * disk.chunkSize) [0]) =
      pure ({ disk with cache := (i, List.replicate disk.chunkSize 0) :: disk.cache }, answer) := by
  have hpos := disk.chunkSize_pos
  have hnext : (i + 1) * disk.chunkSize ≤ chunks * disk.chunkSize := Nat.mul_le_mul_right _ hi
  rw [Nat.add_mul, Nat.one_mul] at hnext
  have hload : disk.loadChunk (zeroDriver (chunks * disk.chunkSize)) i =
      pure (.ok (List.replicate disk.chunkSize 0)) := by
    have habs : addw disk.base (mulw i disk.chunkSize) = i * disk.chunkSize := by
      rw [hbase, mulw_of_lt (by omega), addw_of_lt (by omega), Nat.zero_add]
    have hmin : min disk.chunkSize (chunks * disk.chunkSize - i * disk.chunkSize) =
        disk.chunkSize := by omega
    have hlt : i * disk.chunkSize < (zeroDriver (chunks * disk.chunkSize)).virtualSize :=
      show i * disk.chunkSize < chunks * disk.chunkSize by omega
    unfold loadChunk
    rw [habs, if_neg (by omega), if_pos hlt]
    dsimp only [zeroDriver]
    rw [hmin, pure_bind]
  have hfetch : disk.fetchChunk (zeroDriver (chunks * disk.chunkSize)) i =
      pure ({ disk with cache := (i, List.replicate disk.chunkSize 0) :: disk.cache },
        .ok (List.replicate disk.chunkSize 0)) := by
    have hfind : disk.cache.find? (fun entry => entry.1 = i) = none := by
      rw [List.find?_eq_none]
      intro entry he
      rw [decide_eq_true_eq]
      exact hmiss entry he
    have hevicted : disk.evicted = disk.cache := if_neg (by omega)
    unfold fetchChunk
    rw [hfind, hload, pure_bind, hevicted]
  have hcurrent : addw (i * disk.chunkSize) 0 = i * disk.chunkSize := addw_of_lt (by omega)
  have hmin : min (disk.length - i * disk.chunkSize) [(0 : UInt8)].length = 1 := by
    rw [hlength, List.length_singleton]
    omega
  have hread : ¬(disk.length ≤ i * disk.chunkSize ∨ [(0 : UInt8)] = []) := by
    rw [hlength]
    simp only [List.cons_ne_nil, or_false]
    omega
  simp only [perform, readAt, readWithCache, if_neg hread, hmin]
  rw [copyChunks, dif_pos Nat.one_pos]
  dsimp only
  rw [hcurrent, Nat.mul_div_cancel i hpos, Nat.mul_mod_left, hfetch, pure_bind]
  dsimp only
  rw [dif_neg (by rw [List.length_replicate]; omega), List.length_replicate]
  have hcopy : 0 + min (1 - 0) (disk.chunkSize - 0) = 1 := by omega
  rw [hcopy, copyChunks, dif_neg (lt_irrefl 1), pure_bind]
  exact ⟨_, rfl⟩

/-- Three chunks of a view are cached after one byte of each was read. -/
theorem performAll_three {disk : VirtualDisk} (hbase : disk.base = 0)
    (hlength : disk.length = 3 * disk.chunkSize) (hfit : 3 * disk.chunkSize < 2^64)
    (hvec : disk.chunkSize ≤ maxVecLen) (hempty : disk.cache = []) (hroom : 3 ≤ disk.maxChunks) :
    ((disk.performAll (zeroDriver (3 * disk.chunkSize))
      [.readAt (0 * disk.chunkSize) [0], .readAt (1 * disk.chunkSize) [0],
        .readAt (2 * disk.chunkSize) [0]]).run ()).1.1.cachedBytes = 3 * disk.chunkSize := by
  generalize hzeros : List.replicate disk.chunkSize (0 : UInt8) = zeros
  have hthree (i : ℕ) (hi : i < 3) (cache : List (ℕ × List UInt8))
      (hmiss : ∀ entry ∈ cache, entry.1 ≠ i) (hcache : cache.length < 3) :
      ∃ answer, ({ disk with cache } : VirtualDisk).perform (zeroDriver (3 * disk.chunkSize))
          (.readAt (i * disk.chunkSize) [0]) =
        pure ({ disk with cache := (i, zeros) :: cache }, answer) := by
    rw [← hzeros]
    exact perform_readAt_zero hbase hlength hi hfit hvec hmiss (hcache.trans_le hroom)
  obtain ⟨a0, h0⟩ := hthree 0 (by norm_num) [] (by simp) (by simp)
  obtain ⟨a1, h1⟩ := hthree 1 (by norm_num) [(0, zeros)] (by simp) (by simp)
  obtain ⟨a2, h2⟩ := hthree 2 (by norm_num) [(1, zeros), (0, zeros)] (by simp) (by simp)
  have hrun : ({ disk with cache := [] } : VirtualDisk).performAll (zeroDriver (3 * disk.chunkSize))
      [.readAt (0 * disk.chunkSize) [0], .readAt (1 * disk.chunkSize) [0],
        .readAt (2 * disk.chunkSize) [0]] =
      pure ({ disk with cache := [(2, zeros), (1, zeros), (0, zeros)] },
        [(.readAt (0 * disk.chunkSize) [0], a0), (.readAt (1 * disk.chunkSize) [0], a1),
          (.readAt (2 * disk.chunkSize) [0], a2)]) := by
    simp only [performAll, h0, h1, h2, pure_bind]
  have hsize : zeros.length = disk.chunkSize := by rw [← hzeros, List.length_replicate]
  have hdisk : ({ disk with cache := [] } : VirtualDisk) = disk := by rw [← hempty]
  rw [hdisk] at hrun
  rw [hrun]
  show ([(2, zeros), (1, zeros), (0, zeros)].map fun entry => entry.2.length).sum = _
  simp only [List.map_cons, List.map_nil, List.sum_cons, List.sum_nil, hsize]
  omega

/-- Three chunks of a fresh view are cached after one byte of each was read, for a chunk size that
leaves room for a vector. -/
theorem new_three_cached {chunkSize size : ℕ} (hfit : chunkSize ≤ 2^62)
    (hround : nextPowerOfTwo (max chunkSize 512) = size) :
    ∃ disk, new 0 (3 * size) chunkSize = some disk ∧ disk.chunkSize = size ∧
      ((disk.performAll (zeroDriver (3 * size))
        [.readAt (0 * size) [0], .readAt (1 * size) [0], .readAt (2 * size) [0]]).run
          ()).1.1.cachedBytes = 3 * size := by
  obtain ⟨disk, hnew, hroomy⟩ := new_roomy 0 (3 * size) (hfit.trans (by norm_num))
  obtain ⟨hbase, hlength, -, hempty⟩ := new_fresh hnew
  have hhi : nextPowerOfTwo (max chunkSize 512) ≤ 2^62 :=
    (nextPowerOfTwo_bounds (lt_max_of_lt_right (by norm_num : 2^8 < 512)) (by omega)
      (by norm_num)).2
  have hchunk := hroomy.chunkSize
  rw [hround] at hchunk hhi
  have hroom : 3 ≤ disk.maxChunks := by
    rw [hroomy.maxChunks]
    omega
  have hvec : disk.chunkSize ≤ maxVecLen := by
    unfold maxVecLen
    omega
  have hcached := performAll_three hbase (hlength.trans (by rw [hchunk])) (by omega) hvec hempty
    hroom
  rw [hchunk] at hcached
  exact ⟨disk, hnew, hchunk, hcached⟩

/-- With such chunks of more than 22 MiB the bound is exceeded. -/
theorem not_cacheBounded {chunkSize size : ℕ} (hfit : chunkSize ≤ 2^62)
    (hround : nextPowerOfTwo (max chunkSize 512) = size) (hlarge : 64 * 1024 * 1024 < 3 * size) :
    ¬ CacheBounded chunkSize := by
  intro hbounded
  obtain ⟨disk, hnew, -, hcached⟩ := new_three_cached hfit hround
  obtain ⟨disk', hnew', -, -, hbound⟩ := hbounded 0 (3 * size)
  obtain rfl := Option.some.inj (hnew.symm.trans hnew')
  have hle : 3 * size ≤ 64 * 1024 * 1024 :=
    hcached.ge.trans (hbound Unit (zeroDriver (3 * size)) (zeroDriver_fills _) _ ())
  exact absurd hle (not_le.mpr hlarge)

/-- The cache holds at most 64 MiB exactly for the chunk sizes up to 16 MiB, and for those from
`2^62` on that can still be rounded, with which nothing is ever loaded. -/
theorem cacheBounded_iff (chunkSize : ℕ) :
    CacheBounded chunkSize ↔ chunkSize ≤ 2^24 ∨ 2^62 < chunkSize ∧ chunkSize ≤ 2^63 := by
  have hmax : 2^8 < max chunkSize 512 := lt_max_of_lt_right (by norm_num)
  constructor
  · intro hbounded
    by_contra hcond
    rw [not_or, not_le, not_and, not_le] at hcond
    obtain ⟨hlarge, hfit⟩ := hcond
    by_cases hround : chunkSize ≤ 2^62
    · -- Three chunks of 32 MiB or more are over the bound, and there is room for four.
      have hlo : 2^(24 + 1) ≤ nextPowerOfTwo (max chunkSize 512) :=
        (nextPowerOfTwo_bounds (by omega) (by omega) (by norm_num : 62 ≤ 63)).1
      exact not_cacheBounded hround rfl (by omega) hbounded
    · -- The rounded chunk size does not fit a word.
      obtain ⟨disk, hnew, -⟩ := hbounded 0 0
      have hzero : nextPowerOfTwo (max chunkSize 512) = 0 :=
        nextPowerOfTwo_eq_zero (lt_max_of_lt_left (hfit (by omega)))
      unfold new at hnew
      rw [dif_neg (by omega)] at hnew
      exact Option.some_ne_none _ hnew.symm
  · intro hcond base length
    have hround : chunkSize ≤ 2^63 := by omega
    obtain ⟨disk, hnew, hroomy⟩ := new_roomy base length hround
    obtain ⟨-, -, -, hempty⟩ := new_fresh hnew
    have hchunk := hroomy.chunkSize
    have hlo : 2^(8 + 1) ≤ disk.chunkSize := by
      rw [hchunk]
      exact (nextPowerOfTwo_bounds hmax (by omega) (le_refl 63)).1
    refine ⟨disk, hnew, hlo, ⟨_, hchunk.trans (nextPowerOfTwo_eq (by omega))⟩, ?_⟩
    intro σ driver hfills calls
    rcases hcond with hsmall | ⟨hhuge, -⟩
    · have hhi : disk.chunkSize ≤ 2^24 := by
        rw [hchunk]
        exact (nextPowerOfTwo_bounds hmax (by omega) (by norm_num)).2
      refine (performAll_keeps (fun _ i h => h.fetchChunk hfills i) (fun _ _ h => ?_) calls
        hroomy).mono fun r hr => ?_
      · exact ⟨h.chunkSize, h.maxChunks, h.count, h.chunks⟩
      · exact hr.cachedBytes_le (hchunk ▸ disk.chunkSize_pos) (hchunk ▸ hhi)
    · have hvec : maxVecLen < disk.chunkSize := by
        have hbounds : 2^(62 + 1) ≤ nextPowerOfTwo (max chunkSize 512) :=
          (nextPowerOfTwo_bounds (by omega) (by omega) (le_refl 63)).1
        rw [hchunk]
        unfold maxVecLen
        omega
      refine (performAll_keeps (fun _ i h => fetchChunk_panics h i) (fun _ _ h => h) calls
        ⟨hvec, hempty⟩).mono fun r hr => ?_
      unfold cachedBytes
      rw [hr.2]
      exact Nat.zero_le _

/-- A chunk size of 32 MiB: three reads of one byte leave 96 MiB in the cache. -/
theorem not_cacheBounded_large :
    (∃ disk, new 0 (3 * 2^25) (2^25) = some disk ∧ disk.chunkSize = 2^25 ∧
      ((disk.performAll (zeroDriver (3 * 2^25))
        [.readAt (0 * 2^25) [0], .readAt (1 * 2^25) [0], .readAt (2 * 2^25) [0]]).run
          ()).1.1.cachedBytes = 3 * 2^25) ∧
    ¬ CacheBounded (2^25) := by
  have hsize : nextPowerOfTwo (max (2^25) 512) = 2^25 := by
    rw [Nat.max_eq_left (by norm_num), nextPowerOfTwo_eq (by norm_num), Nat.clog_pow _ _ (by norm_num)]
  exact ⟨new_three_cached (by norm_num) hsize, not_cacheBounded (by norm_num) hsize (by norm_num)⟩

end VirtualDisk

end VmSpect
