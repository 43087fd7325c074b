import VmSpect.Vms.CacheBound

/-!
# Seeking at the limits

`seek` computes its target in `i128`, refuses a negative one, and narrows the rest with `as u64`. A
target of `2^64` or more is therefore not refused: the view moves to what is left of it, and the
next read returns data from there. Below `2^64` every seek is exact, and a view is where the seeks
and reads so far have asked it to be.
-/

namespace VmSpect.VirtualDisk

open Bytes Words Stateful

variable {σ : Type} {driver : VmDriver (StateM σ)}

/-! ## One seek -/

/-- A seek is refused and does not move the view, or moves it to its target and returns that, which
fits a word. -/
def SeekExact (disk : VirtualDisk) (pos : SeekFrom) : Prop :=
  (∃ e, disk.seek pos = (disk, .error e)) ∨
    ∃ n : ℕ, disk.seek pos = ({ disk with position := n }, .ok n) ∧ n < 2^64 ∧
      (n : ℤ) = seekTarget disk.length disk.position pos

/-- A seek is exact when its target is below `2^64`, and only then. -/
theorem seekExact_iff (disk : VirtualDisk) (pos : SeekFrom) :
    SeekExact disk pos ↔ seekTarget disk.length disk.position pos < 2^64 := by
  unfold SeekExact seek
  dsimp only
  generalize seekTarget disk.length disk.position pos = target
  by_cases hneg : target < 0
  · rw [if_pos hneg]
    exact ⟨fun _ => by omega, fun _ => Or.inl ⟨_, rfl⟩⟩
  · rw [if_neg hneg]
    constructor
    · rintro (⟨e, herror⟩ | ⟨n, -, hlt, heq⟩)
      · exact absurd (congrArg Prod.snd herror) (by simp)
      · omega
    · intro hlt
      have hfit : target.toNat % 2^64 = target.toNat := Nat.mod_eq_of_lt (by omega)
      refine Or.inr ⟨target.toNat, by rw [hfit], by omega, by omega⟩

/-! ## Where a view is -/

/-- Where a call asks the view to be next, from a position: at the target of a seek that is not
negative, or after the bytes that a read returned. -/
def requested (length position : ℕ) : DiskCall × DiskAnswer → ℕ
  | (.seek pos, _) =>
    if seekTarget length position pos < 0 then position
    else (seekTarget length position pos).toNat
  | (.read _, .read (.ok (n, _))) => position + n
  | _ => position

/-- The targets of all seeks are below `2^64`. -/
def SeeksFit (length : ℕ) : ℕ → List (DiskCall × DiskAnswer) → Prop
  | _, [] => True
  | position, step :: rest =>
    (∀ pos, step.1 = .seek pos → seekTarget length position pos < 2^64) ∧
      SeeksFit length (requested length position step) rest

/-- Fetching a chunk changes neither the length of the view nor where it is. -/
theorem fetchChunk_frame (length position : ℕ) {disk : VirtualDisk}
    (hdisk : disk.length = length ∧ disk.position = position) (i : ℕ) :
    Always (fetchChunk driver disk i) fun r => r.1.length = length ∧ r.1.position = position := by
  unfold fetchChunk
  split
  · exact Always.bind (P := fun _ => True) (fun _ => trivial) fun _ _ => Always.pure hdisk
  · refine Always.bind (P := fun _ => True) (fun _ => trivial) ?_
    rintro (stop | data) -
    · exact Always.pure hdisk
    · exact Always.pure hdisk

/-- The loop transfers no more than it is asked for. -/
theorem copyChunks_count (pos total transferred : ℕ) (buf : List UInt8) (disk : VirtualDisk)
    (h : transferred ≤ total) :
    Always (copyChunks driver pos total disk transferred buf) fun r =>
      ∀ n buf', r.2 = .ok (n, buf') → n ≤ total := by
  induction hleft : total - transferred using Nat.strong_induction_on
    generalizing disk transferred buf with
  | _ left ih =>
    have hdone (disk' : VirtualDisk) : ∀ n buf', (.ok (transferred, buf) :
        Except (Stop IoError) (ℕ × List UInt8)) = .ok (n, buf') → n ≤ total := by
      intro n buf' hr
      rw [← (Prod.mk.inj (Except.ok.inj hr)).1]
      exact h
    rw [copyChunks]
    split
    · rename_i hlt
      refine Always.bind (P := fun _ => True) (fun _ => trivial) ?_
      rintro ⟨disk', stop | data⟩ -
      · exact Always.pure fun n buf' hr => absurd hr (by simp)
      · dsimp only
        split
        · exact Always.pure (hdone disk')
        · exact ih _ (by omega) _ _ _ (by omega) rfl
    · exact Always.pure (hdone disk)

/-- A read leaves the view where it is, and transfers no more than is left of it. -/
theorem readWithCache_frame (disk : VirtualDisk) (pos : ℕ) (buf : List UInt8) :
    Always (disk.readWithCache driver pos buf) fun r =>
      (r.1.length = disk.length ∧ r.1.position = disk.position) ∧
        ∀ n buf', r.2 = .ok (n, buf') → n ≤ disk.length - pos := by
  have hframe : Always (disk.readWithCache driver pos buf) fun r =>
      r.1.length = disk.length ∧ r.1.position = disk.position :=
    readWithCache_keeps (P := fun d => d.length = disk.length ∧ d.position = disk.position)
      (fun _ i h => fetchChunk_frame disk.length disk.position h i) pos buf ⟨rfl, rfl⟩
  have hcount : Always (disk.readWithCache driver pos buf) fun r =>
      ∀ n buf', r.2 = .ok (n, buf') → n ≤ disk.length - pos := by
    unfold readWithCache
    split
    · refine Always.pure fun n buf' hr => ?_
      rw [← (Prod.mk.inj (Except.ok.inj hr)).1]
      exact Nat.zero_le _
    · exact (copyChunks_count pos _ 0 buf disk (Nat.zero_le _)).mono fun r hr n buf' hok =>
        (hr n buf' hok).trans (Nat.min_le_left _ _)
  exact fun st => ⟨hframe st, hcount st⟩

/-- A call moves the view to where it asks it to be, when it is no seek beyond `2^64`. -/
theorem perform_requested {length : ℕ} (hlength : length < 2^64) {disk : VirtualDisk}
    (hdisk : disk.length = length) (hposition : disk.position < 2^64) (call : DiskCall) :
    Always (disk.perform driver call) fun r => r.1.length = length ∧ r.1.position < 2^64 ∧
      ((∀ pos, call = .seek pos → seekTarget length disk.position pos < 2^64) →
        r.1.position = requested length disk.position (call, r.2)) := by
  rcases call with buf | target | ⟨pos, buf⟩ | ⟨offset, buf⟩
  · simp only [perform, VirtualDisk.read, bind_assoc]
    refine Always.bind (readWithCache_frame disk disk.position buf) ?_
    rintro ⟨disk', stop | ⟨n, buf'⟩⟩ ⟨⟨hlen, hpos⟩, hcount⟩
    · exact Always.pure ⟨hlen.trans hdisk, hpos ▸ hposition, fun _ => hpos⟩
    · -- The cursor stays inside the view, or does not move at all.
      have hn : n ≤ disk.length - disk.position := hcount n buf' rfl
      have hmove : addw disk'.position n = disk.position + n := by
        rw [hpos]
        exact addw_of_lt (by omega)
      exact Always.pure ⟨hlen.trans hdisk, addw_lt _ _, fun _ => hmove⟩
  · have hseek : disk.perform driver (.seek target) =
        pure ((disk.seek target).1, .seek (disk.seek target).2) := rfl
    rw [hseek]
    unfold seek requested
    subst hdisk
    dsimp only
    by_cases hneg : seekTarget disk.length disk.position target < 0
    · rw [if_pos hneg, if_pos hneg]
      exact Always.pure ⟨rfl, hposition, fun _ => rfl⟩
    · rw [if_neg hneg, if_neg hneg]
      refine Always.pure ⟨rfl, Nat.mod_lt _ (by norm_num), fun hfit => ?_⟩
      have hlt := hfit target rfl
      exact Nat.mod_eq_of_lt (by omega)
  -- A read at a position of its own does not move the cursor.
  · simp only [perform, VirtualDisk.readAt]
    refine Always.bind (readWithCache_frame disk pos buf) ?_
    rintro ⟨disk', result⟩ ⟨⟨hlen, hpos⟩, -⟩
    exact Always.pure ⟨hlen.trans hdisk, hpos ▸ hposition, fun _ => hpos⟩
  · simp only [perform, VirtualDisk.readAtOffset, bind_assoc]
    refine Always.bind (readWithCache_frame disk offset buf) ?_
    rintro ⟨disk', (e | _) | result⟩ ⟨⟨hlen, hpos⟩, -⟩
    all_goals exact Always.pure ⟨hlen.trans hdisk, hpos ▸ hposition, fun _ => hpos⟩

/-- After calls whose seeks all have targets below `2^64`, the view is where they ask it to be. -/
theorem performAll_requested {length : ℕ} (hlength : length < 2^64) (calls : List DiskCall)
    {disk : VirtualDisk} (hdisk : disk.length = length) (hposition : disk.position < 2^64) :
    Always (disk.performAll driver calls) fun r => r.1.length = length ∧
      (SeeksFit length disk.position r.2 →
        r.1.position = r.2.foldl (requested length) disk.position) := by
  -- Over the calls, from any view: the position after one call is where the next one starts.
  induction calls generalizing disk with
  | nil => exact Always.pure ⟨hdisk, fun _ => rfl⟩
  | cons call rest ih =>
    refine Always.bind (perform_requested hlength hdisk hposition call) ?_
    rintro ⟨disk', answer⟩ ⟨hlen, hlt, hpos⟩
    refine Always.bind (ih hlen hlt) ?_
    rintro ⟨disk'', history⟩ ⟨hlen', hpos'⟩
    refine Always.pure ⟨hlen', fun hfits => ?_⟩
    obtain ⟨hfit, hrest⟩ := hfits
    have hnext : disk'.position = requested length disk.position (call, answer) := hpos hfit
    rw [List.foldl_cons, ← hnext]
    exact hpos' (hnext ▸ hrest)

/-- A read returns what is read at the position of the view. -/
theorem read_snd (disk : VirtualDisk) (buf : List UInt8) :
    Prod.snd <$> disk.read driver buf = Prod.snd <$> disk.readWithCache driver disk.position buf := by
  unfold VirtualDisk.read
  rw [map_bind, map_eq_pure_bind]
  refine bind_congr fun result => ?_
  rcases result with ⟨disk', stop | ⟨n, buf'⟩⟩ <;> rfl

/-- Whatever is called on a fresh view: a next seek is exact when its target is below `2^64`, and
only then; and if the targets of all seeks so far were, the view is where the calls have asked it to
be, and a next read returns what is read there. -/
theorem seek_run_exact (driver : VmDriver (StateM σ)) {base length chunkSize : ℕ}
    {disk : VirtualDisk} (hnew : new base length chunkSize = some disk) (hlength : length < 2^64)
    (calls : List DiskCall) (st : σ) :
    let result := ((disk.performAll driver calls).run st).1
    (∀ pos, SeekExact result.1 pos ↔ seekTarget length result.1.position pos < 2^64) ∧
    (SeeksFit length 0 result.2 →
      result.1.position = result.2.foldl (requested length) 0 ∧
      ∀ buf, Prod.snd <$> result.1.read driver buf =
        Prod.snd <$> result.1.readWithCache driver (result.2.foldl (requested length) 0) buf) := by
  obtain ⟨-, hlen, hposition, -⟩ := new_fresh hnew
  have hrun : Always (disk.performAll driver calls) fun r => r.1.length = length ∧
      (SeeksFit length disk.position r.2 →
        r.1.position = r.2.foldl (requested length) disk.position) :=
    performAll_requested hlength calls hlen (by omega)
  rw [hposition] at hrun
  obtain ⟨hlen', hpos⟩ := hrun st
  generalize ((disk.performAll driver calls).run st).1 = result at hlen' hpos
  refine ⟨fun pos => ?_, fun hfits => ⟨hpos hfits, fun buf => ?_⟩⟩
  · rw [seekExact_iff, hlen']
  · rw [← hpos hfits]
    exact read_snd _ buf

/-- Through a view of three bytes: a seek to its second byte is exact, whatever was read before. -/
theorem seek_run_exact_flaky :
    ∃ disk, new 1 3 512 = some disk ∧
      SeekExact ((disk.performAll flakyDriver [.read [0, 0], .read [7, 7]]).run 0).1.1
        (.start 1) := by
  obtain ⟨disk, hnew, -⟩ : ∃ disk, new 1 3 512 = some disk ∧ _ := new_roomy 1 3 (by norm_num)
  have hexact := seek_run_exact flakyDriver hnew (by norm_num) [.read [0, 0], .read [7, 7]] 0
  exact ⟨disk, hnew, (hexact.1 (.start 1)).mpr (by unfold seekTarget; norm_num)⟩

/-- On a view of `2^64 - 1` bytes, a seek to one byte after its end is not refused: it moves to the
start. -/
theorem not_seekExact_end :
    ∃ disk, new 0 (2^64 - 1) 512 = some disk ∧
      seekTarget disk.length disk.position (.fromEnd 1) = 2^64 ∧
      disk.seek (.fromEnd 1) = ({ disk with position := 0 }, .ok 0) ∧
      ¬ SeekExact disk (.fromEnd 1) := by
  obtain ⟨disk, hnew, -⟩ : ∃ disk, new 0 (2^64 - 1) 512 = some disk ∧ _ :=
    new_roomy 0 (2^64 - 1) (by norm_num)
  obtain ⟨-, hlength, -, -⟩ := new_fresh hnew
  have htarget : seekTarget disk.length disk.position (.fromEnd 1) = 2^64 := by
    unfold seekTarget
    rw [hlength]
    norm_num
  refine ⟨disk, hnew, htarget, ?_, ?_⟩
  · unfold seek
    rw [htarget]
    rfl
  · rw [seekExact_iff, htarget]
    exact lt_irrefl _

end VmSpect.VirtualDisk
