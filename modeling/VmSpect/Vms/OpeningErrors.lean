import VmSpect.Vms.DiskReader

/-!
# The errors of opening an image

Opening an image directly fails with an error about its files: one of an I/O call, of a descriptor,
of a missing image or of a missing component. No other error comes from the files, so that none of
them is mistaken for an unsupported format or for a cancellation.
-/

namespace VmSpect

open Words UnixPath Vmdk

variable {ν α β : Type}

/-- An error about the files of an image. -/
def VmSpectError.OfFiles : VmSpectError → Prop
  | .io _ => True
  | .parse _ => True
  | .imageNotFound _ => True
  | .missingDiskComponent .. => True
  | _ => False

/-- The same of code that may panic. -/
def Stop.OfFiles : Stop VmSpectError → Prop
  | .error e => e.OfFiles
  | .panic => True

/-- Code without loops over the files throws only errors about them. -/
def OnlyOfFiles (r : Except VmSpectError α) : Prop := ∀ e, r = .error e → e.OfFiles

/-- An I/O error, as an error of the reader. -/
theorem ofFiles_map_io (stop : Stop IoError) : (stop.map .io).OfFiles := by
  cases stop <;> trivial

/-- The failure of a component. -/
theorem fromDiskComponentIo_ofFiles (descriptorPath : Path) (name : List Char) (path : Path)
    (kind operation : String) (e : IoError) :
    (VmSpectError.fromDiskComponentIo descriptorPath name path kind operation e).OfFiles := by
  unfold VmSpectError.fromDiskComponentIo
  dsimp only
  split <;> trivial

/-- A call whose error becomes an error about the files. -/
theorem onlyOfFiles_mapError {r : Except IoError α} {f : IoError → VmSpectError}
    (hf : ∀ e, (f e).OfFiles) : OnlyOfFiles (r.mapError f) := by
  intro e h
  cases r with
  | ok a => cases h
  | error source =>
    cases h
    exact hf source

/-- A sequence. -/
theorem OnlyOfFiles.bind {r : Except VmSpectError α} {f : α → Except VmSpectError β}
    (hr : OnlyOfFiles r) (hf : ∀ a, OnlyOfFiles (f a)) : OnlyOfFiles (r >>= f) := by
  intro e h
  cases r with
  | error source =>
    cases h
    exact hr _ rfl
  | ok a => exact hf a e h

/-- `open_main_image_file`. -/
theorem openMainImageFile_ofFiles (fs : FileSystem) (path : Path) (device : Device) :
    OnlyOfFiles (openMainImageFile fs path device) := by
  refine onlyOfFiles_mapError fun e => ?_
  split <;> trivial

/-- `open_component_file`. -/
theorem openComponentFile_ofFiles (fs : FileSystem) (path descriptorPath : Path) (name : List Char)
    (kind : String) (device : Device) :
    OnlyOfFiles (openComponentFile fs path descriptorPath name kind device) :=
  onlyOfFiles_mapError fun e => fromDiskComponentIo_ofFiles _ _ _ _ _ e

/-- `ensure_component_exists`. -/
theorem ensureComponentExists_ofFiles (fs : FileSystem) (descriptorPath : Path) (name : List Char)
    (path : Path) (kind : String) (device : Device) :
    OnlyOfFiles (ensureComponentExists fs descriptorPath name path kind device) :=
  onlyOfFiles_mapError fun e => fromDiskComponentIo_ofFiles _ _ _ _ _ e

/-- A file that is named by a descriptor. -/
theorem openReferenced_ofFiles (fs : FileSystem) (path : Path)
    (reference : Option (Path × List Char)) (device : Device) :
    OnlyOfFiles (openReferenced fs path reference device) := by
  rcases reference with _ | reference
  · exact openMainImageFile_ofFiles fs path device
  · exact openComponentFile_ofFiles fs path _ _ _ device

/-- The extents that are missing are reported as such. -/
theorem validateExtentPaths_ofFiles (fs : FileSystem) (path : Path)
    (extents : List ExtentDescriptor) (devices : ℕ → Device) :
    OnlyOfFiles (validateExtentPaths fs path extents devices) := by
  induction extents with
  | nil =>
    intro e h
    cases h
  | cons extent rest ih =>
    rw [validateExtentPaths]
    split
    · exact ih
    · split
      · exact ih
      · exact (ensureComponentExists_ofFiles fs path _ _ _ _).bind fun _ => ih

/-- `validate_descriptor_components`. -/
theorem validateDescriptorComponents_ofFiles (fs : FileSystem) (path : Path) (d : Descriptor)
    (parent : Device) (extents : ℕ → Device) :
    OnlyOfFiles (validateDescriptorComponents fs path d parent extents) := by
  have hparent : OnlyOfFiles (validateParentReference fs path d parent) := by
    unfold validateParentReference
    split
    · intro e h
      cases h
    · exact ensureComponentExists_ofFiles fs path _ _ _ _
  exact hparent.bind fun _ => validateExtentPaths_ofFiles fs path d.extents extents

/-! ## Logged code -/

/-- A step whose errors are I/O errors. -/
theorem stopsWith_io {r : Except IoError α} : Logged.StopsWith Stop.OfFiles
    (Logged.ofExcept (r.mapError fun e => Stop.error (VmSpectError.io e))) :=
  Logged.stopsWith_ofExcept fun _ _ => trivial

/-- A step whose errors are about the files. -/
theorem OnlyOfFiles.stopsWith {r : Except VmSpectError α} (h : OnlyOfFiles r) :
    Logged.StopsWith Stop.OfFiles (Logged.ofExcept (r.mapError Stop.error)) :=
  Logged.stopsWith_ofExcept fun e he => h e he

/-- The descriptor in a sparse file. -/
theorem embeddedDescriptor_ofFiles (file : List UInt8) (cab : SparseHeader) (device : Device) :
    Logged.StopsWith Stop.OfFiles (embeddedDescriptor file cab device) := by
  unfold embeddedDescriptor
  split
  · exact Logged.stopsWith_pure _
  · refine (Logged.stopsWith_mul _ _).bind fun size => ?_
    dsimp only
    split
    · exact Logged.stopsWith_throw trivial
    · refine (Logged.stopsWith_mul _ _).bind fun start => ?_
      exact stopsWith_io.bind fun _ => stopsWith_io.bind fun _ => Logged.stopsWith_pure _

/-- The descriptor of a component. -/
theorem componentDescriptor_ofFiles (fs : FileSystem) (path : Path) (file : List UInt8)
    (parts : FilePart → Device) :
    Logged.StopsWith Stop.OfFiles (componentDescriptor fs path file parts) := by
  unfold componentDescriptor
  refine stopsWith_io.bind fun header => ?_
  split
  · exact stopsWith_io.bind fun cab => embeddedDescriptor_ofFiles file cab _
  · split
    · exact stopsWith_io.bind fun text => Logged.stopsWith_pure _
    · exact Logged.stopsWith_pure _

/-- `validate_vmdk_components_inner`. -/
theorem validateInner_ofFiles (fs : FileSystem) (left : ℕ) (path : Path) (visited : List Path)
    (reference : Option (Path × List Char)) (devices : Devices) :
    Logged.StopsWith Stop.OfFiles
      (validateVmdkComponentsInner fs left path visited reference devices) := by
  -- On the number of images that may still be visited.
  induction left generalizing path visited reference with
  | zero => exact Logged.stopsWith_throw trivial
  | succ left ih =>
    rw [validateVmdkComponentsInner]
    split
    · exact Logged.stopsWith_throw trivial
    · refine (openReferenced_ofFiles fs path reference _).stopsWith.bind fun file => ?_
      refine (componentDescriptor_ofFiles fs path file _).bind fun d => ?_
      cases d with
      | none => exact Logged.stopsWith_pure _
      | some d =>
        refine (validateDescriptorComponents_ofFiles fs path d _ _).stopsWith.bind fun _ => ?_
        cases d.parentName with
        | none => exact Logged.stopsWith_pure _
        | some name => exact ih _ _ _

/-- The data of an extent. -/
theorem openExtentData_ofFiles (fs : FileSystem) (path : Path) (e : ExtentDescriptor)
    (parts : FilePart → Device) :
    Logged.StopsWith Stop.OfFiles (openExtentData fs path e parts) := by
  -- The errors of a component name it.
  have hcomponent : ∀ (name : List Char) (e : IoError), Stop.OfFiles
      (.error (.fromDiskComponentIo path name (resolveExtentPath path name) "VMDK extent"
        "read" e)) :=
    fun name e => fromDiskComponentIo_ofFiles path name _ _ _ e
  unfold openExtentData
  split
  · exact Logged.stopsWith_pure _
  · split
    · cases e.file with
      | none => exact Logged.stopsWith_pure _
      | some name =>
        refine (openComponentFile_ofFiles fs _ path name _ _).stopsWith.bind fun file => ?_
        exact (Logged.stopsWith_mul _ _).bind fun offset => Logged.stopsWith_pure _
    · split
      · cases e.file with
        | none => exact Logged.stopsWith_pure _
        | some name =>
          refine Logged.StopsWith.bind ?_ fun r => ?_
          · unfold SparseExtent.open
            dsimp only
            refine (openComponentFile_ofFiles fs _ path name _ _).stopsWith.bind fun file => ?_
            refine (Logged.stopsWith_ofExcept fun e _ => hcomponent name e).bind fun buf => ?_
            refine (Logged.stopsWith_ofExcept fun e _ => hcomponent name e).bind fun cab => ?_
            refine Logged.stopsWith_mapError fun stop => ?_
            cases stop with
            | error e => exact hcomponent name e
            | panic => trivial
          · cases r <;> exact Logged.stopsWith_pure _
      · exact Logged.stopsWith_pure _

/-- The extents, one after another. -/
theorem openExtents_ofFiles (fs : FileSystem) (path : Path) (extents : List ExtentDescriptor)
    (start : ℕ) (opened : List OpenExtent) (devices : Devices) :
    Logged.StopsWith Stop.OfFiles (openExtents fs path extents start opened devices) := by
  induction extents generalizing start opened with
  | nil => exact Logged.stopsWith_pure _
  | cons e rest ih =>
    rw [openExtents]
    refine (Logged.stopsWith_mul _ _).bind fun length => ?_
    refine (openExtentData_ofFiles fs path e _).bind fun data => ?_
    cases data with
    | needsNbd reason => exact Logged.stopsWith_pure _
    | native data => exact (Logged.stopsWith_add _ _).bind fun next => ih _ _

/-- A VMDK. -/
theorem openVmdkNative_ofFiles (fs : FileSystem) (path : Path) (devices : Devices) :
    Logged.StopsWith Stop.OfFiles (openVmdkNative fs path devices :
      Logged (Stop VmSpectError) (OpenResult (Backend ν × String))) := by
  unfold openVmdkNative
  refine (validateInner_ofFiles fs _ _ _ _ devices).bind fun _ => ?_
  refine (openMainImageFile_ofFiles fs path _).stopsWith.bind fun file => ?_
  refine stopsWith_io.bind fun header => ?_
  split
  · unfold openMonolithicSparse
    refine stopsWith_io.bind fun cab => ?_
    refine (embeddedDescriptor_ofFiles file cab _).bind fun embedded => ?_
    split
    · exact Logged.stopsWith_pure _
    · split
      · exact Logged.stopsWith_pure _
      · refine (Logged.stopsWith_mapError fun stop => ofFiles_map_io stop).bind fun r => ?_
        cases r <;> exact Logged.stopsWith_pure _
  · split
    · unfold openTextDescriptor
      refine stopsWith_io.bind fun text => ?_
      dsimp only
      split
      · exact Logged.stopsWith_pure _
      · split
        · exact Logged.stopsWith_pure _
        · refine (openExtents_ofFiles fs _ _ _ _ devices).bind fun r => ?_
          cases r <;> exact Logged.stopsWith_pure _
    · exact Logged.stopsWith_pure _

/-- An image of any format. -/
theorem openNative_ofFiles (fs : FileSystem) (info : ImageInfo) (devices : Devices) :
    Logged.StopsWith Stop.OfFiles (openNative fs info devices :
      Logged (Stop VmSpectError) (OpenResult (Backend ν × String))) := by
  unfold openNative
  split
  · refine (openMainImageFile_ofFiles fs info.path _).stopsWith.bind fun _ => ?_
    exact Logged.stopsWith_pure _
  · exact openVmdkNative_ofFiles fs info.path devices
  · -- The other formats are left to NBD without an error.
    exact Logged.stopsWith_pure _

end VmSpect
