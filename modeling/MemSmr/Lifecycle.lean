import MemSmr.SaveLoad
import MemSmr.VectorSets
import MemSmr.DetectorFrame

/-!
# `mem_disk.c`: the life of the module

## 1.  From `insmod` to `rmmod`

`memDiskInit` loads the images, or sets the disk up if there are none, trims the free blocks if there is
a file system on it, and resets the counters if it has been asked to.  `memDiskExit` saves the images, if
it has been asked to.  A `Session` is one life of the module, and `runSessions` several lives one after
another over the same two files.

## 2.  Snapshots

The plain array again.  A session begins with a copy of the snapshot that was taken last, in which the
static buffers are zero; what it leaves becomes the snapshot if it is saved.
-/

namespace MemSmr

open Outcome ShortIo IoFile

/-! ## 1.  From `insmod` to `rmmod` -/

/-- What outlives the module: the two files, which do not exist before the first save, and the record of
the run, which is not in the source. -/
structure Images where
  disk : Option (List UInt8)
  ctrl : Option (List UInt8)
  log : List Event

/-- Before the first save. -/
def noImages : Images := ⟨none, none, []⟩

/-- One life of the module: its parameters, what `vmalloc` gives for the data and for the vectors, the
memory in the gaps of the structs, and the segments that it is asked to transfer. -/
structure Session where
  env : Env
  save : Bool
  reset : Bool
  data : ℕ → Block
  junk : ℕ → ℕ → UInt8
  stray : Stray
  queue : List Segment

/-- The module as it is loaded, with the record of the run. -/
def Images.freshModule (im : Images) (data : ℕ → Block) : Ext2Sys SmrDev :=
  let s := MemSmr.freshModule data
  { s with dev := { s.dev with log := im.log } }

/-- `is_ext2_fs`. -/
def Ext2MetaCtr.isExt2Fs (m : Ext2MetaCtr) : Bool := m.status = .ext2Detected

/-- `mem_disk_init` after `load_system_data`. -/
def memDiskReady (env : Env) (reset : Bool) (r : ImageRun) : Except Fault (Ext2Sys SmrDev) := do
  let s := if r.ret < 0 then initSmrDisk r.sys else r.sys
  let (_, s) ← if s.metaCtr.isExt2Fs then s.markAllFreeBlks (smrLayer env) else .ok (0, s)
  return if reset then { s with dev := s.dev.resetAllCounters } else s

/-- `mem_disk_init`, from `load_system_data` on.  The calls transfer what they are asked for; the loop
over the disk image does not end in time if it runs past the device data. -/
def memDiskInit (x : Session) (im : Images) : Except Fault (Ext2Sys SmrDev) :=
  match loadSystemData x.stray x.junk (im.disk.map (opened · fullIo)) (im.ctrl.map (opened · fullIo))
      (im.freshModule x.data) with
  | some r => memDiskReady x.env x.reset r
  | none => .error (.pastDevice totalSmrBlocksCnt)

/-- `mem_disk_exit`.  `O_CREAT` makes an empty file where there is none. -/
def memDiskExit (x : Session) (im : Images) (s : Ext2Sys SmrDev) : Except Fault Images :=
  if x.save then
    match saveSystemData x.stray (some (opened (im.disk.getD []) fullIo))
        (some (opened (im.ctrl.getD []) fullIo)) s with
    | some r => .ok ⟨r.disk.map IoFile.bytes, r.ctrl.map IoFile.bytes, s.dev.log⟩
    | none => .error (.pastDevice totalSmrBlocksCnt)
  else .ok im

/-- One life of the module: the buffers of the segments when they are ended, and the images. -/
def runSession (x : Session) (im : Images) : Except Fault (List (ℕ → Block) × Images) := do
  let s ← memDiskInit x im
  let (ended, s) ← doRequest x.env s x.queue
  let im ← memDiskExit x im s
  return (ended.map Ended.buffer, im)

/-- Several lives, one after another. -/
def runSessions : List Session → Images → Except Fault (List (List (ℕ → Block)) × Images)
  | [], im => .ok ([], im)
  | x :: xs, im => do
    let (out, im) ← runSession x im
    let (outs, im) ← runSessions xs im
    return (out :: outs, im)

/-! ## 2.  Snapshots -/

/-- The module after a restart over the contents of the snapshot. -/
def Ext2Sys.restarted {σ : Type} (t : Ext2Sys σ) : Ext2Sys σ :=
  { t with sbsBuf := 0, bgDescsBuf := 0, blkBmp := 0 }

/-- A transfer over the plain array: the buffer and the module. -/
def arrayTransfer (aware : Bool) (t : Ext2Sys ArrayDisk) (seg : Segment) :
    Except Fault ((ℕ → Block) × Ext2Sys ArrayDisk) :=
  if checkBlockSize seg.sector seg.nsect = false then .ok (seg.buffer, t)
  else if seg.write then do
    let t ← t.writeSmrBlocks arrayLayer aware seg.bufs seg.firstBlk
    return (seg.buffer, t)
  else do
    let (out, t) ←
      if seg.blks = 0 then .ok ([], t) else t.readSmrBlocks arrayLayer seg.bufs seg.firstBlk
    return (fun i => out.getD i (seg.buffer i), t)

/-- Transfers one after another. -/
def serveArray (aware : Bool) (t : Ext2Sys ArrayDisk) :
    List Segment → Except Fault (List (ℕ → Block) × Ext2Sys ArrayDisk)
  | [] => .ok ([], t)
  | seg :: segs => do
    let (out, t) ← arrayTransfer aware t seg
    let (outs, t) ← serveArray aware t segs
    return (out :: outs, t)

/-- What a restart does to the contents: if there is a file system, its free blocks are trimmed. -/
def bootArray (t : Ext2Sys ArrayDisk) : Except Fault (ℕ × Ext2Sys ArrayDisk) :=
  if t.metaCtr.isExt2Fs then t.markAllFreeBlks arrayLayer else .ok (0, t)

/-- One session over the snapshot. -/
def snapshotSession (x : Session) (snap : Ext2Sys ArrayDisk) :
    Except Fault (List (ℕ → Block) × Ext2Sys ArrayDisk) := do
  let (_, t) ← bootArray snap.restarted
  let (out, t) ← serveArray x.env.aware t x.queue
  return (out, if x.save then t else snap)

/-- Several sessions. -/
def snapshotSessions : List Session → Ext2Sys ArrayDisk →
    Except Fault (List (List (ℕ → Block)) × Ext2Sys ArrayDisk)
  | [], snap => .ok ([], snap)
  | x :: xs, snap => do
    let (out, snap) ← snapshotSession x snap
    let (outs, snap) ← snapshotSessions xs snap
    return (out :: outs, snap)

end MemSmr
