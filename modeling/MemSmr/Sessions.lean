import MemSmr.Restart

/-!
# Several lives of the module

## 1.  One session

`Held` says that the images hold a module that shows the snapshot.  `mem_disk_init` makes an alive module
of them, the transfers keep it alive, and `mem_disk_exit` leaves images that hold it.

## 2.  Several sessions

`sessions_refine_snapshots`: whatever the parameters of the sessions are, which of them are saved and in
what the memory of each differs, the host sees what the plain array with snapshots shows.

## 3.  What is not saved

With the detector off a restart cannot be seen: `unsaved_sessions_roll_back` compares the last session with
a module that has never been unloaded and has only carried out what the saved sessions had been asked for.
-/

namespace MemSmr

open Outcome ShortIo IoFile

/-! ## 1.  One session -/

/-- The images hold a module that shows the snapshot; before the first save there are none. -/
inductive Held (im : Images) (snap : Ext2Sys ArrayDisk) : Prop
  | absent (him : im = noImages) (hsnap : snap = freshArray)
  | saved (s : Ext2Sys SmrDev) (st : Stray) (tail : List UInt8) (h : Alive s snap)
      (hdisk : im.disk = some (diskImage s)) (hctrl : im.ctrl = some (ctrlImage st s ++ tail))
      (hlog : im.log = s.dev.log)

section Session

variable {x : Session} {im : Images} {snap : Ext2Sys ArrayDisk} {s : Ext2Sys SmrDev}
  {t : Ext2Sys ArrayDisk}

/-- A load leaves alone what the images do not hold. -/
structure SameRest (s s' : Ext2Sys SmrDev) : Prop where
  log : s'.dev.log = s.dev.log
  sbsBuf : s'.sbsBuf = s.sbsBuf
  bgDescsBuf : s'.bgDescsBuf = s.bgDescsBuf
  blkBmp : s'.blkBmp = s.blkBmp

theorem sameRest_load (st : Stray) (s t : Ext2Sys SmrDev) (bytes : List UInt8) :
    SameRest t (loadedCtrl st s (withDisk bytes t)) := by
  rw [withDisk_eq]
  exact ⟨rfl, rfl, rfl, rfl⟩

/-- What `load_system_data` makes of images that hold a module. -/
theorem load_held (h : Alive s t) (st : Stray) (tail : List UInt8) (x : Session)
    (hdisk : im.disk = some (diskImage s)) (hctrl : im.ctrl = some (ctrlImage st s ++ tail))
    (hlog : im.log = s.dev.log) :
    ∃ r, loadSystemData x.stray x.junk (im.disk.map (opened · fullIo))
        (im.ctrl.map (opened · fullIo)) (im.freshModule x.data) = some r ∧ r.ret = 0 ∧
      Alive r.sys t.restarted := by
  have hs := h.storable
  obtain ⟨r, hload, hret, hsys, -⟩ := loadSystemData_full (length_diskImage s)
    (parse_ctrlImage st hs x.stray x.junk tail (withDisk (diskImage s) (im.freshModule x.data)))
  refine ⟨r, ?_, hret, ?_⟩
  · rw [hdisk, hctrl]
    exact hload
  · have hctr := sameCtrl_loadedCtrl st hs (withDisk (diskImage s) (im.freshModule x.data))
    have hrest := sameRest_load st s (im.freshModule x.data) (diskImage s)
    rw [hsys]
    refine h.loaded ⟨hctr, fun p hp => ?_⟩ (hrest.log.trans hlog) hrest.sbsBuf hrest.bgDescsBuf
      hrest.blkBmp
    rw [data_loadedCtrl]
    exact data_withDisk_diskImage s _ hp

/-- `mem_disk_init` after the load. -/
theorem Alive.memDiskReady {env : Env} {r : ImageRun}
    (h : Alive (if r.ret < 0 then initSmrDisk r.sys else r.sys) t) (reset : Bool) :
    Refines (PastEndFault env) (fun s y => Alive s y.2) (memDiskReady env reset r)
      (bootArray t) := by
  unfold MemSmr.memDiskReady
  dsimp only
  generalize (if r.ret < 0 then initSmrDisk r.sys else r.sys) = s at h ⊢
  have hboot : Refines (PastEndFault env) _ _ (bootArray t) := h.boot
  rw [← bind_pure (bootArray t)]
  split_ifs at hboot ⊢ with hext hreset hreset
  · exact hboot.bind fun _ _ hst => hst.2.reset
  · exact hboot.bind fun _ _ hst => hst.2
  · exact hboot.bind fun _ _ hst => hst.2.reset
  · exact hboot.bind fun _ _ hst => hst.2

/-- **`mem_disk_init`.** -/
theorem Held.memDiskInit (h : Held im snap) (x : Session) :
    Refines (PastEndFault x.env) (fun s y => Alive s y.2) (memDiskInit x im)
      (bootArray snap.restarted) := by
  -- The disk is loaded or set up.
  obtain ⟨r, hload, halive⟩ : ∃ r, loadSystemData x.stray x.junk (im.disk.map (opened · fullIo))
      (im.ctrl.map (opened · fullIo)) (im.freshModule x.data) = some r ∧
      Alive (if r.ret < 0 then initSmrDisk r.sys else r.sys) snap.restarted := by
    cases h with
    | absent him hsnap =>
      subst him hsnap
      refine ⟨⟨-1, none, none, freshModule x.data⟩, rfl, ?_⟩
      rw [if_pos (show (-1 : ℤ) < 0 by decide)]
      exact .init x.data
    | saved s st tail h hdisk hctrl hlog =>
      obtain ⟨r, hload, hret, hloaded⟩ := load_held h st tail x hdisk hctrl hlog
      refine ⟨r, hload, ?_⟩
      rw [hret, if_neg (by decide)]
      exact hloaded
  rw [MemSmr.memDiskInit, hload]
  exact halive.memDiskReady x.reset

/-- **A queue of requests.** -/
theorem Alive.doRequest (h : Alive s t) (env : Env) (queue : List Segment) :
    Refines (PastEndFault env) (fun a b => a.1.map Ended.buffer = b.1 ∧ Alive a.2 b.2)
      (doRequest env s queue) (serveArray env.aware t queue) := by
  induction queue generalizing s t with
  | nil => exact ⟨rfl, h⟩
  | cons seg queue ih =>
    rw [MemSmr.doRequest, serveArray]
    refine (h.transfer seg).bind ?_
    rintro ⟨out, s₁⟩ ⟨out', t₁⟩ ⟨rfl, h₁⟩
    refine (ih h₁).bind ?_
    rintro ⟨ended, s₂⟩ ⟨outs, t₂⟩ ⟨rfl, h₂⟩
    exact ⟨rfl, h₂⟩

/-- The images before a save are not larger than those that are written over them. -/
theorem Held.length_disk (h : Held im snap) : (im.disk.getD []).length ≤ diskImageSize := by
  cases h with
  | absent him hsnap =>
    rw [him]
    exact Nat.zero_le _
  | saved s st tail h hdisk hctrl hlog =>
    rw [hdisk, Option.getD_some]
    exact (length_diskImage s).le

/-- **`mem_disk_exit`.** -/
theorem Held.memDiskExit (h : Held im snap) (x : Session) (hs : Alive s t) :
    ∃ im', memDiskExit x im s = .ok im' ∧ Held im' (if x.save then t else snap) := by
  unfold MemSmr.memDiskExit
  split_ifs with hsave
  · obtain ⟨r, hsaved, hret, hsound⟩ :=
      saveSystemData_full x.stray (im.disk.getD []) (im.ctrl.getD []) s
    obtain ⟨diskFp, ctrlFp, hdisk, hctrl, -, -, hbytes, tail, htail⟩ :=
      saveSystemData_sound hsaved hret hsound
    rw [hsaved]
    refine ⟨_, rfl, .saved s x.stray tail hs ?_ ?_ rfl⟩
    · rw [hdisk, ← hbytes h.length_disk]
      rfl
    · rw [hctrl, ← htail]
      rfl
  · exact ⟨im, rfl, h⟩

/-- **One session.** -/
theorem Held.runSession (h : Held im snap) (x : Session) :
    Refines (PastEndFault x.env) (fun a b => a.1 = b.1 ∧ Held a.2 b.2) (runSession x im)
      (snapshotSession x snap) := by
  unfold MemSmr.runSession snapshotSession
  refine (h.memDiskInit x).bind ?_
  rintro s ⟨c, t⟩ hs
  refine (hs.doRequest x.env x.queue).bind ?_
  rintro ⟨ended, s'⟩ ⟨out, t'⟩ ⟨hout, hs'⟩
  obtain ⟨im', hexit, him'⟩ := h.memDiskExit x hs'
  show Refines _ _ (MemSmr.memDiskExit x im s' >>= fun im => .ok (ended.map Ended.buffer, im)) _
  rw [hexit]
  exact ⟨hout, him'⟩

end Session

/-! ## 2.  Several sessions -/

theorem Held.runSessions {allowed : Fault → Prop} {xs : List Session} {im : Images}
    {snap : Ext2Sys ArrayDisk} (h : Held im snap)
    (hallowed : ∀ x ∈ xs, ∀ e, PastEndFault x.env e → allowed e) :
    Refines allowed (fun a b => a.1 = b.1 ∧ Held a.2 b.2) (runSessions xs im)
      (snapshotSessions xs snap) := by
  induction xs generalizing im snap with
  | nil => exact ⟨rfl, h⟩
  | cons x xs ih =>
    obtain ⟨hx, hxs⟩ := List.forall_mem_cons.mp hallowed
    rw [MemSmr.runSessions, snapshotSessions]
    refine ((h.runSession x).weaken hx).bind ?_
    rintro ⟨out, im₁⟩ ⟨out', snap₁⟩ ⟨rfl, h₁⟩
    refine (ih h₁ hxs).bind ?_
    rintro ⟨outs, im₂⟩ ⟨outs', snap₂⟩ ⟨rfl, h₂⟩
    exact ⟨rfl, h₂⟩

/-- Nothing stops the sessions but what stops the plain array. -/
theorem sessions_refine (xs : List Session) (hpast : ∀ x ∈ xs, x.env.PastEndNotFree) :
    Refines (fun _ => False) (fun a b => a.1 = b.1 ∧ Held a.2 b.2) (runSessions xs noImages)
      (snapshotSessions xs freshArray) :=
  (Held.absent rfl rfl).runSessions fun x hx e => not_pastEndFault (hpast x hx) e

/-- **Sessions refine snapshots.**  From an empty host directory on, any sequence of lives of the module
gives the host what the plain array with snapshots gives, and leaves images that hold the last
snapshot. -/
theorem sessions_refine_snapshots (xs : List Session) :
    Refines (fun e => ∃ x ∈ xs, PastEndFault x.env e) (fun a b => a.1 = b.1 ∧ Held a.2 b.2)
      (runSessions xs noImages) (snapshotSessions xs freshArray) :=
  (Held.absent rfl rfl).runSessions fun x hx _ he => ⟨x, hx, he⟩

/-! ## 3.  What is not saved -/

/-- No transfer of the segment is let through that leaves the device. -/
def Segment.Fits (seg : Segment) : Prop :=
  checkBlockSize seg.sector seg.nsect = true → seg.blks ≠ 0 →
    seg.firstBlk + seg.blks ≤ totalSmrBlocksCnt

/-- The detector is off, and the segments stay inside the device. -/
structure Session.Plain (x : Session) : Prop where
  unaware : x.env.aware = false
  past : x.env.PastEndNotFree
  fits : ∀ seg ∈ x.queue, seg.Fits

/-- The detector has not found anything, and the static buffers have not been used. -/
structure Undetected (t : Ext2Sys ArrayDisk) : Prop where
  status : t.metaCtr.status = .noSb0
  unused : t.restarted = t

section Plain

variable {t t' : Ext2Sys ArrayDisk}

theorem undetected_freshArray : Undetected freshArray := ⟨rfl, rfl⟩

/-- The contents may change. -/
theorem Undetected.setDev (h : Undetected t) (a : ArrayDisk) : Undetected { t with dev := a } := by
  refine ⟨h.status, ?_⟩
  obtain ⟨dev, ctr, sbs, descs, bmp⟩ := t
  have hunused : Ext2Sys.mk dev ctr 0 0 0 = Ext2Sys.mk dev ctr sbs descs bmp := h.unused
  obtain ⟨-, -, rfl, rfl, rfl⟩ := Ext2Sys.mk.inj hunused
  rfl

/-- A restart changes nothing. -/
theorem Undetected.boot (h : Undetected t) : bootArray t.restarted = .ok (0, t) := by
  have hno : t.metaCtr.isExt2Fs = false := by
    rw [Ext2MetaCtr.isExt2Fs, h.status]
    rfl
  rw [h.unused, bootArray, hno, if_neg Bool.false_ne_true]

/-- A transfer. -/
theorem Undetected.arrayTransfer (h : Undetected t) {seg : Segment} (hfits : seg.Fits) :
    ∃ out t', arrayTransfer false t seg = .ok (out, t') ∧ Undetected t' := by
  have hlen : seg.bufs.length = seg.blks := by
    rw [Segment.bufs, List.length_map, List.length_range]
  unfold MemSmr.arrayTransfer
  split_ifs with hacc hwrite h0
  · exact ⟨_, t, rfl, h⟩
  · rw [Bool.not_eq_false] at hacc
    rcases Nat.eq_zero_or_pos seg.blks with h0 | hpos
    · have hnil : seg.bufs = [] := List.eq_nil_of_length_eq_zero (hlen.trans h0)
      rw [hnil]
      exact ⟨_, t, rfl, h⟩
    · have hle := hfits hacc hpos.ne'
      rw [← hlen] at hle
      rw [writeSmrBlocks_array t hle]
      exact ⟨_, _, rfl, h.setDev _⟩
  · exact ⟨_, t, rfl, h⟩
  · rw [Bool.not_eq_false] at hacc
    have hle := hfits hacc h0
    rw [← hlen] at hle
    rw [readSmrBlocks_array t hle]
    exact ⟨_, t, rfl, h⟩

/-- A queue. -/
theorem Undetected.serveArray (h : Undetected t) {queue : List Segment}
    (hfits : ∀ seg ∈ queue, seg.Fits) :
    ∃ outs t', MemSmr.serveArray false t queue = .ok (outs, t') ∧ Undetected t' := by
  induction queue generalizing t with
  | nil => exact ⟨[], t, rfl, h⟩
  | cons seg queue ih =>
    obtain ⟨hseg, hqueue⟩ := List.forall_mem_cons.mp hfits
    obtain ⟨out, t₁, hone, h₁⟩ := h.arrayTransfer hseg
    obtain ⟨outs, t₂, hrest, h₂⟩ := ih h₁ hqueue
    refine ⟨out :: outs, t₂, ?_, h₂⟩
    rw [MemSmr.serveArray, hone, ok_bind]
    dsimp only
    rw [hrest]
    rfl

/-- Every segment is ended. -/
theorem length_serveArray {aware : Bool} {queue : List Segment} {outs : List (ℕ → Block)}
    (h : serveArray aware t queue = .ok (outs, t')) : outs.length = queue.length := by
  induction queue generalizing t outs with
  | nil =>
    obtain ⟨rfl, -⟩ := Prod.mk.inj (Except.ok.inj h)
    rfl
  | cons seg queue ih =>
    rw [serveArray] at h
    obtain ⟨⟨out, t₁⟩, -, h⟩ := bind_eq_ok.mp h
    obtain ⟨⟨outs₁, t₂⟩, hrest, h⟩ := bind_eq_ok.mp h
    obtain ⟨rfl, rfl⟩ := Prod.mk.inj (Except.ok.inj h)
    rw [List.length_cons, List.length_cons, ih hrest]

/-- One queue after another. -/
theorem serveArray_append {aware : Bool} {q q' : List Segment} {outs outs' : List (ℕ → Block)}
    {t t₁ t₂ : Ext2Sys ArrayDisk} (h : serveArray aware t q = .ok (outs, t₁))
    (h' : serveArray aware t₁ q' = .ok (outs', t₂)) :
    serveArray aware t (q ++ q') = .ok (outs ++ outs', t₂) := by
  induction q generalizing t outs with
  | nil =>
    obtain ⟨rfl, rfl⟩ := Prod.mk.inj (Except.ok.inj h)
    exact h'
  | cons seg q ih =>
    rw [serveArray] at h
    obtain ⟨⟨out, t₃⟩, hone, h⟩ := bind_eq_ok.mp h
    obtain ⟨⟨outs₃, t₄⟩, hrest, h⟩ := bind_eq_ok.mp h
    obtain ⟨rfl, rfl⟩ := Prod.mk.inj (Except.ok.inj h)
    rw [List.cons_append, serveArray, hone, ok_bind]
    dsimp only
    rw [ih hrest]
    rfl

/-- **One plain session.** -/
theorem Undetected.session (h : Undetected t) {x : Session} (hx : x.Plain) :
    ∃ out t', MemSmr.serveArray false t x.queue = .ok (out, t') ∧ Undetected t' ∧
      snapshotSession x t = .ok (out, if x.save then t' else t) := by
  obtain ⟨out, t', hserve, h'⟩ := h.serveArray hx.fits
  refine ⟨out, t', hserve, h', ?_⟩
  rw [snapshotSession, h.boot, ok_bind]
  dsimp only
  rw [hx.unaware, hserve]
  rfl

/-- What the saved sessions are asked for. -/
def savedQueue (xs : List Session) : List Segment :=
  (xs.filter fun x => x.save).flatMap Session.queue

/-- **Plain sessions** leave the snapshot that the saved ones leave. -/
theorem Undetected.sessions (h : Undetected t) {xs : List Session} (hxs : ∀ x ∈ xs, x.Plain) :
    ∃ outs out t', snapshotSessions xs t = .ok (outs, t') ∧ Undetected t' ∧
      MemSmr.serveArray false t (savedQueue xs) = .ok (out, t') ∧ outs.length = xs.length := by
  induction xs generalizing t with
  | nil => exact ⟨[], [], t, rfl, h, rfl, rfl⟩
  | cons x xs ih =>
    obtain ⟨hx, hxs⟩ := List.forall_mem_cons.mp hxs
    obtain ⟨out, t₁, hserve, h₁, hone⟩ := h.session hx
    have hnext : Undetected (if x.save then t₁ else t) := by
      split_ifs with hsave
      · exact h₁
      · exact h
    obtain ⟨outs, saved, t₂, hrest, h₂, hsaved, hlen⟩ := ih hnext hxs
    have hrun : snapshotSessions (x :: xs) t = .ok (out :: outs, t₂) := by
      rw [snapshotSessions, hone, ok_bind]
      dsimp only
      rw [hrest]
      rfl
    have hlen' : (out :: outs).length = (x :: xs).length := by
      rw [List.length_cons, List.length_cons, hlen]
    cases hsave : x.save with
    | true =>
      refine ⟨_, out ++ saved, t₂, hrun, h₂, ?_, hlen'⟩
      have hqueue : savedQueue (x :: xs) = x.queue ++ savedQueue xs := by
        rw [savedQueue, List.filter_cons_of_pos hsave, List.flatMap_cons, savedQueue]
      rw [hsave, if_pos rfl] at hsaved
      rw [hqueue]
      exact serveArray_append hserve hsaved
    | false =>
      refine ⟨_, saved, t₂, hrun, h₂, ?_, hlen'⟩
      have hqueue : savedQueue (x :: xs) = savedQueue xs := by
        rw [savedQueue, List.filter_cons_of_neg (by rw [hsave]; exact Bool.false_ne_true), savedQueue]
      rw [hsave, if_neg Bool.false_ne_true] at hsaved
      rw [hqueue]
      exact hsaved

theorem snapshotSessions_append {xs ys : List Session} {outs outs' : List (List (ℕ → Block))}
    {t t₁ t₂ : Ext2Sys ArrayDisk} (h : snapshotSessions xs t = .ok (outs, t₁))
    (h' : snapshotSessions ys t₁ = .ok (outs', t₂)) :
    snapshotSessions (xs ++ ys) t = .ok (outs ++ outs', t₂) := by
  induction xs generalizing t outs with
  | nil =>
    obtain ⟨rfl, rfl⟩ := Prod.mk.inj (Except.ok.inj h)
    exact h'
  | cons x xs ih =>
    rw [snapshotSessions] at h
    obtain ⟨⟨out, t₃⟩, hone, h⟩ := bind_eq_ok.mp h
    obtain ⟨⟨outs₃, t₄⟩, hrest, h⟩ := bind_eq_ok.mp h
    obtain ⟨rfl, rfl⟩ := Prod.mk.inj (Except.ok.inj h)
    rw [List.cons_append, snapshotSessions, hone, ok_bind]
    dsimp only
    rw [ih hrest]
    rfl

end Plain

/-- **Sessions that are not saved leave no trace, and those that are saved are as good as one.**  With the
detector off and the segments inside the device, every life of the module ends, and the last of them gives
the host what a module gives that is never unloaded and is asked first for all that the saved ones among
the others were asked for. -/
theorem unsaved_sessions_roll_back (xs : List Session) (x : Session)
    (hplain : ∀ y ∈ xs ++ [x], y.Plain) (env : Env) (haware : env.aware = false)
    (hpast : env.PastEndNotFree) (data : ℕ → Block) :
    ∃ outs out im ended s before,
      runSessions (xs ++ [x]) noImages = .ok (outs ++ [out], im) ∧ outs.length = xs.length ∧
      doRequest env (initSmrDisk (freshModule data)) (savedQueue xs ++ x.queue) = .ok (ended, s) ∧
      ended.map Ended.buffer = before ++ out ∧ before.length = (savedQueue xs).length := by
  obtain ⟨hxs, hx⟩ := List.forall_mem_append.mp hplain
  replace hx : x.Plain := hx x (List.mem_singleton_self x)
  obtain ⟨outs, saved, snap, hsessions, hsnap, hsaved, hlen⟩ := undetected_freshArray.sessions hxs
  obtain ⟨out, t, hserve, -, hlast⟩ := hsnap.session hx
  have harray : snapshotSessions (xs ++ [x]) freshArray =
      .ok (outs ++ [out], if x.save then t else snap) := by
    refine snapshotSessions_append hsessions ?_
    rw [snapshotSessions, hlast, ok_bind]
    rfl
  -- The sessions end, because the snapshots do.
  have hruns := sessions_refine (xs ++ [x]) fun y hy => (hplain y hy).past
  obtain ⟨⟨routs, im⟩, hrun, hout, -⟩ := hruns.ok_of_ok_right (fun _ h => h) harray
  replace hout : routs = outs ++ [out] := hout
  rw [hout] at hrun
  have hone := (Alive.init data).doRequest env (savedQueue xs ++ x.queue)
  rw [haware] at hone
  obtain ⟨q, hq, hbuffers, -⟩ := hone.ok_of_ok_right (not_pastEndFault hpast)
    (serveArray_append hsaved hserve)
  exact ⟨outs, out, im, q.1, q.2, saved, hrun, hlen, hq, hbuffers, length_serveArray hsaved⟩

/-- Block 5 is written twice, and the second session is not saved. -/
theorem unsaved_sessions_roll_back_twice :
    let env : Env := ⟨false, false, fun _ => .validPhyBlock⟩
    let ask : Block → Bool → List Segment := fun b write => [⟨40, 8, fun _ => b, write⟩]
    let x : Block → Bool → Bool → Session := fun b write save =>
      ⟨env, save, false, fun _ => 0, fun _ _ => 0, zeroStray, ask b write⟩
    let xs := [x (fun _ => 1) true true, x (fun _ => 2) true false]
    ∃ outs out im ended s before,
      runSessions (xs ++ [x 0 false false]) noImages = .ok (outs ++ [out], im) ∧
      outs.length = xs.length ∧
      doRequest env (initSmrDisk (freshModule fun _ => 0)) (savedQueue xs ++ ask 0 false) =
        .ok (ended, s) ∧
      ended.map Ended.buffer = before ++ out ∧ before.length = (savedQueue xs).length := by
  intro env ask x xs
  have hpast : env.PastEndNotFree := fun _ h => by cases h
  have hfits : ∀ b write, ∀ seg ∈ ask b write, seg.Fits := by
    intro b write seg hseg _ _
    rw [List.mem_singleton.mp hseg, totalSmrBlocksCnt_eq]
    exact (by decide : ((40 : UInt64) / 8).toNat + ((8 : UInt64) / 8).toNat ≤ 262144)
  have hx : ∀ b write save, (x b write save).Plain := fun b write _ => ⟨rfl, hpast, hfits b write⟩
  have hplain : ∀ y ∈ xs ++ [x 0 false false], y.Plain := by
    simp only [xs, List.cons_append, List.nil_append, List.forall_mem_cons]
    exact ⟨hx _ _ _, hx _ _ _, hx _ _ _, fun y hy => absurd hy List.not_mem_nil⟩
  exact unsaved_sessions_roll_back xs (x 0 false false) hplain env rfl hpast fun _ => 0

end MemSmr
