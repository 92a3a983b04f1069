import TpnWorker.Api.Upgrade

/-! What an upgrade leaves at the path of the executable. Until the old binary is deleted it is not touched; from then on it
    depends on the copies whether there is a binary. -/

namespace TpnWorker
open FileSystem

/-- After an error the old executable is in its place, byte for byte and still executable; after a success the downloaded
    content is, and its verification run exited successfully. -/
structure Unbroken (io : UpgradeIo) (exe : String) (old : File) (result : UpgradeResponse × FileSystem) : Prop where
  failed : result.1.success = false → ∃ file, result.2 exe = some file ∧ file.content = old.content ∧ file.Executable
  succeeded : result.1.success = true → ∃ data file, io.bytes = .ok data ∧ result.2 exe = some file ∧ file.content = data ∧
    io.verify (some ⟨data, 0o755⟩) = .ok (.exited 0)

/-! ### The steps -/

namespace UpgradeIo

structure Downloads (io : UpgradeIo) (repo : String) (data : List UInt8) : Prop where
  client : io.client = .ok ()
  answered : ∃ status, io.send (downloadUrl repo) = .ok status ∧ status.isSuccess = true
  bytes : io.bytes = .ok data

/-- The temporary file is written and can be started. -/
structure Installs (io : UpgradeIo) (exe : String) (data : List UInt8) : Prop where
  not_temp : exe ≠ tempPath
  written : io.writeTemp = .ok ()
  chmod : io.chmodTemp = .ok ()
  started : ∃ status, io.verify (some ⟨data, 0o755⟩) = .ok status

/-- The old binary is backed up and deleted. -/
structure Removes (io : UpgradeIo) : Prop where
  currentExe : io.currentExe = .ok ()
  backup : io.backup = .ok ()
  removed : io.removeExe = .ok ()

/-- What the restoring copy leaves at the path of the executable. -/
def restored (io : UpgradeIo) (old : File) : Option File :=
  match io.restore with
  | .ok () => some old
  | .error (_, left) => left

/-- The place of the deleted binary is taken: by the new one, whose verification run had exited successfully, or, if that
    fails, by an executable old one again. -/
def Refills (io : UpgradeIo) (old : File) (data : List UInt8) : Prop :=
  match io.replace, io.chmodExe with
  | .ok (), .ok () => io.verify (some ⟨data, 0o755⟩) = .ok (.exited 0)
  | _, _ => ∃ file, io.restored old = some file ∧ file.content = old.content ∧ file.Executable

/-- The old binary is not deleted, or its place is taken again. -/
def Safe (io : UpgradeIo) (repo exe : String) (old : File) : Prop :=
  ∀ data, io.Downloads repo data → io.Installs exe data → io.Removes → io.Refills old data

end UpgradeIo

section Steps
variable {io : UpgradeIo} {repo exe : String} {data : List UInt8} {fs : FileSystem} {old new : File}

theorem downloadBinary_cases (io : UpgradeIo) (repo : String) :
    (∃ data, downloadBinary io repo = .ok data ∧ io.Downloads repo data) ∨
      ∃ response, downloadBinary io repo = .error response ∧ response.success = false ∧ ∀ data, ¬io.Downloads repo data := by
  rw [downloadBinary]
  split
  · next e hclient => exact Or.inr ⟨_, rfl, rfl, fun _ h => by cases hclient.symm.trans h.client⟩
  · next hclient =>
    split
    · next e hsend =>
      refine Or.inr ⟨_, rfl, rfl, fun _ h => ?_⟩
      obtain ⟨status, hstatus, -⟩ := h.answered
      cases hsend.symm.trans hstatus
    · next status hsend =>
      split
      · next hfail =>
        refine Or.inr ⟨_, rfl, rfl, fun _ h => ?_⟩
        obtain ⟨status', hstatus, hsuccess⟩ := h.answered
        cases hsend.symm.trans hstatus
        exact hfail hsuccess
      · next hsuccess =>
        split
        · next e hbytes => exact Or.inr ⟨_, rfl, rfl, fun _ h => by cases hbytes.symm.trans h.bytes⟩
        · next data hbytes => exact Or.inl ⟨data, rfl, hclient, ⟨status, hsend, not_not.mp hsuccess⟩, hbytes⟩

theorem backupPath_ne (exe : String) : backupPath exe ≠ exe := by
  intro h
  have hlength := congrArg String.length h
  rw [backupPath, String.length_append] at hlength
  exact absurd hlength (by simp)

theorem backupPath_ne_tempPath (exe : String) : backupPath exe ≠ tempPath := by
  intro h
  have hlast := congrArg (fun path => path.toList.getLast?) h
  rw [backupPath] at hlast
  simp [tempPath] at hlast

/-- The temporary file is installed, or nothing happens to the executable. -/
theorem installTemp_cases (io : UpgradeIo) (exe : String) (data : List UInt8) (fs : FileSystem) :
    (∃ fs', installTemp io exe data fs = (.ok (), fs') ∧ io.Installs exe data ∧ fs' tempPath = some ⟨data, 0o755⟩ ∧
        ∀ path, path ≠ tempPath → fs' path = fs path) ∨
      ∃ response fs', installTemp io exe data fs = (.error response, fs') ∧ response.success = false ∧ fs' exe = fs exe ∧
        ¬io.Installs exe data := by
  by_cases hexe : exe = tempPath
  · refine Or.inr ⟨upgradeFailed s!"写入临时文件失败: {textFileBusy}", fs, ?_, rfl, rfl, fun h => h.not_temp hexe⟩
    rw [installTemp, decide_eq_true hexe]
    rfl
  · have hbusy : decide (exe = tempPath) = false := decide_eq_false hexe
    cases hwrite : io.writeTemp with
    | error e =>
      obtain ⟨message, left⟩ := e
      refine Or.inr ⟨upgradeFailed s!"写入临时文件失败: {message}", Function.update fs tempPath left, ?_, rfl,
        Function.update_of_ne hexe _ _, fun h => ?_⟩
      · simp only [installTemp, write, hbusy, put, hwrite, Bool.false_eq_true, if_false]
      · cases hwrite.symm.trans h.written
    | ok =>
      have hput : ∀ file path, path ≠ tempPath → Function.update fs tempPath file path = fs path := fun file path hne =>
        Function.update_of_ne hne _ _
      let mode := ((fs tempPath).map (·.mode)).getD io.newMode
      have hwritten : fs.write (decide (exe = tempPath)) io.newMode tempPath data io.writeTemp =
          (.ok (), Function.update fs tempPath (some ⟨data, mode⟩)) := by
        rw [hbusy, hwrite]
        rfl
      cases hchmod : io.chmodTemp with
      | error e =>
        refine Or.inr ⟨upgradeFailed s!"设置权限失败: {e}", Function.update fs tempPath (some ⟨data, mode⟩), ?_, rfl,
          hput _ exe hexe, fun h => ?_⟩
        · simp only [installTemp, hwritten, setMode_of_some (Function.update_self ..), hchmod]
        · cases hchmod.symm.trans h.chmod
      | ok =>
        let fs' : FileSystem := Function.update fs tempPath (some ⟨data, 0o755⟩)
        have hmode : FileSystem.setMode (Function.update fs tempPath (some ⟨data, mode⟩)) tempPath 0o755 io.chmodTemp =
            (.ok (), fs') := by
          simp only [setMode_of_some (Function.update_self ..), hchmod, Function.update_idem, fs']
        have htemp : fs' tempPath = some ⟨data, 0o755⟩ := Function.update_self ..
        cases hverify : io.verify (some ⟨data, 0o755⟩) with
        | error e =>
          refine Or.inr ⟨upgradeFailed "新二进制验证失败", (fs'.remove tempPath io.removeTemp).2, ?_, rfl,
            (remove_of_ne hexe _).trans (hput _ exe hexe), fun h => ?_⟩
          · simp only [installTemp, hwritten, hmode, htemp, hverify]
          · obtain ⟨status, hstatus⟩ := h.started
            cases hverify.symm.trans hstatus
        | ok status =>
          refine Or.inl ⟨fs', ?_, ⟨hexe, hwrite, hchmod, status, hverify⟩, htemp, hput _⟩
          simp only [installTemp, hwritten, hmode, htemp, hverify]

/-- Until the old binary is deleted the executable is untouched. -/
theorem replaceBinary_of_not_removes (hold : fs exe = some old) (hremoves : ¬io.Removes) :
    ∃ response fs', replaceBinary io exe fs = (.error response, fs') ∧ response.success = false ∧ fs' exe = some old := by
  cases hcurrent : io.currentExe with
  | error e =>
    refine ⟨upgradeFailed s!"获取当前二进制路径失败: {e}", fs, ?_, rfl, hold⟩
    simp only [replaceBinary, hcurrent]
  | ok =>
    have hkept : ∀ outcome : Outcome, (fs.copy exe (backupPath exe) outcome).2 exe = some old := fun outcome =>
      (copy_of_ne (backupPath_ne exe).symm outcome).trans hold
    cases hbackup : io.backup with
    | error e =>
      obtain ⟨message, left⟩ := e
      have hcopy : fs.copy exe (backupPath exe) io.backup = (.error message, Function.update fs (backupPath exe) left) := by
        rw [copy_of_some hold, hbackup, put]
      have hexe := hkept io.backup
      rw [hcopy] at hexe
      refine ⟨upgradeFailed s!"备份失败: {message}", _, ?_, rfl, hexe⟩
      simp only [replaceBinary, hcurrent, hcopy]
    | ok =>
      have hcopy : fs.copy exe (backupPath exe) io.backup = (.ok (), Function.update fs (backupPath exe) (some old)) := by
        rw [copy_of_some hold, hbackup, put]
      have hexe := hkept io.backup
      rw [hcopy] at hexe
      cases hremove : io.removeExe with
      | error e =>
        refine ⟨upgradeFailed s!"删除旧二进制失败: {e}", _, ?_, rfl, hexe⟩
        simp only [replaceBinary, hcurrent, hcopy, remove_of_some hexe, hremove]
      | ok => exact absurd ⟨hcurrent, hbackup, hremove⟩ hremoves

theorem restore_eq (hbackup : fs (backupPath exe) = some old) :
    (fs.copy (backupPath exe) exe io.restore).2 exe = io.restored old := by
  rw [copy_of_some hbackup, UpgradeIo.restored]
  cases io.restore <;> exact Function.update_self ..

/-- Once the old binary is deleted, its place has the new one, or what the restoring copy leaves. -/
theorem replaceBinary_of_removes (hold : fs exe = some old) (htemp : fs tempPath = some new) (hne : exe ≠ tempPath)
    (hremoves : io.Removes) :
    match io.replace, io.chmodExe with
    | .ok (), .ok () => ∃ fs', replaceBinary io exe fs = (.ok (), fs') ∧ fs' exe = some ⟨new.content, 0o755⟩
    | _, _ => ∃ response fs', replaceBinary io exe fs = (.error response, fs') ∧ response.success = false ∧
        fs' exe = io.restored old := by
  let saved : FileSystem := Function.update fs (backupPath exe) (some old)
  let deleted : FileSystem := Function.update saved exe none
  have hcopy : fs.copy exe (backupPath exe) io.backup = (.ok (), saved) := by
    rw [copy_of_some hold, hremoves.backup, put]
  have hsaved : saved exe = some old := (Function.update_of_ne (backupPath_ne exe).symm _ _).trans hold
  have hdeleted : deleted tempPath = some new := by
    rw [← htemp]
    exact (Function.update_of_ne hne.symm _ _).trans (Function.update_of_ne (backupPath_ne_tempPath exe).symm _ _)
  have hbackup : ∀ file, Function.update deleted exe file (backupPath exe) = some old := fun file =>
    (Function.update_of_ne (backupPath_ne exe) _ _).trans
      ((Function.update_of_ne (backupPath_ne exe) _ _).trans (Function.update_self ..))
  cases hreplace : io.replace with
  | error e =>
    obtain ⟨message, left⟩ := e
    refine ⟨upgradeFailed s!"替换二进制失败: {message}", _, ?_, rfl, restore_eq (hbackup left)⟩
    simp only [replaceBinary, hremoves.currentExe, hcopy, remove_of_some hsaved, hremoves.removed, copy_of_some hdeleted,
      hreplace, put, deleted]
  | ok =>
    have hplaced : Function.update deleted exe (some new) exe = some new := Function.update_self ..
    cases hchmod : io.chmodExe with
    | error e =>
      have hkept := (remove_of_ne (backupPath_ne exe) io.removeNew).trans (hbackup (some new))
      refine ⟨upgradeFailed s!"设置新二进制权限失败: {e}", _, ?_, rfl, restore_eq hkept⟩
      simp only [replaceBinary, hremoves.currentExe, hcopy, remove_of_some hsaved, hremoves.removed, copy_of_some hdeleted,
        hreplace, put, setMode_of_some hplaced, hchmod, deleted]
    | ok =>
      let installed : FileSystem := Function.update (Function.update deleted exe (some new)) exe (some ⟨new.content, 0o755⟩)
      refine ⟨(installed.remove tempPath io.removeTemp).2, ?_, (remove_of_ne hne _).trans (Function.update_self ..)⟩
      simp only [replaceBinary, hremoves.currentExe, hcopy, remove_of_some hsaved, hremoves.removed, copy_of_some hdeleted,
        hreplace, put, setMode_of_some hplaced, hchmod, deleted, installed]

/-- An upgrade leaves the old executable after an error, and after a success a new one that was verified, exactly if its
    steps are safe. -/
theorem upgrade_unbroken_iff (hold : fs exe = some old) (hexecutable : old.Executable) :
    Unbroken io exe old (doUpgrade io repo exe fs) ↔ io.Safe repo exe old := by
  have hkept : ∀ {response : UpgradeResponse} {fs' : FileSystem}, response.success = false → fs' exe = some old →
      Unbroken io exe old (response, fs') := fun hfailed hexe =>
    ⟨fun _ => ⟨old, hexe, rfl, hexecutable⟩, fun hsuccess => by cases hfailed.symm.trans hsuccess⟩
  rcases downloadBinary_cases io repo with ⟨data, hdownload, hdownloads⟩ | ⟨response, hdownload, hfailed, hnot⟩
  rotate_left
  · rw [doUpgrade, hdownload]
    exact iff_of_true (hkept hfailed hold) fun data h => absurd h (hnot data)
  rcases installTemp_cases io exe data fs with ⟨fs₁, hinstall, hinstalls, htemp, hframe⟩ | ⟨response, fs₁, hinstall, hfailed,
    hexe, hnot⟩
  rotate_left
  · simp only [doUpgrade, hdownload, hinstall]
    refine iff_of_true (hkept hfailed (hexe.trans hold)) fun data' h hinstalls => ?_
    cases h.bytes.symm.trans hdownloads.bytes
    exact absurd hinstalls hnot
  have hold₁ := (hframe exe hinstalls.not_temp).trans hold
  by_cases hremoves : io.Removes
  rotate_left
  · obtain ⟨response, fs₂, hreplace, hfailed, hexe⟩ := replaceBinary_of_not_removes hold₁ hremoves
    simp only [doUpgrade, hdownload, hinstall, hreplace]
    exact iff_of_true (hkept hfailed hexe) fun _ _ _ h => absurd h hremoves
  have hsafe : io.Safe repo exe old ↔ io.Refills old data := by
    refine ⟨fun h => h data hdownloads hinstalls hremoves, fun h data' hdownloads' _ _ => ?_⟩
    cases hdownloads.bytes.symm.trans hdownloads'.bytes
    exact h
  have hreplaced := replaceBinary_of_removes hold₁ htemp hinstalls.not_temp hremoves
  have hrestored : (∃ response fs', replaceBinary io exe fs₁ = (.error response, fs') ∧ response.success = false ∧
      fs' exe = io.restored old) → (Unbroken io exe old (doUpgrade io repo exe fs) ↔
        ∃ file, io.restored old = some file ∧ file.content = old.content ∧ file.Executable) := by
    rintro ⟨response, fs₂, hreplace, hfailed, hexe⟩
    simp only [doUpgrade, hdownload, hinstall, hreplace]
    rw [← hexe]
    exact ⟨fun h => h.failed hfailed, fun h => ⟨fun _ => h, fun hsuccess => by cases hfailed.symm.trans hsuccess⟩⟩
  rw [hsafe, UpgradeIo.Refills]
  cases hreplace : io.replace with
  | error =>
    simp only [hreplace] at hreplaced ⊢
    exact hrestored hreplaced
  | ok =>
    cases hchmod : io.chmodExe with
    | error =>
      simp only [hreplace, hchmod] at hreplaced ⊢
      exact hrestored hreplaced
    | ok =>
      simp only [hreplace, hchmod] at hreplaced ⊢
      obtain ⟨fs₂, hreplace, hexe⟩ := hreplaced
      simp only [doUpgrade, hdownload, hinstall, hreplace]
      constructor
      · intro h
        obtain ⟨data', file, hbytes, -, -, hverified⟩ := h.succeeded rfl
        cases hdownloads.bytes.symm.trans hbytes
        exact hverified
      · exact fun h => ⟨fun hfailed => (by cases hfailed), fun _ => ⟨data, _, hdownloads.bytes, hexe, rfl, h⟩⟩

end Steps

/-- The node before an upgrade. -/
def installedNode : FileSystem := fun path => if path = "/usr/local/bin/tpn-worker" then some ⟨[1], 0o755⟩ else none

/-- An upgrade to the content `[2]`, whose verification run exits with this status. -/
def UpgradeIo.sample (status : ExitStatus) (replace restore : Outcome) : UpgradeIo where
  client := .ok ()
  send _ := .ok ⟨200, some "OK"⟩
  bytes := .ok [2]
  newMode := 0o644
  writeTemp := .ok ()
  chmodTemp := .ok ()
  verify _ := .ok status
  currentExe := .ok ()
  backup := .ok ()
  removeExe := .ok ()
  replace
  chmodExe := .ok ()
  removeNew := .ok ()
  restore
  removeTemp := .ok ()

def diskFull : Outcome := .error ("No space left on device (os error 28)", some ⟨[], 0o755⟩)

/-- A new binary that exits with an error is installed; and if the disk is full, neither copy is complete and the node is
    left with an empty file. -/
theorem upgrade_leaves_broken_binary :
    (∃ io, ∃ file : File, io = UpgradeIo.sample (.exited 1) (.ok ()) (.ok ()) ∧
      (doUpgrade io "tpn" "/usr/local/bin/tpn-worker" installedNode).1.success = true ∧
      (doUpgrade io "tpn" "/usr/local/bin/tpn-worker" installedNode).2 "/usr/local/bin/tpn-worker" = some file ∧
      file.content = [2] ∧ io.verify (some file) = .ok (.exited 1) ∧
      ¬Unbroken io "/usr/local/bin/tpn-worker" ⟨[1], 0o755⟩ (doUpgrade io "tpn" "/usr/local/bin/tpn-worker" installedNode)) ∧
    ∃ io, io = UpgradeIo.sample (.exited 0) diskFull diskFull ∧
      (doUpgrade io "tpn" "/usr/local/bin/tpn-worker" installedNode).1.success = false ∧
      (doUpgrade io "tpn" "/usr/local/bin/tpn-worker" installedNode).2 "/usr/local/bin/tpn-worker" = some ⟨[], 0o755⟩ := by
  refine ⟨⟨_, ⟨[2], 0o755⟩, rfl, ?_, ?_, rfl, rfl, fun h => ?_⟩, _, rfl, ?_, ?_⟩
  · decide +kernel
  · decide +kernel
  · obtain ⟨data, file, hbytes, -, -, hverified⟩ := h.succeeded (by decide +kernel)
    cases hverified
  · decide +kernel
  · decide +kernel

/-- The new copy fails, and the restoring one does not. -/
theorem upgrade_unbroken_iff_sample :
    Unbroken (.sample (.exited 0) diskFull (.ok ())) "/usr/local/bin/tpn-worker" ⟨[1], 0o755⟩
      (doUpgrade (.sample (.exited 0) diskFull (.ok ())) "tpn" "/usr/local/bin/tpn-worker" installedNode) :=
  (upgrade_unbroken_iff (if_pos rfl) (by decide)).mpr fun _ _ _ _ => ⟨⟨[1], 0o755⟩, rfl, rfl, by decide⟩

end TpnWorker
