import TpnWorker.Lib.FileSystem

/-! The upgrade of the binary (`do_upgrade` of `src/api/upgrade.rs`): download, check and replace it. -/

namespace TpnWorker
open FileSystem

structure UpgradeResponse where
  status : ℕ
  success : Bool
  message : String
deriving DecidableEq, Repr

def upgradeFailed (message : String) : UpgradeResponse := ⟨500, false, message⟩

structure HttpStatus where
  code : ℕ
  canonicalReason : Option String
deriving DecidableEq

def HttpStatus.isSuccess (status : HttpStatus) : Bool := decide (200 ≤ status.code ∧ status.code < 300)

def HttpStatus.display (status : HttpStatus) : String :=
  let reason := status.canonicalReason.getD "<unknown status code>"
  s!"{status.code} {reason}"

/-- How a process ended. -/
inductive ExitStatus where
  | exited (code : ℕ)
  | signaled (signal : ℕ)
deriving DecidableEq

/-- How the steps of an upgrade end, each of which may fail. -/
structure UpgradeIo where
  client : Except String Unit
  send : String → Except String HttpStatus
  bytes : Except String (List UInt8)
  newMode : ℕ
  writeTemp : Outcome
  chmodTemp : Except String Unit
  verify : Option File → Except String ExitStatus
  currentExe : Except String Unit
  backup : Outcome
  removeExe : Except String Unit
  replace : Outcome
  chmodExe : Except String Unit
  removeNew : Except String Unit
  restore : Outcome
  removeTemp : Except String Unit

def downloadUrl (repo : String) : String :=
  s!"https://github.com/{repo}/releases/download/latest/tpn-worker-linux-ubuntu22-amd64"

def tempPath : String := "/tmp/tpn-worker-new"

def backupPath (exe : String) : String := exe ++ ".bak"

/-- Steps 1 and 2: download the binary. -/
def downloadBinary (io : UpgradeIo) (repo : String) : Except UpgradeResponse (List UInt8) :=
  match io.client with
  | .error e => .error (upgradeFailed s!"创建下载客户端失败: {e}")
  | .ok () =>
    match io.send (downloadUrl repo) with
    | .error e => .error (upgradeFailed s!"下载失败: {e}")
    | .ok status =>
      if ¬status.isSuccess then .error (upgradeFailed s!"下载失败, HTTP {status.display}")
      else
        match io.bytes with
        | .error e => .error (upgradeFailed s!"读取下载数据失败: {e}")
        | .ok binaryData => .ok binaryData

/-- Steps 3 to 5: write the temporary file, make it executable and run it. What is checked is that it can be started. -/
def installTemp (io : UpgradeIo) (exe : String) (binaryData : List UInt8) (fs : FileSystem) :
    Except UpgradeResponse Unit × FileSystem :=
  match fs.write (decide (exe = tempPath)) io.newMode tempPath binaryData io.writeTemp with
  | (.error e, fs) => (.error (upgradeFailed s!"写入临时文件失败: {e}"), fs)
  | (.ok (), fs) =>
    match fs.setMode tempPath 0o755 io.chmodTemp with
    | (.error e, fs) => (.error (upgradeFailed s!"设置权限失败: {e}"), fs)
    | (.ok (), fs) =>
      match io.verify (fs tempPath) with
      | .error _ => (.error (upgradeFailed "新二进制验证失败"), (fs.remove tempPath io.removeTemp).2)
      | .ok _ => (.ok (), fs)

/-- Steps 6 to 8: back up the current binary, delete it and copy the new one to its place. -/
def replaceBinary (io : UpgradeIo) (exe : String) (fs : FileSystem) : Except UpgradeResponse Unit × FileSystem :=
  match io.currentExe with
  | .error e => (.error (upgradeFailed s!"获取当前二进制路径失败: {e}"), fs)
  | .ok () =>
    match fs.copy exe (backupPath exe) io.backup with
    | (.error e, fs) => (.error (upgradeFailed s!"备份失败: {e}"), fs)
    | (.ok (), fs) =>
      match fs.remove exe io.removeExe with
      | (.error e, fs) => (.error (upgradeFailed s!"删除旧二进制失败: {e}"), fs)
      | (.ok (), fs) =>
        match fs.copy tempPath exe io.replace with
        | (.error e, fs) =>
          (.error (upgradeFailed s!"替换二进制失败: {e}"), (fs.copy (backupPath exe) exe io.restore).2)
        | (.ok (), fs) =>
          match fs.setMode exe 0o755 io.chmodExe with
          | (.error e, fs) =>
            let fs := (fs.remove exe io.removeNew).2
            (.error (upgradeFailed s!"设置新二进制权限失败: {e}"), (fs.copy (backupPath exe) exe io.restore).2)
          | (.ok (), fs) => (.ok (), (fs.remove tempPath io.removeTemp).2)

/-- POST /api/upgrade: download latest release and replace the binary at the current executable path `exe`. -/
def doUpgrade (io : UpgradeIo) (repo exe : String) (fs : FileSystem) : UpgradeResponse × FileSystem :=
  match downloadBinary io repo with
  | .error response => (response, fs)
  | .ok binaryData =>
    match installTemp io exe binaryData fs with
    | (.error response, fs) => (response, fs)
    | (.ok (), fs) =>
      match replaceBinary io exe fs with
      | (.error response, fs) => (response, fs)
      | (.ok (), fs) => (⟨200, true, "更新成功，正在重启..."⟩, fs)

end TpnWorker
