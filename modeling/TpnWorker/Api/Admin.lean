import TpnWorker.Lib.Decimal
import TpnWorker.Lib.Lines
import TpnWorker.Net.Ip

/-! Updates of the `.env` file (`src/api/admin.rs`). A call rewrites every line of its variable, commented out or not,
    and joins all lines again. -/

namespace TpnWorker
open Lines

/-- The name of a variable: no `=`, no line feed, and neither white space nor `#` at its start. -/
@[ext] structure EnvKey where
  name : String
  no_assign : '=' ∉ name.toList
  no_newline : '\n' ∉ name.toList
  head : (name.toList.head?.all fun c => decide (isWhiteSpace c = false ∧ c ≠ '#')) = true
deriving DecidableEq

/-- The arguments of a call: a variable and a value on a single line. -/
structure EnvUpdate where
  key : EnvKey
  value : String
  single_line : '\n' ∉ value.toList

namespace EnvKey

def miningPoolUrl : EnvKey := ⟨"MINING_POOL_URL", by decide, by decide, by decide⟩

def paymentAddressEvm : EnvKey := ⟨"PAYMENT_ADDRESS_EVM", by decide, by decide, by decide⟩

def paymentAddressBittensor : EnvKey := ⟨"PAYMENT_ADDRESS_BITTENSOR", by decide, by decide, by decide⟩

def serverPublicPort : EnvKey := ⟨"SERVER_PUBLIC_PORT", by decide, by decide, by decide⟩

def socks5Port : EnvKey := ⟨"SOCKS5_PORT", by decide, by decide, by decide⟩

def httpProxyPort : EnvKey := ⟨"HTTP_PROXY_PORT", by decide, by decide, by decide⟩

def wireguardServerPort : EnvKey := ⟨"WIREGUARD_SERVERPORT", by decide, by decide, by decide⟩

def loginPassword : EnvKey := ⟨"LOGIN_PASSWORD", by decide, by decide, by decide⟩

/-- `KEY=value` -/
def assignment (key : EnvKey) (value : List Char) : List Char := key.name.toList ++ '=' :: value

/-- Match `KEY=...` or `# KEY=...`. -/
def onLine (key : EnvKey) (line : List Char) : Bool :=
  let trimmed := trim line
  (key.assignment []).isPrefixOf trimmed || ('#' :: ' ' :: key.assignment []).isPrefixOf trimmed

end EnvKey

/-- A line of the variable, commented or not, is replaced. -/
def updatedLine (key : EnvKey) (value line : List Char) : List Char :=
  if key.onLine line then key.assignment value else line

/-- The lines after an update: if no line is one of the variable, one is appended. -/
def updatedLines (content : String) (key : EnvKey) (value : String) : List (List Char) :=
  let updated := (lines content.toList).map (updatedLine key value.toList)
  if (lines content.toList).any key.onLine then updated else updated ++ [key.assignment value.toList]

/-- Update a single `key=value` in the content of the file. Nothing of the value is escaped, and a line feed at the end of the
    file is kept. -/
def updateEnvValue (content : String) (key : EnvKey) (value : String) : String :=
  String.ofList (closeText (content.toList.getLast? = some '\n') (join (updatedLines content key value)))

/-- The file after a call with these arguments. -/
def EnvUpdate.written (content : String) (u : EnvUpdate) : String := updateEnvValue content u.key u.value

/-- A call that fails: it could not read the file, or its write has left this of it. -/
structure EnvFault where
  message : String
  left : Option String

/-! ### The handler -/

structure ConfigUpdateRequest where
  miningPoolUrl : Option String
  paymentAddressEvm : Option String
  paymentAddressBittensor : Option String
  serverPublicPort : Option UInt16
  socks5Port : Option UInt16
  httpProxyPort : Option UInt16
  wireguardServerPort : Option UInt16

namespace ConfigUpdateRequest

def texts (req : ConfigUpdateRequest) : List (EnvKey × Option String) :=
  [(.miningPoolUrl, req.miningPoolUrl), (.paymentAddressEvm, req.paymentAddressEvm),
    (.paymentAddressBittensor, req.paymentAddressBittensor)]

def ports (req : ConfigUpdateRequest) : List (EnvKey × Option UInt16) :=
  [(.serverPublicPort, req.serverPublicPort), (.socks5Port, req.socks5Port), (.httpProxyPort, req.httpProxyPort),
    (.wireguardServerPort, req.wireguardServerPort)]

end ConfigUpdateRequest

/-- A response of the admin interface. -/
structure AdminResponse where
  status : ℕ
  success : Bool
  message : String
  updated : Option (List String)
deriving DecidableEq

def validatePort (port : UInt16) (name : String) : Except String Unit :=
  if port = 0 then .error (name ++ ": 端口不能为 0") else .ok ()

/-- The file and the two lists that the handler builds. -/
structure Updating where
  content : String
  updated : List String
  errors : List String

/-- One call of `update_env_value`. -/
def Updating.store (io : EnvKey → Except EnvFault Unit) (s : Updating) (key : EnvKey) (value : String) : Updating :=
  match io key with
  | .ok () => { s with content := updateEnvValue s.content key value, updated := s.updated ++ [key.name] }
  | .error e => { s with content := e.left.getD s.content, errors := s.errors ++ [key.name ++ ": " ++ e.message] }

def Updating.storeText (io : EnvKey → Except EnvFault Unit) (s : Updating) (field : EnvKey × Option String) : Updating :=
  match field.2 with
  | none => s
  | some v => s.store io field.1 v

def Updating.storePort (io : EnvKey → Except EnvFault Unit) (s : Updating) (field : EnvKey × Option UInt16) : Updating :=
  match field.2 with
  | none => s
  | some port =>
    match validatePort port field.1.name with
    | .error e => { s with errors := s.errors ++ [e] }
    | .ok () => s.store io field.1 (Decimal.display port.toNat)

/-- POST /api/config/update, on the content of the file and the outcomes of the calls. -/
def updateConfig (io : EnvKey → Except EnvFault Unit) (content : String) (req : ConfigUpdateRequest) :
    AdminResponse × String :=
  let s := req.ports.foldl (Updating.storePort io) (req.texts.foldl (Updating.storeText io) ⟨content, [], []⟩)
  if s.errors ≠ [] then (⟨500, false, "部分更新失败: " ++ "; ".intercalate s.errors, some s.updated⟩, s.content)
  else if s.updated = [] then (⟨400, false, "未提供任何更新字段", none⟩, s.content)
  else (⟨200, true, "已更新: " ++ ", ".intercalate s.updated ++ "，重启后生效", some s.updated⟩, s.content)

/-! ### Reading the file -/

/-- The value that a line `KEY=value` assigns. -/
def EnvKey.valueOn (key : EnvKey) (line : List Char) : Option (List Char) :=
  if (key.assignment []).isPrefixOf (trim line) then some ((trim line).drop (key.assignment []).length) else none

/-- The value of a variable: the last assignment wins. -/
def readEnv (content : String) (key : EnvKey) : Option String :=
  ((lines content.toList).filterMap key.valueOn).getLast?.map String.ofList

/-- A value without white space at its end, as a reader of trimmed lines sees it. -/
def trimEnd (text : List Char) : List Char := (text.reverse.dropWhile isWhiteSpace).reverse

def EnvUpdate.seen (u : EnvUpdate) : String := String.ofList (trimEnd u.value.toList)

section Reading
variable {key key' : EnvKey} {line value : List Char} {content : String} {u : EnvUpdate}

theorem EnvKey.head_plain {c : Char} (h : key.name.toList.head? = some c) : isWhiteSpace c = false ∧ c ≠ '#' := by
  have hhead := key.head
  rw [h] at hhead
  exact of_decide_eq_true hhead

theorem trim_append_of_isWhiteSpace {c : Char} (hc : isWhiteSpace c = true) : trim (line ++ [c]) = trim line := by
  rw [trim, trim, List.dropWhile_append]
  split
  · next hall =>
    rw [List.isEmpty_iff] at hall
    rw [hall, List.dropWhile_cons_of_pos hc, List.dropWhile_nil]
  · rw [List.reverse_append, List.reverse_singleton, List.singleton_append, List.dropWhile_cons_of_pos hc]

theorem trim_stripCr : trim (stripCr line) = trim line := by
  rw [stripCr]
  split
  · next hlast =>
    rw [← trim_append_of_isWhiteSpace (show isWhiteSpace '\r' = true by decide), List.dropLast_append_getLast? _ hlast]
  · rfl

theorem dropWhile_assignment : (key.assignment value).dropWhile isWhiteSpace = key.assignment value := by
  rw [EnvKey.assignment]
  cases hname : key.name.toList with
  | nil => exact List.dropWhile_cons_of_neg (by decide)
  | cons c cs =>
    have hc := (key.head_plain (congrArg List.head? hname)).1
    exact List.dropWhile_cons_of_neg (Bool.eq_false_iff.mp hc)

theorem trim_assignment : trim (key.assignment value) = key.assignment (trimEnd value) := by
  have hsplit : (key.assignment value).reverse = value.reverse ++ '=' :: key.name.toList.reverse := by
    simp [EnvKey.assignment]
  have hend : (value.reverse ++ '=' :: key.name.toList.reverse).dropWhile isWhiteSpace =
      value.reverse.dropWhile isWhiteSpace ++ '=' :: key.name.toList.reverse := by
    rw [List.dropWhile_append]
    split
    · next hall =>
      rw [List.isEmpty_iff.mp hall, List.nil_append]
      exact List.dropWhile_cons_of_neg (by decide)
    · rfl
  rw [trim, dropWhile_assignment, hsplit, hend]
  simp [EnvKey.assignment, trimEnd]

theorem assignment_append (key : EnvKey) (value : List Char) : key.assignment value = key.assignment [] ++ value := by
  rw [EnvKey.assignment, EnvKey.assignment, List.append_assoc]
  rfl

theorem onLine_stripCr : key.onLine (stripCr line) = key.onLine line := by
  rw [EnvKey.onLine, EnvKey.onLine, trim_stripCr]

theorem onLine_nil : key.onLine [] = false := by
  have htrim : trim [] = [] := rfl
  simp [EnvKey.onLine, htrim, EnvKey.assignment]

theorem valueOn_stripCr : key.valueOn (stripCr line) = key.valueOn line := by
  rw [EnvKey.valueOn, EnvKey.valueOn, trim_stripCr]

theorem valueOn_nil : key.valueOn [] = none := by
  have hprefix : ¬(key.assignment []).isPrefixOf (trim []) = true := by
    rw [List.isPrefixOf_iff_prefix]
    exact fun h => absurd (List.prefix_nil.mp h) (by simp [EnvKey.assignment])
  exact if_neg hprefix

theorem valueOn_assignment : key.valueOn (key.assignment value) = some (trimEnd value) := by
  rw [EnvKey.valueOn, trim_assignment, assignment_append key (trimEnd value), if_pos, List.drop_left]
  exact List.isPrefixOf_iff_prefix.mpr (List.prefix_append _ _)

theorem name_eq {lead rest : List Char} (htrim : trim line = lead ++ '=' :: rest) (hlead : '=' ∉ lead)
    (h : key.valueOn line ≠ none) : lead = key.name.toList := by
  have hprefix : key.assignment [] <+: trim line := by
    by_contra hnot
    exact h (if_neg (by rwa [List.isPrefixOf_iff_prefix]))
  obtain ⟨rest', hrest⟩ := hprefix
  rw [htrim, ← assignment_append, EnvKey.assignment] at hrest
  have hpieces := congrArg (List.splitOn '=') hrest
  rw [List.splitOn_append_cons_self_of_not_mem key.no_assign, List.splitOn_append_cons_self_of_not_mem hlead] at hpieces
  exact (List.cons.inj hpieces).1.symm

theorem valueOn_of_onLine (hne : key ≠ key') (h : key.onLine line = true) : key'.valueOn line = none := by
  by_contra hvalue
  rw [EnvKey.onLine, Bool.or_eq_true, List.isPrefixOf_iff_prefix, List.isPrefixOf_iff_prefix] at h
  rcases h with ⟨rest, hrest⟩ | ⟨rest, hrest⟩
  · rw [← assignment_append] at hrest
    exact hne (EnvKey.ext (String.toList_inj.mp (name_eq hrest.symm key.no_assign hvalue)))
  · -- the name of a variable does not start with `#`
    have htrim : trim line = ('#' :: ' ' :: key.name.toList) ++ '=' :: rest := by
      rw [← hrest, List.cons_append, List.cons_append, ← assignment_append]
      rfl
    have hname := name_eq htrim (by simpa using key.no_assign) hvalue
    exact absurd rfl (key'.head_plain (hname ▸ rfl)).2

theorem onLine_assignment : key.onLine (key.assignment value) = true := by
  rw [EnvKey.onLine, trim_assignment, assignment_append key (trimEnd value), Bool.or_eq_true]
  exact Or.inl (List.isPrefixOf_iff_prefix.mpr (List.prefix_append _ _))

theorem onLine_of_valueOn {value : List Char} (h : key.valueOn line = some value) : key.onLine line = true := by
  by_contra hnot
  rw [EnvKey.onLine, Bool.or_eq_true, not_or] at hnot
  rw [EnvKey.valueOn, if_neg hnot.1] at h
  cases h

end Reading

/-! ### The rewritten lines -/

section Rewriting
variable {key : EnvKey} {content value : String} {line : List Char}

theorem updatedLine_own (h : key.onLine (updatedLine key value.toList line) = true) :
    updatedLine key value.toList line = key.assignment value.toList := by
  rw [updatedLine] at h ⊢
  split
  · rfl
  · next hline =>
    rw [if_neg hline] at h
    exact absurd h hline

/-- The lines of the variable are the written one. -/
theorem updatedLines_own (hline : line ∈ updatedLines content key value) (hkey : key.onLine line = true) :
    line = key.assignment value.toList := by
  have hmap : ∀ l ∈ (lines content.toList).map (updatedLine key value.toList), key.onLine l = true →
      l = key.assignment value.toList := by
    intro l hl hown
    obtain ⟨line, -, rfl⟩ := List.mem_map.mp hl
    exact updatedLine_own hown
  rw [updatedLines] at hline
  split at hline
  · exact hmap line hline hkey
  · rcases List.mem_append.mp hline with hline | hline
    · exact hmap line hline hkey
    · exact List.mem_singleton.mp hline

theorem assignment_mem_updatedLines : key.assignment value.toList ∈ updatedLines content key value := by
  rw [updatedLines]
  split
  · next hfound =>
    obtain ⟨line, hline, hkey⟩ := List.any_eq_true.mp hfound
    exact List.mem_map.mpr ⟨line, hline, if_pos hkey⟩
  · exact List.mem_append_right _ (List.mem_singleton_self _)

theorem not_mem_updatedLines (hvalue : '\n' ∉ value.toList) : ∀ l ∈ updatedLines content key value, '\n' ∉ l := by
  have hassign : '\n' ∉ key.assignment value.toList := by simp [EnvKey.assignment, key.no_newline, hvalue]
  have hmap : ∀ l ∈ (lines content.toList).map (updatedLine key value.toList), '\n' ∉ l := by
    intro l hl
    obtain ⟨line, hline, rfl⟩ := List.mem_map.mp hl
    rw [updatedLine]
    split
    · exact hassign
    · exact not_mem_of_mem_lines hline
  intro l hl
  rw [updatedLines] at hl
  split at hl
  · exact hmap l hl
  · rcases List.mem_append.mp hl with hl | hl
    · exact hmap l hl
    · exact List.mem_singleton.mp hl ▸ hassign

/-- A reader that disregards the lines of the variable finds what it found before. -/
theorem filterMap_updatedLines {β : Type} {f : List Char → Option β} (hown : ∀ line, key.onLine line = true → f line = none) :
    (updatedLines content key value).filterMap f = (lines content.toList).filterMap f := by
  have hmap : ((lines content.toList).map (updatedLine key value.toList)).filterMap f = (lines content.toList).filterMap f := by
    rw [List.filterMap_map]
    refine List.filterMap_congr fun line _ => ?_
    rw [Function.comp_apply, updatedLine]
    split
    · next hline => rw [hown line hline, hown _ onLine_assignment]
    · rfl
  rw [updatedLines]
  split
  · exact hmap
  · rw [List.filterMap_append, hmap, List.filterMap_cons_none (hown _ onLine_assignment), List.filterMap_nil, List.append_nil]

/-- A reader that disregards carriage returns at the end of a line finds in the new file what was written. -/
theorem filterMap_updateEnvValue {β : Type} {f : List Char → Option β} (hcr : ∀ l, f (stripCr l) = f l)
    (hnil : f [] = none) (hvalue : '\n' ∉ value.toList) :
    (lines (updateEnvValue content key value).toList).filterMap f = (updatedLines content key value).filterMap f := by
  have hlines : ∀ l ∈ updatedLines content key value, '\n' ∉ l := not_mem_updatedLines hvalue
  have hread := filterMap_lines_join hcr hnil hlines
  rw [updateEnvValue, String.toList_ofList, closeText]
  split
  · exact hread.2
  · exact hread.1

end Rewriting

/-! ### Reading back an update -/

section Update
variable {key : EnvKey} {content : String} {u : EnvUpdate}

theorem filterMap_written : (lines (EnvUpdate.written content u).toList).filterMap key.valueOn =
    (updatedLines content u.key u.value).filterMap key.valueOn :=
  filterMap_updateEnvValue (fun _ => valueOn_stripCr) valueOn_nil u.single_line

/-- The variable has the value that was written. -/
theorem readEnv_written_self : readEnv (EnvUpdate.written content u) u.key = some u.seen := by
  have hmem : trimEnd u.value.toList ∈ (updatedLines content u.key u.value).filterMap u.key.valueOn :=
    List.mem_filterMap.mpr ⟨_, assignment_mem_updatedLines, valueOn_assignment⟩
  have hne := List.ne_nil_of_mem hmem
  have hlast : ((updatedLines content u.key u.value).filterMap u.key.valueOn).getLast hne = trimEnd u.value.toList := by
    obtain ⟨line, hline, hvalue⟩ := List.mem_filterMap.mp (List.getLast_mem hne)
    rw [updatedLines_own hline (onLine_of_valueOn hvalue), valueOn_assignment] at hvalue
    exact (Option.some.inj hvalue).symm
  rw [readEnv, filterMap_written, List.getLast?_eq_some_getLast hne, hlast]
  rfl

/-- The other variables keep their values. -/
theorem readEnv_written_of_ne (hne : key ≠ u.key) : readEnv (EnvUpdate.written content u) key = readEnv content key := by
  rw [readEnv, readEnv, filterMap_written, filterMap_updatedLines fun _ => valueOn_of_onLine hne.symm]

end Update

end TpnWorker
