import TpnWorker.Concurrent.Reload

/-! A call of `rotate_password` beside one reload (`src/proxy/credentials.rs`). The call changes the map and then the table;
    the reload reads the table and then writes the map row by row. A history variable has the steps in their order; no step
    reads it. -/

namespace TpnWorker
open Keyed Transition

/-- What a call is given: the user, the password it draws and the time. -/
structure Rotation where
  username : String
  newPassword : String
  nowMs : Int

/-- Where a call stands, by what it does next. -/
inductive RotationPc where
  | swapping
  | updating
  | finished (result : Except AppError String)

inductive RotationAct where
  | swap
  | update (outcome : Except String Unit)
  | read (rows : Except String Unit)
  | clear
  | insert

/-- The reload has not been called as long as its place is empty, and has returned when it is `idle`. -/
structure RotationSys where
  table : Socks5Table
  credentials : Credentials
  rotation : RotationPc
  reload : Option LoadPc
  trace : List RotationAct

/-- The UPDATE of a rotation. -/
def Rotation.set (r : Rotation) (t : Socks5Table) : Socks5Table :=
  t.updateWhere (fun row => decide (row.username = r.username))
    { set := fun row => { row with password := r.newPassword, updated := r.nowMs } }

/-- What the table loads after the UPDATE. -/
theorem Rotation.loadFromDb_set (r : Rotation) (t : Socks5Table) (username : String) :
    loadFromDb (r.set t) username =
      if username = r.username then (loadFromDb t username).map fun _ => r.newPassword else loadFromDb t username := by
  rw [loadFromDb_apply, loadFromDb_apply, set, Socks5Table.read_updateWhere, Option.map_map]
  cases hread : readSocks5ConfigByUsername t username with
  | none => simp
  | some row =>
    have hname : row.username = username := (Socks5Table.read_eq_some_iff.mp hread).2
    by_cases h : username = r.username <;> simp [hname, h]

def unknownUser (username : String) : AppError := .internal s!"Cannot rotate password for unknown user: {username}"

namespace RotationSys

/-- Neither call has started, and map and table agree. -/
def start (table : Socks5Table) : RotationSys := ⟨table, loadFromDb table, .swapping, none, []⟩

/-- What a step does to the state other than to the history. -/
def next (r : Rotation) (s : RotationSys) : RotationAct → Option RotationSys
  | .swap =>
    match s.rotation with
    | .swapping =>
      match s.credentials r.username with
      | some _ =>
        some { s with
          credentials := Function.update s.credentials r.username (some r.newPassword), rotation := .updating }
      | none => some { s with rotation := .finished (.error (unknownUser r.username)) }
    | _ => none
  | .update outcome =>
    match s.rotation with
    | .updating =>
      match outcome with
      | .ok () => some { s with table := r.set s.table, rotation := .finished (.ok r.newPassword) }
      | .error e => some { s with rotation := .finished (.error (.db e)) }
    | _ => none
  | .read rows =>
    match s.reload with
    | none =>
      match rows with
      | .ok () => some { s with reload := some (.clearing s.table.rows) }
      | .error _ => some { s with reload := some .idle }
    | some _ => none
  | .clear =>
    match s.reload with
    | some (.clearing configs) => some { s with credentials := fun _ => none, reload := some (.remaining configs) }
    | _ => none
  | .insert =>
    match s.reload with
    | some (.inserting config rest) =>
      some { s with credentials := insertCredential s.credentials config, reload := some (.remaining rest) }
    | _ => none

def step (r : Rotation) (s : RotationSys) (a : RotationAct) : Option RotationSys :=
  (s.next r a).map fun t => { t with trace := s.trace ++ [a] }

/-- Both calls have returned. -/
def Finished (s : RotationSys) : Prop := (∃ result, s.rotation = .finished result) ∧ s.reload = some .idle

/-- The rows that the reload has read and not yet inserted. -/
def rows (s : RotationSys) : List Socks5Config :=
  match s.reload with
  | some (.clearing configs) => configs
  | some (.inserting config rest) => config :: rest
  | _ => []

/-- The map that these rows are inserted into. -/
def base (s : RotationSys) : Credentials :=
  match s.reload with
  | some (.clearing _) => fun _ => none
  | _ => s.credentials

/-- The map once the reload has made the steps that are left. -/
def outcome (s : RotationSys) : Credentials := s.rows.foldl insertCredential s.base

end RotationSys

namespace RotationStep
variable {r : Rotation} {s t : RotationSys}

theorem swap_inv (h : s.step r .swap = some t) :
    s.rotation = .swapping ∧
      ((∃ old, s.credentials r.username = some old ∧ t = { s with
          credentials := Function.update s.credentials r.username (some r.newPassword), rotation := .updating,
          trace := s.trace ++ [.swap] }) ∨
        s.credentials r.username = none ∧ t = { s with
          rotation := .finished (.error (unknownUser r.username)), trace := s.trace ++ [.swap] }) := by
  obtain ⟨u, hnext, rfl⟩ := Option.map_eq_some_iff.mp h
  simp only [RotationSys.next] at hnext
  split at hnext
  · next hpc =>
    refine ⟨hpc, ?_⟩
    split at hnext
    · next old hold =>
      cases hnext
      exact Or.inl ⟨old, hold, rfl⟩
    · next hnone =>
      cases hnext
      exact Or.inr ⟨hnone, rfl⟩
  · cases hnext

theorem update_inv {outcome : Except String Unit} (h : s.step r (.update outcome) = some t) :
    s.rotation = .updating ∧
      (outcome = .ok () ∧ t = { s with
          table := r.set s.table, rotation := .finished (.ok r.newPassword), trace := s.trace ++ [.update (.ok ())] } ∨
        ∃ e, outcome = .error e ∧ t = { s with
          rotation := .finished (.error (.db e)), trace := s.trace ++ [.update (.error e)] }) := by
  obtain ⟨u, hnext, rfl⟩ := Option.map_eq_some_iff.mp h
  simp only [RotationSys.next] at hnext
  split at hnext
  · next hpc =>
    refine ⟨hpc, ?_⟩
    cases outcome with
    | ok =>
      cases hnext
      exact Or.inl ⟨rfl, rfl⟩
    | error e =>
      cases hnext
      exact Or.inr ⟨e, rfl, rfl⟩
  · cases hnext

theorem read_inv {rows : Except String Unit} (h : s.step r (.read rows) = some t) :
    s.reload = none ∧
      (rows = .ok () ∧ t = { s with reload := some (.clearing s.table.rows), trace := s.trace ++ [.read (.ok ())] } ∨
        ∃ e, rows = .error e ∧ t = { s with reload := some .idle, trace := s.trace ++ [.read (.error e)] }) := by
  obtain ⟨u, hnext, rfl⟩ := Option.map_eq_some_iff.mp h
  simp only [RotationSys.next] at hnext
  split at hnext
  · next hpc =>
    refine ⟨hpc, ?_⟩
    cases rows with
    | ok =>
      cases hnext
      exact Or.inl ⟨rfl, rfl⟩
    | error e =>
      cases hnext
      exact Or.inr ⟨e, rfl, rfl⟩
  · cases hnext

theorem clear_inv (h : s.step r .clear = some t) :
    ∃ configs, s.reload = some (.clearing configs) ∧ t = { s with
      credentials := fun _ => none, reload := some (.remaining configs), trace := s.trace ++ [.clear] } := by
  obtain ⟨u, hnext, rfl⟩ := Option.map_eq_some_iff.mp h
  simp only [RotationSys.next] at hnext
  split at hnext
  · next configs hpc =>
    cases hnext
    exact ⟨configs, hpc, rfl⟩
  · cases hnext

theorem insert_inv (h : s.step r .insert = some t) :
    ∃ config rest, s.reload = some (.inserting config rest) ∧ t = { s with
      credentials := insertCredential s.credentials config, reload := some (.remaining rest),
      trace := s.trace ++ [.insert] } := by
  obtain ⟨u, hnext, rfl⟩ := Option.map_eq_some_iff.mp h
  simp only [RotationSys.next] at hnext
  split at hnext
  · next config rest hpc =>
    cases hnext
    exact ⟨config, rest, hpc, rfl⟩
  · cases hnext

end RotationStep

/-- A call whose steps follow each other and whose UPDATE succeeds does what the function does. -/
theorem exec_rotatePassword {r : Rotation} {s : RotationSys} {old : String} (hpc : s.rotation = .swapping)
    (hold : s.credentials r.username = some old) :
    (exec (RotationSys.step r) s [.swap, .update (.ok ())]).map (fun t => (t.rotation, t.credentials, t.table)) =
      some (.finished (.ok r.newPassword),
        (rotatePassword s.credentials s.table r.username r.newPassword r.nowMs).2) := by
  simp [exec, RotationSys.step, RotationSys.next, rotatePassword, hpc, hold, Rotation.set]

end TpnWorker
