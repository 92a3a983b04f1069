import TpnWorker.Concurrent.State

/-! One step of the concurrent worker: a statement, a map operation, a kernel call or a lock operation of one
    call or pass, a whole extension, or the clock. A statement may use a clock value that was read
    earlier. -/

namespace TpnWorker
open Keyed

/-- What a call does in one step, with the values that it draws and the outcome of what can fail. -/
inductive CallAct where
  | start (expiresAt : Int)
  | acquire
  | lockTimeout
  | select
  | purge (nowMs : Int)
  | insert (nowStr : String)
  | dbError (error : String)
  | configure (secret psk : Key) (kernel : Except String Unit)
  | mapInsert
  | store (update : Except String Unit)
  | mapRemove
  | kernelRemove (kernel : Except String Unit)
  | free (delete : Except String Unit)

inductive PassAct where
  | start
  | query (nowMs : Int) (rows : Except String Unit)
  | mapRemove
  | kernelRemove (kernel : Except String Unit)
  | delete (rows : Except String Unit)

inductive Act where
  | tick (now : Int)
  | call (c : ℕ) (a : CallAct)
  | extend (peerId expectedExpiresAt newExpiresAt nowMs : Int) (nowStr : String)
  | pass (p : ℕ) (a : PassAct)

/-- The call whose rollback deletes a row. -/
def Act.free? : Act → Option ℕ
  | call c (.free (.ok ())) => some c
  | _ => none

/-- The message of `with_lock` after 60 seconds. -/
def lockTimeoutError : AppError := .internal "Lock acquisition timeout after 60s: register_wireguard_lease"

namespace Deployment

/-- One step of call `c`. -/
def callStep (D : Deployment) (s : Sys) (c : ℕ) : CallAct → Option Sys
  | .start e =>
    match s.calls c with
    | none => some (s.goto c e .acquiring)
    | some _ => none
  | .acquire =>
    match s.calls c, s.lock with
    | some ⟨e, .acquiring⟩, none => some { s.goto c e .selecting with lock := some c }
    | _, _ => none
  | .lockTimeout =>
    match s.calls c with
    | some ⟨e, .acquiring⟩ => some (s.goto c e (.failed lockTimeoutError))
    | _ => none
  | .select =>
    match s.calls c, selectAvailableId s.table D.range.startId D.range.endId with
    | some ⟨e, .selecting⟩, some id | some ⟨e, .reselecting⟩, some id => some (s.goto c e (.inserting id))
    | some ⟨e, .selecting⟩, none => some (s.goto c e .purging)
    | some ⟨e, .reselecting⟩, none =>
      some { s.goto c e (.failed (exhausted s.table D.range.startId D.range.endId)) with lock := none }
    | _, _ => none
  | .purge nowMs =>
    match s.calls c with
    | some ⟨e, .purging⟩ =>
      if nowMs ≤ s.clock then
        some { s.goto c e .reselecting with table := (cleanupExpiredWireguardConfigs s.table nowMs).2 }
      else none
    | _ => none
  | .insert nowStr =>
    match s.calls c with
    | some ⟨e, .inserting id⟩ =>
      -- the closure returns, and its guard drops the lock
      some { (s.goto c e (.configuring id)).grant c id e with table := insertLease s.table id e nowStr, lock := none }
    | _ => none
  | .dbError error =>
    match s.calls c with
    | some ⟨e, .selecting⟩ | some ⟨e, .purging⟩ | some ⟨e, .reselecting⟩ | some ⟨e, .inserting _⟩ =>
      some { s.goto c e (.failed (.db error)) with lock := none }
    | _ => none
  | .configure secret psk kernel =>
    match s.calls c with
    | some ⟨e, .configuring id⟩ =>
      let state := newPeerState D.api D.srv (Wrap.asU16 id) secret psk
      match addPeerToInterface D.api s.iface state.publicKey state.presharedKey
          (allowedIpText D.srv (Wrap.asU16 id)) kernel with
      | (.ok (), iface) =>
        some { s.goto c e (.mapping id state) with iface, drawn := D.api.x25519 secret :: s.drawn }
      | (.error error, iface) =>
        some { s.goto c e (.freeing id error) with iface, drawn := D.api.x25519 secret :: s.drawn }
    | _ => none
  | .mapInsert =>
    match s.calls c with
    | some ⟨e, .mapping id state⟩ =>
      some { s.goto c e (.storing id state) with peers := Function.update s.peers (Wrap.asU16 id) (some state) }
    | _ => none
  | .store update =>
    match s.calls c with
    | some ⟨e, .storing id state⟩ =>
      match storePeerKeys D.api s.table id state.privateKey state.presharedKey state.allowedIp.display update with
      | (.ok (), table) => some { s.goto c e (.allocated id state) with table }
      | (.error error, table) =>
        some { s.goto c e (.unmapping id (.internal s!"Failed to persist peer keys: {error.message}")) with table }
    | _ => none
  | .mapRemove =>
    match s.calls c with
    | some ⟨e, .unmapping id error⟩ =>
      match s.peers (Wrap.asU16 id) with
      | none => some (s.goto c e (.freeing id error))
      | some taken =>
        some { s.goto c e (.unconfiguring id taken error) with
                peers := Function.update s.peers (Wrap.asU16 id) none }
    | _ => none
  | .kernelRemove kernel =>
    match s.calls c with
    | some ⟨e, .unconfiguring id taken error⟩ =>
      some { s.goto c e (.freeing id error) with
              iface := (removeFromInterface D.api s.iface (Wrap.asU16 id) taken kernel).2 }
    | _ => none
  | .free delete =>
    match s.calls c, delete with
    | some ⟨e, .freeing id error⟩, .ok () =>
      some { (s.goto c e (.failed error)).rollBack c id e with table := markConfigAsFree s.table id (some e) }
    | some ⟨e, .freeing _ error⟩, .error _ => some (s.goto c e (.failed error))
    | _, _ => none

/-- One step of pass `p`. -/
def passStep (D : Deployment) (s : Sys) (p : ℕ) : PassAct → Option Sys
  | .start =>
    match s.passes p with
    | none => some (s.passTo p s.clock .querying)
    | some _ => none
  | .query nowMs rows =>
    match s.passes p, rows with
    | some ⟨cutoff, .querying⟩, .ok () =>
      if cutoff ≤ nowMs ∧ nowMs ≤ s.clock then
        some (s.passTo p cutoff (.remaining (expiredPeerIds s.table nowMs)))
      else none
    | some ⟨cutoff, .querying⟩, .error _ => some (s.passTo p cutoff .deleting)
    | _, _ => none
  | .mapRemove =>
    match s.passes p with
    | some ⟨cutoff, .removing id rest⟩ =>
      match s.peers (Wrap.asU16 id) with
      | none => some (s.passTo p cutoff (.remaining rest))
      | some taken =>
        some { s.passTo p cutoff (.unconfiguring id taken rest) with
                peers := Function.update s.peers (Wrap.asU16 id) none }
    | _ => none
  | .kernelRemove kernel =>
    match s.passes p with
    | some ⟨cutoff, .unconfiguring id taken rest⟩ =>
      some { s.passTo p cutoff (.remaining rest) with
              iface := (removeFromInterface D.api s.iface (Wrap.asU16 id) taken kernel).2 }
    | _ => none
  | .delete rows =>
    match s.passes p with
    | some ⟨cutoff, .deleting⟩ =>
      some { s.passTo p cutoff .finished with table := cleanupTable s.table cutoff rows }
    | _ => none

/-- One extension: its clock reading is not after its UPDATE. -/
def extendStep (s : Sys) (peerId expected new nowMs : Int) (nowStr : String) : Option Sys :=
  if nowMs ≤ s.clock then
    match extendWireguardLease s.table peerId expected new nowMs nowStr with
    | (.ok _, table) => some { s.prolong peerId new with table }
    | (.error _, table) => some { s with table }
  else none

/-- One step of the worker. -/
def step (D : Deployment) (s : Sys) : Act → Option Sys
  | .tick now => if s.clock ≤ now then some { s with clock := now } else none
  | .call c a => D.callStep s c a
  | .extend peerId expected new nowMs nowStr => extendStep s peerId expected new nowMs nowStr
  | .pass p a => D.passStep s p a

end Deployment

/-! ### Successful steps -/

/-- A lock, kernel or database call of the step fails. -/
def Act.Fails : Act → Bool
  | .call _ .lockTimeout | .call _ (.dbError _) | .call _ (.configure _ _ (.error _)) | .call _ (.store (.error _))
  | .call _ (.kernelRemove (.error _)) | .call _ (.free (.error _)) => true
  | .pass _ (.query _ (.error _)) | .pass _ (.kernelRemove (.error _)) | .pass _ (.delete (.error _)) => true
  | _ => false

/-- The secret that the step draws. -/
def Act.draws? : Act → Option Key
  | .call _ (.configure secret _ _) => some secret
  | _ => none

/-- A drawn key pair is new. -/
def FreshKey (D : Deployment) (s : Sys) (a : Act) : Prop := ∀ secret ∈ a.draws?, D.api.x25519 secret ∉ s.drawn

instance (D : Deployment) (s : Sys) (a : Act) : Decidable (FreshKey D s a) :=
  inferInstanceAs (Decidable (∀ secret ∈ a.draws?, _ ∉ _))

/-- The calls of the step succeed, and a key pair that it draws is new. -/
def Successful (D : Deployment) (s : Sys) (a : Act) : Prop := ¬a.Fails ∧ FreshKey D s a

instance (D : Deployment) (s : Sys) (a : Act) : Decidable (Successful D s a) := inferInstanceAs (Decidable (_ ∧ _))

/-! ### Lists of steps -/

/-- The steps of call `c` that reserve a free id. -/
def Act.reserve (c : ℕ) (expiresAt : Int) : List Act :=
  [.call c (.start expiresAt), .call c .acquire, .call c .select, .call c (.insert "")]

/-- The steps of call `c` that purge an exhausted pool and reserve an id. -/
def Act.reservePurged (c : ℕ) (expiresAt nowMs : Int) : List Act :=
  [.call c (.start expiresAt), .call c .acquire, .call c .select, .call c (.purge nowMs), .call c .select,
    .call c (.insert "")]

/-- The later steps of call `c`, which draws the secret of 32 bytes `b`. -/
def Act.install (c : ℕ) (b : UInt8) : List Act :=
  [.call c (.configure (.replicate b) (.replicate 7) (.ok ())), .call c .mapInsert, .call c (.store (.ok ()))]

/-- The steps of pass `p` up to its query. -/
def Act.list (p : ℕ) (nowMs : Int) : List Act := [.pass p .start, .pass p (.query nowMs (.ok ()))]

/-- The later steps of pass `p`, for one listed id whose peer is in the map. -/
def Act.remove (p : ℕ) : List Act :=
  [.pass p .mapRemove, .pass p (.kernelRemove (.ok ())), .pass p (.delete (.ok ()))]

/-! ### What a step has done -/

namespace Step
variable {D : Deployment} {s t : Sys} {c p : ℕ}

theorem start_inv {e : Int} (h : D.callStep s c (.start e) = some t) :
    s.calls c = none ∧ t = s.goto c e .acquiring := by
  simp only [Deployment.callStep] at h
  split at h
  · next hc => exact ⟨hc, (Option.some.inj h).symm⟩
  · cases h

theorem acquire_inv (h : D.callStep s c .acquire = some t) :
    ∃ e, s.calls c = some ⟨e, .acquiring⟩ ∧ s.lock = none ∧ t = { s.goto c e .selecting with lock := some c } := by
  simp only [Deployment.callStep] at h
  split at h
  · next e hc hl => exact ⟨e, hc, hl, (Option.some.inj h).symm⟩
  · cases h

theorem lockTimeout_inv (h : D.callStep s c .lockTimeout = some t) :
    ∃ e, s.calls c = some ⟨e, .acquiring⟩ ∧ t = s.goto c e (.failed lockTimeoutError) := by
  simp only [Deployment.callStep] at h
  split at h
  · next e hc => exact ⟨e, hc, (Option.some.inj h).symm⟩
  · cases h

theorem select_inv (h : D.callStep s c .select = some t) :
    ∃ e pc, s.calls c = some ⟨e, pc⟩ ∧ pc.Locked ∧ pc.Ungranted ∧
      ((∃ id, selectAvailableId s.table D.range.startId D.range.endId = some id ∧ t = s.goto c e (.inserting id)) ∨
        t = s.goto c e .purging ∨
        t = { s.goto c e (.failed (exhausted s.table D.range.startId D.range.endId)) with lock := none }) := by
  simp only [Deployment.callStep] at h
  split at h
  · next e id hc hid => exact ⟨e, _, hc, trivial, trivial, Or.inl ⟨id, hid, (Option.some.inj h).symm⟩⟩
  · next e id hc hid => exact ⟨e, _, hc, trivial, trivial, Or.inl ⟨id, hid, (Option.some.inj h).symm⟩⟩
  · next e hc _ => exact ⟨e, _, hc, trivial, trivial, Or.inr (Or.inl (Option.some.inj h).symm)⟩
  · next e hc _ => exact ⟨e, _, hc, trivial, trivial, Or.inr (Or.inr (Option.some.inj h).symm)⟩
  · cases h

theorem purge_inv {nowMs : Int} (h : D.callStep s c (.purge nowMs) = some t) :
    ∃ e, s.calls c = some ⟨e, .purging⟩ ∧ nowMs ≤ s.clock ∧
      t = { s.goto c e .reselecting with table := (cleanupExpiredWireguardConfigs s.table nowMs).2 } := by
  simp only [Deployment.callStep] at h
  split at h
  · next e hc =>
    obtain ⟨hnow, ht⟩ := Option.ite_none_right_eq_some.mp h
    exact ⟨e, hc, hnow, (Option.some.inj ht).symm⟩
  · cases h

theorem insert_inv {nowStr : String} (h : D.callStep s c (.insert nowStr) = some t) :
    ∃ e id, s.calls c = some ⟨e, .inserting id⟩ ∧
      t = { (s.goto c e (.configuring id)).grant c id e with
              table := insertLease s.table id e nowStr, lock := none } := by
  simp only [Deployment.callStep] at h
  split at h
  · next e id hc => exact ⟨e, id, hc, (Option.some.inj h).symm⟩
  · cases h

theorem dbError_inv {error : String} (h : D.callStep s c (.dbError error) = some t) :
    ∃ e pc, s.calls c = some ⟨e, pc⟩ ∧ pc.Locked ∧ pc.Ungranted ∧
      t = { s.goto c e (.failed (.db error)) with lock := none } := by
  simp only [Deployment.callStep] at h
  split at h
  · next e hc => exact ⟨e, _, hc, trivial, trivial, (Option.some.inj h).symm⟩
  · next e hc => exact ⟨e, _, hc, trivial, trivial, (Option.some.inj h).symm⟩
  · next e hc => exact ⟨e, _, hc, trivial, trivial, (Option.some.inj h).symm⟩
  · next e id hc => exact ⟨e, _, hc, trivial, trivial, (Option.some.inj h).symm⟩
  · cases h

theorem configure_inv {secret psk : Key} {kernel : Except String Unit}
    (h : D.callStep s c (.configure secret psk kernel) = some t) :
    ∃ e id result iface, s.calls c = some ⟨e, .configuring id⟩ ∧
      addPeerToInterface D.api s.iface (encodeKey (D.api.x25519 secret)) (encodeKey psk)
        (allowedIpText D.srv (Wrap.asU16 id)) kernel = (result, iface) ∧
      t = { s.goto c e (match result with
              | .ok () => .mapping id (newPeerState D.api D.srv (Wrap.asU16 id) secret psk)
              | .error error => .freeing id error) with iface, drawn := D.api.x25519 secret :: s.drawn } := by
  simp only [Deployment.callStep] at h
  split at h
  · next e id hc =>
    split at h
    · next iface hadd => exact ⟨e, id, _, iface, hc, hadd, (Option.some.inj h).symm⟩
    · next error iface hadd => exact ⟨e, id, _, iface, hc, hadd, (Option.some.inj h).symm⟩
  · cases h

theorem mapInsert_inv (h : D.callStep s c .mapInsert = some t) :
    ∃ e id state, s.calls c = some ⟨e, .mapping id state⟩ ∧
      t = { s.goto c e (.storing id state) with peers := Function.update s.peers (Wrap.asU16 id) (some state) } := by
  simp only [Deployment.callStep] at h
  split at h
  · next e id state hc => exact ⟨e, id, state, hc, (Option.some.inj h).symm⟩
  · cases h

theorem store_inv {update : Except String Unit} (h : D.callStep s c (.store update) = some t) :
    ∃ e id state result table, s.calls c = some ⟨e, .storing id state⟩ ∧
      storePeerKeys D.api s.table id state.privateKey state.presharedKey state.allowedIp.display update =
        (result, table) ∧
      t = { s.goto c e (match result with
              | .ok () => .allocated id state
              | .error error => .unmapping id (.internal s!"Failed to persist peer keys: {error.message}")) with
            table } := by
  simp only [Deployment.callStep] at h
  split at h
  · next e id state hc =>
    split at h
    · next table hstore => exact ⟨e, id, state, _, table, hc, hstore, (Option.some.inj h).symm⟩
    · next error table hstore => exact ⟨e, id, state, _, table, hc, hstore, (Option.some.inj h).symm⟩
  · cases h

theorem mapRemove_inv (h : D.callStep s c .mapRemove = some t) :
    ∃ e id error, s.calls c = some ⟨e, .unmapping id error⟩ ∧
      (t = s.goto c e (.freeing id error) ∨ ∃ taken, s.peers (Wrap.asU16 id) = some taken ∧
        t = { s.goto c e (.unconfiguring id taken error) with
                peers := Function.update s.peers (Wrap.asU16 id) none }) := by
  simp only [Deployment.callStep] at h
  split at h
  · next e id error hc =>
    split at h
    · exact ⟨e, id, error, hc, Or.inl (Option.some.inj h).symm⟩
    · next taken htaken => exact ⟨e, id, error, hc, Or.inr ⟨taken, htaken, (Option.some.inj h).symm⟩⟩
  · cases h

theorem kernelRemove_inv {kernel : Except String Unit} (h : D.callStep s c (.kernelRemove kernel) = some t) :
    ∃ e id taken error, s.calls c = some ⟨e, .unconfiguring id taken error⟩ ∧
      t = { s.goto c e (.freeing id error) with
              iface := (removeFromInterface D.api s.iface (Wrap.asU16 id) taken kernel).2 } := by
  simp only [Deployment.callStep] at h
  split at h
  · next e id taken error hc => exact ⟨e, id, taken, error, hc, (Option.some.inj h).symm⟩
  · cases h

theorem free_ok_inv (h : D.callStep s c (.free (.ok ())) = some t) :
    ∃ e id error, s.calls c = some ⟨e, .freeing id error⟩ ∧
      t = { (s.goto c e (.failed error)).rollBack c id e with table := markConfigAsFree s.table id (some e) } := by
  simp only [Deployment.callStep] at h
  split at h
  · next e id error hc _ => exact ⟨e, id, error, hc, (Option.some.inj h).symm⟩
  · next hd => cases hd
  · cases h

theorem free_error_inv {text : String} (h : D.callStep s c (.free (.error text)) = some t) :
    ∃ e id error, s.calls c = some ⟨e, .freeing id error⟩ ∧ t = s.goto c e (.failed error) := by
  simp only [Deployment.callStep] at h
  split at h
  · next hd => cases hd
  · next e id error _ hc _ => exact ⟨e, id, error, hc, (Option.some.inj h).symm⟩
  · cases h

theorem extend_inv {peerId expected new nowMs : Int} {nowStr : String}
    (h : D.step s (.extend peerId expected new nowMs nowStr) = some t) :
    nowMs ≤ s.clock ∧ (t = s ∨ ∃ r table, s.table.get? peerId = some r ∧ (r.expiresAt = expected ∧ nowMs < r.expiresAt) ∧
      t = { s.prolong peerId new with table } ∧
      ∀ k, table.get? k =
        if k = peerId then some { r with expiresAt := new, updatedAt := nowStr } else s.table.get? k) := by
  obtain ⟨hnow, h⟩ := Option.ite_none_right_eq_some.mp (show ite _ _ _ = some t from h)
  refine ⟨hnow, ?_⟩
  split at h
  · next l table hext =>
    obtain ⟨r, hr, hexp, hlt, -, hget⟩ := extendWireguardLease_ok hext
    exact Or.inr ⟨r, table, hr, ⟨hexp, hlt⟩, (Option.some.inj h).symm, hget⟩
  · next error table hext =>
    obtain ⟨rfl, -⟩ := extendWireguardLease_error hext
    exact Or.inl (Option.some.inj h).symm

theorem callStep_frame {a : CallAct} (h : D.callStep s c a = some t) : t.clock = s.clock ∧ t.passes = s.passes := by
  cases a with
  | start e =>
    obtain ⟨-, rfl⟩ := start_inv h
    exact ⟨rfl, rfl⟩
  | acquire =>
    obtain ⟨_, -, -, rfl⟩ := acquire_inv h
    exact ⟨rfl, rfl⟩
  | lockTimeout =>
    obtain ⟨_, -, rfl⟩ := lockTimeout_inv h
    exact ⟨rfl, rfl⟩
  | select =>
    obtain ⟨_, _, -, -, -, ⟨_, -, rfl⟩ | rfl | rfl⟩ := select_inv h <;> exact ⟨rfl, rfl⟩
  | purge nowMs =>
    obtain ⟨_, -, -, rfl⟩ := purge_inv h
    exact ⟨rfl, rfl⟩
  | insert nowStr =>
    obtain ⟨_, _, -, rfl⟩ := insert_inv h
    exact ⟨rfl, rfl⟩
  | dbError error =>
    obtain ⟨_, _, -, -, -, rfl⟩ := dbError_inv h
    exact ⟨rfl, rfl⟩
  | configure secret psk kernel =>
    obtain ⟨_, _, _, _, -, -, rfl⟩ := configure_inv h
    exact ⟨rfl, rfl⟩
  | mapInsert =>
    obtain ⟨_, _, _, -, rfl⟩ := mapInsert_inv h
    exact ⟨rfl, rfl⟩
  | store update =>
    obtain ⟨_, _, _, _, _, -, -, rfl⟩ := store_inv h
    exact ⟨rfl, rfl⟩
  | mapRemove =>
    obtain ⟨_, _, _, -, rfl | ⟨_, -, rfl⟩⟩ := mapRemove_inv h <;> exact ⟨rfl, rfl⟩
  | kernelRemove kernel =>
    obtain ⟨_, _, _, _, -, rfl⟩ := kernelRemove_inv h
    exact ⟨rfl, rfl⟩
  | free delete =>
    cases delete with
    | ok =>
      obtain ⟨_, _, _, -, rfl⟩ := free_ok_inv h
      exact ⟨rfl, rfl⟩
    | error text =>
      obtain ⟨_, _, _, -, rfl⟩ := free_error_inv h
      exact ⟨rfl, rfl⟩

theorem tick_inv {now : Int} (h : D.step s (.tick now) = some t) : s.clock ≤ now ∧ t = { s with clock := now } := by
  obtain ⟨hle, h⟩ := Option.ite_none_right_eq_some.mp (show ite _ _ _ = some t from h)
  exact ⟨hle, (Option.some.inj h).symm⟩

theorem passStart_inv (h : D.passStep s p .start = some t) :
    s.passes p = none ∧ t = s.passTo p s.clock .querying := by
  simp only [Deployment.passStep] at h
  split at h
  · next hp => exact ⟨hp, (Option.some.inj h).symm⟩
  · cases h

theorem query_inv {nowMs : Int} {rows : Except String Unit} (h : D.passStep s p (.query nowMs rows) = some t) :
    ∃ cutoff, s.passes p = some ⟨cutoff, .querying⟩ ∧
      ((nowMs ≤ s.clock ∧ t = s.passTo p cutoff (.remaining (expiredPeerIds s.table nowMs))) ∨
        t = s.passTo p cutoff .deleting) := by
  simp only [Deployment.passStep] at h
  split at h
  · next cutoff hp =>
    obtain ⟨⟨-, hnow⟩, ht⟩ := Option.ite_none_right_eq_some.mp h
    exact ⟨cutoff, hp, Or.inl ⟨hnow, (Option.some.inj ht).symm⟩⟩
  · next cutoff _ hp => exact ⟨cutoff, hp, Or.inr (Option.some.inj h).symm⟩
  · cases h

theorem passMapRemove_inv (h : D.passStep s p .mapRemove = some t) :
    ∃ cutoff id rest, s.passes p = some ⟨cutoff, .removing id rest⟩ ∧
      ((s.peers (Wrap.asU16 id) = none ∧ t = s.passTo p cutoff (.remaining rest)) ∨
        ∃ taken, s.peers (Wrap.asU16 id) = some taken ∧
          t = { s.passTo p cutoff (.unconfiguring id taken rest) with
                  peers := Function.update s.peers (Wrap.asU16 id) none }) := by
  simp only [Deployment.passStep] at h
  split at h
  · next cutoff id rest hp =>
    split at h
    · next hnone => exact ⟨cutoff, id, rest, hp, Or.inl ⟨hnone, (Option.some.inj h).symm⟩⟩
    · next taken htaken => exact ⟨cutoff, id, rest, hp, Or.inr ⟨taken, htaken, (Option.some.inj h).symm⟩⟩
  · cases h

theorem passKernelRemove_inv {kernel : Except String Unit} (h : D.passStep s p (.kernelRemove kernel) = some t) :
    ∃ cutoff id taken rest, s.passes p = some ⟨cutoff, .unconfiguring id taken rest⟩ ∧
      t = { s.passTo p cutoff (.remaining rest) with
              iface := (removeFromInterface D.api s.iface (Wrap.asU16 id) taken kernel).2 } := by
  simp only [Deployment.passStep] at h
  split at h
  · next cutoff id taken rest hp => exact ⟨cutoff, id, taken, rest, hp, (Option.some.inj h).symm⟩
  · cases h

theorem delete_inv {rows : Except String Unit} (h : D.passStep s p (.delete rows) = some t) :
    ∃ cutoff, s.passes p = some ⟨cutoff, .deleting⟩ ∧
      t = { s.passTo p cutoff .finished with table := cleanupTable s.table cutoff rows } := by
  simp only [Deployment.passStep] at h
  split at h
  · next cutoff hp => exact ⟨cutoff, hp, (Option.some.inj h).symm⟩
  · cases h

theorem passStep_frame {a : PassAct} (h : D.passStep s p a = some t) : t.calls = s.calls ∧ t.leases = s.leases := by
  cases a with
  | start =>
    obtain ⟨-, rfl⟩ := passStart_inv h
    exact ⟨rfl, rfl⟩
  | query nowMs rows =>
    obtain ⟨_, -, ⟨-, rfl⟩ | rfl⟩ := query_inv h <;> exact ⟨rfl, rfl⟩
  | mapRemove =>
    obtain ⟨_, _, _, -, ⟨-, rfl⟩ | ⟨_, -, rfl⟩⟩ := passMapRemove_inv h <;> exact ⟨rfl, rfl⟩
  | kernelRemove kernel =>
    obtain ⟨_, _, _, _, -, rfl⟩ := passKernelRemove_inv h
    exact ⟨rfl, rfl⟩
  | delete rows =>
    obtain ⟨_, -, rfl⟩ := delete_inv h
    exact ⟨rfl, rfl⟩

end Step

end TpnWorker
