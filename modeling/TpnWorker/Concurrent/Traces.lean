import TpnWorker.Concurrent.Step

/-! Where the map entries, the stored keys and addresses, and the drawn peers of a state come from: each was
    there before the step, or is the work of the one kind of step that makes it. -/

namespace TpnWorker
open Keyed

/-- The id that a call has selected and not yet configured. -/
def Pc.selected? : Pc → Option Int
  | .inserting id | .configuring id => some id
  | _ => none

def Sys.selected? (s : Sys) (c : ℕ) : Option Int := (s.calls c).bind (·.pc.selected?)

/-- Rows of `t'` have no keys, or the keys and the address of the row that `t` has under their id. -/
def KeepsKeys (t t' : WgTable) : Prop := ∀ id r, t'.get? id = some r →
  (r.privateKey = none ∧ r.allowedIp = none) ∨
    ∃ r₀, t.get? id = some r₀ ∧ r₀.privateKey = r.privateKey ∧ r₀.allowedIp = r.allowedIp

/-- The step draws the peer `st` for call `c`, which has selected `id`. -/
def Draws (D : Deployment) (s : Sys) (a : Act) (c : ℕ) (id : Int) (st : PeerState) : Prop :=
  ∃ secret psk kernel, a = .call c (.configure secret psk kernel) ∧ s.peerId? c = some id ∧
    s.selected? c = some id ∧ st = newPeerState D.api D.srv (Wrap.asU16 id) secret psk

/-- What a step from `s` to `t` leaves in the map, the rows and the calls was there before, or is the work of
    the one step that makes such a thing. -/
structure Traced (D : Deployment) (s : Sys) (a : Act) (t : Sys) : Prop where
  peer : ∀ {k st}, t.peers k = some st → s.peers k = some st ∨
    ∃ c id, a = .call c .mapInsert ∧ s.peerId? c = some id ∧ s.state? c = some st ∧ k = Wrap.asU16 id
  row : KeepsKeys s.table t.table ∨ ∃ c id st, s.peerId? c = some id ∧ s.state? c = some st ∧
    ∀ {id' r}, t.table.get? id' = some r →
      (id' = id ∧ r.allowedIp = some st.allowedIp.display) ∨ s.table.get? id' = some r
  drawn : ∀ {c id st}, t.peerId? c = some id → t.state? c = some st →
    (s.peerId? c = some id ∧ s.state? c = some st) ∨ Draws D s a c id st
  selected : ∀ {c id}, t.selected? c = some id → s.selected? c = some id ∨ D.range.Mem id

theorem KeepsKeys.refl (t : WgTable) : KeepsKeys t t := fun _ r h => Or.inr ⟨r, h, rfl, rfl⟩

theorem KeepsKeys.cleanup (t : WgTable) (nowMs : Int) : KeepsKeys t (cleanupExpiredWireguardConfigs t nowMs).2 :=
  fun _ r h => Or.inr ⟨r, (get?_cleanup_eq_some.mp h).1, rfl, rfl⟩

theorem KeepsKeys.insertLease (t : WgTable) (id e : Int) (nowStr : String) : KeepsKeys t (insertLease t id e nowStr) := by
  intro id' r h
  rw [get?_insertLease] at h
  split at h
  · next hid =>
    subst hid
    cases hr : t.get? id' with
    | none =>
      rw [hr] at h
      cases h
      exact Or.inl ⟨rfl, rfl⟩
    | some r₀ =>
      rw [hr] at h
      cases h
      exact Or.inr ⟨r₀, rfl, rfl, rfl⟩
  · exact Or.inr ⟨r, h, rfl, rfl⟩

section Trace
variable {D : Deployment} {s t : Sys} {c p : ℕ} {e : Int} {pc : Pc} {a : Act}

theorem Traced.of_calls (hcalls : t.calls = s.calls) (hpeers : ∀ {k st}, t.peers k = some st → s.peers k = some st)
    (hrows : KeepsKeys s.table t.table) : Traced D s a t where
  peer h := Or.inl (hpeers h)
  row := Or.inl hrows
  drawn hid hst := by
    unfold Sys.peerId? at hid
    unfold Sys.state? at hst
    rw [hcalls] at hid hst
    exact Or.inl ⟨hid, hst⟩
  selected h := by
    unfold Sys.selected? at h
    rw [hcalls] at h
    exact Or.inl h

theorem Traced.of_goto (hcalls : t.calls = Function.update s.calls c (some ⟨e, pc⟩))
    (hdrawn : ∀ {id st}, pc.peerId? = some id → pc.state? = some st →
      (s.peerId? c = some id ∧ s.state? c = some st) ∨ Draws D s a c id st)
    (hselected : ∀ {id}, pc.selected? = some id → s.selected? c = some id ∨ D.range.Mem id)
    (hpeers : ∀ {k st}, t.peers k = some st → s.peers k = some st) (hrows : KeepsKeys s.table t.table) :
    Traced D s a t where
  peer h := Or.inl (hpeers h)
  row := Or.inl hrows
  drawn {c' id st} hid hst := by
    unfold Sys.peerId? at hid
    unfold Sys.state? at hst
    rw [hcalls, Function.update_apply] at hid hst
    split at hid
    · next hc =>
      subst hc
      rw [if_pos rfl] at hst
      exact hdrawn hid hst
    · next hc =>
      rw [if_neg hc] at hst
      exact Or.inl ⟨hid, hst⟩
  selected {c' id} h := by
    unfold Sys.selected? at h
    rw [hcalls, Function.update_apply] at h
    split at h
    · next hc =>
      subst hc
      exact hselected h
    · exact Or.inl h

theorem Traced.of_goto_none (hcalls : t.calls = Function.update s.calls c (some ⟨e, pc⟩)) (hst : pc.state? = none)
    (hsel : pc.selected? = none) (hpeers : ∀ {k st}, t.peers k = some st → s.peers k = some st)
    (hrows : KeepsKeys s.table t.table) : Traced D s a t :=
  of_goto hcalls (fun _ h => by cases hst.symm.trans h) (fun h => by cases hsel.symm.trans h) hpeers hrows

theorem Sys.selected?_eq (h : s.calls c = some ⟨e, pc⟩) : s.selected? c = pc.selected? := by
  rw [selected?, h, Option.bind_some]

theorem Traced.callStep {a : CallAct} (h : D.callStep s c a = some t) : Traced D s (.call c a) t := by
  cases a with
  | start e =>
    obtain ⟨-, rfl⟩ := Step.start_inv h
    exact .of_goto_none rfl rfl rfl id (.refl _)
  | acquire =>
    obtain ⟨e, -, -, rfl⟩ := Step.acquire_inv h
    exact .of_goto_none rfl rfl rfl id (.refl _)
  | lockTimeout =>
    obtain ⟨e, -, rfl⟩ := Step.lockTimeout_inv h
    exact .of_goto_none rfl rfl rfl id (.refl _)
  | select =>
    obtain ⟨e, pc, -, -, -, ⟨id, hid, rfl⟩ | rfl | rfl⟩ := Step.select_inv h
    · have hmem : D.range.Mem id := (selectAvailableId_eq_some D.range.start_le hid).2
      refine .of_goto rfl (fun _ hst => by cases hst) (fun hsel => ?_) (fun h => h) (.refl _)
      cases hsel
      exact Or.inr hmem
    · exact .of_goto_none rfl rfl rfl id (.refl _)
    · exact .of_goto_none rfl rfl rfl id (.refl _)
  | purge nowMs =>
    obtain ⟨e, -, -, rfl⟩ := Step.purge_inv h
    exact .of_goto_none rfl rfl rfl id (.cleanup _ _)
  | insert nowStr =>
    obtain ⟨e, id, hc, rfl⟩ := Step.insert_inv h
    refine .of_goto (c := c) rfl (fun _ hst => by cases hst) (fun hsel => ?_) (fun h => h) (.insertLease _ _ _ _)
    exact Or.inl ((Sys.selected?_eq hc).trans hsel)
  | dbError error =>
    obtain ⟨e, pc, -, -, -, rfl⟩ := Step.dbError_inv h
    exact .of_goto_none rfl rfl rfl id (.refl _)
  | configure secret psk kernel =>
    obtain ⟨e, id, result, iface, hc, -, rfl⟩ := Step.configure_inv h
    cases result with
    | ok =>
      refine .of_goto rfl (fun hid hst => ?_) (fun hsel => by cases hsel) (fun h => h) (.refl _)
      cases hid
      cases hst
      exact Or.inr ⟨secret, psk, kernel, rfl, Sys.peerId?_eq hc, Sys.selected?_eq hc, rfl⟩
    | error error => exact .of_goto_none rfl rfl rfl (fun h => h) (.refl _)
  | mapInsert =>
    obtain ⟨e, id, st, hc, rfl⟩ := Step.mapInsert_inv h
    have J : Traced D s (.call c .mapInsert) (s.goto c e (.storing id st)) :=
      .of_goto rfl (fun hid hst => Or.inl ⟨(Sys.peerId?_eq hc).trans hid, (Sys.state?_eq hc).trans hst⟩)
        (fun hsel => by cases hsel) (fun h => h) (.refl _)
    refine ⟨fun {k st'} hk => ?_, J.row, J.drawn, J.selected⟩
    rcases Function.update_some_cases hk with ⟨hkk, heq⟩ | ⟨-, hk⟩
    · cases heq
      exact Or.inr ⟨c, id, rfl, Sys.peerId?_eq hc, Sys.state?_eq hc, hkk⟩
    · exact Or.inl hk
  | store update =>
    obtain ⟨e, id, st, result, table, hc, hstore, rfl⟩ := Step.store_inv h
    rcases storePeerKeys_cases hstore with ⟨pub, -, -, rfl, rfl⟩ | ⟨error, rfl, rfl⟩
    · have J : Traced D s (.call c (.store update)) (s.goto c e (.allocated id st)) :=
        .of_goto rfl (fun hid hst => Or.inl ⟨(Sys.peerId?_eq hc).trans hid, (Sys.state?_eq hc).trans hst⟩)
          (fun hsel => by cases hsel) (fun h => h) (.refl _)
      refine ⟨J.peer, Or.inr ⟨c, id, st, Sys.peerId?_eq hc, Sys.state?_eq hc, fun {id' r} hr => ?_⟩, J.drawn, J.selected⟩
      obtain ⟨r₀, hr₀, hrr⟩ := Option.map_eq_some_iff.mp ((get?_updatePeerKeys ..).symm.trans hr)
      have hkey := Table.get?_key hr₀
      split at hrr
      · next hid =>
        subst hrr
        exact Or.inl ⟨hkey.symm.trans hid, rfl⟩
      · exact Or.inr (hrr ▸ hr₀)
    · exact .of_goto_none rfl rfl rfl (fun h => h) (.refl _)
  | mapRemove =>
    obtain ⟨e, id, error, -, rfl | ⟨taken, -, rfl⟩⟩ := Step.mapRemove_inv h
    · exact .of_goto_none rfl rfl rfl (fun h => h) (.refl _)
    · exact .of_goto_none rfl rfl rfl (fun h => (Function.update_none_cases h).2) (.refl _)
  | kernelRemove kernel =>
    obtain ⟨e, id, taken, error, -, rfl⟩ := Step.kernelRemove_inv h
    exact .of_goto_none rfl rfl rfl (fun h => h) (.refl _)
  | free delete =>
    cases delete with
    | ok =>
      obtain ⟨e, id, error, -, rfl⟩ := Step.free_ok_inv h
      refine .of_goto_none rfl rfl rfl (fun h => h) fun id' r hr => ?_
      exact Or.inr ⟨r, (get?_markConfigAsFree.mp hr).1, rfl, rfl⟩
    | error text =>
      obtain ⟨e, id, error, -, rfl⟩ := Step.free_error_inv h
      exact .of_goto_none rfl rfl rfl (fun h => h) (.refl _)

theorem Traced.passStep {a : PassAct} (h : D.passStep s p a = some t) : Traced D s (.pass p a) t := by
  cases a with
  | start =>
    obtain ⟨-, rfl⟩ := Step.passStart_inv h
    exact .of_calls rfl (fun h => h) (.refl _)
  | query nowMs rows =>
    obtain ⟨cutoff, -, ⟨-, rfl⟩ | rfl⟩ := Step.query_inv h <;> exact .of_calls rfl (fun h => h) (.refl _)
  | mapRemove =>
    obtain ⟨cutoff, id, rest, -, ⟨-, rfl⟩ | ⟨taken, -, rfl⟩⟩ := Step.passMapRemove_inv h
    · exact .of_calls rfl (fun h => h) (.refl _)
    · exact .of_calls rfl (fun h => (Function.update_none_cases h).2) (.refl _)
  | kernelRemove kernel =>
    obtain ⟨cutoff, id, taken, rest, -, rfl⟩ := Step.passKernelRemove_inv h
    exact .of_calls rfl (fun h => h) (.refl _)
  | delete rows =>
    obtain ⟨cutoff, -, rfl⟩ := Step.delete_inv h
    refine .of_calls rfl (fun h => h) ?_
    cases rows with
    | ok => exact .cleanup _ _
    | error => exact .refl _

theorem Traced.step (h : D.step s a = some t) : Traced D s a t := by
  cases a with
  | tick now =>
    obtain ⟨-, rfl⟩ := Step.tick_inv h
    exact .of_calls rfl (fun h => h) (.refl _)
  | call c a => exact .callStep h
  | extend peerId expected new nowMs nowStr =>
    obtain ⟨-, rfl | ⟨r, table, hr, -, rfl, hget⟩⟩ := Step.extend_inv h
    · exact .of_calls rfl (fun h => h) (.refl _)
    · refine .of_calls rfl (fun h => h) fun id r' hr' => ?_
      rw [show Table.get? _ id = _ from hget id] at hr'
      split at hr'
      · next hid =>
        subst hid
        cases hr'
        exact Or.inr ⟨r, hr, rfl, rfl⟩
      · exact Or.inr ⟨r', hr', rfl, rfl⟩
  | pass p a => exact .passStep h

end Trace

end TpnWorker
