import TpnWorker.Concurrent.Leases

/-! Cleanup against live leases. When every call succeeds, the peer of an unexpired lease stays in the map
    with its key configured, as long as no pass takes out the entry of a live lease, no other call enters its
    own peer there, and no extension revives a lease whose entry is gone. -/

namespace TpnWorker
open Keyed Transition

/-- The pass that looks for a map entry. -/
def Act.removes? : Act → Option ℕ
  | .pass p .mapRemove => some p
  | _ => none

/-- The call that enters its peer in the map. -/
def Act.maps? : Act → Option ℕ
  | .call c .mapInsert => some c
  | _ => none

/-- The id under which the call enters its peer next. -/
def Pc.mapping? : Pc → Option Int
  | .mapping id _ => some id
  | _ => none

/-- The peer id, the expected expiry and the clock reading of an extension. -/
def Act.extends? : Act → Option (Int × Int × Int)
  | .extend peerId expected _ nowMs _ => some (peerId, expected, nowMs)
  | _ => none

/-- The id whose map entry a pass takes out has no row, an expired row, or a row whose call is yet to enter
    its peer in the map. -/
def RemovalSafe (s : Sys) (a : Act) : Prop :=
  ∀ p ∈ a.removes?, ∀ pass ∈ s.passes p, ∀ id ∈ pass.pc.removing?, ∀ r ∈ s.table.get? id, s.clock < r.expiresAt →
    ∀ c ∈ s.holder id, s.mapped? c = none

/-- The id under which a call enters its peer in the map has no row, an expired row, or a row whose call is yet
    to enter its own. -/
def MapInsertSafe (s : Sys) (a : Act) : Prop :=
  ∀ c ∈ a.maps?, ∀ call ∈ s.calls c, ∀ id ∈ call.pc.mapping?, ∀ r ∈ s.table.get? id, s.clock < r.expiresAt →
    ∀ c' ∈ s.holder id, s.mapped? c' = none

/-- The row that an extension updates is unexpired at that moment, or the map still has the peer of its call,
    or is yet to get it. -/
def ExtensionSafe (s : Sys) (a : Act) : Prop :=
  ∀ x ∈ a.extends?, ∀ r ∈ s.table.get? x.1, r.expiresAt = x.2.1 → x.2.2 < r.expiresAt → r.expiresAt ≤ s.clock →
    ∀ c ∈ s.holder x.1, ∀ st ∈ s.mapped? c, s.peers (Wrap.asU16 x.1) = some st

instance (s : Sys) (a : Act) : Decidable (RemovalSafe s a) :=
  inferInstanceAs (Decidable (∀ p ∈ a.removes?, ∀ pass ∈ s.passes p, ∀ id ∈ pass.pc.removing?,
    ∀ r ∈ s.table.get? id, _ → ∀ c ∈ s.holder id, _))

instance (s : Sys) (a : Act) : Decidable (MapInsertSafe s a) :=
  inferInstanceAs (Decidable (∀ c ∈ a.maps?, ∀ call ∈ s.calls c, ∀ id ∈ call.pc.mapping?, ∀ r ∈ s.table.get? id,
    _ → ∀ c' ∈ s.holder id, _))

instance (s : Sys) (a : Act) : Decidable (ExtensionSafe s a) :=
  inferInstanceAs (Decidable (∀ x ∈ a.extends?, ∀ r ∈ s.table.get? x.1, _ → _ → _ → ∀ c ∈ s.holder x.1,
    ∀ st ∈ s.mapped? c, _))

/-- A successful step under which live peers stay. -/
def LiveSafe (D : Deployment) (s : Sys) (a : Act) : Prop :=
  Successful D s a ∧ RemovalSafe s a ∧ MapInsertSafe s a ∧ ExtensionSafe s a

instance (D : Deployment) (s : Sys) (a : Act) : Decidable (LiveSafe D s a) := inferInstanceAs (Decidable (_ ∧ _ ∧ _))

/-- What the runs of successful steps keep. -/
structure Served (D : Deployment) (s : Sys) : Prop where
  forward : ∀ {c call}, s.calls c = some call → ¬call.pc.Rollback
  alive : ∀ {c l}, s.leases c = some l → s.peerId? c = some l.peerId
  drawn : ∀ {c st}, s.state? c = some st →
    ∃ k secret psk, st = newPeerState D.api D.srv k secret psk ∧ D.api.x25519 secret ∈ s.drawn
  distinct : ∀ {c c' st st'}, s.state? c = some st → s.state? c' = some st' → st.publicKey = st'.publicKey → c = c'
  entry : ∀ {k st}, s.peers k = some st → ∃ c id, s.mapped? c = some st ∧ s.peerId? c = some id ∧ Wrap.asU16 id = k
  entryConfigured : ∀ {k st}, s.peers k = some st → s.Configured st
  taken : ∀ {p st}, s.taken? p = some st → (∃ c, s.mapped? c = some st) ∧ ∀ k, s.peers k ≠ some st
  unmapped : ∀ {c st}, s.state? c = some st → s.mapped? c = none → s.Configured st
  live : ∀ {id r c st}, s.table.get? id = some r → s.clock < r.expiresAt → s.holder id = some c →
    s.mapped? c = some st → s.peers (Wrap.asU16 id) = some st
  listed : ∀ {p id}, s.Listed p id → 0 ≤ id ∧ id ≤ 65535

namespace Served
variable {D : Deployment} {s t : Sys} {c p : ℕ} {e : Int}

theorem fresh (clock : Int) : Served D (.fresh clock) where
  forward h := by cases h
  alive h := by cases h
  drawn h := by cases h
  distinct h := by cases h
  entry h := by cases h
  entryConfigured h := by cases h
  taken h := by cases h
  unmapped h := by cases h
  live h := by cases h
  listed h := by
    obtain ⟨_, h, -⟩ := h
    cases h

theorem of_views (I : Served D s) (hpeers : t.peers = s.peers) (hiface : t.iface = s.iface)
    (hdrawn : t.drawn = s.drawn) (hforward : ∀ c call, t.calls c = some call → ¬call.pc.Rollback)
    (hleases : t.leases = s.leases) (hholder : t.holder = s.holder)
    (hpeer : t.peerId? = s.peerId?) (hstate : t.state? = s.state?) (hmapped : t.mapped? = s.mapped?)
    (htaken : t.taken? = s.taken?) (hlisted : ∀ p id, t.Listed p id → 0 ≤ id ∧ id ≤ 65535)
    (hclock : s.clock ≤ t.clock) (hrows : s.table.RowsFrom WgRow.SameExpiry t.table) : Served D t where
  forward h := hforward _ _ h
  alive h := by
    rw [hpeer]
    exact I.alive (hleases ▸ h)
  drawn h := by
    rw [hdrawn]
    exact I.drawn (hstate ▸ h)
  distinct h h' := I.distinct (hstate ▸ h) (hstate ▸ h')
  entry h := by
    rw [hmapped, hpeer]
    exact I.entry (hpeers ▸ h)
  entryConfigured h := by
    unfold Sys.Configured
    rw [hiface]
    exact I.entryConfigured (hpeers ▸ h)
  taken h := by
    rw [hmapped, hpeers]
    exact I.taken (htaken ▸ h)
  unmapped h h' := by
    unfold Sys.Configured
    rw [hiface]
    exact I.unmapped (hstate ▸ h) (hmapped ▸ h')
  live {id r c st} hr hlt hc hst := by
    obtain ⟨r₀, hr₀, hexp⟩ := hrows id r hr
    rw [hpeers]
    exact I.live hr₀ (hexp ▸ hclock.trans_lt hlt) (hholder ▸ hc) (hmapped ▸ hst)
  listed h := hlisted _ _ h

theorem forward_goto (I : Served D s) (c : ℕ) (e : Int) (pc : Pc) (hpc : ¬pc.Rollback) :
    ∀ {c' call}, (s.goto c e pc).calls c' = some call → ¬call.pc.Rollback := by
  intro c' call h
  rcases Function.update_some_cases h with ⟨hne, heq⟩ | ⟨hne, h⟩
  · subst hne
    cases heq
    exact hpc
  · exact I.forward h

theorem goto {pc : Pc} {table : WgTable} {lock : Option ℕ} (I : Served D s) (hpc : ¬pc.Rollback) (hid : s.peerId? c = pc.peerId?)
    (hst : s.state? c = pc.state?) (hm : s.mapped? c = pc.mapped?) (hrows : s.table.RowsFrom WgRow.SameExpiry table) :
    Served D { s.goto c e pc with table, lock } := by
  exact I.of_views rfl rfl rfl (fun _ _ h => I.forward_goto c e pc hpc h) rfl rfl (Sys.peerId?_goto_self hid)
    (Sys.state?_goto_self hst) (Sys.mapped?_goto_self hm) rfl (fun _ _ h => I.listed h) le_rfl hrows

theorem passTo {cutoff : Int} {pc : PassPc} {table : WgTable} (I : Served D s) (hno : s.taken? p = none)
    (htaken : pc.taken? = none) (hlisted : ∀ id ∈ pc.listed, 0 ≤ id ∧ id ≤ 65535)
    (hrows : s.table.RowsFrom WgRow.SameExpiry table) : Served D { s.passTo p cutoff pc with table } := by
  have ht : (s.passTo p cutoff pc).taken? = s.taken? := by
    rw [Sys.taken?_passTo, htaken, ← hno, Function.update_eq_self]
  refine I.of_views rfl rfl rfl (fun _ _ h => I.forward h) rfl rfl rfl rfl rfl ht (fun p' id h => ?_) le_rfl hrows
  rcases Sys.listed_passTo h with ⟨-, hid⟩ | h
  · exact hlisted id hid
  · exact I.listed h

theorem peerId_of_row (I : Served D s) (L : Leased D s) {id : Int} {r : WgRow} (hr : s.table.get? id = some r)
    (hc : s.holder id = some c) : s.peerId? c = some id := by
  obtain ⟨c', l, hc', hl, hid, -⟩ := L.row hr
  cases hc.symm.trans hc'
  rw [← hid]
  exact I.alive hl

theorem call_unique (I : Served D s) {c' : ℕ} {st : PeerState} (h : s.state? c = some st) (h' : s.state? c' = some st) :
    c = c' := I.distinct h h' rfl

theorem insert {id : Int} {nowStr : String} (I : Served D s) (L : Leased D s)
    (hc : s.calls c = some ⟨e, .inserting id⟩) :
    Served D { (s.goto c e (.configuring id)).grant c id e with
      table := insertLease s.table id e nowStr, lock := none } := by
  have hm : s.mapped? c = none := Sys.mapped?_eq hc
  have hpeer : (s.goto c e (.configuring id)).peerId? = Function.update s.peerId? c (some id) := Sys.peerId?_goto ..
  have hstate : (s.goto c e (.configuring id)).state? = s.state? :=
    Sys.state?_goto_self ((Sys.state?_eq hc).trans rfl)
  have hmapped : (s.goto c e (.configuring id)).mapped? = s.mapped? :=
    Sys.mapped?_goto_self hm
  refine ⟨I.forward_goto c e (.configuring id) not_false, fun {c' l} h => ?_, fun h => I.drawn (hstate ▸ h),
    fun h h' => I.distinct (hstate ▸ h) (hstate ▸ h'),
    fun {k st} h => ?_, I.entryConfigured, fun {p st} h => ?_, fun h h' => I.unmapped (hstate ▸ h) (hmapped ▸ h'),
    fun {id' r c' st} hr hlt hh hst => ?_, I.listed⟩
  · show (s.goto c e (.configuring id)).peerId? c' = _
    rw [hpeer]
    rcases Function.update_some_cases h with ⟨hne, heq⟩ | ⟨hne, h⟩
    · subst hne
      cases heq
      exact Function.update_self ..
    · rw [Function.update_of_ne hne]
      exact I.alive h
  · obtain ⟨c', id', hc', hid', hk⟩ := I.entry h
    have hne : c' ≠ c := by
      rintro rfl
      cases hm.symm.trans hc'
    refine ⟨c', id', hmapped ▸ hc', ?_, hk⟩
    show (s.goto c e (.configuring id)).peerId? c' = _
    rw [hpeer, Function.update_of_ne hne]
    exact hid'
  · obtain ⟨⟨c', hc'⟩, hno⟩ := I.taken h
    exact ⟨⟨c', hmapped ▸ hc'⟩, hno⟩
  · have hst' : s.mapped? c' = some st := hmapped ▸ hst
    have hget := (get?_insertLease_of_free (L.inserting hc).1).symm.trans hr
    split at hget
    · next hid =>
      subst hid
      cases (Function.update_self id' _ s.holder).symm.trans hh
      cases hm.symm.trans hst'
    · next hid => exact I.live hget hlt ((Function.update_of_ne hid _ s.holder).symm.trans hh) hst'

theorem configure {id : Int} {secret psk : Key} {peer : KernelPeer} (I : Served D s)
    (hc : s.calls c = some ⟨e, .configuring id⟩) (hfresh : D.api.x25519 secret ∉ s.drawn) :
    Served D { s.goto c e (.mapping id (newPeerState D.api D.srv (Wrap.asU16 id) secret psk)) with
      iface := s.iface.configure (D.api.x25519 secret) peer
      drawn := D.api.x25519 secret :: s.drawn } := by
  let st := newPeerState D.api D.srv (Wrap.asU16 id) secret psk
  have hst : st.publicKey = encodeKey (D.api.x25519 secret) := rfl
  have hm : s.mapped? c = none := Sys.mapped?_eq hc
  have hpeer : (s.goto c e (.mapping id st)).peerId? = s.peerId? :=
    Sys.peerId?_goto_self ((Sys.peerId?_eq hc).trans rfl)
  have hstate : (s.goto c e (.mapping id st)).state? = Function.update s.state? c (some st) := Sys.state?_goto ..
  have hmapped : (s.goto c e (.mapping id st)).mapped? = s.mapped? :=
    Sys.mapped?_goto_self hm
  have hgrow : ∀ key, (s.iface key).isSome → (s.iface.configure (D.api.x25519 secret) peer key).isSome :=
    fun _ => Interface.isSome_configure
  have hold : ∀ {c' st'}, s.state? c' = some st' → st'.publicKey ≠ st.publicKey := by
    intro c' st' h heq
    obtain ⟨_, secret', _, rfl, hmem⟩ := I.drawn h
    exact hfresh (encodeKey_injective heq ▸ hmem)
  refine ⟨I.forward_goto c e (.mapping id st) not_false, fun h => hpeer ▸ I.alive h, fun {c' st'} h => ?_,
    fun {c₁ c₂ st₁ st₂} h₁ h₂ heq => ?_, fun {k st'} h => ?_,
    fun h key hkey => hgrow key (I.entryConfigured h key hkey), fun {p st'} h => ?_, fun {c' st'} h h' => ?_,
    fun {id' r c' st'} hr hlt hh hst' => ?_, I.listed⟩
  · replace h : Function.update s.state? c (some st) c' = some st' := hstate ▸ h
    rcases Function.update_some_cases h with ⟨hne, heq⟩ | ⟨hne, h⟩
    · subst hne
      cases heq
      exact ⟨_, secret, psk, rfl, List.mem_cons_self⟩
    · obtain ⟨k, secret', psk', heq, hmem⟩ := I.drawn h
      exact ⟨k, secret', psk', heq, List.mem_cons_of_mem _ hmem⟩
  · replace h₁ : Function.update s.state? c (some st) c₁ = some st₁ := hstate ▸ h₁
    replace h₂ : Function.update s.state? c (some st) c₂ = some st₂ := hstate ▸ h₂
    rw [Function.update_apply] at h₁ h₂
    split at h₁ <;> split at h₂
    · next e₁ e₂ => rw [e₁, e₂]
    · cases h₁
      exact absurd heq.symm (hold h₂)
    · cases h₂
      exact absurd heq (hold h₁)
    · exact I.distinct h₁ h₂ heq
  · obtain ⟨c', id', hc', hid', hk⟩ := I.entry h
    exact ⟨c', id', hmapped ▸ hc', hpeer ▸ hid', hk⟩
  · obtain ⟨⟨c', hc'⟩, hno⟩ := I.taken h
    exact ⟨⟨c', hmapped ▸ hc'⟩, hno⟩
  · replace h : Function.update s.state? c (some st) c' = some st' := hstate ▸ h
    intro key hkey
    rcases Function.update_some_cases h with ⟨hne, heq⟩ | ⟨hne, h⟩
    · subst hne
      cases heq
      cases encodeKey_injective (hst.symm.trans hkey)
      show (s.iface.configure _ peer _).isSome
      rw [Interface.configure_self, Option.isSome_some]
    · exact hgrow key (I.unmapped h (hmapped ▸ h') key hkey)
  · exact I.live hr hlt hh (hmapped ▸ hst')

theorem mapInsert {id : Int} {st : PeerState} (I : Served D s) (L : Leased D s) (hlow : 0 ≤ id) (hhigh : id ≤ 65535)
    (hsafe : MapInsertSafe s (.call c .mapInsert)) (hc : s.calls c = some ⟨e, .mapping id st⟩) :
    Served D { s.goto c e (.storing id st) with peers := Function.update s.peers (Wrap.asU16 id) (some st) } := by
  have hm : s.mapped? c = none := Sys.mapped?_eq hc
  have hs : s.state? c = some st := Sys.state?_eq hc
  have hid : s.peerId? c = some id := Sys.peerId?_eq hc
  have hpeer : (s.goto c e (.storing id st)).peerId? = s.peerId? :=
    Sys.peerId?_goto_self hid
  have hstate : (s.goto c e (.storing id st)).state? = s.state? :=
    Sys.state?_goto_self hs
  have hmapped : (s.goto c e (.storing id st)).mapped? = Function.update s.mapped? c (some st) := Sys.mapped?_goto ..
  -- no other call is mapped with this peer, so no pass has taken it
  have hnot : ∀ {c'}, s.mapped? c' ≠ some st := by
    intro c' h
    cases I.call_unique hs (Sys.state?_of_mapped? h)
    cases hm.symm.trans h
  have hfree : ∀ p, s.taken? p ≠ some st := by
    intro p h
    obtain ⟨⟨c', hc'⟩, -⟩ := I.taken h
    exact hnot hc'
  have hkeep : ∀ {c' st'}, s.mapped? c' = some st' →
      Function.update s.mapped? c (some st) c' = some st' := by
    intro c' st' h
    have hne : c' ≠ c := by
      rintro rfl
      cases hm.symm.trans h
    rw [Function.update_of_ne hne]
    exact h
  refine ⟨I.forward_goto c e (.storing id st) not_false, fun h => hpeer ▸ I.alive h, fun h => I.drawn (hstate ▸ h),
    fun h h' => I.distinct (hstate ▸ h) (hstate ▸ h'),
    fun {k st'} h => ?_, fun {k st'} h => ?_, fun {p st'} h => ?_, fun {c' st'} h h' => ?_,
    fun {id' r c' st'} hr hlt hh hst' => ?_, I.listed⟩
  · rcases Function.update_some_cases h with ⟨hk, heq⟩ | ⟨hk, h⟩
    · subst hk
      cases heq
      exact ⟨c, id, hmapped ▸ Function.update_self .., hpeer ▸ hid, rfl⟩
    · obtain ⟨c', id', hc', hid', hk'⟩ := I.entry h
      exact ⟨c', id', hmapped ▸ hkeep hc', hpeer ▸ hid', hk'⟩
  · rcases Function.update_some_cases h with ⟨hk, heq⟩ | ⟨hk, h⟩
    · subst hk
      cases heq
      exact I.unmapped hs hm
    · exact I.entryConfigured h
  · obtain ⟨⟨c', hc'⟩, hno⟩ := I.taken h
    refine ⟨⟨c', hmapped ▸ hkeep hc'⟩, fun k hk => ?_⟩
    rcases Function.update_some_cases hk with ⟨hki, heq⟩ | ⟨hki, hk⟩
    · subst hki
      cases heq
      exact hfree p h
    · exact hno k hk
  · replace h' : Function.update s.mapped? c (some st) c' = none := hmapped ▸ h'
    exact I.unmapped (hstate ▸ h) (Function.update_eq_none_cases h').2
  · replace hst' : Function.update s.mapped? c (some st) c' = some st' := hmapped ▸ hst'
    by_cases hne : c' = c
    · subst hne
      cases (Function.update_self c' _ s.mapped?).symm.trans hst'
      cases (I.peerId_of_row L hr hh).symm.trans hid
      exact Function.update_self ..
    · have hmap : s.mapped? c' = some st' := (Function.update_of_ne hne _ s.mapped?).symm.trans hst'
      have hk : Wrap.asU16 id' ≠ Wrap.asU16 id := by
        intro heq
        obtain ⟨hlow', hhigh'⟩ := L.row_range hr
        obtain rfl := Wrap.asU16_injOn hlow' (by omega) hlow (by omega) heq
        cases (hsafe c rfl _ hc _ rfl r hr hlt c' hh).symm.trans hmap
      exact (Function.update_of_ne hk ..).trans (I.live hr hlt hh hmap)

theorem extend {id expected new nowMs : Int} {nowStr : String} {r : WgRow} {table : WgTable} (I : Served D s)
    (hsafe : ExtensionSafe s (.extend id expected new nowMs nowStr)) (hr : s.table.get? id = some r)
    (hmatch : r.expiresAt = expected ∧ nowMs < r.expiresAt) (hget : ∀ k, table.get? k =
      if k = id then some { r with expiresAt := new, updatedAt := nowStr } else s.table.get? k) :
    Served D { s.prolong id new with table } where
  alive h := by
    obtain ⟨l₀, hl₀, hid, -⟩ := Leased.prolong_leases h
    rw [hid]
    exact I.alive hl₀
  forward := I.forward
  drawn := I.drawn
  distinct := I.distinct
  entry := I.entry
  entryConfigured := I.entryConfigured
  taken := I.taken
  unmapped := I.unmapped
  live {id' r' c st} hr' hlt hh hst := by
    have h' := (hget id').symm.trans hr'
    split at h'
    · next hid =>
      subst hid
      by_cases hlive : s.clock < r.expiresAt
      · exact I.live hr hlive hh hst
      · -- the lease is revived, and the entry of its call is still there
        exact hsafe _ rfl r hr hmatch.1 hmatch.2 (not_lt.mp hlive) c hh st hst
    · exact I.live h' hlt hh hst
  listed := I.listed

theorem passMapRemove {cutoff id : Int} {rest : List Int} {taken : PeerState} (I : Served D s) (L : Leased D s)
    (hsafe : RemovalSafe s (.pass p .mapRemove)) (hp : s.passes p = some ⟨cutoff, .removing id rest⟩)
    (hpeer : s.peers (Wrap.asU16 id) = some taken) :
    Served D { s.passTo p cutoff (.unconfiguring id taken rest) with
      peers := Function.update s.peers (Wrap.asU16 id) none } := by
  have ht : (s.passTo p cutoff (.unconfiguring id taken rest)).taken? = Function.update s.taken? p (some taken) :=
    Sys.taken?_passTo ..
  have hlist : ∀ id' ∈ id :: rest, 0 ≤ id' ∧ id' ≤ 65535 := fun id' h => I.listed ⟨_, hp, h⟩
  obtain ⟨c, id₁, hc, hid₁, hk₁⟩ := I.entry hpeer
  have hsub : ∀ {k st}, Function.update s.peers (Wrap.asU16 id) none k = some st →
      k ≠ Wrap.asU16 id ∧ s.peers k = some st := by
    intro k st h
    exact Function.update_none_cases h
  refine ⟨I.forward, I.alive, I.drawn, I.distinct, fun h => I.entry (hsub h).2, fun h => I.entryConfigured (hsub h).2,
    fun {p' st} h => ?_, I.unmapped, fun {id' r c' st} hr hlt hh hst => ?_, fun {p' id'} h => ?_⟩
  · replace h : Function.update s.taken? p (some taken) p' = some st := ht ▸ h
    rcases Function.update_some_cases h with ⟨hpp, heq⟩ | ⟨hpp, h⟩
    · subst hpp
      cases heq
      refine ⟨⟨c, hc⟩, fun k hk => ?_⟩
      -- another entry with the same peer would belong to the same call, hence to the same id
      obtain ⟨hne, hk⟩ := hsub hk
      obtain ⟨c₂, id₂, hc₂, hid₂, hk₂⟩ := I.entry hk
      cases I.call_unique (Sys.state?_of_mapped? hc) (Sys.state?_of_mapped? hc₂)
      cases hid₁.symm.trans hid₂
      exact hne (hk₂.symm.trans hk₁)
    · obtain ⟨hc', hno⟩ := I.taken h
      exact ⟨hc', fun k hk => hno k (hsub hk).2⟩
  · obtain ⟨hlo, hhi⟩ := L.row_range hr
    have hne : Wrap.asU16 id' ≠ Wrap.asU16 id := by
      intro heq
      have hidr := hlist id List.mem_cons_self
      obtain rfl := Wrap.asU16_injOn hlo (by omega) hidr.1 (by omega) heq
      cases (hsafe p rfl _ hp _ rfl r hr hlt c' hh).symm.trans hst
    exact (Function.update_of_ne hne ..).trans (I.live hr hlt hh hst)
  · rcases Sys.listed_passTo h with ⟨-, hid⟩ | h
    · exact hlist id' (List.mem_cons_of_mem _ hid)
    · exact I.listed h

theorem passKernelRemove {cutoff id : Int} {rest : List Int} {taken : PeerState} (I : Served D s)
    (hp : s.passes p = some ⟨cutoff, .unconfiguring id taken rest⟩) :
    Served D { s.passTo p cutoff (.remaining rest) with
      iface := (removeFromInterface D.api s.iface (Wrap.asU16 id) taken (.ok ())).2 } := by
  have ht : (s.passTo p cutoff (.remaining rest)).taken? = Function.update s.taken? p none := by
    rw [Sys.taken?_passTo, PassPc.taken?_remaining]
  have hsub : ∀ {p' st}, (s.passTo p cutoff (.remaining rest)).taken? p' = some st → s.taken? p' = some st := by
    intro p' st h
    rw [ht] at h
    exact (Function.update_none_cases h).2
  obtain ⟨⟨c, hc⟩, hno⟩ := I.taken (Sys.taken?_eq hp)
  obtain ⟨key, hkey⟩ : ∃ key, taken.publicKey = encodeKey key := by
    obtain ⟨_, secret, _, rfl, -⟩ := I.drawn (Sys.state?_of_mapped? hc)
    exact ⟨D.api.x25519 secret, rfl⟩
  -- a peer of another call has another key, which stays configured
  have hkeep : ∀ {c' st}, s.state? c' = some st → st ≠ taken → s.Configured st → ∀ key', st.publicKey = encodeKey key' →
      ((removeFromInterface D.api s.iface (Wrap.asU16 id) taken (.ok ())).2 key').isSome := by
    intro c' st hst hne hconf key' hkey'
    simp only [removeFromInterface, hkey, decodeKey_encodeKey]
    have hk : key' ≠ key := by
      rintro rfl
      cases I.distinct hst (Sys.state?_of_mapped? hc) (hkey'.trans hkey.symm)
      cases hst.symm.trans (Sys.state?_of_mapped? hc)
      exact hne rfl
    rw [Interface.remove_of_ne hk]
    exact hconf key' hkey'
  refine ⟨I.forward, I.alive, I.drawn, I.distinct, I.entry, fun {k st} h => ?_, fun h => I.taken (hsub h), fun {c' st} h h' => ?_,
    I.live, fun {p' id'} h => ?_⟩
  · obtain ⟨c', -, hc', -⟩ := I.entry h
    refine hkeep (Sys.state?_of_mapped? hc') ?_ (I.entryConfigured h)
    rintro rfl
    exact hno k h
  · refine hkeep h ?_ (I.unmapped h h')
    rintro rfl
    cases I.call_unique h (Sys.state?_of_mapped? hc)
    cases h'.symm.trans hc
  · rcases Sys.listed_passTo h with ⟨-, hid⟩ | h
    · rw [PassPc.listed_remaining] at hid
      exact I.listed ⟨_, hp, hid⟩
    · exact I.listed h

theorem callStep {a : CallAct} (haddr : D.api.AcceptsAddresses) (I : Served D s) (L : Leased D s)
    (hok : ¬(Act.call c a).Fails) (hfresh : FreshKey D s (.call c a)) (hsafe : MapInsertSafe s (.call c a))
    (h : D.callStep s c a = some t) : Served D t := by
  cases a with
  | start e =>
    obtain ⟨hc, rfl⟩ := Step.start_inv h
    have hnone : ∀ {α : Type} (f : Call → Option α), (s.calls c).bind f = none := fun f => by rw [hc]; rfl
    exact I.goto not_false (hnone _) (hnone _) (hnone _) (.refl WgRow.SameExpiry.refl _)
  | acquire =>
    obtain ⟨e, hc, -, rfl⟩ := Step.acquire_inv h
    exact I.goto not_false ((Sys.peerId?_eq hc).trans rfl) ((Sys.state?_eq hc).trans rfl)
      ((Sys.mapped?_eq hc).trans rfl) (.refl WgRow.SameExpiry.refl _)
  | lockTimeout => exact absurd rfl hok
  | select =>
    obtain ⟨e, pc, hc, hl, -, ht⟩ := Step.select_inv h
    obtain ⟨hid, hst, hm⟩ := Pc.views_of_locked hl
    have hid' := (Sys.peerId?_eq hc).trans hid
    have hst' := (Sys.state?_eq hc).trans hst
    have hm' := (Sys.mapped?_eq hc).trans hm
    rcases ht with ⟨id, -, rfl⟩ | rfl | rfl
    · exact I.goto not_false hid' hst' hm' (.refl WgRow.SameExpiry.refl _)
    · exact I.goto not_false hid' hst' hm' (.refl WgRow.SameExpiry.refl _)
    · exact I.goto not_false hid' hst' hm' (.refl WgRow.SameExpiry.refl _)
  | purge nowMs =>
    obtain ⟨e, hc, -, rfl⟩ := Step.purge_inv h
    exact I.goto not_false ((Sys.peerId?_eq hc).trans rfl) ((Sys.state?_eq hc).trans rfl)
      ((Sys.mapped?_eq hc).trans rfl) (rowsFrom_cleanup WgRow.SameExpiry.refl s.table nowMs)
  | insert nowStr =>
    obtain ⟨e, id, hc, rfl⟩ := Step.insert_inv h
    exact I.insert L hc
  | dbError error => exact absurd rfl hok
  | configure secret psk kernel =>
    obtain ⟨e, id, result, iface, hc, hadd, rfl⟩ := Step.configure_inv h
    cases kernel with
    | error => exact absurd rfl hok
    | ok =>
      cases (addPeerToInterface_ok (haddr.subnet _)).symm.trans hadd
      exact I.configure hc (hfresh secret rfl)
  | mapInsert =>
    obtain ⟨e, id, state, hc, rfl⟩ := Step.mapInsert_inv h
    obtain ⟨hlow, hhigh⟩ := L.granted_range hc rfl
    exact I.mapInsert L hlow hhigh hsafe hc
  | store update =>
    obtain ⟨e, id, state, result, table, hc, hstore, rfl⟩ := Step.store_inv h
    cases update with
    | error => exact absurd rfl hok
    | ok =>
      obtain ⟨_, secret, psk, rfl, -⟩ := I.drawn (Sys.state?_eq hc)
      cases (storePeerKeys_encodeKey ..).symm.trans hstore
      exact I.goto not_false ((Sys.peerId?_eq hc).trans rfl) ((Sys.state?_eq hc).trans rfl)
        ((Sys.mapped?_eq hc).trans rfl) (Leased.rows_store hstore)
  | mapRemove =>
    obtain ⟨e, id, error, hc, -⟩ := Step.mapRemove_inv h
    exact absurd trivial (I.forward hc)
  | kernelRemove kernel =>
    obtain ⟨e, id, taken, error, hc, -⟩ := Step.kernelRemove_inv h
    exact absurd trivial (I.forward hc)
  | free delete =>
    cases delete with
    | error => exact absurd rfl hok
    | ok =>
      obtain ⟨e, id, error, hc, -⟩ := Step.free_ok_inv h
      exact absurd trivial (I.forward hc)

theorem passStep {a : PassAct} (I : Served D s) (L : Leased D s) (hok : ¬(Act.pass p a).Fails)
    (hsafe : RemovalSafe s (.pass p a)) (h : D.passStep s p a = some t) : Served D t := by
  cases a with
  | start =>
    obtain ⟨hp, rfl⟩ := Step.passStart_inv h
    have hno : s.taken? p = none := by rw [Sys.taken?, hp, Option.bind_none]
    exact I.passTo hno rfl (fun _ h => by cases h) (.refl WgRow.SameExpiry.refl _)
  | query nowMs rows =>
    obtain ⟨cutoff, hp, ⟨-, rfl⟩ | rfl⟩ := Step.query_inv h
    · refine I.passTo (Sys.taken?_eq hp) (PassPc.taken?_remaining _) (fun id hid => ?_) (.refl WgRow.SameExpiry.refl _)
      rw [PassPc.listed_remaining] at hid
      obtain ⟨r, hr, -⟩ := mem_expiredPeerIds.mp hid
      exact L.row_range hr
    · exact I.passTo (Sys.taken?_eq hp) rfl (fun _ h => by cases h) (.refl WgRow.SameExpiry.refl _)
  | mapRemove =>
    obtain ⟨cutoff, id, rest, hp, ⟨-, rfl⟩ | ⟨taken, hpeer, rfl⟩⟩ := Step.passMapRemove_inv h
    · refine I.passTo (Sys.taken?_eq hp) (PassPc.taken?_remaining _) (fun id' hid => ?_) (.refl WgRow.SameExpiry.refl _)
      rw [PassPc.listed_remaining] at hid
      exact I.listed ⟨_, hp, List.mem_cons_of_mem _ hid⟩
    · exact I.passMapRemove L hsafe hp hpeer
  | kernelRemove kernel =>
    obtain ⟨cutoff, id, taken, rest, hp, rfl⟩ := Step.passKernelRemove_inv h
    cases kernel with
    | error => exact absurd rfl hok
    | ok => exact I.passKernelRemove hp
  | delete rows =>
    obtain ⟨cutoff, hp, rfl⟩ := Step.delete_inv h
    exact I.passTo (Sys.taken?_eq hp) rfl (fun _ h => by cases h) (rowsFrom_cleanupTable WgRow.SameExpiry.refl s.table cutoff rows)

theorem step {a : Act} (haddr : D.api.AcceptsAddresses) (I : Served D s) (L : Leased D s) (hsafe : LiveSafe D s a)
    (h : D.step s a = some t) : Served D t := by
  obtain ⟨⟨hok, hfresh⟩, hremoval, hinsert, hextension⟩ := hsafe
  cases a with
  | tick now =>
    obtain ⟨hle, rfl⟩ := Step.tick_inv h
    exact I.of_views rfl rfl rfl (fun _ _ h => I.forward h) rfl rfl rfl rfl rfl rfl (fun _ _ h => I.listed h) hle
      (.refl WgRow.SameExpiry.refl _)
  | call c a => exact I.callStep haddr L hok hfresh hinsert h
  | extend peerId expected new nowMs nowStr =>
    obtain ⟨-, rfl | ⟨r, table, hr, hmatch, rfl, hget⟩⟩ := Step.extend_inv h
    · exact I
    · exact I.extend hextension hr hmatch hget
  | pass p a => exact I.passStep L hok hremoval h

theorem of_reach {clock : Int} (haddr : D.api.AcceptsAddresses)
    (hr : Reach D.step (LiveSafe D) (.fresh clock) s) : Served D s :=
  hr.inv_of_reached (fresh clock) fun _ _ _ hr I hc h => I.step haddr (.of_reach hr) hc h

end Served

/-- No call is under way. -/
def Quiescent (s : Sys) : Prop := ∀ c call, s.calls c = some call → call.pc.Finished

/-- Once the calls have finished, the peer that the call with an unexpired row has returned is in the map under
    its id, and its key is configured. -/
theorem live_peer_configured {D : Deployment} {clock : Int} {s : Sys} (haddr : D.api.AcceptsAddresses)
    (hr : Reach D.step (LiveSafe D) (.fresh clock) s) (hq : Quiescent s) {id : Int}
    {r : WgRow} (hrow : s.table.get? id = some r) (hlive : s.clock < r.expiresAt) :
    ∃ c e st, s.holder id = some c ∧ s.calls c = some ⟨e, .allocated id st⟩ ∧
      s.peers (Wrap.asU16 id) = some st ∧ s.Configured st := by
  have L : Leased D s := .of_reach hr
  have I := Served.of_reach haddr hr
  obtain ⟨c, -, hholder, -⟩ := L.row hrow
  obtain ⟨⟨e, pc⟩, hc, hid⟩ := Option.bind_eq_some_iff.mp (I.peerId_of_row L hrow hholder)
  cases pc with
  | allocated id' st =>
    cases hid
    have hpeer := I.live hrow hlive hholder (Sys.mapped?_eq hc)
    exact ⟨c, e, st, hholder, hc, hpeer, I.entryConfigured hpeer⟩
  | failed => cases hid
  | _ => exact (hq c _ hc).elim

/-- The calls below `n` and the passes below `m` that a state has are over. -/
def OverBelow (n m : ℕ) (s : Sys) : Prop :=
  (∀ c < n, ∀ call ∈ s.calls c, call.pc.Finished) ∧ ∀ p < m, ∀ pass ∈ s.passes p, pass.pc = .finished

instance (n m : ℕ) (s : Sys) : Decidable (OverBelow n m s) :=
  inferInstanceAs (Decidable ((∀ c < n, ∀ call ∈ s.calls c, _) ∧ ∀ p < m, ∀ pass ∈ s.passes p, _))

theorem OverBelow.over {n m : ℕ} {s : Sys} (h : OverBelow n m s)
    (hrest : ∀ k, s.calls (k + n) = none ∧ s.passes (k + m) = none) :
    Quiescent s ∧ ∀ p pass, s.passes p = some pass → pass.pc = .finished := by
  refine ⟨fun c call hc => ?_, fun p pass hp => ?_⟩
  · rcases Nat.lt_or_ge c n with hlt | hle
    · exact h.1 c hlt call hc
    · obtain ⟨k, rfl⟩ := Nat.exists_eq_add_of_le' hle
      cases (hrest k).1.symm.trans hc
  · rcases Nat.lt_or_ge p m with hlt | hle
    · exact h.2 p hlt pass hp
    · obtain ⟨k, rfl⟩ := Nat.exists_eq_add_of_le' hle
      cases (hrest k).2.symm.trans hp

/-- A pass lists peer 1, the exhausted pool grants it to a second call, and the pass removes the second call's
    peer. -/
def racingPass : List Act :=
  Act.reserve 1 100 ++ Act.install 1 1 ++ [.tick 200] ++ Act.list 1 200 ++ Act.reservePurged 2 1000 200 ++
    Act.install 2 2 ++ Act.remove 1

theorem live_peer_removed :
    ∃ s, Reach (Deployment.sample 1).step (Successful (.sample 1)) (.fresh 0) s ∧
      (Quiescent s ∧ ∀ p pass, s.passes p = some pass → pass.pc = .finished) ∧
        ∃ r e st, s.table.get? 1 = some r ∧ s.clock < r.expiresAt ∧ s.calls 2 = some ⟨e, .allocated 1 st⟩ ∧
          s.peers 1 = none ∧ ¬s.Configured st := by
  let st := newPeerState .known (Deployment.sample 1).srv 1 (.replicate 2) (.replicate 7)
  have hrun : (execWhen (Deployment.sample 1).step (Successful (.sample 1)) (.fresh 0) racingPass).any fun s => decide
      ((∃ r ∈ s.table.get? 1, s.clock < r.expiresAt) ∧ OverBelow 3 2 s ∧ s.peers 1 = none ∧
        s.iface (knownPublicKey (.replicate 2)) = none) := by
    decide +kernel
  have hrest : ∀ k, (execWhen (Deployment.sample 1).step (Successful (.sample 1)) (.fresh 0) racingPass).map
      (fun s => (s.calls 2, s.calls (k + 3), s.passes (k + 2))) = some (some ⟨1000, .allocated 1 st⟩, none, none) :=
    fun _ => rfl
  obtain ⟨s, hs, hfacts⟩ := (Option.any_eq_true _ _).mp hrun
  obtain ⟨⟨r, hr, hlive⟩, hover, hpeer, hkey⟩ := of_decide_eq_true hfacts
  simp only [hs, Option.map_some, Option.some.injEq, Prod.mk.injEq] at hrest
  refine ⟨s, Reach.of_execWhen hs,
    hover.over fun k => (hrest k).2, r, 1000, st, hr, hlive, (hrest 0).1, hpeer, fun h => ?_⟩
  have hconf := h (knownPublicKey (.replicate 2)) rfl
  rw [hkey] at hconf
  cases hconf

/-- Two peers, and a pass after the first lease ran out. -/
def orderlyPass : List Act :=
  Act.reserve 1 100 ++ Act.install 1 1 ++ Act.reserve 2 1000 ++ Act.install 2 2 ++ [.tick 200] ++ Act.list 1 200 ++
    Act.remove 1

theorem live_peer_configured_sample :
    ∃ s : Sys, ∃ c e st, s.holder 2 = some c ∧ s.calls c = some ⟨e, .allocated 2 st⟩ ∧
      s.peers (Wrap.asU16 2) = some st ∧ s.Configured st := by
  have hrun : (execWhen (Deployment.sample 2).step (LiveSafe (.sample 2)) (.fresh 0) orderlyPass).any fun s => decide
      ((∃ r ∈ s.table.get? 2, s.clock < r.expiresAt) ∧ OverBelow 3 2 s) := by
    decide +kernel
  have hrest : ∀ k, (execWhen (Deployment.sample 2).step (LiveSafe (.sample 2)) (.fresh 0) orderlyPass).map
      (fun s => (s.calls (k + 3), s.passes (k + 2))) = some (none, none) := fun _ => rfl
  obtain ⟨s, hs, hfacts⟩ := (Option.any_eq_true _ _).mp hrun
  obtain ⟨⟨r, hr, hlive⟩, hover⟩ := of_decide_eq_true hfacts
  simp only [hs, Option.map_some, Option.some.injEq, Prod.mk.injEq] at hrest
  have hreach := Reach.of_execWhen hs
  exact ⟨s, live_peer_configured WgApi.known_acceptsAddresses hreach (hover.over hrest).1 hr hlive⟩

end TpnWorker
