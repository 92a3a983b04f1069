import Mathlib.Logic.Function.Basic
import TpnWorker.Db.Socks5
import TpnWorker.Lib.Base64

/-! The credential store of both proxies (`src/proxy/credentials.rs`): a map from usernames to passwords that is
    loaded from the table `worker_socks5_configs`. -/

namespace TpnWorker
open Keyed

/-- The `credentials` map. -/
abbrev Credentials := String → Option String

/-- Authenticate a username and password pair, by a comparison of the bytes. -/
def authenticate (credentials : Credentials) (username password : String) : Bool :=
  match credentials username with
  | some stored =>
    if (textBytes stored).length ≠ (textBytes password).length then false
    else decide (textBytes stored = textBytes password)
  | none => false

def insertCredential (credentials : Credentials) (config : Socks5Config) : Credentials :=
  Function.update credentials config.username (some config.password)

/-- Load the credentials of every row into an empty map. -/
def loadFromDb (t : Socks5Table) : Credentials := t.rows.foldl insertCredential fun _ => none

/-- Give a user the drawn password, in the map and in the table. -/
def rotatePassword (credentials : Credentials) (t : Socks5Table) (username newPassword : String) (nowMs : Int) :
    Except AppError String × Credentials × Socks5Table :=
  match credentials username with
  | none => (.error (.internal s!"Cannot rotate password for unknown user: {username}"), credentials, t)
  | some _ =>
    (.ok newPassword, Function.update credentials username (some newPassword),
      t.updateWhere (fun r => decide (r.username = username))
        { set := fun r => { r with password := newPassword, updated := nowMs } })

theorem authenticate_iff {credentials : Credentials} {username password : String} :
    authenticate credentials username password = true ↔ credentials username = some password := by
  unfold authenticate
  cases hstored : credentials username with
  | none => simp
  | some stored =>
    simp only [Option.some.injEq]
    constructor
    · intro h
      split at h
      · cases h
      · exact textBytes_inj.mp (of_decide_eq_true h)
    · rintro rfl
      rw [if_neg (not_not.mpr rfl), decide_eq_true rfl]

theorem foldl_insertCredential {username : String} :
    ∀ {l : List Socks5Config} {credentials : Credentials}, (l.map (·.username)).Nodup →
      l.foldl insertCredential credentials username =
        ((l.find? fun r => decide (r.username = username)).map (·.password)).or (credentials username)
  | [], _, _ => rfl
  | config :: rest, credentials, h => by
    obtain ⟨hnot, hrest⟩ := List.nodup_cons.mp h
    rw [List.foldl_cons, foldl_insertCredential hrest]
    by_cases hname : config.username = username
    · subst hname
      have hnone : rest.find? (fun r => decide (r.username = config.username)) = none := by
        rw [List.find?_eq_none]
        intro r hr
        have hne : r.username ≠ config.username := fun heq => hnot (List.mem_map.mpr ⟨r, hr, heq⟩)
        simpa using hne
      rw [hnone, List.find?_cons_of_pos (by simp), insertCredential, Function.update_self]
      rfl
    · rw [List.find?_cons_of_neg (by simpa using hname), insertCredential, Function.update_of_ne (Ne.symm hname)]

/-- A loaded map has the password of every row. -/
theorem loadFromDb_apply (t : Socks5Table) (username : String) :
    loadFromDb t username = (readSocks5ConfigByUsername t username).map (·.password) := by
  rw [loadFromDb, Socks5Table.rows, foldl_insertCredential t.unique, Option.or_none]
  rfl

/-- The table has a row with this username and this password. -/
def Socks5Table.Has (t : Socks5Table) (username password : String) : Prop :=
  ∃ r ∈ t.rows, r.username = username ∧ r.password = password

instance (t : Socks5Table) (username password : String) : Decidable (t.Has username password) :=
  inferInstanceAs (Decidable (∃ r ∈ t.rows, _ ∧ _))

theorem Socks5Table.has_iff {t : Socks5Table} {username password : String} :
    t.Has username password ↔ loadFromDb t username = some password := by
  rw [loadFromDb_apply, Option.map_eq_some_iff]
  constructor
  · rintro ⟨r, hr, hname, hpass⟩
    exact ⟨r, read_eq_some_iff.mpr ⟨hr, hname⟩, hpass⟩
  · rintro ⟨r, hr, hpass⟩
    obtain ⟨hmem, hname⟩ := read_eq_some_iff.mp hr
    exact ⟨r, hmem, hname, hpass⟩

theorem loadFromDb_updateWhere {t : Socks5Table} {p : Socks5Config → Bool} {u : Socks5Update}
    (hpass : ∀ r, (u.set r).password = r.password) : loadFromDb (t.updateWhere p u) = loadFromDb t := by
  funext username
  rw [loadFromDb_apply, loadFromDb_apply, Socks5Table.read_updateWhere, Option.map_map]
  refine Option.map_congr fun r _ => ?_
  rw [Function.comp_apply]
  split
  · exact hpass r
  · rfl

end TpnWorker
