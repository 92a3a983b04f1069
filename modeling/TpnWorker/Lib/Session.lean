import Mathlib.Data.List.Basic
import Mathlib.Data.Vector.Defs

/-! Calls that read the items that a peer sends and write items back. What a call accepts is the set of the items that
    it reads and writes when it succeeds, with its result. -/

/-- A connection: what the peer has sent and nobody has read, and what was sent to the peer. -/
structure Exchange (β : Type) where
  unread : List β
  sent : List β
deriving DecidableEq

/-- A call on a connection. The peer sends nothing after the unread items. -/
abbrev Session (ε β α : Type) := EStateM ε (Exchange β) α

namespace Session

variable {ε β α γ : Type}

def read (eof : ε) : Session ε β β := fun s =>
  match s.unread with
  | [] => .error eof s
  | x :: rest => .ok x { s with unread := rest }

def readExact (eof : ε) (n : ℕ) : Session ε β (List.Vector β n) := fun s =>
  if h : n ≤ s.unread.length then .ok ⟨s.unread.take n, List.length_take_of_le h⟩ { s with unread := s.unread.drop n }
  else .error eof { s with unread := [] }

def write (items : List β) : Session ε β Unit := fun s => .ok () { s with sent := s.sent ++ items }

/-- A call succeeds exactly by reading and writing what the predicate allows. -/
def Accepts (m : Session ε β α) (P : α → List β → List β → Prop) : Prop :=
  ∀ s a t, m s = .ok a t ↔ ∃ read written, P a read written ∧ s.unread = read ++ t.unread ∧ t.sent = s.sent ++ written

variable {m m' : Session ε β α} {f : α → Session ε β γ} {P Q : α → List β → List β → Prop}
  {R : α → γ → List β → List β → Prop} {eof : ε}

theorem bind_of_ok {s t : Exchange β} {a : α} (h : m s = .ok a t) : (m >>= f) s = f a t := by
  have hbind : (m >>= f) s = EStateM.bind m f s := rfl
  rw [hbind, EStateM.bind, h]

theorem bind_eq_ok {s u : Exchange β} {b : γ} : (m >>= f) s = .ok b u ↔ ∃ a t, m s = .ok a t ∧ f a t = .ok b u := by
  have hbind : (m >>= f) s = EStateM.bind m f s := rfl
  rw [hbind, EStateM.bind]
  cases m s with
  | ok a t =>
    constructor
    · exact fun h => ⟨a, t, rfl, h⟩
    · rintro ⟨_, _, h, hf⟩
      cases h
      exact hf
  | error e t =>
    constructor
    · exact fun h => by cases h
    · rintro ⟨_, _, h, -⟩
      cases h

theorem Accepts.congr (hm : Accepts m P) (h : ∀ a r w, P a r w ↔ Q a r w) : Accepts m Q := by
  intro s a t
  simp only [hm s a t, h]

theorem accepts_pure (a : α) : Accepts (pure a : Session ε β α) fun b r w => b = a ∧ r = [] ∧ w = [] := by
  intro s b t
  constructor
  · rintro h
    cases h
    exact ⟨[], [], ⟨rfl, rfl, rfl⟩, rfl, (List.append_nil _).symm⟩
  · rintro ⟨_, _, ⟨rfl, rfl, rfl⟩, hunread, hsent⟩
    obtain ⟨unread, sent⟩ := t
    simp only [List.nil_append, List.append_nil] at hunread hsent
    rw [← hunread, hsent]
    rfl

theorem Accepts.read_bind {f : β → Session ε β γ} {R : β → γ → List β → List β → Prop} (hf : ∀ x, Accepts (f x) (R x)) :
    Accepts (read eof >>= f) fun b r w => ∃ x r', r = x :: r' ∧ R x b r' w := by
  intro s b u
  rw [bind_eq_ok]
  constructor
  · rintro ⟨x, t, hread, hrest⟩
    obtain ⟨r, w, hR, hunread, hsent⟩ := (hf x _ _ _).mp hrest
    rw [read] at hread
    split at hread
    · cases hread
    · next hs =>
      cases hread
      exact ⟨_, w, ⟨_, r, rfl, hR⟩, hs.trans (congrArg _ hunread), hsent⟩
  · rintro ⟨_, w, ⟨x, r, rfl, hR⟩, hunread, hsent⟩
    refine ⟨x, { s with unread := r ++ u.unread }, ?_, (hf x _ _ _).mpr ⟨r, w, hR, rfl, hsent⟩⟩
    rw [read, hunread]
    rfl

theorem Accepts.readExact_bind {n : ℕ} {f : List.Vector β n → Session ε β γ}
    {R : List.Vector β n → γ → List β → List β → Prop} (hf : ∀ l, Accepts (f l) (R l)) :
    Accepts (readExact eof n >>= f) fun b r w => ∃ (l : List.Vector β n) (r' : List β), r = l.val ++ r' ∧ R l b r' w := by
  intro s b u
  rw [bind_eq_ok]
  constructor
  · rintro ⟨l, t, hread, hrest⟩
    obtain ⟨r, w, hR, hunread, hsent⟩ := (hf l _ _ _).mp hrest
    rw [readExact] at hread
    split at hread
    · cases hread
      refine ⟨_, w, ⟨_, r, rfl, hR⟩, ?_, hsent⟩
      rw [List.append_assoc, ← hunread, List.take_append_drop]
    · cases hread
  · rintro ⟨_, w, ⟨⟨l, rfl⟩, r, rfl, hR⟩, hunread, hsent⟩
    refine ⟨⟨l, rfl⟩, { s with unread := r ++ u.unread }, ?_, (hf _ _ _ _).mpr ⟨r, w, hR, rfl, hsent⟩⟩
    rw [List.append_assoc] at hunread
    simp [readExact, hunread]

theorem accepts_write (items : List β) : Accepts (write items : Session ε β Unit) fun _ r w => r = [] ∧ w = items := by
  intro s b t
  constructor
  · rintro h
    cases h
    exact ⟨[], items, ⟨rfl, rfl⟩, rfl, rfl⟩
  · rintro ⟨_, _, ⟨rfl, rfl⟩, hunread, hsent⟩
    obtain ⟨unread, sent⟩ := t
    simp only [List.nil_append] at hunread hsent
    rw [← hunread, hsent]
    rfl

theorem Accepts.bind (hm : Accepts m P) (hf : ∀ a, Accepts (f a) (R a)) :
    Accepts (m >>= f) fun b r w => ∃ a r₁ w₁ r₂ w₂, P a r₁ w₁ ∧ R a b r₂ w₂ ∧ r = r₁ ++ r₂ ∧ w = w₁ ++ w₂ := by
  intro s b u
  rw [bind_eq_ok]
  constructor
  · rintro ⟨a, t, hfirst, hrest⟩
    obtain ⟨r₁, w₁, hP, hunread₁, hsent₁⟩ := (hm _ _ _).mp hfirst
    obtain ⟨r₂, w₂, hR, hunread₂, hsent₂⟩ := (hf a _ _ _).mp hrest
    refine ⟨_, _, ⟨a, r₁, w₁, r₂, w₂, hP, hR, rfl, rfl⟩, ?_, ?_⟩
    · rw [hunread₁, hunread₂, List.append_assoc]
    · rw [hsent₂, hsent₁, List.append_assoc]
  · rintro ⟨_, _, ⟨a, r₁, w₁, r₂, w₂, hP, hR, rfl, rfl⟩, hunread, hsent⟩
    refine ⟨a, ⟨r₂ ++ u.unread, s.sent ++ w₁⟩, (hm _ _ _).mpr ⟨r₁, w₁, hP, ?_, rfl⟩,
      (hf a _ _ _).mpr ⟨r₂, w₂, hR, rfl, ?_⟩⟩
    · rw [hunread, List.append_assoc]
    · rw [hsent, List.append_assoc]

/-- A call that never succeeds. -/
def Rejects (m : Session ε β α) : Prop := ∀ s a t, m s ≠ .ok a t

theorem rejects_throw (e : ε) : Rejects (throw e : Session ε β α) := by
  rintro s a t h
  cases h

theorem Rejects.write_bind {items : List β} {f : Unit → Session ε β γ} (h : Rejects (f ())) :
    Rejects (write items >>= f) := by
  intro s b u hok
  obtain ⟨_, t, -, hrest⟩ := bind_eq_ok.mp hok
  exact h _ _ _ hrest

theorem Accepts.unless {c : Prop} [Decidable c] (hr : Rejects m') (hm : Accepts m P) :
    Accepts (if c then m' else m) fun a r w => ¬c ∧ P a r w := by
  intro s a t
  by_cases hc : c
  · rw [if_pos hc]
    constructor
    · exact fun h => absurd h (hr s a t)
    · rintro ⟨_, _, ⟨hnot, -⟩, -⟩
      exact absurd hc hnot
  · rw [if_neg hc, hm s a t]
    simp only [hc, not_false_eq_true, true_and]

theorem Rejects.accepts (hr : Rejects m) : Accepts m fun _ _ _ => False := by
  intro s a t
  constructor
  · exact fun h => absurd h (hr s a t)
  · rintro ⟨_, _, h, -⟩
    exact h.elim

end Session
