import TpnWorker.Lib.Ipv4

/-! IPv6 addresses and their text: eight hexadecimal segments, of which the first longest run of two or more zeros is
    left out, and the dotted text for an address that is mapped from IPv4. -/

/-! ### Words around a double separator -/

section Words
variable {α : Type} {sep : α}

/-- Words joined by the separator and, if there are more words, a double separator and those. -/
def abbreviate (sep : α) (ws : List (List α)) : Option (List (List α)) → List α
  | none => [sep].intercalate ws
  | some us => [sep].intercalate ws ++ sep :: sep :: [sep].intercalate us

/-- A word is not empty and does not contain the separator. -/
def IsWord (sep : α) (w : List α) : Prop := w ≠ [] ∧ sep ∉ w

variable {w w' x y : List α} {ws ws' us : List (List α)} {o o' : Option (List (List α))}

theorem IsWord.ne_cons (h : IsWord sep w) : w ++ x ≠ sep :: y := by
  obtain ⟨hne, hsep⟩ := h
  cases w with
  | nil => exact absurd rfl hne
  | cons a w =>
    intro heq
    exact hsep ((List.cons.inj heq).1 ▸ List.mem_cons_self)

/-- What follows a first word. -/
def afterWord (sep : α) (ws : List (List α)) (o : Option (List (List α))) : List α :=
  if ws = [] then abbreviate sep [] o else sep :: abbreviate sep ws o

theorem abbreviate_cons : abbreviate sep (w :: ws) o = w ++ afterWord sep ws o := by
  cases ws with
  | nil => cases o <;> simp [abbreviate, afterWord]
  | cons u ws => cases o <;> simp [abbreviate, afterWord]

theorem afterWord_cases (ws : List (List α)) (o : Option (List (List α))) :
    afterWord sep ws o = [] ∨ ∃ x, afterWord sep ws o = sep :: x := by
  rw [afterWord]
  split
  · cases o with
    | none => exact Or.inl rfl
    | some us => exact Or.inr ⟨_, rfl⟩
  · exact Or.inr ⟨_, rfl⟩

/-- A word ends where its text does or at the first separator. -/
theorem IsWord.append_inj (hw : IsWord sep w) (hw' : IsWord sep w') (hx : x = [] ∨ ∃ z, x = sep :: z)
    (hy : y = [] ∨ ∃ z, y = sep :: z) (h : w ++ x = w' ++ y) : w = w' ∧ x = y := by
  rcases hx with rfl | ⟨x, rfl⟩ <;> rcases hy with rfl | ⟨y, rfl⟩
  · simpa using h
  · rw [List.append_nil] at h
    exact absurd (h ▸ List.mem_append_right _ List.mem_cons_self) hw.2
  · rw [List.append_nil] at h
    exact absurd (h ▸ List.mem_append_right _ List.mem_cons_self) hw'.2
  · obtain ⟨rfl, rfl⟩ := List.append_sep_inj hw.2 hw'.2 h
    exact ⟨rfl, rfl⟩

theorem abbreviate_nil_inj (h : abbreviate sep [] o = abbreviate sep [] o') :
    o.map ([sep].intercalate) = o'.map ([sep].intercalate) := by
  cases o <;> cases o' <;> simp_all [abbreviate]

theorem abbreviate_nil_ne (hw : IsWord sep w) :
    abbreviate sep [] o ≠ abbreviate sep (w :: ws) o' ∧ abbreviate sep [] o ≠ sep :: abbreviate sep (w :: ws) o' := by
  rw [abbreviate_cons]
  cases o with
  | none => exact ⟨fun h => hw.1 (List.append_eq_nil_iff.mp h.symm).1, fun h => List.cons_ne_nil _ _ h.symm⟩
  | some us => exact ⟨fun h => hw.ne_cons h.symm, fun h => hw.ne_cons (List.cons.inj h).2.symm⟩

/-- The words before a double separator, and whether there is one, can be read off. -/
theorem abbreviate_inj (hws : ∀ w ∈ ws, IsWord sep w) (hws' : ∀ w ∈ ws', IsWord sep w)
    (h : abbreviate sep ws o = abbreviate sep ws' o') :
    ws = ws' ∧ o.map ([sep].intercalate) = o'.map ([sep].intercalate) := by
  induction ws generalizing ws' with
  | nil =>
    cases ws' with
    | nil => exact ⟨rfl, abbreviate_nil_inj h⟩
    | cons w' ws' => exact absurd h (abbreviate_nil_ne (hws' w' List.mem_cons_self)).1
  | cons w ws ih =>
    obtain ⟨hw, hws⟩ := List.forall_mem_cons.mp hws
    cases ws' with
    | nil => exact absurd h.symm (abbreviate_nil_ne hw).1
    | cons w' ws' =>
      obtain ⟨hw', htail'⟩ := List.forall_mem_cons.mp hws'
      rw [abbreviate_cons, abbreviate_cons] at h
      obtain ⟨rfl, hafter⟩ := hw.append_inj hw' (afterWord_cases ws o) (afterWord_cases ws' o') h
      rw [afterWord, afterWord] at hafter
      cases ws with
      | nil =>
        cases ws' with
        | nil => exact ⟨rfl, abbreviate_nil_inj hafter⟩
        | cons u' ws' => exact absurd hafter (abbreviate_nil_ne (htail' u' List.mem_cons_self)).2
      | cons u ws =>
        cases ws' with
        | nil => exact absurd hafter.symm (abbreviate_nil_ne (hws u List.mem_cons_self)).2
        | cons u' ws' =>
          obtain ⟨hrest, hmore⟩ := ih hws htail' (List.cons.inj hafter).2
          exact ⟨congrArg _ hrest, hmore⟩

theorem mem_intercalate {a : α} (h : a ∈ [sep].intercalate ws) : a = sep ∨ ∃ w ∈ ws, a ∈ w := by
  induction ws with
  | nil => simp at h
  | cons w ws ih =>
    cases ws with
    | nil =>
      rw [List.intercalate_singleton] at h
      exact Or.inr ⟨w, List.mem_cons_self, h⟩
    | cons u ws =>
      rw [List.intercalate_cons_cons, List.append_assoc, List.mem_append, List.singleton_append, List.mem_cons] at h
      rcases h with h | rfl | h
      · exact Or.inr ⟨w, List.mem_cons_self, h⟩
      · exact Or.inl rfl
      · exact (ih h).imp_right fun ⟨w, hw, ha⟩ => ⟨w, List.mem_cons_of_mem _ hw, ha⟩

theorem mem_abbreviate {a : α} (h : a ∈ abbreviate sep ws o) : a = sep ∨ ∃ w ∈ ws ++ o.getD [], a ∈ w := by
  cases o with
  | none =>
    rw [Option.getD_none, List.append_nil]
    exact mem_intercalate h
  | some us =>
    simp only [abbreviate, List.mem_append, List.mem_cons] at h
    simp only [Option.getD_some, List.mem_append]
    rcases h with h | rfl | rfl | h
    · exact (mem_intercalate h).imp_right fun ⟨w, hw, ha⟩ => ⟨w, Or.inl hw, ha⟩
    · exact Or.inl rfl
    · exact Or.inl rfl
    · exact (mem_intercalate h).imp_right fun ⟨w, hw, ha⟩ => ⟨w, Or.inr hw, ha⟩

theorem intercalate_inj (hws : ∀ w ∈ ws, IsWord sep w) (hws' : ∀ w ∈ ws', IsWord sep w)
    (h : [sep].intercalate ws = [sep].intercalate ws') : ws = ws' :=
  (abbreviate_inj hws hws' (show abbreviate sep ws none = abbreviate sep ws' none from h)).1

end Words

/-- An IPv6 address by its sixteen octets. -/
structure Ipv6Addr where
  octets : List UInt8
  size : octets.length = 16
deriving DecidableEq

namespace Ipv6Addr

/-- The numbers of two octets each. -/
def pairs : List UInt8 → List ℕ
  | hi :: lo :: rest => (hi.toNat * 256 + lo.toNat) :: pairs rest
  | _ => []

def segments (ip : Ipv6Addr) : List ℕ := pairs ip.octets

/-- The lower case hexadecimal text of a segment. -/
def segmentText (n : ℕ) : List Char := Nat.toDigits 16 n

/-- A run of zero segments. -/
structure Span where
  start : ℕ
  len : ℕ
deriving DecidableEq, Repr

/-- The longest run of zeros, the first one of several, from segment `i` on. -/
def longestFrom (i : ℕ) (longest current : Span) : List ℕ → Span
  | [] => longest
  | segment :: rest =>
    if segment = 0 then
      let current := ⟨if current.len = 0 then i else current.start, current.len + 1⟩
      longestFrom (i + 1) (if current.len > longest.len then current else longest) current rest
    else longestFrom (i + 1) longest ⟨0, 0⟩ rest

def zeroes (segments : List ℕ) : Span := longestFrom 0 ⟨0, 0⟩ ⟨0, 0⟩ segments

def joinSegments (segments : List ℕ) : List Char := [':'].intercalate (segments.map segmentText)

/-- The IPv4 address of an address `::ffff:a.b.c.d`. -/
def toIpv4Mapped (ip : Ipv6Addr) : Option Ipv4Addr :=
  match ip.octets with
  | [0, 0, 0, 0, 0, 0, 0, 0, 0, 0, 0xFF, 0xFF, a, b, c, d] => some ⟨a, b, c, d⟩
  | _ => none

/-- `Display` -/
def display (ip : Ipv6Addr) : String :=
  match ip.toIpv4Mapped with
  | some ipv4 => "::ffff:" ++ ipv4.display
  | none =>
    let span := zeroes ip.segments
    String.ofList <|
      if span.len > 1 then
        joinSegments (ip.segments.take span.start) ++ [':', ':'] ++ joinSegments (ip.segments.drop (span.start + span.len))
      else joinSegments ip.segments

/-! ### The text determines the address -/

section Injective
variable {n m : ℕ} {c : Char} {l l' : List ℕ}

theorem mem_segmentText (h : c ∈ segmentText n) : ∃ k < 16, c = Nat.digitChar k := by
  induction n using Nat.strongRecOn with
  | ind n ih =>
    rw [segmentText, Nat.toDigits_eq_if (by decide)] at h
    split at h
    · next hn => exact ⟨n, hn, List.mem_singleton.mp h⟩
    · next hn =>
      rcases List.mem_append.mp h with h | h
      · exact ih (n / 16) (by omega) h
      · exact ⟨n % 16, by omega, List.mem_singleton.mp h⟩

theorem notMem_segmentText (h : c = ':' ∨ c = '.') : c ∉ segmentText n := by
  intro hmem
  obtain ⟨k, hk, rfl⟩ := mem_segmentText hmem
  have all : ∀ i : Fin 16, Nat.digitChar i ≠ ':' ∧ Nat.digitChar i ≠ '.' := by decide
  rcases h with h | h
  · exact (all ⟨k, hk⟩).1 h
  · exact (all ⟨k, hk⟩).2 h

theorem segmentText_inj (h : segmentText n = segmentText m) : n = m := by
  induction n using Nat.strongRecOn generalizing m with
  | ind n ih =>
    have all : ∀ i j : Fin 16, Nat.digitChar i = Nat.digitChar j → i = j := by decide
    have hdigit : ∀ i j, i < 16 → j < 16 → Nat.digitChar i = Nat.digitChar j → i = j := fun i j hi hj heq =>
      congrArg Fin.val (all ⟨i, hi⟩ ⟨j, hj⟩ heq)
    have hlong : ∀ i j d, [Nat.digitChar j] ≠ Nat.toDigits 16 i ++ [d] := by
      intro i j d heq
      have hnil : [] ++ [Nat.digitChar j] = Nat.toDigits 16 i ++ [d] := heq
      exact absurd (List.append_inj' hnil rfl).1.symm Nat.toDigits_ne_nil
    rw [segmentText, segmentText, Nat.toDigits_eq_if (n := n) (by decide), Nat.toDigits_eq_if (n := m) (by decide)] at h
    split at h <;> split at h
    · next hn hm => exact hdigit n m hn hm (List.cons.inj h).1
    · exact absurd h (hlong _ _ _)
    · exact absurd h.symm (hlong _ _ _)
    · obtain ⟨hinit, hlast⟩ := List.append_inj' h rfl
      have hdiv := ih (n / 16) (by omega) hinit
      have hmod := hdigit (n % 16) (m % 16) (by omega) (by omega) (List.cons.inj hlast).1
      omega

theorem isWord_of_mem_map {w : List Char} (h : w ∈ l.map segmentText) : IsWord ':' w := by
  obtain ⟨n, -, rfl⟩ := List.mem_map.mp h
  exact ⟨Nat.toDigits_ne_nil, notMem_segmentText (Or.inl rfl)⟩

theorem map_segmentText_inj (h : l.map segmentText = l'.map segmentText) : l = l' :=
  List.map_injective_iff.mpr (fun _ _ => segmentText_inj) h

/-- The segments of a span are zeros. -/
def IsRun (segments : List ℕ) (span : Span) : Prop :=
  ∀ k, span.start ≤ k → k < span.start + span.len → segments[k]? = some 0

/-- The scan keeps two runs, of which the current one ends where the scan is. -/
theorem isRun_longestFrom {segments rest : List ℕ} {i : ℕ} {longest current : Span} (hrest : segments.drop i = rest)
    (hlongest : IsRun segments longest) (hcurrent : IsRun segments current)
    (hend : current.len ≠ 0 → current.start + current.len = i) :
    IsRun segments (longestFrom i longest current rest) := by
  induction rest generalizing i longest current with
  | nil => exact hlongest
  | cons segment rest ih =>
    have hget : segments[i]? = some segment := by rw [← List.head?_drop, hrest, List.head?_cons]
    have hdrop : segments.drop (i + 1) = rest := by rw [← List.tail_drop, hrest, List.tail_cons]
    simp only [longestFrom]
    split
    · next hzero =>
      rw [hzero] at hget
      have hnext : IsRun segments ⟨if current.len = 0 then i else current.start, current.len + 1⟩ := by
        intro k hk hlt
        simp only at hk hlt
        by_cases hlen : current.len = 0
        · rw [if_pos hlen] at hk hlt
          rw [show k = i by omega, hget]
        · rw [if_neg hlen] at hk hlt
          have hend := hend hlen
          by_cases hki : k = i
          · rw [hki, hget]
          · exact hcurrent k hk (by omega)
      refine ih hdrop ?_ hnext ?_
      · split
        · exact hnext
        · exact hlongest
      · intro _
        simp only
        split
        · omega
        · next hlen =>
          have := hend hlen
          omega
    · exact ih hdrop hlongest (fun k hk hlt => by simp at hk hlt) (fun h => absurd rfl h)

theorem isRun_zeroes (segments : List ℕ) : IsRun segments (zeroes segments) :=
  isRun_longestFrom rfl (fun k _ hlt => by simp at hlt) (fun k _ hlt => by simp at hlt) fun h => absurd rfl h

/-- The segments before and after the run that the text leaves out, if it leaves one out. -/
def Shortened (segments before : List ℕ) (after : Option (List ℕ)) : Prop :=
  (before = segments ∧ after = none) ∨ ∃ span, 0 < span.len ∧ IsRun segments span ∧
    before = segments.take span.start ∧ after = some (segments.drop (span.start + span.len))

/-- The run is as long as the segments that are missing. -/
theorem shortened_inj {before : List ℕ} {after : Option (List ℕ)} (hlen : l.length = l'.length)
    (h : Shortened l before after) (h' : Shortened l' before after) : l = l' := by
  rcases h with ⟨rfl, rfl⟩ | ⟨span, hpos, hrun, rfl, rfl⟩
  · rcases h' with ⟨h', -⟩ | ⟨_, _, _, _, h'⟩
    · exact h'
    · cases h'
  · rcases h' with ⟨_, h'⟩ | ⟨span', hpos', hrun', htake, hdrop⟩
    · cases h'
    · have hle : ∀ {l : List ℕ} {span : Span}, 0 < span.len → IsRun l span → span.start + span.len ≤ l.length := by
        intro l span hpos hrun
        have hlast := hrun (span.start + span.len - 1) (by omega) (by omega)
        obtain ⟨hlt, -⟩ := List.getElem?_eq_some_iff.mp hlast
        omega
      have hbound := hle hpos hrun
      have hbound' := hle hpos' hrun'
      have hdrop := Option.some.inj hdrop
      have htakelen := congrArg List.length htake
      have hdroplen := congrArg List.length hdrop
      rw [List.length_take, List.length_take] at htakelen
      rw [List.length_drop, List.length_drop] at hdroplen
      have hstart : span.start = span'.start := by omega
      have hend : span.start + span.len = span'.start + span'.len := by omega
      refine List.ext_getElem? fun k => ?_
      by_cases hk : k < span.start
      · have hget := congrArg (fun l => l[k]?) htake
        rw [← hstart] at hget
        simpa [List.getElem?_take, hk] using hget
      · by_cases hk' : k < span.start + span.len
        · rw [hrun k (by omega) hk', hrun' k (by omega) (by omega)]
        · have hget := congrArg (fun l => l[k - (span.start + span.len)]?) hdrop
          rw [← hend] at hget
          simpa [List.getElem?_drop, show span.start + span.len + (k - (span.start + span.len)) = k by omega] using hget

theorem pairs_inj : ∀ {k : ℕ} {l l' : List UInt8}, l.length = 2 * k → l'.length = 2 * k → pairs l = pairs l' → l = l'
  | 0, l, l', h, h', _ => by
    rw [List.length_eq_zero_iff.mp h, List.length_eq_zero_iff.mp h']
  | k + 1, l, l', h, h', heq => by
    obtain _ | ⟨a, _ | ⟨b, l⟩⟩ := l <;> obtain _ | ⟨a', _ | ⟨b', l'⟩⟩ := l' <;>
      simp only [List.length_cons, List.length_nil] at h h' <;> try omega
    obtain ⟨hpair, hrest⟩ := List.cons.inj heq
    have ha := a.toNat_lt
    have hb := b.toNat_lt
    have ha' := a'.toNat_lt
    have hb' := b'.toNat_lt
    have haeq : a = a' := UInt8.toNat_inj.mp (by omega)
    have hbeq : b = b' := UInt8.toNat_inj.mp (by omega)
    rw [haeq, hbeq, pairs_inj (k := k) (by omega) (by omega) hrest]

variable {ip ip' : Ipv6Addr}

theorem length_segments : ip.segments.length = 8 := by
  obtain ⟨octets, size⟩ := ip
  match octets, size with
  | [_, _, _, _, _, _, _, _, _, _, _, _, _, _, _, _], _ => rfl

theorem segments_inj (h : ip.segments = ip'.segments) : ip = ip' := by
  obtain ⟨octets, size⟩ := ip
  obtain ⟨octets', size'⟩ := ip'
  cases pairs_inj (k := 8) size size' h
  rfl

theorem display_of_none (h : ip.toIpv4Mapped = none) : ∃ before after, Shortened ip.segments before after ∧
    ip.display.toList = abbreviate ':' (before.map segmentText) (after.map (·.map segmentText)) := by
  simp only [display, h]
  split
  · next hspan =>
    refine ⟨_, _, Or.inr ⟨zeroes ip.segments, by omega, isRun_zeroes _, rfl, rfl⟩, ?_⟩
    rw [String.toList_ofList, List.append_assoc]
    rfl
  · exact ⟨_, _, Or.inl ⟨rfl, rfl⟩, String.toList_ofList⟩

theorem dot_mem_display_iff : '.' ∈ ip.display.toList ↔ ip.toIpv4Mapped ≠ none := by
  cases h : ip.toIpv4Mapped with
  | some ipv4 =>
    have hdot : '.' ∈ ipv4.display.toList := by
      simp [Ipv4Addr.display, Ipv4Addr.octets, List.intercalate_cons_cons]
    simp only [display, h, String.toList_append, List.mem_append]
    exact iff_of_true (Or.inr hdot) (Option.some_ne_none ipv4)
  | none =>
    refine iff_of_false ?_ (not_not.mpr rfl)
    obtain ⟨before, after, -, hdisplay⟩ := display_of_none h
    have hwords : (after.map (·.map segmentText)).getD [] = (after.getD []).map segmentText := by cases after <;> rfl
    rw [hdisplay]
    intro hmem
    rcases mem_abbreviate hmem with h | ⟨w, hw, hdot⟩
    · cases h
    · rw [hwords, ← List.map_append] at hw
      obtain ⟨n, -, rfl⟩ := List.mem_map.mp hw
      exact notMem_segmentText (Or.inr rfl) hdot

theorem eq_of_toIpv4Mapped {ipv4 : Ipv4Addr} (h : ip.toIpv4Mapped = some ipv4) (h' : ip'.toIpv4Mapped = some ipv4) :
    ip = ip' := by
  have hoctets : ∀ {ip : Ipv6Addr}, ip.toIpv4Mapped = some ipv4 →
      ip.octets = [0, 0, 0, 0, 0, 0, 0, 0, 0, 0, 0xFF, 0xFF] ++ ipv4.octets := by
    intro ip h
    rw [toIpv4Mapped] at h
    split at h
    · next heq =>
      cases h
      exact heq
    · cases h
  obtain ⟨octets, size⟩ := ip
  obtain ⟨octets', size'⟩ := ip'
  cases (hoctets h).trans (hoctets h').symm
  rfl

theorem display_injective (h : ip.display = ip'.display) : ip = ip' := by
  have hmapped : ip.toIpv4Mapped ≠ none ↔ ip'.toIpv4Mapped ≠ none := by
    rw [← dot_mem_display_iff, ← dot_mem_display_iff, h]
  cases hip : ip.toIpv4Mapped with
  | some ipv4 =>
    obtain ⟨ipv4', hip'⟩ := Option.ne_none_iff_exists'.mp (hmapped.mp (hip ▸ Option.some_ne_none ipv4))
    simp only [display, hip, hip', String.append_right_inj] at h
    cases Ipv4Addr.display_injective h
    exact eq_of_toIpv4Mapped hip hip'
  | none =>
    have hip' : ip'.toIpv4Mapped = none := not_not.mp fun hip' => hmapped.mpr hip' hip
    obtain ⟨before, after, hshort, hdisplay⟩ := display_of_none hip
    obtain ⟨before', after', hshort', hdisplay'⟩ := display_of_none hip'
    rw [← h, hdisplay] at hdisplay'
    obtain ⟨hbefore, hafter⟩ := abbreviate_inj (fun _ => isWord_of_mem_map) (fun _ => isWord_of_mem_map) hdisplay'
    cases map_segmentText_inj hbefore
    have hafter : after = after' := by
      cases after <;> cases after' <;> simp only [Option.map_none, Option.map_some, Option.some.injEq, reduceCtorEq] at hafter ⊢
      exact map_segmentText_inj (intercalate_inj (fun _ => isWord_of_mem_map) (fun _ => isWord_of_mem_map) hafter)
    cases hafter
    exact segments_inj (shortened_inj (length_segments.trans length_segments.symm) hshort hshort')

end Injective

end Ipv6Addr
