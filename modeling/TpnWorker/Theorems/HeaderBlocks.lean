import TpnWorker.Proxy.HttpConnect

/-! Where the HTTP CONNECT proxy stops to read a header. It reads byte by byte, so the bytes of the tunnel that follow stay
    unread. -/

namespace TpnWorker
open Session

/-- The shortest part of the stream, from its start on, that ends a header. -/
structure IsHeaderBlock (block stream : List UInt8) : Prop where
  starts : block <+: stream
  ends : headerEnd <:+ block
  shortest : ∀ p, p <+: stream → headerEnd <:+ p → block.length ≤ p.length

section Loop
variable {buf sent unread block : List UInt8} {t : Exchange UInt8} {e : ConnectionError}

/-- What the loop returns, if no part of what was read before ends a header: with the bytes read now, the first end of a
    header. -/
theorem readHeadersFrom_eq_ok (hfree : ∀ p, p <+: buf → ¬headerEnd <:+ p) :
    readHeadersFrom buf sent unread = .ok block t ↔
      ∃ read, block = buf ++ read ∧ unread = read ++ t.unread ∧ t.sent = sent ∧ headerEnd <:+ block ∧
        block.length ≤ maxHeaderSize ∧ ∀ p, p <+: block → headerEnd <:+ p → p = block := by
  induction unread generalizing buf with
  | nil =>
    refine iff_of_false (fun h => by cases h) ?_
    rintro ⟨read, rfl, hunread, -, hend, -⟩
    obtain ⟨rfl, -⟩ := List.append_eq_nil_iff.mp hunread.symm
    exact hfree buf List.prefix_rfl (by rwa [List.append_nil] at hend)
  | cons byte unread ih =>
    have hnext : ∀ read rest, byte :: unread = read ++ rest → headerEnd <:+ buf ++ read →
        ∃ read', read = byte :: read' ∧ unread = read' ++ rest := by
      intro read rest hunread hend
      cases read with
      | nil => exact absurd (by rwa [List.append_nil] at hend) (hfree buf List.prefix_rfl)
      | cons byte' read' =>
        obtain ⟨rfl, hrest⟩ := List.cons.inj hunread
        exact ⟨read', rfl, hrest⟩
    rw [readHeadersFrom]
    by_cases hlong : (buf ++ [byte]).length > maxHeaderSize
    · rw [if_pos hlong]
      refine iff_of_false (fun h => by cases h) ?_
      rintro ⟨read, rfl, hunread, -, hend, hsize, -⟩
      obtain ⟨read', rfl, -⟩ := hnext read _ hunread hend
      rw [List.length_append, List.length_cons] at hlong hsize
      rw [List.length_nil] at hlong
      omega
    · rw [if_neg hlong]
      by_cases hend : headerEnd.isSuffixOf (buf ++ [byte]) = true
      · rw [if_pos hend]
        rw [List.isSuffixOf_iff_suffix] at hend
        constructor
        · intro h
          cases h
          refine ⟨[byte], rfl, rfl, rfl, hend, Nat.not_lt.mp hlong, fun p hp hpend => ?_⟩
          rcases List.prefix_concat_iff.mp hp with rfl | hp
          · rfl
          · exact absurd hpend (hfree p hp)
        · rintro ⟨read, rfl, hunread, rfl, hblock, -, hfirst⟩
          obtain ⟨read', rfl, rfl⟩ := hnext read _ hunread hblock
          have hstart : buf ++ [byte] <+: buf ++ byte :: read' := ⟨read', by rw [List.append_assoc]; rfl⟩
          have heq : [byte] = byte :: read' := List.append_cancel_left (hfirst _ hstart hend)
          obtain rfl := (List.cons.inj heq).2
          rfl
      · rw [if_neg hend, ih]
        · constructor
          · rintro ⟨read, rfl, rfl, h⟩
            exact ⟨byte :: read, by rw [List.append_assoc]; rfl, rfl, h⟩
          · rintro ⟨read, rfl, hunread, hsent, hblock, h⟩
            obtain ⟨read', rfl, rfl⟩ := hnext read _ hunread hblock
            exact ⟨read', by rw [List.append_assoc]; rfl, rfl, hsent, hblock, h⟩
        · intro p hp hpend
          rcases List.prefix_concat_iff.mp hp with rfl | hp
          · exact hend (List.isSuffixOf_iff_suffix.mpr hpend)
          · exact hfree p hp hpend

/-- The loop fails behind the last byte of the stream or the first byte above the limit. -/
theorem readHeadersFrom_eq_error (hsize : buf.length ≤ maxHeaderSize) (h : readHeadersFrom buf sent unread = .error e t) :
    ∃ read, unread = read ++ t.unread ∧ t.sent = sent ∧ (buf ++ read).length ≤ maxHeaderSize + 1 := by
  induction unread generalizing buf with
  | nil =>
    cases h
    exact ⟨[], rfl, rfl, by rw [List.append_nil]; omega⟩
  | cons byte unread ih =>
    rw [readHeadersFrom] at h
    split at h
    · cases h
      refine ⟨[byte], rfl, rfl, ?_⟩
      rw [List.length_append, List.length_singleton]
      omega
    · next hlong =>
      split at h
      · cases h
      · obtain ⟨read, rfl, hsent, hlen⟩ := ih (Nat.not_lt.mp hlong) h
        exact ⟨byte :: read, rfl, hsent, by rwa [List.append_assoc] at hlen⟩

end Loop

section Blocks
variable {s t : Exchange UInt8} {block : List UInt8}

/-- The call returns the header block, if that is short enough, and leaves what follows it. -/
theorem readHeaders_eq_ok :
    readHeaders s = .ok block t ↔
      IsHeaderBlock block s.unread ∧ block.length ≤ maxHeaderSize ∧ s.unread = block ++ t.unread ∧ t.sent = s.sent := by
  have hfree : ∀ p, p <+: ([] : List UInt8) → ¬headerEnd <:+ p := by
    intro p hp hend
    rw [List.prefix_nil.mp hp, List.suffix_nil] at hend
    cases hend
  rw [readHeaders, readHeadersFrom_eq_ok hfree]
  constructor
  · rintro ⟨read, rfl, hunread, hsent, hend, hsize, hfirst⟩
    have hstart : block <+: s.unread := ⟨_, hunread.symm⟩
    refine ⟨⟨hstart, hend, fun p hp hpend => ?_⟩, hsize, hunread, hsent⟩
    rcases List.prefix_or_prefix_of_prefix hp hstart with hle | hle
    · exact (congrArg List.length (hfirst p hle hpend)).ge
    · exact hle.length_le
  · rintro ⟨hblock, hsize, hunread, hsent⟩
    refine ⟨block, rfl, hunread, hsent, hblock.ends, hsize, fun p hp hpend => ?_⟩
    exact hp.eq_of_length (le_antisymm hp.length_le (hblock.shortest p (hp.trans hblock.starts) hpend))

/-- A stream in which a header ends has a header block, which is no longer. -/
theorem exists_headerBlock {stream p : List UInt8} (hp : p <+: stream) (hend : headerEnd <:+ p) :
    ∃ block, IsHeaderBlock block stream ∧ block.length ≤ p.length := by
  classical
  have hex : ∃ n, ∃ p, p <+: stream ∧ headerEnd <:+ p ∧ p.length = n := ⟨_, p, hp, hend, rfl⟩
  obtain ⟨block, hstart, hblock, hlen⟩ := Nat.find_spec hex
  have hmin : ∀ p, p <+: stream → headerEnd <:+ p → block.length ≤ p.length := fun p hp hend =>
    hlen ▸ Nat.find_min' hex ⟨p, hp, hend, rfl⟩
  exact ⟨block, ⟨hstart, hblock, hmin⟩, hmin p hp hend⟩

/-- The request consumes its header block, so the tunnel starts behind it. -/
theorem connectRequest_eq_ok {credentials : Credentials} {peer target : String}
    (h : connectRequest credentials peer s = .ok target t) :
    ∃ block, IsHeaderBlock block s.unread ∧ s.unread = block ++ t.unread := by
  obtain ⟨block, u, hread, hrest⟩ := bind_eq_ok.mp h
  obtain ⟨hblock, -, hunread, -⟩ := readHeaders_eq_ok.mp hread
  refine ⟨block, hblock, ?_⟩
  have hkept : t = u := by
    generalize parseBasicAuth (authValue (Utf8.lossy block).toList) = auth at hrest
    split at hrest
    · exact absurd hrest (Rejects.write_bind (bail_rejects _) _ _ _)
    · cases auth with
      | none => exact absurd hrest (Rejects.write_bind (bail_rejects _) _ _ _)
      | some user =>
        dsimp only at hrest
        split at hrest
        · exact absurd hrest (Rejects.write_bind (bail_rejects _) _ _ _)
        · exact (EStateM.Result.ok.inj hrest).2.symm
  rw [hkept, hunread]

end Blocks

/-- The header block is read exactly: the call succeeds if and only if a header of at most 16384 bytes ends, it returns the
    shortest one and leaves what follows to the tunnel, and it fails after at most 16385 bytes. -/
theorem header_block_read_exactly (s : Exchange UInt8) :
    ((∃ block t, readHeaders s = .ok block t) ↔ ∃ p, p <+: s.unread ∧ headerEnd <:+ p ∧ p.length ≤ 16384) ∧
      (∀ block t, readHeaders s = .ok block t →
        IsHeaderBlock block s.unread ∧ s.unread = block ++ t.unread ∧ t.sent = s.sent) ∧
      (∀ e t, readHeaders s = .error e t →
        ∃ read, s.unread = read ++ t.unread ∧ t.sent = s.sent ∧ read.length ≤ 16385) ∧
      ∀ credentials peer target t, connectRequest credentials peer s = .ok target t →
        ∃ block, IsHeaderBlock block s.unread ∧ s.unread = block ++ t.unread := by
  refine ⟨⟨?_, ?_⟩, fun block t h => ?_, fun e t h => ?_, fun _ _ _ _ => connectRequest_eq_ok⟩
  · rintro ⟨block, t, h⟩
    obtain ⟨hblock, hsize, -⟩ := readHeaders_eq_ok.mp h
    exact ⟨block, hblock.starts, hblock.ends, hsize⟩
  · rintro ⟨p, hp, hend, hsize⟩
    obtain ⟨block, hblock, hle⟩ := exists_headerBlock hp hend
    obtain ⟨rest, hrest⟩ := hblock.starts
    exact ⟨block, ⟨rest, s.sent⟩, readHeaders_eq_ok.mpr ⟨hblock, hle.trans hsize, hrest.symm, rfl⟩⟩
  · obtain ⟨hblock, -, hunread, hsent⟩ := readHeaders_eq_ok.mp h
    exact ⟨hblock, hunread, hsent⟩
  · exact readHeadersFrom_eq_error (Nat.zero_le _) h

end TpnWorker
