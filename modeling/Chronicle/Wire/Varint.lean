import Chronicle.Bytes

-- Variable-length integers: seven bits a byte, least significant first, the
-- high bit set on all bytes but the last.

namespace Chronicle.Wire

def varint (n : Nat) : Bytes :=
  if n < 128 then [UInt8.ofNat n] else UInt8.ofNat (n % 128 + 128) :: varint (n / 128)
termination_by n
decreasing_by omega

-- Reads at most `room` bytes. The last byte there is room for may only hold the
-- one bit that completes 64.
def readVarint? : (room : Nat) → Bytes → Option (Nat × Bytes)
  | 0, _ => none
  | _, [] => none
  | room + 1, byte :: rest =>
      if byte.toNat < 128 then
        if room = 0 ∧ 1 < byte.toNat then none else some (byte.toNat, rest)
      else do
        let (high, rest) ← readVarint? room rest
        some (byte.toNat - 128 + 128 * high, rest)

-- A number below 2^64 takes at most ten bytes.
def varint? (bytes : Bytes) : Option (Nat × Bytes) := readVarint? 10 bytes

theorem length_readVarint?_lt {room : Nat} {bytes rest : Bytes} {n : Nat}
    (h : readVarint? room bytes = some (n, rest)) : rest.length < bytes.length := by
  induction room generalizing bytes rest n with
  | zero => simp [readVarint?] at h
  | succ room ih =>
      cases bytes with
      | nil => simp [readVarint?] at h
      | cons byte tail =>
          simp only [readVarint?] at h
          split at h
          · split at h
            · simp at h
            · simp only [Option.some.injEq, Prod.mk.injEq] at h
              simp [h.2]
          · cases hr : readVarint? room tail with
            | none => simp [hr] at h
            | some pair =>
                obtain ⟨high, rest'⟩ := pair
                simp only [hr, Option.bind_eq_bind, Option.bind_some, Option.some.injEq,
                  Prod.mk.injEq] at h
                have := ih hr
                simp only [List.length_cons]
                rw [← h.2]
                omega

end Chronicle.Wire
