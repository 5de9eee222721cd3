import Mathlib.Data.List.Basic

/-!
# A stream that carries rights

A socket between two processes on one machine carries a stream of data. The data sent with one call
are a *chunk*, and rights may go with it, such as file descriptors. A receiver that has room for so
much data gets what has been sent with several calls at once, but nothing beyond a chunk that rights
go with (`receive`). So it gets a chunk as it has been sent if it is the only one, if rights go with
it, or if it just fits (`receive_alone`, `receive_cons`), and else it gets data of the next one too
(`receive_more`).
-/

namespace FtlFirmware

/-- What has been sent with one call. -/
structure SocketChunk (α β : Type*) where
  data : List α
  rights : List β

namespace SocketChunk

variable {α β : Type*} {c d : SocketChunk α β} {cs : List (SocketChunk α β)} {room : ℕ}

/-- What a receiver gets that has room for so much data, and what is left. The rights of a chunk are
    handed over with the first part of it. -/
def receive : ℕ → List (SocketChunk α β) → SocketChunk α β × List (SocketChunk α β)
  | _, [] => (⟨[], []⟩, [])
  | room, c :: cs =>
    if room < c.data.length then (⟨c.data.take room, c.rights⟩, ⟨c.data.drop room, []⟩ :: cs)
    else if c.rights.isEmpty ∧ c.data.length < room then
      let r := receive (room - c.data.length) cs
      (⟨c.data ++ r.1.data, r.1.rights⟩, r.2)
    else (c, cs)

/-- A chunk that nothing is added to. -/
theorem receive_cons (hfits : c.data.length ≤ room)
    (hstop : c.rights ≠ [] ∨ c.data.length = room) : receive room (c :: cs) = (c, cs) := by
  have hgo : ¬ (c.rights.isEmpty ∧ c.data.length < room) := by
    rintro ⟨hempty, hlt⟩
    rcases hstop with hrights | hfull
    · exact hrights (List.isEmpty_iff.1 hempty)
    · exact Nat.ne_of_lt hlt hfull
  rw [receive, if_neg (Nat.not_lt.2 hfits), if_neg hgo]

/-- A chunk that is the only one. -/
theorem receive_alone (hfits : c.data.length ≤ room) : receive room [c] = (c, []) := by
  rw [receive, if_neg (Nat.not_lt.2 hfits)]
  split_ifs with hgo
  · obtain ⟨data, rights⟩ := c
    obtain rfl := List.isEmpty_iff.1 hgo.1
    simp [receive]
  · rfl

/-- Data of the next chunk are added. -/
theorem receive_more (hrights : c.rights = []) (hroom : c.data.length < room) (hd : d.data ≠ []) :
    ∃ extra rights rest, extra ≠ [] ∧
      receive room (c :: d :: cs) = (⟨c.data ++ extra, rights⟩, rest) := by
  have hgo : c.rights.isEmpty ∧ c.data.length < room := ⟨List.isEmpty_iff.2 hrights, hroom⟩
  have hleft : 0 < room - c.data.length := Nat.sub_pos_of_lt hroom
  rw [receive, if_neg (Nat.not_lt.2 (Nat.le_of_lt hroom)), if_pos hgo]
  refine ⟨_, _, _, ?_, rfl⟩
  rw [receive]
  split_ifs
  · rw [Ne, List.take_eq_nil_iff, not_or]
    exact ⟨Nat.ne_of_gt hleft, hd⟩
  · exact List.append_ne_nil_of_left_ne_nil hd _
  · exact hd

end SocketChunk

end FtlFirmware
