import Mathlib.Data.List.Basic

/-! Streams that arrive in pieces. A reader is handed a stream chunk by chunk and asks for exactly so many
elements; what it gets depends on the concatenation of the chunks only. A read that is handed nothing has
reached the end, so the chunks of a stream are not empty. -/

namespace ByteStream

variable {α : Type}

/-- Reads exactly `n` elements, or finds the end of the stream before. -/
def readExact : Nat → List (List α) → Option (List α × List (List α))
  | 0, chunks => some ([], chunks)
  | _ + 1, [] => none
  | n + 1, chunk :: rest =>
      if chunk.isEmpty then none
      else if chunk.length ≤ n + 1 then
        (readExact (n + 1 - chunk.length) rest).map fun found => (chunk ++ found.1, found.2)
      else some (chunk.take (n + 1), chunk.drop (n + 1) :: rest)

/-- The chunks deliver the stream. -/
structure Delivers (chunks : List (List α)) (stream : List α) : Prop where
  flatten_eq : chunks.flatten = stream
  nonempty : [] ∉ chunks

theorem Delivers.nil : Delivers ([] : List (List α)) [] := ⟨rfl, List.not_mem_nil⟩

variable {chunks : List (List α)}

theorem Delivers.eq_nil (h : Delivers chunks []) : chunks = [] := by
  cases chunks with
  | nil => rfl
  | cons chunk others =>
      obtain rfl : chunk = [] := (List.append_eq_nil_iff.mp h.flatten_eq).1
      exact absurd List.mem_cons_self h.nonempty

theorem Delivers.singleton {stream : List α} (h : stream ≠ []) : Delivers [stream] stream :=
  ⟨List.flatten_singleton, by simpa using h.symm⟩

/-- A read within the stream gets its front and leaves the rest. -/
theorem Delivers.readExact_append {front stream : List α} (h : Delivers chunks (front ++ stream)) :
    ∃ rest, readExact front.length chunks = some (front, rest) ∧ Delivers rest stream := by
  induction chunks generalizing front with
  | nil =>
      obtain ⟨rfl, rfl⟩ := List.append_eq_nil_iff.mp h.flatten_eq.symm
      exact ⟨[], rfl, .nil⟩
  | cons chunk others ih =>
      obtain ⟨hchunk, hothers⟩ : [] ≠ chunk ∧ [] ∉ others := by simpa using h.nonempty
      cases front with
      | nil => exact ⟨chunk :: others, rfl, h⟩
      | cons first front =>
          have hflatten : chunk ++ others.flatten = first :: front ++ stream := h.flatten_eq
          rw [List.length_cons, readExact, if_neg (by simpa using hchunk.symm)]
          split_ifs with hshort
          · -- the chunk lies within what is asked for, and the read goes on behind it
            obtain ⟨middle, hfront, hrest⟩ : ∃ middle, first :: front = chunk ++ middle ∧
                others.flatten = middle ++ stream := by
              rcases List.append_eq_append_iff.mp hflatten with ⟨middle, hfront, hrest⟩ | ⟨extra, hextra, hstream⟩
              · exact ⟨middle, hfront, hrest⟩
              · have hlength := congrArg List.length hextra
                rw [List.length_append, List.length_cons] at hlength
                obtain rfl : extra = [] := List.eq_nil_of_length_eq_zero (by omega)
                exact ⟨[], by simpa using hextra.symm, by simpa using hstream.symm⟩
            obtain ⟨rest, hread, hdelivers⟩ := ih ⟨hrest, hothers⟩
            have hcount : front.length + 1 - chunk.length = middle.length := by
              have hlength := congrArg List.length hfront
              rw [List.length_append, List.length_cons] at hlength
              omega
            exact ⟨rest, by rw [hcount, hread, hfront]; rfl, hdelivers⟩
          · have htake : chunk.take (front.length + 1) = first :: front := by
              have htaken := congrArg (List.take (front.length + 1)) hflatten
              rw [List.take_append_of_le_length (by omega)] at htaken
              rw [htaken, ← List.length_cons, List.take_left]
            refine ⟨_, by rw [htake], ?_, ?_⟩
            · have hrest := congrArg (List.drop (front.length + 1)) hflatten
              rw [List.drop_append_of_le_length (by omega), ← List.length_cons (a := first), List.drop_left] at hrest
              exact hrest
            · simp only [List.mem_cons, not_or]
              exact ⟨fun hnil => hshort (List.drop_eq_nil_iff.mp hnil.symm), hothers⟩

/-- A read beyond the stream finds its end. -/
theorem readExact_of_length_lt {n : Nat} (h : chunks.flatten.length < n) : readExact n chunks = none := by
  induction chunks generalizing n with
  | nil =>
      cases n with
      | zero => exact absurd h (Nat.not_lt_zero _)
      | succ n => rfl
  | cons chunk others ih =>
      cases n with
      | zero => exact absurd h (Nat.not_lt_zero _)
      | succ n =>
          rw [List.flatten_cons, List.length_append] at h
          rw [readExact]
          split_ifs with hempty hshort
          · rfl
          · rw [ih (by omega)]
            rfl
          · omega

/-- A read takes what it gets off the stream, whatever the chunks. -/
theorem length_of_readExact {n : Nat} {rest : List (List α)} {front : List α}
    (h : readExact n chunks = some (front, rest)) : chunks.flatten.length = n + rest.flatten.length := by
  induction chunks generalizing n front with
  | nil =>
      cases n with
      | zero =>
          cases h
          rfl
      | succ n => cases h
  | cons chunk others ih =>
      cases n with
      | zero =>
          cases h
          exact (Nat.zero_add _).symm
      | succ n =>
          rw [readExact] at h
          split_ifs at h with hempty hshort
          · obtain ⟨found, hfound, heq⟩ := Option.map_eq_some_iff.mp h
            cases heq
            rw [List.flatten_cons, List.length_append, ih hfound]
            omega
          · cases h
            rw [List.flatten_cons, List.flatten_cons, List.length_append, List.length_append, List.length_drop]
            omega

/-- What a read gets is the front of the stream. -/
theorem Delivers.of_readExact {n : Nat} {rest : List (List α)} {stream front : List α} (h : Delivers chunks stream)
    (hread : readExact n chunks = some (front, rest)) :
    front.length = n ∧ ∃ later, stream = front ++ later ∧ Delivers rest later := by
  have hle : n ≤ stream.length := by
    by_contra hlt
    rw [readExact_of_length_lt (by rw [h.flatten_eq]; omega)] at hread
    cases hread
  obtain ⟨left, hleft, hdelivers⟩ := (List.take_append_drop n stream ▸ h).readExact_append
  rw [List.length_take, Nat.min_eq_left hle, hread] at hleft
  cases hleft
  exact ⟨List.length_take_of_le hle, stream.drop n, (List.take_append_drop n stream).symm, hdelivers⟩

end ByteStream
