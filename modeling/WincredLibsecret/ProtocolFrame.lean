import WincredLibsecret.ByteStream
import WincredLibsecret.CborFormat
import WincredLibsecret.ProtocolModel

/-! Frames: a length in four bytes, most significant first, and as many bytes of payload, which one value
fills exactly. The serialiser is a parameter with one law, that its decoder reads back what its encoder
wrote and reports that it consumed all of it. -/

namespace WincredLibsecret

open ByteStream Cbor

/-- The encoder and the decoder of the values of a stream. The decoder reports how many bytes it read. -/
structure WireCodec (α : Type) where
  intoWriter : α → Except String Blob
  fromReader : Blob → Except String (α × Nat)
  fromReader_intoWriter : ∀ {value payload}, intoWriter value = .ok payload →
    fromReader payload = .ok (value, payload.length)

def maxFrameSize : Nat := 1024 * 1024

/-- The bytes of the frame of a value. -/
def writeFrame {α : Type} (codec : WireCodec α) (value : α) : Except ProtocolError Blob :=
  match codec.intoWriter value with
  | .error reason => .error (.encode reason)
  | .ok payload =>
      if payload.isEmpty then .error .emptyFrame
      else if maxFrameSize < payload.length then .error (.frameTooLarge payload.length maxFrameSize)
      else if UInt32.size ≤ payload.length then .error (.frameTooLarge payload.length maxFrameSize)
      else .ok (beBytes 4 payload.length ++ payload)

/-- Reads one frame from a stream that arrives in chunks. -/
def readFrame {α : Type} (codec : WireCodec α) (chunks : List Blob) : Except ProtocolError (α × List Blob) :=
  match readExact 4 chunks with
  | none => .error (.stream .unexpectedEof)
  | some (header, rest) =>
      let length := beValue header
      if length = 0 then .error .emptyFrame
      else if maxFrameSize < length then .error (.frameTooLarge length maxFrameSize)
      else match readExact length rest with
        | none => .error (.stream .unexpectedEof)
        | some (payload, rest) =>
            match codec.fromReader payload with
            | .error reason => .error (.decode reason)
            | .ok (value, consumed) =>
                if consumed ≠ length then .error (.trailingBytes (length - consumed)) else .ok (value, rest)

/-- Reads that many frames one after the other, as far as it gets. -/
def readFrames {α : Type} (codec : WireCodec α) : Nat → List Blob → List α × Except ProtocolError (List Blob)
  | 0, chunks => ([], .ok chunks)
  | n + 1, chunks =>
      match readFrame codec chunks with
      | .error error => ([], .error error)
      | .ok (value, rest) =>
          let later := readFrames codec n rest
          (value :: later.1, later.2)

namespace WireCodec

variable {α : Type} (codec : WireCodec α)

/-- The value has an encoding that fits a frame. -/
def Fits (value : α) : Prop :=
  ∃ payload, codec.intoWriter value = .ok payload ∧ 1 ≤ payload.length ∧ payload.length ≤ maxFrameSize

variable {codec} {value : α}

variable {frame : Blob} {chunks : List Blob} {values : List α}

theorem writeFrame_eq_ok :
    writeFrame codec value = .ok frame ↔ ∃ payload, codec.intoWriter value = .ok payload ∧
      1 ≤ payload.length ∧ payload.length ≤ maxFrameSize ∧ beBytes 4 payload.length ++ payload = frame := by
  rw [writeFrame]
  cases codec.intoWriter value with
  | error reason => simp
  | ok payload =>
      have hsize : maxFrameSize < UInt32.size := by decide
      have hempty : payload.isEmpty ↔ ¬ 1 ≤ payload.length := by simp
      simp only [hempty, ← Nat.not_le, Except.ok.injEq, exists_eq_left']
      by_cases hpos : 1 ≤ payload.length
      · by_cases hfits : payload.length ≤ maxFrameSize
        · have hwide : ¬ UInt32.size ≤ payload.length := Nat.not_le.mpr (Nat.lt_of_le_of_lt hfits hsize)
          simp [hpos, hfits, hwide]
        · simp [hpos, hfits]
      · simp [hpos]

theorem Fits.exists_frame (h : codec.Fits value) : ∃ frame, writeFrame codec value = .ok frame := by
  obtain ⟨payload, hpayload, hpos, hfits⟩ := h
  exact ⟨_, writeFrame_eq_ok.mpr ⟨payload, hpayload, hpos, hfits, rfl⟩⟩

/-- The length a frame starts with is that of its payload. -/
theorem beValue_header {n : Nat} (h : n ≤ maxFrameSize) : beValue (beBytes 4 n) = n := by
  rw [beValue_beBytes]
  exact Nat.mod_eq_of_lt (Nat.lt_of_le_of_lt h (by decide))

/-- The frame has the length it announces, and the value fills it. -/
def Holds (codec : WireCodec α) (frame : Blob) (value : α) : Prop :=
  ∃ payload, 1 ≤ payload.length ∧ payload.length ≤ maxFrameSize ∧ beBytes 4 payload.length ++ payload = frame ∧
    codec.fromReader payload = .ok (value, payload.length)

theorem holds_of_writeFrame (h : writeFrame codec value = .ok frame) : codec.Holds frame value := by
  obtain ⟨payload, hpayload, hpos, hfits, hframe⟩ := writeFrame_eq_ok.mp h
  exact ⟨payload, hpos, hfits, hframe, codec.fromReader_intoWriter hpayload⟩

/-- A frame is read as the value it holds, whatever follows it and however it arrives. -/
theorem Holds.readFrame {later : Blob} (hframe : codec.Holds frame value) (hchunks : Delivers chunks (frame ++ later)) :
    ∃ rest, readFrame codec chunks = .ok (value, rest) ∧ Delivers rest later := by
  obtain ⟨payload, hpos, hfits, rfl, hvalue⟩ := hframe
  rw [List.append_assoc] at hchunks
  obtain ⟨middle, hheader, hmiddle⟩ := hchunks.readExact_append
  obtain ⟨rest, hrest, hlater⟩ := hmiddle.readExact_append
  rw [length_beBytes] at hheader
  refine ⟨rest, ?_, hlater⟩
  simp only [WincredLibsecret.readFrame, hheader, beValue_header hfits, hrest, hvalue]
  rw [if_neg (by omega), if_neg (by omega), if_neg (by simp)]

/-- What a stream starts with is one frame at most. -/
theorem Holds.unique {other later rest : Blob} {found : α} (hframe : codec.Holds frame value)
    (hother : codec.Holds other found) (hsame : frame ++ later = other ++ rest) : value = found ∧ later = rest := by
  have hnonempty : frame ++ later ≠ [] := by
    obtain ⟨payload, hpos, -, rfl, -⟩ := hframe
    simp [← List.length_pos_iff, Nat.lt_of_lt_of_le Nat.zero_lt_one hpos]
  have hchunks : Delivers [frame ++ later] (frame ++ later) := .singleton hnonempty
  obtain ⟨left, hread, hleft⟩ := hframe.readFrame hchunks
  rw [hsame] at hchunks hread
  obtain ⟨left', hread', hleft'⟩ := hother.readFrame hchunks
  cases hread.symm.trans hread'
  exact ⟨rfl, hleft.flatten_eq.symm.trans hleft'.flatten_eq⟩

theorem readFrame_writeFrame {later : Blob} (hframe : writeFrame codec value = .ok frame)
    (hchunks : Delivers chunks (frame ++ later)) :
    ∃ rest, readFrame codec chunks = .ok (value, rest) ∧ Delivers rest later :=
  (holds_of_writeFrame hframe).readFrame hchunks

/-- A frame that was read is off the stream. -/
theorem length_of_readFrame {rest : List Blob} (h : readFrame codec chunks = .ok (value, rest)) :
    rest.flatten.length < chunks.flatten.length := by
  rw [readFrame] at h
  cases hheader : readExact 4 chunks with
  | none => simp [hheader] at h
  | some found =>
      rcases found with ⟨header, middle⟩
      have hfour := length_of_readExact hheader
      simp only [hheader] at h
      split_ifs at h with hzero hlarge
      cases hread : readExact (beValue header) middle with
      | none => simp [hread] at h
      | some found =>
          rcases found with ⟨payload, left⟩
          have hpayload := length_of_readExact hread
          simp only [hread] at h
          cases hvalue : codec.fromReader payload with
          | error reason => simp [hvalue] at h
          | ok decoded =>
              simp only [hvalue] at h
              split_ifs at h with hconsumed
              cases h
              omega

/-- A frame that was read has the length it announces, and one value fills it. -/
theorem readFrame_eq_ok {rest : List Blob} {stream : Blob} (hchunks : Delivers chunks stream)
    (h : readFrame codec chunks = .ok (value, rest)) :
    ∃ header payload later, stream = header ++ (payload ++ later) ∧ header.length = 4 ∧
      beValue header = payload.length ∧ 1 ≤ payload.length ∧ payload.length ≤ maxFrameSize ∧
      codec.fromReader payload = .ok (value, payload.length) ∧ Delivers rest later := by
  rw [readFrame] at h
  cases hheader : readExact 4 chunks with
  | none => simp [hheader] at h
  | some found =>
      rcases found with ⟨header, middle⟩
      obtain ⟨hlength, behind, rfl, hbehind⟩ := hchunks.of_readExact hheader
      simp only [hheader] at h
      split_ifs at h with hzero hlarge
      cases hread : readExact (beValue header) middle with
      | none => simp [hread] at h
      | some found =>
          rcases found with ⟨payload, left⟩
          obtain ⟨hpayload, later, rfl, hlater⟩ := hbehind.of_readExact hread
          simp only [hread] at h
          cases hvalue : codec.fromReader payload with
          | error reason => simp [hvalue] at h
          | ok decoded =>
              rcases decoded with ⟨decoded, consumed⟩
              simp only [hvalue] at h
              split_ifs at h with hconsumed
              cases h
              rw [not_not] at hconsumed
              refine ⟨header, payload, later, rfl, hlength, hpayload.symm, by omega, by omega, ?_, hlater⟩
              rw [hvalue, hconsumed, hpayload]

theorem holds_of_readFrame {rest : List Blob} {stream : Blob} (hchunks : Delivers chunks stream)
    (h : WincredLibsecret.readFrame codec chunks = .ok (value, rest)) :
    ∃ frame later, stream = frame ++ later ∧ codec.Holds frame value ∧ Delivers rest later := by
  obtain ⟨header, payload, later, hstream, hheader, hlength, hpos, hfits, hvalue, hrest⟩ := readFrame_eq_ok hchunks h
  have hframe : beBytes 4 payload.length ++ payload = header ++ payload := by
    rw [← hlength, ← hheader, beBytes_beValue]
  exact ⟨header ++ payload, later, by rw [hstream, List.append_assoc], ⟨payload, hpos, hfits, hframe, hvalue⟩, hrest⟩

/-- A frame of which the end is missing is no value. -/
theorem readFrame_truncated {stream : Blob} (hframe : writeFrame codec value = .ok frame)
    (hchunks : Delivers chunks stream) (hstarts : stream <+: frame) (hne : stream ≠ frame) :
    readFrame codec chunks = .error (.stream .unexpectedEof) := by
  obtain ⟨payload, hpayload, hpos, hfits, rfl⟩ := writeFrame_eq_ok.mp hframe
  have hshort : stream.length < 4 + payload.length := by
    have hle := hstarts.length_le
    rw [List.length_append, length_beBytes] at hle
    refine Nat.lt_of_le_of_ne hle fun heq => hne (hstarts.eq_of_length ?_)
    rw [heq, List.length_append, length_beBytes]
  rw [readFrame]
  by_cases hheader : stream.length < 4
  · rw [readExact_of_length_lt (hchunks.flatten_eq ▸ hheader)]
  · obtain ⟨behind, rfl⟩ := List.prefix_of_prefix_length_le (List.prefix_append (beBytes 4 payload.length) payload)
      hstarts (by rw [length_beBytes]; omega)
    obtain ⟨rest, hread, hrest⟩ := hchunks.readExact_append
    rw [length_beBytes] at hread
    rw [List.length_append, length_beBytes] at hshort
    have hbehind : rest.flatten.length < payload.length := by
      rw [hrest.flatten_eq]
      omega
    simp only [hread, beValue_header hfits, readExact_of_length_lt hbehind]
    rw [if_neg (by omega), if_neg (by omega)]

theorem exists_frames (h : ∀ value ∈ values, codec.Fits value) :
    ∃ frames, values.mapM (writeFrame codec) = .ok frames := by
  induction values with
  | nil => exact ⟨[], rfl⟩
  | cons value rest ih =>
      obtain ⟨hvalue, hrest⟩ := List.forall_mem_cons.mp h
      obtain ⟨frame, hframe⟩ := hvalue.exists_frame
      obtain ⟨frames, hframes⟩ := ih hrest
      exact ⟨frame :: frames, by rw [List.mapM_cons, hframe, hframes]; rfl⟩

theorem mapM_writeFrame_cons {frames : List Blob} (h : (value :: values).mapM (writeFrame codec) = .ok frames) :
    ∃ frame others, frames = frame :: others ∧ writeFrame codec value = .ok frame ∧
      values.mapM (writeFrame codec) = .ok others := by
  rw [List.mapM_cons] at h
  cases hframe : writeFrame codec value with
  | error error => simp [hframe, bind, Except.bind] at h
  | ok frame =>
      cases hothers : values.mapM (writeFrame codec) with
      | error error => simp [hframe, hothers, bind, Except.bind] at h
      | ok others =>
          simp only [hframe, hothers, bind, Except.bind, pure, Except.pure, Except.ok.injEq] at h
          exact ⟨frame, others, h.symm, rfl, rfl⟩

theorem readFrames_frames {frames : List Blob} {later : Blob} (hframes : values.mapM (writeFrame codec) = .ok frames)
    (hchunks : Delivers chunks (frames.flatten ++ later)) :
    ∃ rest, readFrames codec values.length chunks = (values, .ok rest) ∧ Delivers rest later := by
  induction values generalizing frames chunks with
  | nil =>
      cases hframes
      exact ⟨chunks, rfl, hchunks⟩
  | cons value values ih =>
      obtain ⟨frame, others, rfl, hframe, hothers⟩ := mapM_writeFrame_cons hframes
      rw [List.flatten_cons, List.append_assoc] at hchunks
      obtain ⟨middle, hread, hmiddle⟩ := readFrame_writeFrame hframe hchunks
      obtain ⟨rest, hrest, hlater⟩ := ih hothers hmiddle
      exact ⟨rest, by rw [List.length_cons, readFrames, hread]; simp only [hrest], hlater⟩

/-- What arrives of a stream that is cut off is read up to its last whole frame. -/
theorem readFrames_truncated {frames : List Blob} {stream : Blob}
    (hframes : values.mapM (writeFrame codec) = .ok frames) (hchunks : Delivers chunks stream)
    (hstarts : stream <+: frames.flatten) (hne : stream ≠ frames.flatten) :
    ∃ count < values.length, (frames.take count).flatten <+: stream ∧ ¬ (frames.take (count + 1)).flatten <+: stream ∧
      readFrames codec values.length chunks = (values.take count, .error (.stream .unexpectedEof)) := by
  induction values generalizing frames stream chunks with
  | nil =>
      cases hframes
      exact absurd (List.prefix_nil.mp hstarts) hne
  | cons value values ih =>
      obtain ⟨frame, others, rfl, hframe, hothers⟩ := mapM_writeFrame_cons hframes
      rw [List.flatten_cons] at hstarts hne
      by_cases hwhole : frame <+: stream
      · obtain ⟨behind, rfl⟩ := hwhole
        obtain ⟨middle, hread, hmiddle⟩ := readFrame_writeFrame hframe hchunks
        obtain ⟨count, hcount, hfront, hnext, hrest⟩ := ih hothers hmiddle
          ((List.prefix_append_right_inj frame).mp hstarts) fun h => hne (h ▸ rfl)
        refine ⟨count + 1, Nat.succ_lt_succ hcount, ?_, ?_, ?_⟩
        · exact (List.prefix_append_right_inj frame).mpr hfront
        · exact fun h => hnext ((List.prefix_append_right_inj frame).mp h)
        · rw [List.length_cons, readFrames, hread]
          simp only [hrest, List.take_succ_cons]
      · have hshort : stream <+: frame :=
          (List.prefix_or_prefix_of_prefix hstarts (List.prefix_append frame _)).resolve_right hwhole
        have hread := readFrame_truncated hframe hchunks hshort fun h => hwhole (h ▸ List.prefix_rfl)
        refine ⟨0, Nat.succ_pos _, List.nil_prefix, by simpa using hwhole, ?_⟩
        rw [List.length_cons, readFrames, hread]
        rfl

/-- Frames are read as they were written. Values that fit their frames are read back one after the other,
whatever follows them and in whatever pieces the stream arrives. A value is read only from a frame that has
the announced length and that this value fills. A stream that is cut off gives the values of its whole
frames and then an I/O error. -/
theorem frame_streams_round_trip (codec : WireCodec α) :
    (∀ values : List α, (∀ value ∈ values, codec.Fits value) →
      ∃ frames, values.mapM (writeFrame codec) = .ok frames ∧
        (∀ (later : Blob) (chunks : List Blob), Delivers chunks (frames.flatten ++ later) →
          ∃ rest, readFrames codec values.length chunks = (values, .ok rest) ∧ Delivers rest later) ∧
        ∀ (stream : Blob) (chunks : List Blob), Delivers chunks stream → stream <+: frames.flatten →
          stream ≠ frames.flatten →
          ∃ count < values.length, (frames.take count).flatten <+: stream ∧
            ¬ (frames.take (count + 1)).flatten <+: stream ∧
            readFrames codec values.length chunks = (values.take count, .error (.stream .unexpectedEof))) ∧
    ∀ (stream : Blob) (chunks rest : List Blob) (value : α), Delivers chunks stream →
      readFrame codec chunks = .ok (value, rest) →
      ∃ header payload later, stream = header ++ (payload ++ later) ∧ header.length = 4 ∧
        beValue header = payload.length ∧ 1 ≤ payload.length ∧ payload.length ≤ maxFrameSize ∧
        codec.fromReader payload = .ok (value, payload.length) ∧ Delivers rest later := by
  refine ⟨fun values hvalues => ?_, fun stream chunks rest value hchunks h => readFrame_eq_ok hchunks h⟩
  obtain ⟨frames, hframes⟩ := exists_frames hvalues
  refine ⟨frames, hframes, fun later chunks hchunks => readFrames_frames hframes hchunks, ?_⟩
  intro stream chunks hchunks hstarts hne
  exact readFrames_truncated hframes hchunks hstarts hne

end WireCodec

end WincredLibsecret
