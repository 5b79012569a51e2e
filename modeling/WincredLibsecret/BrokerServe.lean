import WincredLibsecret.BrokerAnswers
import WincredLibsecret.ProtocolWire

/-! The broker process: it recovers the vault, greets its client and answers requests one by one until the
client closes the stream. Whatever bytes arrive, the process executes the requests at the front of the stream,
each once and in order, and a request is read only after the one before it was answered. -/

namespace WincredLibsecret

open Effect ByteStream

/-- The codecs of the stream. What is written is encoded as the format says; a reader may accept more. -/
structure Wire where
  hello : WireCodec (Envelope Hello)
  acknowledgement : WireCodec (Envelope HelloAck)
  request : WireCodec (Envelope Request)
  response : WireCodec (Envelope Response)
  acknowledgement_intoWriter : acknowledgement.intoWriter = acknowledgementCodec.intoWriter
  response_intoWriter : response.intoWriter = responseCodec.intoWriter

/-- The stream between two programs that read exactly what is written. -/
def cborWire : Wire := ⟨helloCodec, acknowledgementCodec, requestCodec, responseCodec, rfl, rfl⟩

/-- How the process ends. -/
inductive ServeEnd where
  | finished
  | failed (error : ProtocolError)
  | killed
  deriving DecidableEq

/-- What the process has written, how it ended and the vault it leaves. -/
structure Served where
  written : Blob
  ending : ServeEnd
  vault : Vault

/-- Puts what was written before in front. -/
def Served.behind (front : Blob) (served : Served) : Served := { served with written := front ++ served.written }

/-- How many bytes the client still takes before it closes its end; `none` if it takes all. -/
abbrev Room := Option Nat

/-- Writes a frame, or the part of it that is taken. -/
def Room.take : Room → Blob → Except Blob Room
  | none, _ => .ok none
  | some room, frame => if frame.length ≤ room then .ok (some (room - frame.length)) else .error (frame.take room)

/-- Writes the frame of a value and goes on, or ends with the failure. -/
def Served.send {α : Type} (codec : WireCodec α) (value : α) (room : Room) (vault : Vault) (next : Room → Served) :
    Served :=
  match writeFrame codec value with
  | .error error => ⟨[], .failed error, vault⟩
  | .ok frame =>
      match room.take frame with
      | .error part => ⟨part, .failed (.stream .other), vault⟩
      | .ok left => (next left).behind frame

/-- All the capabilities of the broker. -/
def serverCapabilities : Finset Capability :=
  {.binarySecrets, .collections, .aliases, .generationCommits, .reconciliation, .atomicItemMutations}

namespace Broker

variable (broker : Broker)

/-- The answer to one request, with the fates of the backend calls made for it. -/
def answerTo (negotiated : UInt16) (envelope : Envelope Request) (fates : Fates BackendError) (vault : Vault) :
    Ending BackendError Vault (Except BrokerError ResponseBody) :=
  if envelope.version = negotiated then broker.respond ⟨envelope.payload.operation, fates⟩ vault
  else ⟨.returned (.error ⟨.unsupportedVersion, "request protocol version was not negotiated"⟩), vault, fates⟩

/-- The loop of the process: the n-th request has the n-th fates. -/
def serveLoop (wire : Wire) (negotiated : UInt16) (fates : Nat → Fates BackendError) (room : Room)
    (chunks : List Blob) (vault : Vault) : Served :=
  match _hread : readFrame wire.request chunks with
  | .error error => ⟨[], if error = .stream .unexpectedEof then .finished else .failed error, vault⟩
  | .ok (envelope, rest) =>
      let ending := broker.answerTo negotiated envelope (fates 0) vault
      match ending.outcome with
      | .killed => ⟨[], .killed, ending.state⟩
      | .returned result =>
          Served.send wire.response (.current ⟨envelope.payload.requestId, result⟩) room ending.state fun left =>
            serveLoop wire negotiated (fun n => fates (n + 1)) left rest ending.state
  termination_by chunks.flatten.length
  decreasing_by exact WireCodec.length_of_readFrame _hread

/-- The handshake. -/
def handshake (hello : Envelope Hello) : Except ProtocolError HelloAck := do
  hello.validateVersion
  negotiate hello.payload .current serverCapabilities

def serve (wire : Wire) (fates : Nat → Fates BackendError) (room : Room) (chunks : List Blob) (vault : Vault) :
    Served :=
  match readFrame wire.hello chunks with
  | .error error => ⟨[], .failed error, vault⟩
  | .ok (hello, rest) =>
      match handshake hello with
      | .error error => ⟨[], .failed error, vault⟩
      | .ok acknowledgement =>
          Served.send wire.acknowledgement (.current acknowledgement) room vault fun left =>
            broker.serveLoop wire acknowledgement.version fates left rest vault

/-- The process recovers the vault before it serves; a recovery that fails is put off. -/
def run (wire : Wire) (startup : Fates BackendError) (fates : Nat → Fates BackendError) (room : Room)
    (chunks : List Blob) (vault : Vault) : Served :=
  let ending := Action.execute broker.backend.serve broker.reconcile startup vault
  match ending.outcome with
  | .killed => ⟨[], .killed, ending.state⟩
  | .returned _ => broker.serve wire fates room chunks ending.state

/-- The requests that are executed are those of the negotiated version. -/
def executed (negotiated : UInt16) : (Nat → Fates BackendError) → List (Envelope Request) → List BrokerStep
  | _, [] => []
  | fates, envelope :: rest =>
      let others := executed negotiated (fun n => fates (n + 1)) rest
      if envelope.version = negotiated then ⟨envelope.payload.operation, fates 0⟩ :: others else others

/-- The responses to requests, as far as the process lives. -/
def responses (negotiated : UInt16) :
    (Nat → Fates BackendError) → List (Envelope Request) → Vault → List Response
  | _, [], _ => []
  | fates, envelope :: rest, vault =>
      let ending := broker.answerTo negotiated envelope (fates 0) vault
      match ending.outcome with
      | .killed => []
      | .returned result =>
          ⟨envelope.payload.requestId, result⟩ :: responses negotiated (fun n => fates (n + 1)) rest ending.state

/-- The frames of responses, in their order; one that is too large is an error. -/
def due (wire : Wire) (responses : List Response) : List (Except ProtocolError Blob) :=
  responses.map fun response => writeFrame wire.response (.current response)

end Broker

theorem WireCodec.Holds.length_pos {α : Type} {codec : WireCodec α} {frame : Blob} {value : α}
    (h : codec.Holds frame value) : 0 < frame.length := by
  obtain ⟨payload, hpos, -, rfl, -⟩ := h
  rw [List.length_append]
  omega

theorem WireCodec.forall₂_holds {α : Type} {codec : WireCodec α} {values : List α} {frames : List Blob}
    (h : values.mapM (writeFrame codec) = .ok frames) : List.Forall₂ codec.Holds frames values := by
  induction values generalizing frames with
  | nil =>
      cases h
      exact .nil
  | cons value rest ih =>
      obtain ⟨frame, others, rfl, hframe, hothers⟩ := mapM_writeFrame_cons h
      exact .cons (holds_of_writeFrame hframe) (ih hothers)

theorem WireCodec.exists_holds_of_isOk {α : Type} {codec : WireCodec α} {value : α}
    (h : (writeFrame codec value).isOk = true) : ∃ frame, codec.Holds frame value := by
  cases hframe : writeFrame codec value with
  | error error => rw [hframe] at h; cases h
  | ok frame => exact ⟨frame, WireCodec.holds_of_writeFrame hframe⟩

/-- Of the frames that are due so many have been written, and at most a part of the next. -/
def Wrote (due : List (Except ProtocolError Blob)) (count : Nat) (written : Blob) : Prop :=
  ∃ (frames : List Blob) (part : Blob), frames.length = count ∧ due.take count = frames.map .ok ∧
    written = frames.flatten ++ part ∧
    (part = [] ∨ ∃ frame, due[count]? = some (.ok frame) ∧ part <+: frame ∧ part ≠ frame)

theorem wrote_nothing (due : List (Except ProtocolError Blob)) : Wrote due 0 [] :=
  ⟨[], [], rfl, rfl, rfl, .inl rfl⟩

theorem Wrote.cons {due : List (Except ProtocolError Blob)} {count : Nat} {written : Blob} (h : Wrote due count written)
    (frame : Blob) : Wrote (.ok frame :: due) (count + 1) (frame ++ written) := by
  obtain ⟨frames, part, rfl, hdue, rfl, hpart⟩ := h
  refine ⟨frame :: frames, part, rfl, ?_, ?_, hpart⟩
  · rw [List.take_succ_cons, hdue, List.map_cons]
  · rw [List.flatten_cons, List.append_assoc]

/-- A frame that is taken shortens the room, one that is not leaves a part. -/
theorem Room.part_of_take {room : Room} {frame part : Blob} (h : room.take frame = .error part) :
    part <+: frame ∧ part ≠ frame := by
  cases room with
  | none => cases h
  | some room =>
      rw [Room.take] at h
      split_ifs at h with hfits
      cases h
      refine ⟨List.take_prefix room frame, fun heq => hfits ?_⟩
      have hlength := congrArg List.length heq
      rw [List.length_take] at hlength
      omega

/-- Sending ends with nothing or a part written, or goes on behind the frame. -/
theorem Served.send_cases {α : Type} (codec : WireCodec α) (value : α) (room : Room) (vault : Vault)
    (next : Room → Served) (due : List (Except ProtocolError Blob)) :
    let served := Served.send codec value room vault next
    (served.vault = vault ∧ served.ending ≠ .finished ∧ Wrote (writeFrame codec value :: due) 0 served.written) ∨
      ∃ frame left, writeFrame codec value = .ok frame ∧ room.take frame = .ok left ∧
        served = (next left).behind frame := by
  intro served
  cases hframe : writeFrame codec value with
  | error error =>
      refine .inl ?_
      simp only [served, Served.send, hframe]
      exact ⟨trivial, by simp, wrote_nothing _⟩
  | ok frame =>
      cases htake : room.take frame with
      | error part =>
          refine .inl ?_
          simp only [served, Served.send, hframe, htake]
          exact ⟨trivial, by simp, [], part, rfl, rfl, rfl, .inr ⟨frame, rfl, Room.part_of_take htake⟩⟩
      | ok left => exact .inr ⟨frame, left, rfl, htake, by simp only [served, Served.send, hframe, htake]⟩

namespace Broker

variable {broker : Broker} {wire : Wire} {negotiated : UInt16} {fates : Nat → Fates BackendError} {room : Room}
  {chunks : List Blob} {vault : Vault}

theorem serveLoop_of_error {error : ProtocolError} (h : readFrame wire.request chunks = .error error) :
    broker.serveLoop wire negotiated fates room chunks vault =
      ⟨[], if error = .stream .unexpectedEof then .finished else .failed error, vault⟩ := by
  rw [serveLoop]
  split
  · rename_i found hfound
    cases hfound.symm.trans h
    rfl
  · rename_i hfound
    cases hfound.symm.trans h

variable {envelope : Envelope Request} {requests : List (Envelope Request)}

theorem serveLoop_of_ok {rest : List Blob} (h : readFrame wire.request chunks = .ok (envelope, rest)) :
    broker.serveLoop wire negotiated fates room chunks vault =
      match (broker.answerTo negotiated envelope (fates 0) vault).outcome with
      | .killed => ⟨[], .killed, (broker.answerTo negotiated envelope (fates 0) vault).state⟩
      | .returned result =>
          Served.send wire.response (.current ⟨envelope.payload.requestId, result⟩) room
            (broker.answerTo negotiated envelope (fates 0) vault).state fun left =>
              broker.serveLoop wire negotiated (fun n => fates (n + 1)) left rest
                (broker.answerTo negotiated envelope (fates 0) vault).state := by
  rw [serveLoop]
  split
  · rename_i hfound
    cases hfound.symm.trans h
  · rename_i hfound
    cases hfound.symm.trans h
    rfl

theorem after_executed_cons (envelope : Envelope Request) (rest : List (Envelope Request)) :
    broker.after (executed negotiated fates (envelope :: rest)) vault =
      broker.after (executed negotiated (fun n => fates (n + 1)) rest)
        (broker.answerTo negotiated envelope (fates 0) vault).state := by
  rw [executed, answerTo]
  split_ifs
  · rfl
  · rfl

variable (broker wire negotiated fates vault) in
/-- The requests were at the front of the stream, the vault is what executing them leaves, and all of them but
perhaps the last have been answered. A process that ends of itself has answered all and left no whole request. -/
structure Conversation (stream : Blob) (served : Served) (requests : List (Envelope Request)) (answered : Nat) :
    Prop where
  read : ∃ frames later, stream = List.flatten frames ++ later ∧ List.Forall₂ wire.request.Holds frames requests ∧
    (served.ending = .finished → ∀ frame value, wire.request.Holds frame value → ¬ frame <+: later)
  vault_eq : served.vault = broker.after (executed negotiated fates requests) vault
  wrote : Wrote (due wire (broker.responses negotiated fates requests vault)) answered served.written
  prompt : requests.length ≤ answered + 1
  complete : served.ending = .finished → answered = requests.length

/-- Nothing was read. -/
theorem conversation_nil {stream : Blob} {served : Served} (hvault : served.vault = vault)
    (hwritten : served.written = [])
    (hrest : served.ending = .finished → ∀ frame value, wire.request.Holds frame value → ¬ frame <+: stream) :
    broker.Conversation wire negotiated fates vault stream served [] 0 where
  read := ⟨[], stream, rfl, .nil, hrest⟩
  vault_eq := hvault
  wrote := hwritten ▸ wrote_nothing _
  prompt := Nat.zero_le _
  complete := fun _ => rfl

/-- The last request was executed, but its answer was not written. -/
theorem conversation_last {frame later : Blob} {served : Served} (hframe : wire.request.Holds frame envelope)
    (hending : served.ending ≠ .finished)
    (hvault : served.vault = (broker.answerTo negotiated envelope (fates 0) vault).state)
    (hwrote : Wrote (due wire (broker.responses negotiated fates [envelope] vault)) 0 served.written) :
    broker.Conversation wire negotiated fates vault (frame ++ later) served [envelope] 0 where
  read := ⟨[frame], later, by rw [List.flatten_singleton], .cons hframe .nil, fun h => absurd h hending⟩
  vault_eq := hvault.trans (after_executed_cons envelope []).symm
  wrote := hwrote
  prompt := Nat.le_refl _
  complete := fun h => absurd h hending

/-- A request was answered before the rest of the conversation. -/
theorem Conversation.cons {frame later answer : Blob} {served : Served} {answered : Nat}
    {result : Except BrokerError ResponseBody}
    (hrest : broker.Conversation wire negotiated (fun n => fates (n + 1))
      (broker.answerTo negotiated envelope (fates 0) vault).state later served requests answered)
    (hframe : wire.request.Holds frame envelope)
    (hresult : (broker.answerTo negotiated envelope (fates 0) vault).outcome = .returned result)
    (hanswer : writeFrame wire.response (.current ⟨envelope.payload.requestId, result⟩) = .ok answer) :
    broker.Conversation wire negotiated fates vault (frame ++ later) (served.behind answer) (envelope :: requests)
      (answered + 1) where
  read := by
    obtain ⟨frames, behind, rfl, hframes, hbehind⟩ := hrest.read
    exact ⟨frame :: frames, behind, by rw [List.flatten_cons, List.append_assoc], .cons hframe hframes, hbehind⟩
  vault_eq := hrest.vault_eq.trans (after_executed_cons envelope requests).symm
  wrote := by
    have hwrote := hrest.wrote.cons answer
    rw [← hanswer] at hwrote
    simp only [responses, hresult]
    exact hwrote
  prompt := Nat.succ_le_succ hrest.prompt
  complete := fun h => congrArg (· + 1) (hrest.complete h)

theorem exists_conversation {stream : Blob} (hchunks : Delivers chunks stream) :
    ∃ requests answered, broker.Conversation wire negotiated fates vault stream
      (broker.serveLoop wire negotiated fates room chunks vault) requests answered := by
  -- a frame that is read is off the stream
  induction hlength : stream.length using Nat.strong_induction_on generalizing stream chunks fates room vault with
  | _ length ih =>
      cases hread : readFrame wire.request chunks with
      | error error =>
          rw [serveLoop_of_error hread]
          refine ⟨[], 0, conversation_nil rfl rfl fun _ frame value hframe hfront => ?_⟩
          obtain ⟨later, rfl⟩ := hfront
          obtain ⟨rest, hfound, -⟩ := hframe.readFrame hchunks
          cases hread.symm.trans hfound
      | ok found =>
          rcases found with ⟨envelope, rest⟩
          obtain ⟨frame, later, rfl, hframe, hrest⟩ := WireCodec.holds_of_readFrame hchunks hread
          rw [serveLoop_of_ok hread]
          cases houtcome : (broker.answerTo negotiated envelope (fates 0) vault).outcome with
          | killed => exact ⟨[envelope], 0, conversation_last hframe (by simp) rfl (wrote_nothing _)⟩
          | returned result =>
              have hdue : due wire (broker.responses negotiated fates [envelope] vault) =
                  [writeFrame wire.response (.current ⟨envelope.payload.requestId, result⟩)] := by
                simp only [responses, houtcome, due, List.map_cons, List.map_nil]
              rcases Served.send_cases wire.response (.current ⟨envelope.payload.requestId, result⟩) room
                  (broker.answerTo negotiated envelope (fates 0) vault).state
                  (fun left => broker.serveLoop wire negotiated (fun n => fates (n + 1)) left rest
                    (broker.answerTo negotiated envelope (fates 0) vault).state) [] with
                ⟨hvault, hending, hwrote⟩ | ⟨answer, left, hanswer, -, hserved⟩
              · exact ⟨[envelope], 0, conversation_last hframe hending hvault (hdue ▸ hwrote)⟩
              · have hpos := hframe.length_pos
                rw [List.length_append] at hlength
                obtain ⟨requests, answered, hconversation⟩ := ih later.length (by omega) hrest rfl
                dsimp only
                rw [hserved]
                exact ⟨_, _, hconversation.cons hframe houtcome hanswer⟩

theorem eq_of_common {minimum maximum version : UInt16} (h : ¬ min maximum version < max minimum version) :
    min maximum version = version := by
  simp only [Min.min, Max.max] at h ⊢
  rw [UInt16.lt_iff_toNat_lt] at h
  split_ifs at h ⊢ <;> simp only [UInt16.le_iff_toNat_le, ← UInt16.toNat_inj] at * <;> omega

/-- The server speaks one version, so this is the one negotiated. -/
theorem version_of_handshake {hello : Envelope Hello} {acknowledgement : HelloAck}
    (h : handshake hello = .ok acknowledgement) : acknowledgement.version = protocolVersion := by
  rw [handshake] at h
  cases hvalid : hello.validateVersion with
  | error error =>
      rw [hvalid] at h
      cases h
  | ok value =>
      rw [hvalid] at h
      change negotiate _ _ _ = _ at h
      rw [negotiate] at h
      split_ifs at h with hcommon
      cases h
      exact eq_of_common hcommon

theorem bodyFits_length {body : ResponseBody} (h : BodyFits body) (requestId : UInt64) :
    ((Envelope.current (⟨requestId, .ok body⟩ : Response)).encode Response.encode).length ≤ maxFrameSize := by
  have henvelope := Envelope.length_encode_le Response.encode (.current ⟨requestId, .ok body⟩)
  have hresponse := Response.length_encode_le ⟨requestId, .ok body⟩
  have hresult := length_encodeResult_ok_le body
  have hbody := h.length_le
  simp only [Envelope.current, maxFrameSize] at henvelope hresponse hbody ⊢
  omega

theorem brief_length {error : BrokerError} (h : error.Brief) (requestId : UInt64) :
    ((Envelope.current (⟨requestId, .error error⟩ : Response)).encode Response.encode).length ≤ maxFrameSize := by
  have henvelope := Envelope.length_encode_le Response.encode (.current ⟨requestId, .error error⟩)
  have hresponse := Response.length_encode_le ⟨requestId, .error error⟩
  have hresult := length_encodeResult_error_le error
  unfold BrokerError.Brief at h
  simp only [Envelope.current, maxFrameSize] at henvelope hresponse ⊢
  omega

/-- A result of a bounded size. -/
def ResultFits : Except BrokerError ResponseBody → Prop
  | .ok body => BodyFits body
  | .error error => error.Brief

theorem fits_response {response : Response} (h : ResultFits response.result) :
    wire.response.Fits (.current response) := by
  have hpos : 1 ≤ ((Envelope.current response).encode Response.encode).length := by
    rw [Envelope.encode, Cbor.length_record]
    omega
  have hfits : ((Envelope.current response).encode Response.encode).length ≤ maxFrameSize ∧
      response.counted = true := by
    rcases response with ⟨requestId, result⟩
    cases result with
    | error error => exact ⟨brief_length h requestId, rfl⟩
    | ok body =>
        refine ⟨bodyFits_length h requestId, ?_⟩
        cases body with
        | reconciled removed corrupt => exact decide_eq_true (h.counted removed corrupt rfl)
        | _ => rfl
  refine ⟨_, ?_, hpos, hfits.1⟩
  rw [wire.response_intoWriter]
  exact intoWriter_wireCodec hfits.2 (Nat.lt_of_le_of_lt hfits.1 (by decide))

/-- The answer to a request fits its frame; the vault matters only if the request is executed. -/
theorem fits_answerTo {fates : Fates BackendError} (hroomy : envelope.version = negotiated → broker.Roomy vault)
    (hfates : fates.Within BackendError.Brief) {result : Except BrokerError ResponseBody}
    (hresult : (broker.answerTo negotiated envelope fates vault).outcome = .returned result) (requestId : UInt64) :
    wire.response.Fits (.current ⟨requestId, result⟩) := by
  rw [answerTo] at hresult
  split_ifs at hresult with hversion
  · have hends := Action.execute_of_wp ((hroomy hversion).execute envelope.payload.operation) hfates hresult
    refine fits_response ?_
    cases result with
    | ok body => exact hends
    | error error => exact hends
  · cases hresult
    exact fits_response
      (by decide : BrokerError.Brief ⟨.unsupportedVersion, "request protocol version was not negotiated"⟩)

theorem exists_answerTo {fates : Fates BackendError} (halive : ∀ n, fates n ≠ .kill) (envelope : Envelope Request) :
    ∃ result, (broker.answerTo negotiated envelope fates vault).outcome = .returned result := by
  rw [answerTo]
  split_ifs
  · exact Program.exists_returned halive _ vault
  · exact ⟨_, rfl⟩

/-- A process that is not killed has a response for every request, and with room in the vault all of them fit. -/
theorem responses_fit (hfates : ∀ n, (fates n).Within BackendError.Brief) (halive : ∀ n k, fates n k ≠ .kill)
    (hroomy : ∀ start ∈ broker.starts (executed negotiated fates requests) vault, broker.Roomy start.2) :
    (broker.responses negotiated fates requests vault).map Response.requestId =
        requests.map (fun envelope => envelope.payload.requestId) ∧
      ∀ response ∈ broker.responses negotiated fates requests vault, wire.response.Fits (.current response) := by
  induction requests generalizing fates vault with
  | nil => exact ⟨rfl, List.forall_mem_nil _⟩
  | cons envelope rest ih =>
      obtain ⟨result, hresult⟩ : ∃ result,
          (broker.answerTo negotiated envelope (fates 0) vault).outcome = .returned result :=
        exists_answerTo (halive 0) envelope
      have hfirst : envelope.version = negotiated → broker.Roomy vault := by
        intro hversion
        rw [executed, if_pos hversion, starts] at hroomy
        exact (List.forall_mem_cons.mp hroomy).1
      have hrest : ∀ start ∈ broker.starts (executed negotiated (fun n => fates (n + 1)) rest)
          (broker.answerTo negotiated envelope (fates 0) vault).state, broker.Roomy start.2 := by
        rw [executed] at hroomy
        rw [answerTo]
        split_ifs at hroomy ⊢
        · exact (List.forall_mem_cons.mp hroomy).2
        · exact hroomy
      obtain ⟨hids, hfit⟩ := ih (fun n => hfates (n + 1)) (fun n => halive (n + 1)) hrest
      simp only [responses, hresult, List.map_cons, hids]
      exact ⟨trivial, List.forall_mem_cons.mpr ⟨fits_answerTo hfirst (hfates 0) hresult _, hfit⟩⟩

/-- With responses that fit and a client that takes them all, the loop answers every request. -/
theorem serveLoop_answers {frames answers : List Blob} (hframes : List.Forall₂ wire.request.Holds frames requests)
    (hchunks : Delivers chunks frames.flatten) (halive : ∀ n k, fates n k ≠ .kill)
    (hanswers : ((broker.responses negotiated fates requests vault).map Envelope.current).mapM
      (writeFrame wire.response) = .ok answers) :
    broker.serveLoop wire negotiated fates none chunks vault =
      ⟨answers.flatten, .finished, broker.after (executed negotiated fates requests) vault⟩ := by
  induction hframes generalizing fates vault chunks answers with
  | nil =>
      obtain rfl := hchunks.eq_nil
      cases hanswers
      have hend : readFrame wire.request [] = .error (.stream .unexpectedEof) := rfl
      rw [serveLoop_of_error hend]
      rfl
  | @cons frame envelope others rest hframe hothers ih =>
      obtain ⟨left, hread, hleft⟩ := hframe.readFrame hchunks
      obtain ⟨result, hresult⟩ : ∃ result,
          (broker.answerTo negotiated envelope (fates 0) vault).outcome = .returned result :=
        exists_answerTo (halive 0) envelope
      simp only [responses, hresult, List.map_cons] at hanswers
      obtain ⟨answer, later, rfl, hanswer, hlater⟩ := WireCodec.mapM_writeFrame_cons hanswers
      have hloop := ih hleft (fun n => halive (n + 1)) hlater
      rw [serveLoop_of_ok hread, hresult, after_executed_cons]
      simp only [Served.send, hanswer, Room.take, hloop]
      rfl

theorem length_encodeCapabilities_le (capabilities : Finset Capability) :
    (encodeCapabilities capabilities).length ≤ 189 := by
  have hnames : ∀ name ∈ (Capability.all.filter (· ∈ capabilities)).map fun capability => Cbor.text capability.name,
      name.length ≤ 30 := by
    intro name hname
    obtain ⟨capability, -, rfl⟩ := List.mem_map.mp hname
    cases capability <;> decide
  have harray := Cbor.length_array_le hnames
  have hcount : (Capability.all.filter (· ∈ capabilities)).length ≤ 6 := List.length_filter_le _ _
  rw [List.length_map] at harray
  rw [encodeCapabilities]
  omega

theorem fits_acknowledgement (acknowledgement : HelloAck) :
    wire.acknowledgement.Fits (.current acknowledgement) := by
  have hpos : 1 ≤ ((Envelope.current acknowledgement).encode HelloAck.encode).length := by
    rw [Envelope.encode, Cbor.length_record]
    omega
  have hfits : ((Envelope.current acknowledgement).encode HelloAck.encode).length ≤ maxFrameSize := by
    have henvelope := Envelope.length_encode_le HelloAck.encode (.current acknowledgement)
    have hversion := Cbor.length_uint_le acknowledgement.version.toNat
    have hcapabilities := length_encodeCapabilities_le acknowledgement.capabilities
    have hrecord : acknowledgement.encode.length ≤ _ := Cbor.length_record_le rfl
    simp only [List.map_cons, List.map_nil, List.sum_cons, List.sum_nil] at hrecord
    simp only [Envelope.current, maxFrameSize] at henvelope ⊢
    omega
  refine ⟨_, ?_, hpos, hfits⟩
  rw [wire.acknowledgement_intoWriter]
  exact intoWriter_wireCodec rfl (Nat.lt_of_le_of_lt hfits (by decide))

instance (vault : Vault) : Decidable (broker.Roomy vault) :=
  decidable_of_iff (_ ∧ _ ∧ _ ∧ _) ⟨fun ⟨h₁, h₂, h₃, h₄⟩ => ⟨h₁, h₂, h₃, h₄⟩, fun ⟨h₁, h₂, h₃, h₄⟩ => ⟨h₁, h₂, h₃, h₄⟩⟩

/-- A greeting that is accepted is acknowledged, and the loop goes on behind it. -/
theorem serve_of_greeting {hello : Envelope Hello} {acknowledgement : HelloAck} {greeting later : Blob}
    (hgreeting : wire.hello.Holds greeting hello) (hhandshake : handshake hello = .ok acknowledgement)
    (hchunks : Delivers chunks (greeting ++ later)) :
    ∃ front rest, writeFrame wire.acknowledgement (.current acknowledgement) = .ok front ∧ Delivers rest later ∧
      broker.serve wire fates none chunks vault =
        (broker.serveLoop wire protocolVersion fates none rest vault).behind front := by
  obtain ⟨rest, hread, hrest⟩ := hgreeting.readFrame hchunks
  have hfits : wire.acknowledgement.Fits (.current acknowledgement) := fits_acknowledgement acknowledgement
  obtain ⟨front, hfront⟩ := hfits.exists_frame
  refine ⟨front, rest, hfront, hrest, ?_⟩
  simp only [serve, hread, hhandshake, version_of_handshake hhandshake, Served.send, hfront, Room.take]

/-- The recovery at the start of the process is the request for one. -/
theorem run_eq (wire : Wire) (startup : Fates BackendError) (fates : Nat → Fates BackendError) (room : Room)
    (chunks : List Blob) (vault : Vault) :
    broker.run wire startup fates room chunks vault =
      match (broker.respond ⟨.reconcile, startup⟩ vault).outcome with
      | .killed => ⟨[], .killed, (broker.respond ⟨.reconcile, startup⟩ vault).state⟩
      | .returned _ => broker.serve wire fates room chunks (broker.respond ⟨.reconcile, startup⟩ vault).state := rfl

/-- A client that keeps to the protocol is answered to the end, if every response fits its frame. -/
theorem run_of_fits {startup : Fates BackendError} {hello : Envelope Hello} {acknowledgement : HelloAck}
    {greeting : Blob} {frames : List Blob} (hstartup : ∀ n, startup n ≠ .kill) (halive : ∀ n k, fates n k ≠ .kill)
    (hgreeting : wire.hello.Holds greeting hello) (hhandshake : handshake hello = .ok acknowledgement)
    (hframes : List.Forall₂ wire.request.Holds frames requests) (hchunks : Delivers chunks (greeting ++ frames.flatten))
    (hfit : ∀ response ∈ broker.responses protocolVersion fates requests
      (broker.respond ⟨.reconcile, startup⟩ vault).state, wire.response.Fits (.current response)) :
    ∃ answer answers, writeFrame wire.acknowledgement (.current acknowledgement) = .ok answer ∧
      ((broker.responses protocolVersion fates requests (broker.respond ⟨.reconcile, startup⟩ vault).state).map
        Envelope.current).mapM (writeFrame wire.response) = .ok answers ∧
      broker.run wire startup fates none chunks vault = ⟨answer ++ answers.flatten, .finished,
        broker.after (⟨.reconcile, startup⟩ :: executed protocolVersion fates requests) vault⟩ := by
  obtain ⟨outcome, houtcome⟩ : ∃ outcome, (broker.respond ⟨.reconcile, startup⟩ vault).outcome = .returned outcome :=
    Program.exists_returned hstartup _ vault
  obtain ⟨answer, rest, hanswer, hrest, hserve⟩ := serve_of_greeting hgreeting hhandshake hchunks
  obtain ⟨answers, hanswers⟩ := WireCodec.exists_frames (List.forall_mem_map.mpr hfit)
  refine ⟨answer, answers, hanswer, hanswers, ?_⟩
  have hloop := serveLoop_answers hframes hrest halive hanswers
  rw [run_eq, houtcome]
  exact hserve.trans (congrArg (Served.behind answer) hloop)

/-- Whatever bytes arrive and in whatever pieces, whichever backend calls fail or kill the process, and wherever
the client stops taking answers: either there is no accepted greeting, and the process only recovers the vault,
or the requests behind the greeting are executed, each once and in their order, and the answers are written in
the same order, each before the next request is read. A process that ends of itself has answered everything. -/
theorem run_executes_each_request_once (broker : Broker) (wire : Wire) (startup : Fates BackendError)
    (fates : Nat → Fates BackendError) (room : Room) (vault : Vault) (stream : Blob) (chunks : List Blob)
    (hchunks : Delivers chunks stream) :
    let served := broker.run wire startup fates room chunks vault
    let recovery := broker.respond ⟨.reconcile, startup⟩ vault
    (served.written = [] ∧ served.vault = recovery.state ∧ served.ending ≠ .finished ∧
      (recovery.outcome = .killed ∨ ∀ greeting hello acknowledgement, wire.hello.Holds greeting hello →
        greeting <+: stream → handshake hello ≠ .ok acknowledgement)) ∨
    ∃ greeting hello acknowledgement frames requests behind written,
      stream = greeting ++ (List.flatten frames ++ behind) ∧ wire.hello.Holds greeting hello ∧
      handshake hello = .ok acknowledgement ∧ List.Forall₂ wire.request.Holds frames requests ∧
      served.vault = broker.after (⟨.reconcile, startup⟩ :: executed protocolVersion fates requests) vault ∧
      Wrote (writeFrame wire.acknowledgement (.current acknowledgement) ::
        due wire (broker.responses protocolVersion fates requests recovery.state)) written served.written ∧
      requests.length ≤ written ∧
      (served.ending = .finished → written = requests.length + 1 ∧
        ∀ frame value, wire.request.Holds frame value → ¬ frame <+: behind) := by
  intro served recovery
  have hrun : served = match recovery.outcome with
      | .killed => ⟨[], .killed, recovery.state⟩
      | .returned _ => broker.serve wire fates room chunks recovery.state := run_eq wire startup fates room chunks vault
  cases hrecovery : recovery.outcome with
  | killed =>
      rw [hrecovery] at hrun
      rw [hrun]
      exact .inl ⟨rfl, rfl, by simp, .inl rfl⟩
  | returned result =>
      rw [hrecovery] at hrun
      dsimp only at hrun
      rw [serve] at hrun
      cases hread : readFrame wire.hello chunks with
      | error error =>
          rw [hread] at hrun
          rw [hrun]
          refine .inl ⟨rfl, rfl, by simp, .inr fun greeting hello acknowledgement hgreeting hfront => ?_⟩
          obtain ⟨later, rfl⟩ := hfront
          obtain ⟨rest, hfound, -⟩ := hgreeting.readFrame hchunks
          cases hread.symm.trans hfound
      | ok found =>
          rcases found with ⟨hello, rest⟩
          obtain ⟨greeting, later, rfl, hgreeting, hrest⟩ := WireCodec.holds_of_readFrame hchunks hread
          simp only [hread] at hrun
          cases hhandshake : handshake hello with
          | error error =>
              rw [hhandshake] at hrun
              rw [hrun]
              refine .inl ⟨rfl, rfl, by simp, .inr fun other hello' acknowledgement hother hfront hok => ?_⟩
              obtain ⟨behind, hbehind⟩ := hfront
              obtain ⟨left, hfound, -⟩ := hother.readFrame (hbehind ▸ hchunks)
              cases hread.symm.trans hfound
              cases hhandshake.symm.trans hok
          | ok acknowledgement =>
              simp only [hhandshake, version_of_handshake hhandshake] at hrun
              refine .inr ⟨greeting, hello, acknowledgement, ?_⟩
              rcases Served.send_cases wire.acknowledgement (.current acknowledgement) room recovery.state
                  (fun left => broker.serveLoop wire protocolVersion fates left rest recovery.state) [] with
                ⟨hvault, hending, hwrote⟩ | ⟨frame, left, hframe, -, hserved⟩
              · rw [← hrun] at hvault hending hwrote
                exact ⟨[], [], later, 0, rfl, hgreeting, hhandshake, .nil, hvault, hwrote, Nat.le_refl _,
                  fun h => absurd h hending⟩
              · obtain ⟨requests, answered, hconversation⟩ : ∃ requests answered,
                    broker.Conversation wire protocolVersion fates recovery.state later
                      (broker.serveLoop wire protocolVersion fates left rest recovery.state) requests answered :=
                  exists_conversation hrest
                obtain ⟨frames, behind, rfl, hframes, hbehind⟩ := hconversation.read
                rw [hrun, hserved, hframe]
                exact ⟨frames, requests, behind, answered + 1, rfl, hgreeting, hhandshake, hframes,
                  hconversation.vault_eq, hconversation.wrote.cons frame, hconversation.prompt,
                  fun h => ⟨congrArg (· + 1) (hconversation.complete h), hbehind h⟩⟩

/-- A client greets and has a collection created. -/
theorem run_executes_creation_of_collection :
    ∃ greeting frame, cborWire.hello.Holds greeting ⟨1, ⟨⟨1, 1⟩, {.collections}⟩⟩ ∧
      cborWire.request.Holds frame ⟨1, ⟨4, .createCollection ⟨1, ⟨7⟩, "login", 5, 5⟩⟩⟩ ∧
      ((cborBroker inMemoryBackend).run cborWire undisturbed (fun _ => undisturbed) none [greeting ++ frame] ∅).vault =
        (cborBroker inMemoryBackend).after [⟨.reconcile, undisturbed⟩,
          ⟨.createCollection ⟨1, ⟨7⟩, "login", 5, 5⟩, undisturbed⟩] ∅ := by
  have hhello : (writeFrame helloCodec ⟨1, ⟨⟨1, 1⟩, {.collections}⟩⟩).isOk = true := by decide +kernel
  have hrequest : (writeFrame requestCodec ⟨1, ⟨4, .createCollection ⟨1, ⟨7⟩, "login", 5, 5⟩⟩⟩).isOk = true := by
    decide +kernel
  obtain ⟨greeting, hgreeting⟩ := WireCodec.exists_holds_of_isOk hhello
  obtain ⟨frame, hframe⟩ := WireCodec.exists_holds_of_isOk hrequest
  refine ⟨greeting, frame, hgreeting, hframe, ?_⟩
  have hchunks : Delivers [greeting ++ frame] (greeting ++ frame) :=
    .singleton (List.append_ne_nil_of_left_ne_nil (List.length_pos_iff.mp hgreeting.length_pos) _)
  have hfits : ∀ response ∈ (cborBroker inMemoryBackend).responses protocolVersion (fun _ => undisturbed)
      [⟨1, ⟨4, .createCollection ⟨1, ⟨7⟩, "login", 5, 5⟩⟩⟩]
        ((cborBroker inMemoryBackend).respond ⟨.reconcile, undisturbed⟩ ∅).state,
      cborWire.response.Fits (.current response) :=
    (responses_fit (fun _ _ _ h => by simp at h) (by simp) (by decide +kernel)).2
  have hfinished : ((cborBroker inMemoryBackend).run cborWire undisturbed (fun _ => undisturbed) none
      [greeting ++ frame] ∅).ending = .finished := by
    have hwhole : Delivers [greeting ++ frame] (greeting ++ [frame].flatten) := by rwa [List.flatten_singleton]
    obtain ⟨_, _, -, -, hserved⟩ := run_of_fits (by simp) (by simp) hgreeting rfl (.cons hframe .nil) hwhole hfits
    rw [hserved]
  rcases run_executes_each_request_once (cborBroker inMemoryBackend) cborWire undisturbed (fun _ => undisturbed)
      none ∅ _ _ hchunks with
    ⟨-, -, hending, -⟩ | ⟨_, _, _, frames, requests, behind, _, hstream, hgreeting', -, hframes, hvault, -, -, hend⟩
  · exact absurd hfinished hending
  · obtain ⟨-, hbehind⟩ := hgreeting.unique hgreeting' hstream
    cases hframes with
    | nil => exact absurd (hbehind ▸ List.prefix_rfl) ((hend hfinished).2 frame _ hframe)
    | @cons first request others later hfirst hothers =>
        obtain ⟨rfl, hrest⟩ := hframe.unique hfirst
          (((List.append_nil frame).trans hbehind).trans (List.append_assoc first others.flatten behind))
        cases hothers with
        | nil => exact hvault
        | cons hnext _ =>
            have hpos := hnext.length_pos
            have hlength := congrArg List.length hrest
            simp only [List.length_nil, List.flatten_cons, List.length_append] at hlength
            omega

/-- A client that greets with a version the broker speaks, sends requests and closes its end is answered: each
request gets the response that carries its number, in the order of the requests, as long as the process is not
killed and the listings of the vault leave room in a frame. Requests of other versions are refused and the
conversation goes on. -/
theorem run_answers_every_request (broker : Broker) (wire : Wire) (startup : Fates BackendError)
    (fates : Nat → Fates BackendError) (vault : Vault) {hello : Envelope Hello} {acknowledgement : HelloAck}
    {greeting : Blob} {frames chunks : List Blob} {requests : List (Envelope Request)}
    (hstartup : ∀ n, startup n ≠ .kill) (halive : ∀ n k, fates n k ≠ .kill)
    (hfates : ∀ n, (fates n).Within BackendError.Brief) (hgreeting : wire.hello.Holds greeting hello)
    (hhandshake : handshake hello = .ok acknowledgement) (hframes : List.Forall₂ wire.request.Holds frames requests)
    (hchunks : Delivers chunks (greeting ++ frames.flatten))
    (hroomy : ∀ start ∈ broker.starts (executed protocolVersion fates requests)
      (broker.respond ⟨.reconcile, startup⟩ vault).state, broker.Roomy start.2) :
    let served := broker.run wire startup fates none chunks vault
    let responses := broker.responses protocolVersion fates requests (broker.respond ⟨.reconcile, startup⟩ vault).state
    served.ending = .finished ∧
    served.vault = broker.after (⟨.reconcile, startup⟩ :: executed protocolVersion fates requests) vault ∧
    responses.map Response.requestId = requests.map (fun envelope => envelope.payload.requestId) ∧
    ∀ answers, Delivers answers served.written →
      ∃ rest, readFrame wire.acknowledgement answers = .ok (.current acknowledgement, rest) ∧
        readFrames wire.response requests.length rest = (responses.map Envelope.current, .ok []) := by
  intro served responses
  obtain ⟨hids, hfit⟩ : responses.map Response.requestId = _ ∧
      ∀ response ∈ responses, wire.response.Fits (.current response) := responses_fit hfates halive hroomy
  obtain ⟨answer, answers, hanswer, hanswers, hserved⟩ : ∃ answer answers, _ ∧ _ ∧ served = _ :=
    run_of_fits hstartup halive hgreeting hhandshake hframes hchunks hfit
  refine ⟨by rw [hserved], by rw [hserved], hids, fun arrived harrived => ?_⟩
  rw [hserved] at harrived
  obtain ⟨later, hfirst, hlater⟩ := WireCodec.readFrame_writeFrame hanswer harrived
  obtain ⟨left, hothers, hleft⟩ := WireCodec.readFrames_frames hanswers (List.append_nil answers.flatten ▸ hlater)
  have hcount : (responses.map Envelope.current).length = requests.length := by
    rw [List.length_map, ← List.length_map (f := Response.requestId), hids, List.length_map]
  rw [hcount, hleft.eq_nil] at hothers
  exact ⟨later, hfirst, hothers⟩

/-- A collection is created and listed; a request of another version in between is refused. -/
theorem run_answers_create_and_list :
    ∃ greeting frames, List.Forall₂ cborWire.request.Holds frames
        [⟨1, ⟨4, .createCollection ⟨1, ⟨7⟩, "login", 5, 5⟩⟩⟩, ⟨2, ⟨5, .ping⟩⟩, ⟨1, ⟨6, .listCollections⟩⟩] ∧
      ((cborBroker inMemoryBackend).run cborWire undisturbed (fun _ => undisturbed) none [greeting ++ frames.flatten]
        ∅).ending = .finished := by
  have hhello : (writeFrame helloCodec ⟨1, ⟨⟨1, 1⟩, {.collections}⟩⟩).isOk = true := by decide +kernel
  have hrequests : (List.mapM (writeFrame requestCodec)
      [⟨1, ⟨4, .createCollection ⟨1, ⟨7⟩, "login", 5, 5⟩⟩⟩, ⟨2, ⟨5, .ping⟩⟩, ⟨1, ⟨6, .listCollections⟩⟩]).isOk =
        true := by
    decide +kernel
  obtain ⟨greeting, hgreeting⟩ := WireCodec.exists_holds_of_isOk hhello
  cases hframes : List.mapM (writeFrame requestCodec)
    [⟨1, ⟨4, .createCollection ⟨1, ⟨7⟩, "login", 5, 5⟩⟩⟩, ⟨2, ⟨5, .ping⟩⟩, ⟨1, ⟨6, .listCollections⟩⟩] with
  | error error => rw [hframes] at hrequests; cases hrequests
  | ok frames =>
      have hbehind := WireCodec.forall₂_holds hframes
      have hchunks : Delivers [greeting ++ frames.flatten] (greeting ++ frames.flatten) :=
        .singleton (List.append_ne_nil_of_left_ne_nil (List.length_pos_iff.mp hgreeting.length_pos) _)
      refine ⟨greeting, frames, hbehind, (run_answers_every_request (cborBroker inMemoryBackend) cborWire undisturbed
        (fun _ => undisturbed) ∅ (by simp) (by simp) ?_ hgreeting rfl hbehind hchunks ?_).1⟩
      · exact fun _ _ _ h => by simp at h
      · decide +kernel

end Broker

end WincredLibsecret
