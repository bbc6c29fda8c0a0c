import Mathlib.Tactic
import Strata.Protocol.GuacamoleRoundTrip
import Strata.Transport.GuacWire

/-! What an encoder puts on each stream. A payload is an opening instruction, its
blobs and one `end` on an index of its own; audio is announced once and never
ended. File transfers bring their own indices, below the encoder's. -/

namespace Strata.Transport.EncoderStreams

open Utf8 (Text Bytes)
open Engine
open Protocol.Guacamole
open Protocol.Instruction (ServerInstruction)
open GuacWire
open RustVec (chunks)

/-- The stream an instruction opens, fills or ends. An `ack` answers a stream of
the client's and names none of these. -/
def streamOf : ServerInstruction → Option Int
  | .img stream .. => some stream
  | .blob stream _ => some stream
  | .endStream stream => some stream
  | .clipboard stream _ => some stream
  | .audio stream _ => some stream
  | .body _ stream _ _ => some stream
  | .h264 stream .. => some stream
  | _ => none

def announces : ServerInstruction → Bool
  | .audio .. => true
  | _ => false

def announcements (sent : List ServerInstruction) : List ServerInstruction := sent.filter announces

structure Payload where
  opening : Int → ServerInstruction
  data : Bytes
  opens : ∀ stream, streamOf (opening stream) = some stream
  silent : ∀ stream, announces (opening stream) = false

inductive Call where
  | event (event : TargetEvent)
  | sync (timestampMs : Int)
  deriving DecidableEq, Repr

def payloadOf : Call → Option Payload
  | .event (.imageUpdate x y mimetype data) =>
      some ⟨fun stream => .img stream compositeOver defaultLayer mimetype x y, data,
        fun _ => rfl, fun _ => rfl⟩
  | .event (.cursorImage _ _ _ _ mimetype data) =>
      some ⟨fun stream => .img stream compositeSrc cursorLayer mimetype 0 0, data,
        fun _ => rfl, fun _ => rfl⟩
  | .event (.clipboard data) =>
      some ⟨fun stream => .clipboard stream "text/plain".toList, data,
        fun _ => rfl, fun _ => rfl⟩
  | .event (.videoSlice .h264 keyframe x y width height _ data) =>
      some ⟨fun stream => .h264 stream defaultLayer keyframe x y width height, data,
        fun _ => rfl, fun _ => rfl⟩
  | _ => none

def audioOf : Call → Option Bytes
  | .event (.audio data) => some data
  | _ => none

def fileStream : Call → Option Int
  | .event (.file (.body _ stream _ _)) => some stream
  | .event (.file (.data stream _)) => some stream
  | .event (.file (.endStream stream)) => some stream
  | _ => none

def FileReserved (call : Call) : Prop := ∀ stream, fileStream call = some stream → stream < 1

def FilesReserved (calls : List Call) : Prop := ∀ call ∈ calls, FileReserved call

def allocations (calls : List Call) : Nat :=
  (calls.filterMap payloadOf).length + if calls.filterMap audioOf = [] then 0 else 1

variable (base64 : Base64.Codec)

def textFrame (script : List ServerInstruction) : ClientFrame :=
  .text (encodeAll (script.map ServerInstruction.toWire))

def wireStep (encoder : GuacWireEncoder) : Call → Option (GuacWireEncoder × List ClientFrame)
  | .event event => encoder.encode base64 event
  | .sync timestampMs => some (encoder.sync timestampMs)

def blobs (stream : Int) (data : Bytes) : List ServerInstruction :=
  (chunks maxBlobBytes data).map (fun chunk => .blob stream (base64.encode chunk))

def Payload.transcript (payload : Payload) (stream : Int) : List ServerInstruction :=
  payload.opening stream :: (blobs base64 stream payload.data ++ [.endStream stream])

/-- The instructions one call puts on the wire, in order. -/
def script (encoder : GuacWireEncoder) : Call → List ServerInstruction
  | .sync timestampMs => [.sync timestampMs]
  | .event (.imageUpdate x y mimetype data) =>
      .img encoder.nextStream compositeOver defaultLayer mimetype x y ::
        (blobs base64 encoder.nextStream data ++ [.endStream encoder.nextStream])
  | .event (.videoSlice .h264 keyframe x y width height _ data) =>
      .h264 encoder.nextStream defaultLayer keyframe x y width height ::
        (blobs base64 encoder.nextStream data ++ [.endStream encoder.nextStream])
  | .event (.videoSlice .av1 ..) | .event (.terminalOutput _) => []
  | .event (.audio data) =>
      match encoder.audioStream with
      | some stream => blobs base64 stream data
      | none =>
          .audio encoder.nextStream audioMimetype :: blobs base64 encoder.nextStream data
  | .event (.copyRegion srcX srcY width height dstX dstY) =>
      [.copy defaultLayer srcX srcY width height compositeOver defaultLayer dstX dstY]
  | .event (.clipboard data) =>
      .clipboard encoder.nextStream "text/plain".toList ::
        (blobs base64 encoder.nextStream data ++ [.endStream encoder.nextStream])
  | .event (.resized width height) => [.size defaultLayer width height]
  | .event (.cursorImage hotspotX hotspotY width height mimetype data) =>
      [.size cursorLayer width height] ++
        (.img encoder.nextStream compositeSrc cursorLayer mimetype 0 0 ::
          (blobs base64 encoder.nextStream data ++ [.endStream encoder.nextStream])) ++
        [.cursor (asI32 hotspotX) (asI32 hotspotY) cursorLayer 0 0 width height]
  | .event .cursorHidden => [.size cursorLayer 1 1, .cursor 0 0 cursorLayer 0 0 1 1]
  | .event (.file (.filesystem object name)) => [.filesystem object name]
  | .event (.file (.body object stream mimetype name)) => [.body object stream mimetype name]
  | .event (.file (.data stream data)) => blobs base64 stream data
  | .event (.file (.endStream stream)) => [.endStream stream]
  | .event (.file (.ack stream message status)) => [.ack stream message status]
  | .event (.file (.notice message ok)) =>
      [.msg transferNoticeMsg [if ok then "ok".toList else "warning".toList, message]]
  | .event (.disconnected reason cause) => [.error reason (disconnectStatus cause)]

inductive Emits (encoder : GuacWireEncoder) (call : Call) (sent : List ServerInstruction)
    (after : GuacWireEncoder) : Prop where
  | quiet (noPayload : payloadOf call = none) (noAudio : audioOf call = none)
      (reserved : ∀ instruction ∈ sent, ∀ stream, streamOf instruction = some stream → stream < 1)
      (silent : announcements sent = [])
      (next : after.nextStream = encoder.nextStream)
      (audio : after.audioStream = encoder.audioStream)
  | payload (payload : Payload) (front back : List ServerInstruction)
      (carries : payloadOf call = some payload) (noAudio : audioOf call = none)
      (plain : ∀ instruction ∈ front ++ back, streamOf instruction = none)
      (shape : sent = front ++ payload.transcript base64 encoder.nextStream ++ back)
      (state : after = encoder.allocateStream.2)
  | announce (data : Bytes) (packet : audioOf call = some data) (noPayload : payloadOf call = none)
      (first : encoder.audioStream = none)
      (shape : sent = .audio encoder.nextStream audioMimetype ::
        blobs base64 encoder.nextStream data)
      (state : after = { encoder.allocateStream.2 with audioStream := some encoder.nextStream })
  | packet (data : Bytes) (stream : Int) (packet : audioOf call = some data)
      (noPayload : payloadOf call = none) (opened : encoder.audioStream = some stream)
      (shape : sent = blobs base64 stream data) (state : after = encoder)

def Framed (encoder : GuacWireEncoder) (call : Call) : Prop :=
  ∃ (scripts : List (List ServerInstruction)) (after : GuacWireEncoder),
    wireStep base64 encoder call = some (after, scripts.map textFrame) ∧
    scripts.flatten = script base64 encoder call ∧
    (FileReserved call → Emits base64 encoder call (script base64 encoder call) after)

theorem encode_eq_append (instruction : ServerInstruction) (out : Bytes) :
    instruction.encode out = out ++ instruction.toWire.wire :=
  encode_eq instruction.toWire out

theorem encodeAll_append (first second : List GuacInstruction) :
    encodeAll (first ++ second) = encodeAll first ++ encodeAll second := by
  simp [encodeAll_eq]

theorem encodeAll_singleton (instruction : GuacInstruction) :
    encodeAll [instruction] = instruction.wire := by
  simp [encodeAll_eq]

theorem toBytes_eq (instruction : ServerInstruction) :
    ClientFrame.text instruction.toBytes = textFrame [instruction] := by
  rw [textFrame, List.map_singleton, encodeAll_singleton, ServerInstruction.toBytes,
    encode_eq_append, List.nil_append]

theorem blobFrames_eq (stream : Int) (data : Bytes) :
    GuacWireEncoder.blobFrames base64 stream data =
      ((blobs base64 stream data).map fun instruction => [instruction]).map textFrame := by
  simp [GuacWireEncoder.blobFrames, blobs, toBytes_eq]

theorem foldl_blobs (stream : Int) (list : List Bytes) (buf : Bytes) :
    list.foldl (fun buf chunk =>
        (ServerInstruction.blob stream (base64.encode chunk)).encode buf) buf =
      buf ++ encodeAll ((list.map fun chunk =>
        ServerInstruction.blob stream (base64.encode chunk)).map ServerInstruction.toWire) := by
  induction list generalizing buf with
  | nil => simp [encodeAll]
  | cons chunk list ih =>
      rw [List.foldl_cons, ih]
      calc (ServerInstruction.blob stream (base64.encode chunk)).encode buf ++ encodeAll _
          = buf ++ ((ServerInstruction.blob stream (base64.encode chunk)).toWire.wire ++
              encodeAll _) := by rw [encode_eq_append, List.append_assoc]
        _ = _ := by rw [List.map_cons, List.map_cons, encodeAll_cons]

theorem pushImage_eq (encoder : GuacWireEncoder) (buf : Bytes) (mask : Nat) (layer x y : Int)
    (mimetype : Text) (data : Bytes) :
    encoder.pushImage base64 buf mask layer x y mimetype data =
      (encoder.allocateStream.2,
        buf ++ encodeAll (((.img encoder.nextStream mask layer mimetype x y :
          ServerInstruction) :: (blobs base64 encoder.nextStream data ++
            [.endStream encoder.nextStream])).map ServerInstruction.toWire)) := by
  rw [GuacWireEncoder.pushImage]
  dsimp only [GuacWireEncoder.allocateStream]
  rw [foldl_blobs, encode_eq_append, encode_eq_append, List.map_cons, encodeAll_cons,
    List.map_append, encodeAll_append, List.map_singleton, encodeAll_singleton, blobs]
  simp only [List.append_assoc]

theorem streamOf_blobs (stream : Int) (data : Bytes) :
    ∀ instruction ∈ blobs base64 stream data, streamOf instruction = some stream := by
  intro instruction member
  obtain ⟨chunk, -, rfl⟩ := List.mem_map.mp member
  rfl

theorem announces_blobs (stream : Int) (data : Bytes) :
    ∀ instruction ∈ blobs base64 stream data, announces instruction = false := by
  intro instruction member
  obtain ⟨chunk, -, rfl⟩ := List.mem_map.mp member
  rfl

theorem flatten_singletons (list : List ServerInstruction) :
    (list.map fun instruction => [instruction]).flatten = list := by
  rw [← List.flatMap_def, List.flatMap_singleton']

theorem emits_separate (encoder : GuacWireEncoder) (call : Call) (payload : Payload)
    (carries : payloadOf call = some payload) (noAudio : audioOf call = none)
    (stepped : wireStep base64 encoder call =
      some (encoder.allocateStream.2,
        .text (payload.opening encoder.nextStream).toBytes ::
          (GuacWireEncoder.blobFrames base64 encoder.nextStream payload.data ++
            [.text (ServerInstruction.endStream encoder.nextStream).toBytes])))
    (scripted : script base64 encoder call = payload.transcript base64 encoder.nextStream) :
    Framed base64 encoder call := by
  refine ⟨(payload.transcript base64 encoder.nextStream).map (fun instruction => [instruction]),
    _, ?_, ?_, fun _ => .payload payload [] [] carries noAudio (by simp) ?_ rfl⟩
  · rw [stepped]
    simp [Payload.transcript, toBytes_eq, blobFrames_eq]
  · rw [flatten_singletons, scripted]
  · rw [scripted, List.nil_append, List.append_nil]

theorem emits_one (encoder : GuacWireEncoder) (call : Call) (instruction : ServerInstruction)
    (noPayload : payloadOf call = none) (noAudio : audioOf call = none)
    (reserved : FileReserved call → ∀ stream, streamOf instruction = some stream → stream < 1)
    (silent : announces instruction = false)
    (stepped : wireStep base64 encoder call = some (encoder, [.text instruction.toBytes]))
    (scripted : script base64 encoder call = [instruction]) :
    Framed base64 encoder call := by
  rw [Framed, scripted]
  refine ⟨[[instruction]], encoder, ?_, rfl, fun low => .quiet noPayload noAudio ?_ ?_ rfl rfl⟩
  · rw [stepped, toBytes_eq]
    rfl
  · simpa using reserved low
  · simp [announcements, silent]

theorem emits_audio (encoder : GuacWireEncoder) (data : Bytes) :
    Framed base64 encoder (.event (.audio data)) := by
  cases opened : encoder.audioStream with
  | none =>
      have scripted : script base64 encoder (.event (.audio data)) =
          .audio encoder.nextStream audioMimetype ::
            blobs base64 encoder.nextStream data := by
        simp only [script, opened]
      rw [Framed, scripted]
      refine ⟨[.audio encoder.nextStream audioMimetype] ::
        (blobs base64 encoder.nextStream data).map (fun instruction => [instruction]), _,
        ?_, by simp [flatten_singletons], fun _ => .announce data rfl rfl opened rfl rfl⟩
      simp only [wireStep, GuacWireEncoder.encode, GuacWireEncoder.encodeControl,
        GuacWireEncoder.encodeAudio, opened, blobFrames_eq, toBytes_eq]
      rfl
  | some stream =>
      have scripted : script base64 encoder (.event (.audio data)) =
          blobs base64 stream data := by
        simp only [script, opened]
      rw [Framed, scripted]
      refine ⟨(blobs base64 stream data).map (fun instruction => [instruction]), _,
        ?_, flatten_singletons _, fun _ => .packet data stream rfl rfl opened rfl rfl⟩
      simp only [wireStep, GuacWireEncoder.encode, GuacWireEncoder.encodeControl,
        GuacWireEncoder.encodeAudio, opened, blobFrames_eq]

theorem emits_file (encoder : GuacWireEncoder) (event : FileEvent) :
    Framed base64 encoder (.event (.file event)) := by
  cases event with
  | filesystem object name =>
      exact emits_one base64 encoder _ (.filesystem object name) rfl rfl
        (by simp [streamOf]) rfl rfl rfl
  | body object stream mimetype name =>
      exact emits_one base64 encoder _ (.body object stream mimetype name) rfl rfl
        id rfl rfl rfl
  | data stream data =>
      refine ⟨(blobs base64 stream data).map (fun instruction => [instruction]), encoder,
        ?_, flatten_singletons _, fun low => .quiet rfl rfl ?_ ?_ rfl rfl⟩
      · simp only [wireStep, GuacWireEncoder.encode, GuacWireEncoder.encodeControl,
          GuacWireEncoder.encodeFile, blobFrames_eq]
      · intro instruction member other named
        rw [streamOf_blobs base64 stream data instruction member] at named
        obtain rfl := Option.some.inj named
        exact low stream rfl
      · rw [announcements, List.filter_eq_nil_iff]
        intro instruction member
        rw [announces_blobs base64 stream data instruction member]
        exact Bool.false_ne_true
  | endStream stream =>
      exact emits_one base64 encoder _ (.endStream stream) rfl rfl id rfl rfl rfl
  | ack stream message status =>
      exact emits_one base64 encoder _ (.ack stream message status) rfl rfl
        (by simp [streamOf]) rfl rfl rfl
  | notice message ok =>
      exact emits_one base64 encoder _ (.msg transferNoticeMsg
        [if ok then "ok".toList else "warning".toList, message]) rfl rfl
        (by simp [streamOf]) rfl rfl rfl

theorem wireStep_emits (encoder : GuacWireEncoder) (call : Call) :
    Framed base64 encoder call := by
  cases call with
  | sync timestampMs =>
      exact emits_one base64 encoder _ (.sync timestampMs) rfl rfl (by simp [streamOf]) rfl rfl rfl
  | event event =>
      cases event with
      | imageUpdate x y mimetype data =>
          refine ⟨[script base64 encoder (.event (.imageUpdate x y mimetype data))], _, ?_,
            List.flatten_singleton, fun _ => .payload _ [] [] rfl rfl (by simp) ?_ rfl⟩
          · simp only [wireStep, GuacWireEncoder.encode, GuacWireEncoder.encodeControl,
              GuacWireEncoder.encodeImage, pushImage_eq, List.nil_append]
            rfl
          · simp [script, Payload.transcript]
      | videoSlice codec keyframe x y width height timestampMs data =>
          cases codec with
          | h264 =>
              exact emits_separate base64 encoder _ _ rfl rfl rfl rfl
          | av1 => exact ⟨[], _, rfl, rfl, fun _ => .quiet rfl rfl (by simp [script]) rfl rfl rfl⟩
      | terminalOutput data =>
          exact ⟨[], _, rfl, rfl, fun _ => .quiet rfl rfl (by simp [script]) rfl rfl rfl⟩
      | audio data => exact emits_audio base64 encoder data
      | copyRegion srcX srcY width height dstX dstY =>
          exact emits_one base64 encoder _ (.copy defaultLayer srcX srcY width height compositeOver
            defaultLayer dstX dstY) rfl rfl (by simp [streamOf]) rfl rfl rfl
      | clipboard data =>
          exact emits_separate base64 encoder _ _ rfl rfl rfl rfl
      | resized width height =>
          exact emits_one base64 encoder _ (.size defaultLayer width height) rfl rfl
            (by simp [streamOf]) rfl rfl rfl
      | cursorImage hotspotX hotspotY width height mimetype data =>
          refine ⟨[script base64 encoder
              (.event (.cursorImage hotspotX hotspotY width height mimetype data))], _, ?_,
            List.flatten_singleton, fun _ => .payload _ [.size cursorLayer width height]
              [.cursor (asI32 hotspotX) (asI32 hotspotY) cursorLayer 0 0 width height] rfl rfl
              (by simp [streamOf]) ?_ rfl⟩
          · simp only [wireStep, GuacWireEncoder.encode, GuacWireEncoder.encodeControl, script,
              pushImage_eq, encode_eq_append, List.map_cons, List.map_nil, textFrame,
              List.map_append, encodeAll_append, encodeAll_singleton, List.nil_append]
          · simp [script, Payload.transcript]
      | cursorHidden =>
          refine ⟨[script base64 encoder (.event .cursorHidden)], _, ?_, List.flatten_singleton,
            fun _ => .quiet rfl rfl (by simp [script, streamOf]) rfl rfl rfl⟩
          simp only [wireStep, GuacWireEncoder.encode, GuacWireEncoder.encodeControl, script,
            encode_eq_append, List.map_cons, List.map_nil, textFrame, encodeAll_cons]
          rfl
      | file event => exact emits_file base64 encoder event
      | disconnected reason cause =>
          exact emits_one base64 encoder _ (.error reason (disconnectStatus cause)) rfl rfl
            (by simp [streamOf]) rfl rfl rfl

end Strata.Transport.EncoderStreams
