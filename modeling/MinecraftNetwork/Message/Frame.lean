import MinecraftNetwork.Message.HeaderSize
import MinecraftNetwork.Foundations.LittleEndian
import MinecraftNetwork.Foundations.StreamCodec

/-!
# The wire format

A header is packed, so on the wire it is the four bytes of the identifier followed by the
four bytes of the size, both little-endian. A frame is a header followed by the body. The
write chain sends the whole body whatever the header announces, while the read chain
believes the header; `frameCodec` is the format on which the two agree, the frames whose
header announces the body.
-/

namespace MinecraftNetwork

open LittleEndian

/-- `sizeof(MessageHeader)` -/
def headerSize : Nat := 8

/-- The bytes of a packed `MessageHeader`. -/
def MessageHeader.bytes (h : MessageHeader) : List UInt8 := encode32 h.id ++ encode32 h.size

/-- The header whose object representation is given. -/
def MessageHeader.ofBytes (bs : List UInt8) : MessageHeader where
  id := decode32 (bs.take 4)
  size := decode32 ((bs.drop 4).take 4)

namespace MessageHeader

@[simp] theorem length_bytes (h : MessageHeader) : h.bytes.length = headerSize := by
  simp [bytes, headerSize]

theorem ofBytes_bytes_append (h : MessageHeader) (rest : List UInt8) :
    ofBytes (h.bytes ++ rest) = h := by
  have hId : (h.bytes ++ rest).take 4 = encode32 h.id := by
    rw [bytes, List.append_assoc]
    exact List.take_left' (length_encode32 _)
  have hSize : ((h.bytes ++ rest).drop 4).take 4 = encode32 h.size := by
    rw [bytes, List.append_assoc, List.drop_left' (length_encode32 _)]
    exact List.take_left' (length_encode32 _)
  rw [ofBytes, hId, hSize, decode32_encode32, decode32_encode32]

@[simp] theorem ofBytes_bytes (h : MessageHeader) : ofBytes h.bytes = h := by
  simpa using ofBytes_bytes_append h []

theorem bytes_ofBytes {bs : List UInt8} (h : bs.length = headerSize) :
    (ofBytes bs).bytes = bs := by
  have hLength : bs.length = 8 := h
  have hFirst : (bs.take 4).length = 4 := by simp [hLength]
  have hSecond : ((bs.drop 4).take 4).length = 4 := by simp [hLength]
  have hRest : (bs.drop 4).take 4 = bs.drop 4 := by
    apply List.take_of_length_le
    simp [hLength]
  rw [bytes, ofBytes, encode32_decode32 hFirst, encode32_decode32 hSecond, hRest,
    List.take_append_drop]

end MessageHeader

namespace Message

/-- The header followed by the whole body. -/
def frame (m : Message) : List UInt8 := m.header.bytes ++ m.body

/-- The first complete frame of a stream, as a reader that believes the header sees it. -/
def ofFrame (bs : List UInt8) : Option (Message × List UInt8) :=
  if bs.length < headerSize then none
  else
    let header := MessageHeader.ofBytes (bs.take headerSize)
    if bs.length < headerSize + header.size.toNat then none
    else some (
      { header := header, body := (bs.drop headerSize).take header.size.toNat },
      bs.drop (headerSize + header.size.toNat))

theorem ofFrame_frame (m : Message) (rest : List UInt8) (h : m.Announces) :
    ofFrame (m.frame ++ rest) = some (m, rest) := by
  have hHeader : (m.frame ++ rest).take headerSize = m.header.bytes := by
    rw [frame, List.append_assoc]
    exact List.take_left' m.header.length_bytes
  have hBody : (m.frame ++ rest).drop headerSize = m.body ++ rest := by
    rw [frame, List.append_assoc]
    exact List.drop_left' m.header.length_bytes
  have hLength : (m.frame ++ rest).length = headerSize + m.body.length + rest.length := by
    simp [frame, Nat.add_assoc]
  unfold ofFrame
  rw [if_neg (by omega)]
  simp only [hHeader, MessageHeader.ofBytes_bytes]
  unfold Announces at h
  rw [if_neg (by omega), hBody, h, List.take_left' rfl, ← List.drop_drop, hBody,
    List.drop_left' rfl]

theorem of_ofFrame (bs : List UInt8) (m : Message) (rest : List UInt8)
    (h : ofFrame bs = some (m, rest)) : m.Announces ∧ bs = m.frame ++ rest := by
  unfold ofFrame at h
  split at h
  · cases h
  · rename_i hHeader
    simp only at h
    split at h
    · cases h
    · rename_i hBody
      cases h
      have hTake : (bs.take headerSize).length = headerSize := by
        rw [List.length_take]
        omega
      refine ⟨?_, ?_⟩
      · unfold Announces
        simp only [List.length_take, List.length_drop]
        omega
      · simp only [frame, MessageHeader.bytes_ofBytes hTake, List.append_assoc]
        rw [← List.drop_drop, List.take_append_drop, List.take_append_drop]

end Message

/-- The frames whose header announces the body, in a stream of bytes. -/
def frameCodec : StreamCodec Message UInt8 where
  valid := Message.Announces
  encode := Message.frame
  decode := Message.ofFrame
  decode_encode := Message.ofFrame_frame
  of_decode := Message.of_ofFrame
  encode_ne_nil m h := by
    have hLength := congrArg List.length h
    simp [Message.frame, headerSize] at hLength

/-- All the frames of a list of messages, one after the other. -/
def frames (ms : List Message) : List UInt8 := frameCodec.encodeAll ms

@[simp] theorem frames_nil : frames [] = [] := rfl

@[simp] theorem frames_append (ms ns : List Message) : frames (ms ++ ns) = frames ms ++ frames ns :=
  frameCodec.encodeAll_append ms ns

@[simp] theorem frames_singleton (m : Message) : frames [m] = m.frame := by
  simp [frames, StreamCodec.encodeAll, frameCodec]

theorem frames_cons (m : Message) (ms : List Message) : frames (m :: ms) = m.frame ++ frames ms :=
  rfl

/-- The complete frames at the front of a stream, and the incomplete rest. -/
def splitFrames (bs : List UInt8) : List Message × List UInt8 := frameCodec.decodeAll bs

/-- A header alone, or less than one, is no complete frame. -/
theorem ofFrame_none_of_short {bs : List UInt8} (h : bs.length < headerSize) :
    Message.ofFrame bs = none := by
  rw [Message.ofFrame, if_pos h]

/-- A header followed by fewer bytes than it announces is no complete frame. -/
theorem ofFrame_none_of_header {h : MessageHeader} {bs : List UInt8}
    (hShort : bs.length < h.size.toNat) : Message.ofFrame (h.bytes ++ bs) = none := by
  have hTake : (h.bytes ++ bs).take headerSize = h.bytes := List.take_left' h.length_bytes
  unfold Message.ofFrame
  rw [if_neg (by simp), hTake, MessageHeader.ofBytes_bytes]
  simp only [List.length_append, MessageHeader.length_bytes]
  rw [if_pos (by omega)]

end MinecraftNetwork
