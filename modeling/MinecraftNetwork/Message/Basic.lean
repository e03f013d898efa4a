import Mathlib

/-!
# Messages and their stream operators

`net::Message` is a packed header (an identifier and a 32-bit size) beside a byte
vector. `operator<<` appends the object representation of a trivially copyable value to
the body, `operator>>` takes the last `sizeof` bytes of the body off again, and both keep
`header.size`, a 32-bit counter, beside `body.size()`, a 64-bit one. The template
parameter of the source is an enumeration over `net::IDType`, whose values are all the
values of that type.

`push_eq` and `pop_eq` say what the two operators compute, so nothing later unfolds the
`resize` and `memcpy` they are written with.
-/

namespace MinecraftNetwork

/-- The underlying type of every enumeration of message identifiers. -/
abbrev IDType := UInt32

structure MessageHeader where
  id : IDType := 0
  size : UInt32 := 0
  deriving DecidableEq, Repr

structure Message where
  header : MessageHeader := {}
  body : List UInt8 := []
  deriving DecidableEq, Repr

/-- The two constructors of `Message` that build one from nothing: without an argument,
and from an identifier. -/
def Message.new : Option IDType → Message
  | none => {}
  | some id => { header := { id := id } }

/-- The object representation of a value of a trivially copyable type. No object is
empty, and none is larger than `PTRDIFF_MAX`. -/
structure Data where
  bytes : List UInt8
  pos : 0 < bytes.length
  lt : bytes.length < 2 ^ 63

/-- `sizeof(Data)` -/
def Data.size (d : Data) : Nat := d.bytes.length

/-- The `sizeof` of a type a message can be read into. -/
abbrev ObjectSize := { k : Nat // 0 < k ∧ k < 2 ^ 63 }

/-- `std::vector<uint8_t>::max_size()` on `x86_64`. -/
def maxSize : Nat := 2 ^ 63 - 1

/-- `std::vector<uint8_t>::resize` -/
def resize (v : List UInt8) (n : Nat) : List UInt8 :=
  v.take n ++ List.replicate (n - v.length) 0

/-- `memcpy` of `source` into `v` at an offset. -/
def memcpy (v : List UInt8) (offset : Nat) (source : List UInt8) : List UInt8 :=
  v.take offset ++ source ++ v.drop (offset + source.length)

/-- How a stream operator fails: the assertion at its head, or `std::length_error` out of
`resize`. -/
inductive Failure
  | assertion
  | lengthError
  deriving DecidableEq, Repr

namespace Message

/-- `operator<<`. In the assertion `header.size` is converted to `size_t`, so the sum is
taken modulo `2 ^ 64`; in the last statement it is cut to 32 bits. -/
def push (m : Message) (d : Data) : Except Failure Message :=
  if (m.header.size.toNat + d.size) % 2 ^ 64 ≥ m.header.size.toNat then
    let oldBodySize := m.body.length
    -- both summands are below 2 ^ 63, so this sum of size_t does not wrap
    if oldBodySize + d.size ≤ maxSize then
      .ok {
        header := { m.header with size := UInt32.ofNat (m.header.size.toNat + d.size) }
        body := memcpy (resize m.body (oldBodySize + d.size)) oldBodySize d.bytes }
    else .error .lengthError
  else .error .assertion

/-- `operator>>`, with the bytes it copies into the value read. -/
def pop (m : Message) (k : ObjectSize) : Except Failure (Message × List UInt8) :=
  if m.body.length ≥ k.val then
    let newBodySize := m.body.length - k.val
    .ok (
      { header := { m.header with size := m.header.size - UInt32.ofNat k.val }
        body := resize m.body newBodySize },
      (m.body.drop newBodySize).take k.val)
  else .error .assertion

end Message

/-! ## What the operators compute -/

theorem memcpy_resize (v source : List UInt8) :
    memcpy (resize v (v.length + source.length)) v.length source = v ++ source := by
  have hTake : v.take (v.length + source.length) = v := List.take_of_length_le (by omega)
  simp [memcpy, resize, hTake]

theorem resize_of_le {v : List UInt8} {n : Nat} (h : n ≤ v.length) : resize v n = v.take n := by
  simp [resize, Nat.sub_eq_zero_of_le h]

theorem resize_nil (n : Nat) : resize [] n = List.replicate n 0 := by
  simp [resize]

namespace Message

/-- The assertion of `operator<<` compares 64-bit numbers of which one is below `2 ^ 32`
and the other below `2 ^ 63`: it never fails. -/
theorem assertion_holds (m : Message) (d : Data) :
    (m.header.size.toNat + d.size) % 2 ^ 64 ≥ m.header.size.toNat := by
  have hSize := m.header.size.toNat_lt
  have hData := d.lt
  unfold Data.size
  omega

theorem push_eq (m : Message) (d : Data) :
    m.push d = if m.body.length + d.size ≤ maxSize then
      .ok {
        header := { m.header with size := UInt32.ofNat (m.header.size.toNat + d.size) }
        body := m.body ++ d.bytes }
    else .error .lengthError := by
  have hBody : memcpy (resize m.body (m.body.length + d.size)) m.body.length d.bytes =
      m.body ++ d.bytes := memcpy_resize _ _
  simp only [push, assertion_holds, if_true, hBody]

theorem push_ok {m m' : Message} {d : Data} (h : m.push d = .ok m') :
    m'.body = m.body ++ d.bytes ∧
      m'.header = { m.header with size := UInt32.ofNat (m.header.size.toNat + d.size) } := by
  rw [push_eq] at h
  split at h
  · cases h
    exact ⟨rfl, rfl⟩
  · cases h

theorem pop_eq (m : Message) (k : ObjectSize) :
    m.pop k = if k.val ≤ m.body.length then
      .ok (
        { header := { m.header with size := m.header.size - UInt32.ofNat k.val }
          body := m.body.take (m.body.length - k.val) },
        m.body.drop (m.body.length - k.val))
    else .error .assertion := by
  simp only [pop, ge_iff_le]
  split
  · rename_i hLe
    have hTake : (m.body.drop (m.body.length - k.val)).take k.val =
        m.body.drop (m.body.length - k.val) := by
      apply List.take_of_length_le
      rw [List.length_drop]
      omega
    rw [resize_of_le (Nat.sub_le _ _), hTake]
  · rfl

theorem pop_ok {m m' : Message} {k : ObjectSize} {bytes : List UInt8}
    (h : m.pop k = .ok (m', bytes)) :
    m.body = m'.body ++ bytes ∧ bytes.length = k.val ∧
      m'.header = { m.header with size := m.header.size - UInt32.ofNat k.val } := by
  rw [pop_eq] at h
  split at h
  · cases h
    refine ⟨(List.take_append_drop _ _).symm, ?_, rfl⟩
    rw [List.length_drop]
    omega
  · cases h

end Message

end MinecraftNetwork
