import MinecraftNetwork.Message.Basic

/-!
# The announced size of a message

The header of a message is meant to announce its body. `header.size` follows
`body.size()` modulo `2 ^ 32` through every sequence of pushes and pops
(`size_mod_of_run`), and the assertion of `operator<<`, which is written to stop the
counter from wrapping, never fails (`Message.assertion_holds`). So the header announces
the body after every operation exactly when no push takes the body to `2 ^ 32` bytes
(`announces_iff_fits`), and four arrays of `2 ^ 30` bytes make a message whose header
announces nothing (`announces_fails_at_four_gib`).
-/

namespace MinecraftNetwork

namespace Message

/-- The header announces the body. -/
def Announces (m : Message) : Prop := m.header.size.toNat = m.body.length

instance (m : Message) : Decidable m.Announces :=
  inferInstanceAs (Decidable (m.header.size.toNat = m.body.length))

/-- One use of a stream operator on a message. -/
inductive Operation
  | push (d : Data)
  | pop (k : ObjectSize)

def apply (m : Message) : Operation → Except Failure Message
  | .push d => m.push d
  | .pop k => (m.pop k).map Prod.fst

/-- A sequence of stream operators, none of which fails. -/
def run (m : Message) (operations : List Operation) : Except Failure Message :=
  operations.foldlM apply m

@[simp] theorem run_nil (m : Message) : m.run [] = .ok m := rfl

theorem run_append (m : Message) (first rest : List Operation) :
    m.run (first ++ rest) = (m.run first).bind fun middle => middle.run rest := by
  simp only [run, List.foldlM_append]
  rfl

theorem run_concat {m m' : Message} {first : List Operation} {operation : Operation}
    (h : m.run (first ++ [operation]) = .ok m') :
    ∃ middle, m.run first = .ok middle ∧ middle.apply operation = .ok m' := by
  rw [run_append] at h
  cases hFirst : m.run first with
  | error e =>
    rw [hFirst] at h
    cases h
  | ok middle =>
    rw [hFirst] at h
    refine ⟨middle, rfl, ?_⟩
    simpa [Except.bind, run] using h

theorem run_prefix {m last : Message} {first operations : List Operation}
    (hPrefix : first <+: operations) (h : m.run operations = .ok last) :
    ∃ middle, m.run first = .ok middle := by
  obtain ⟨rest, rfl⟩ := hPrefix
  rw [run_append] at h
  cases hFirst : m.run first with
  | error e =>
    rw [hFirst] at h
    cases h
  | ok middle => exact ⟨middle, rfl⟩

/-- The counter of the header, as the 32-bit number it is. -/
def SizeMod (m : Message) : Prop := m.header.size.toNat = m.body.length % 2 ^ 32

theorem sizeMod_new (id : Option IDType) : SizeMod (new id) := by
  cases id <;> rfl

theorem SizeMod.push {m m' : Message} {d : Data} (h : m.SizeMod) (hPush : m.push d = .ok m') :
    m'.SizeMod := by
  obtain ⟨hBody, hHeader⟩ := push_ok hPush
  unfold SizeMod at h ⊢
  rw [hBody, hHeader, List.length_append]
  simp only [UInt32.toNat_ofNat', Data.size, h]
  omega

theorem SizeMod.pop {m m' : Message} {k : ObjectSize} {bytes : List UInt8} (h : m.SizeMod)
    (hPop : m.pop k = .ok (m', bytes)) : m'.SizeMod := by
  obtain ⟨hBody, hLength, hHeader⟩ := pop_ok hPop
  unfold SizeMod at h ⊢
  rw [hBody, List.length_append, hLength] at h
  rw [hHeader]
  simp only [UInt32.toNat_sub, UInt32.toNat_ofNat', h]
  omega

theorem SizeMod.apply {m m' : Message} {operation : Operation} (h : m.SizeMod)
    (hApply : m.apply operation = .ok m') : m'.SizeMod := by
  cases operation with
  | push d => exact h.push hApply
  | pop k =>
    simp only [Message.apply] at hApply
    cases hPop : m.pop k with
    | error e =>
      rw [hPop] at hApply
      cases hApply
    | ok p =>
      rw [hPop] at hApply
      cases hApply
      exact h.pop hPop

theorem size_mod_of_run {m m' : Message} {operations : List Operation} (h : m.SizeMod)
    (hRun : m.run operations = .ok m') : m'.SizeMod := by
  induction operations using List.reverseRecOn generalizing m' with
  | nil =>
    cases hRun
    exact h
  | append_singleton first operation ih =>
    obtain ⟨middle, hFirst, hLast⟩ := run_concat hRun
    exact (ih hFirst).apply hLast

theorem announces_iff_of_sizeMod {m : Message} (h : m.SizeMod) :
    m.Announces ↔ m.body.length < 2 ^ 32 := by
  unfold SizeMod at h
  unfold Announces
  omega

/-- No push of the sequence takes the body to `2 ^ 32` bytes. -/
def Fits (m : Message) (operations : List Operation) : Prop :=
  ∀ first d middle, first ++ [.push d] <+: operations → m.run first = .ok middle →
    middle.body.length + d.size < 2 ^ 32

theorem body_lt_of_fits {m m' : Message} {operations first : List Operation}
    (hStart : m.body.length < 2 ^ 32) (hFits : m.Fits operations)
    (hPrefix : first <+: operations) (hRun : m.run first = .ok m') :
    m'.body.length < 2 ^ 32 := by
  induction first using List.reverseRecOn generalizing m' with
  | nil =>
    cases hRun
    exact hStart
  | append_singleton first operation ih =>
    obtain ⟨middle, hFirst, hLast⟩ := run_concat hRun
    have hMiddle := ih ((List.prefix_append _ _).trans hPrefix) hFirst
    cases operation with
    | push d =>
      rw [(push_ok hLast).1, List.length_append]
      exact hFits first d middle hPrefix hFirst
    | pop k =>
      simp only [Message.apply] at hLast
      cases hPop : middle.pop k with
      | error e =>
        rw [hPop] at hLast
        cases hLast
      | ok p =>
        rw [hPop] at hLast
        cases hLast
        have hBody := (pop_ok hPop).1
        rw [hBody, List.length_append] at hMiddle
        omega

/-- **The header announces the body after every operation** of a sequence on a newly
built message exactly when no push of it takes the body to `2 ^ 32` bytes. -/
theorem announces_iff_fits {id : Option IDType} {operations : List Operation} {last : Message}
    (hRun : (new id).run operations = .ok last) :
    (∀ first middle, first <+: operations → (new id).run first = .ok middle →
      middle.Announces) ↔ (new id).Fits operations := by
  constructor
  · intro hAll first d middle hPrefix hFirst
    obtain ⟨after, hAfter⟩ := run_prefix hPrefix hRun
    have hAnnounces := hAll _ after hPrefix hAfter
    rw [announces_iff_of_sizeMod (size_mod_of_run (sizeMod_new id) hAfter)] at hAnnounces
    obtain ⟨middle', hFirst', hPush⟩ := run_concat hAfter
    rw [hFirst] at hFirst'
    cases hFirst'
    rwa [(push_ok hPush).1, List.length_append] at hAnnounces
  · intro hFits first middle hPrefix hFirst
    rw [announces_iff_of_sizeMod (size_mod_of_run (sizeMod_new id) hFirst)]
    refine body_lt_of_fits ?_ hFits hPrefix hFirst
    cases id <;> exact Nat.two_pow_pos 32

/-- Three values are pushed, and the last two popped as one. -/
def pushesAndPop : List Operation :=
  [.push ⟨[7], by decide, by decide⟩, .push ⟨[5, 6], by decide, by decide⟩,
    .push ⟨[8, 9], by decide, by decide⟩, .pop ⟨4, by decide⟩]

theorem announces_iff_fits_pushesAndPop :
    (new none).run pushesAndPop = .ok { header := { size := 1 }, body := [7] } ∧
      ((∀ first middle, first <+: pushesAndPop → (new none).run first = .ok middle →
        middle.Announces) ↔ (new none).Fits pushesAndPop) := by
  have hRun : (new none).run pushesAndPop = .ok { header := { size := 1 }, body := [7] } := rfl
  exact ⟨hRun, announces_iff_fits hRun⟩

/-- Nothing but the capacity of the vector stops a sequence of pushes. -/
theorem run_pushes (values : List Data) {m : Message}
    (h : m.body.length + (values.map Data.size).sum ≤ maxSize) :
    ∃ m', m.run (values.map .push) = .ok m' ∧
      m'.body.length = m.body.length + (values.map Data.size).sum := by
  induction values generalizing m with
  | nil => exact ⟨m, rfl, by simp⟩
  | cons d values ih =>
    simp only [List.map_cons, List.sum_cons] at h
    have hPush := push_eq m d
    rw [if_pos (by omega)] at hPush
    obtain ⟨m', hRun, hLength⟩ := ih (m := {
      header := { m.header with size := UInt32.ofNat (m.header.size.toNat + d.size) }
      body := m.body ++ d.bytes }) (by
        rw [List.length_append]
        change m.body.length + d.size + _ ≤ _
        omega)
    refine ⟨m', ?_, ?_⟩
    · rw [List.map_cons, ← List.singleton_append, run_append]
      simp only [run, List.foldlM_cons, List.foldlM_nil, apply, hPush]
      exact hRun
    · rw [hLength, List.length_append, List.map_cons, List.sum_cons, ← Nat.add_assoc]
      rfl

/-- An array of `2 ^ 30` bytes. -/
def gibibyte : Data :=
  ⟨List.replicate (2 ^ 30) 0, by rw [List.length_replicate]; decide,
    by rw [List.length_replicate]; decide⟩

theorem size_gibibyte : gibibyte.size = 2 ^ 30 := List.length_replicate

/-- After four arrays of `2 ^ 30` bytes the header announces an empty body. -/
theorem announces_fails_at_four_gib :
    ∃ m, (new none).run [.push gibibyte, .push gibibyte, .push gibibyte, .push gibibyte] =
        .ok m ∧ m.header.size = 0 ∧ m.body.length = 2 ^ 32 ∧ ¬ m.Announces := by
  have hSum : ([gibibyte, gibibyte, gibibyte, gibibyte].map Data.size).sum = 2 ^ 32 := by
    simp only [List.map_cons, List.map_nil, List.sum_cons, List.sum_nil, size_gibibyte]
    norm_num
  obtain ⟨m, hRun, hLength⟩ := run_pushes (m := new none)
    [gibibyte, gibibyte, gibibyte, gibibyte] (by rw [hSum]; decide)
  rw [hSum] at hLength
  change m.body.length = 0 + 2 ^ 32 at hLength
  have hSize := size_mod_of_run (sizeMod_new none) hRun
  unfold SizeMod at hSize
  rw [hLength] at hSize
  refine ⟨m, hRun, ?_, by omega, ?_⟩
  · apply UInt32.toNat_inj.mp
    simpa using hSize
  · unfold Announces
    omega

end Message

end MinecraftNetwork
