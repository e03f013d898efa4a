import Mathlib

/-!
# The port number

`main` of `Client.cpp` reads a line, converts it with `std::stoi` and casts the result to
`uint16_t`. `std::stoi` skips white space, takes a sign and as many digits as there are, and
ignores what follows; it throws when there is no digit, and when the value is no `int`. The
program returns on a throw, and warns when the cast has changed the value.

`Denotes` says which lines are numerals and of what value, and `conversion` what the program
makes of every line: which ports it takes, which lines it rejects and why, and that each port
is read back from its decimal digits.
-/

namespace MinecraftNetwork

namespace Client

/-- `std::isspace` -/
def isSpace (c : Char) : Bool := c = ' ' || ('\t' ≤ c && c ≤ '\r')

/-- What `std::stoi` throws. -/
inductive ConversionError
  | invalidArgument
  | outOfRange
  deriving DecidableEq, Repr

/-- An optional sign: whether it is a minus, and what follows. -/
def takeSign : List Char → Bool × List Char
  | '-' :: rest => (true, rest)
  | '+' :: rest => (false, rest)
  | rest => (false, rest)

/-- The value of digits, with a sign. -/
def signed (negative : Bool) (digits : List Char) : Int :=
  let value : Int := Nat.ofDigitChars 10 digits 0
  if negative then -value else value

/-- `std::stoi`, with an `int` of 32 bits. -/
def stoi (str : List Char) : Except ConversionError Int :=
  let (negative, rest) := takeSign (str.dropWhile isSpace)
  let digits := rest.takeWhile Char.isDigit
  if digits = [] then .error .invalidArgument
  else if signed negative digits < -2147483648 ∨ 2147483647 < signed negative digits then
    .error .outOfRange
  else .ok (signed negative digits)

/-- The port that `main` connects to, and whether it has warned that it is another number. -/
structure Port where
  port : UInt16
  warned : Bool
  deriving DecidableEq, Repr

/-- The conversion of `portString` in `main`. -/
def readPort (portString : List Char) : Except ConversionError Port := do
  let result ← stoi portString
  let port := UInt16.ofInt result
  return { port, warned := result ≠ port.toNat }

/-! ## Numerals -/

/-- The text of a sign. -/
inductive Sign : Bool → List Char → Prop
  | none : Sign false []
  | plus : Sign false ['+']
  | minus : Sign true ['-']

/-- The line is a numeral with this value: white space, a sign, digits, and anything that
does not begin with a digit. -/
inductive Denotes (str : List Char) (value : Int) : Prop
  | mk {spaces sign digits rest : List Char} {negative : Bool}
      (hText : str = spaces ++ (sign ++ (digits ++ rest))) (hSpaces : ∀ c ∈ spaces, isSpace c = true)
      (hSign : Sign negative sign) (hSome : digits ≠ [])
      (hDigits : ∀ c ∈ digits, c.isDigit = true) (hRest : ∀ c ∈ rest.head?, c.isDigit = false)
      (hValue : value = signed negative digits)

/-- The value of a line, if it is a numeral. -/
def scan (str : List Char) : Option Int :=
  let (negative, rest) := takeSign (str.dropWhile isSpace)
  let digits := rest.takeWhile Char.isDigit
  if digits = [] then none else some (signed negative digits)

theorem isDigit_iff (c : Char) : c.isDigit = true ↔ 48 ≤ c.toNat ∧ c.toNat ≤ 57 := by
  simp only [Char.isDigit, Bool.and_eq_true, decide_eq_true_eq, ge_iff_le, UInt32.le_iff_toNat_le]
  rfl

theorem isSpace_iff (c : Char) :
    isSpace c = true ↔ c.toNat = 32 ∨ 9 ≤ c.toNat ∧ c.toNat ≤ 13 := by
  have hSpace : c = ' ' ↔ c.toNat = 32 := ⟨fun h => by rw [h]; rfl, fun h => Char.toNat_inj.mp h⟩
  simp only [isSpace, Bool.or_eq_true, Bool.and_eq_true, decide_eq_true_eq, hSpace, Char.le_def,
    UInt32.le_iff_toNat_le]
  rfl

theorem not_isSpace_of_isDigit {c : Char} (h : c.isDigit = true) : isSpace c = false := by
  rw [isDigit_iff] at h
  rw [Bool.eq_false_iff, ne_eq, isSpace_iff]
  omega

theorem takeWhile_digits {digits rest : List Char} (hDigits : ∀ c ∈ digits, c.isDigit = true)
    (hRest : ∀ c ∈ rest.head?, c.isDigit = false) :
    (digits ++ rest).takeWhile Char.isDigit = digits := by
  rw [List.takeWhile_append_of_pos hDigits]
  cases rest with
  | nil => exact List.append_nil _
  | cons c rest =>
    rw [List.takeWhile_cons_of_neg (by simp [hRest c rfl]), List.append_nil]

/-- Neither a sign nor a digit is white space, and a digit is no sign. -/
theorem takeSign_text {negative : Bool} {sign digits rest : List Char} (hSign : Sign negative sign)
    (hSome : digits ≠ []) (hDigits : ∀ c ∈ digits, c.isDigit = true) :
    takeSign (sign ++ (digits ++ rest)) = (negative, digits ++ rest) ∧
      (sign ++ (digits ++ rest)).dropWhile isSpace = sign ++ (digits ++ rest) := by
  obtain ⟨c, others, rfl⟩ := List.exists_cons_of_ne_nil hSome
  have hDigit := hDigits c List.mem_cons_self
  have hSpace := not_isSpace_of_isDigit hDigit
  cases hSign with
  | none =>
    refine ⟨?_, List.dropWhile_cons_of_neg (by simp [hSpace])⟩
    have hMinus : c ≠ '-' := by
      rintro rfl
      cases hDigit
    have hPlus : c ≠ '+' := by
      rintro rfl
      cases hDigit
    simp only [List.nil_append, List.cons_append]
    unfold takeSign
    split
    · rename_i hText
      exact absurd (List.cons.inj hText).1 hMinus
    · rename_i hText
      exact absurd (List.cons.inj hText).1 hPlus
    · rfl
  | plus => exact ⟨rfl, List.dropWhile_cons_of_neg (by decide)⟩
  | minus => exact ⟨rfl, List.dropWhile_cons_of_neg (by decide)⟩

/-- Every text is a sign and what follows it. -/
theorem exists_sign (text : List Char) : ∃ sign, Sign (takeSign text).1 sign ∧
    text = sign ++ (takeSign text).2 := by
  unfold takeSign
  split
  · exact ⟨['-'], .minus, rfl⟩
  · exact ⟨['+'], .plus, rfl⟩
  · exact ⟨[], .none, rfl⟩

/-- **A line is a numeral of one value at most**, the one that is found. -/
theorem denotes_iff (str : List Char) (value : Int) :
    Denotes str value ↔ scan str = some value := by
  constructor
  · rintro ⟨hText, hSpaces, hSign, hSome, hDigits, hRest, rfl⟩
    obtain ⟨hTake, hDrop⟩ := takeSign_text hSign hSome hDigits
    rw [scan, hText, List.dropWhile_append_of_pos hSpaces, hDrop, hTake]
    simp only [takeWhile_digits hDigits hRest, if_neg hSome]
  · intro hScan
    simp only [scan] at hScan
    split at hScan
    · cases hScan
    · rename_i hSome
      obtain ⟨sign, hSign, hSigned⟩ := exists_sign (str.dropWhile isSpace)
      have hDigits : ∀ c ∈ (takeSign (str.dropWhile isSpace)).2.takeWhile Char.isDigit,
          c.isDigit = true := fun c => List.mem_takeWhile_imp
      have hText : str = str.takeWhile isSpace ++ (sign ++
          ((takeSign (str.dropWhile isSpace)).2.takeWhile Char.isDigit ++
            (takeSign (str.dropWhile isSpace)).2.dropWhile Char.isDigit)) := by
        rw [List.takeWhile_append_dropWhile, ← hSigned, List.takeWhile_append_dropWhile]
      refine ⟨hText, fun c => List.mem_takeWhile_imp, hSign, hSome, hDigits, fun c hHead => ?_,
        (Option.some.inj hScan).symm⟩
      have hNot := List.head?_dropWhile_not Char.isDigit (takeSign (str.dropWhile isSpace)).2
      rw [Option.mem_def.mp hHead] at hNot
      exact hNot

theorem Denotes.unique {str : List Char} {value value' : Int} (h : Denotes str value)
    (h' : Denotes str value') : value = value' := by
  rw [denotes_iff] at h h'
  exact Option.some.inj (h.symm.trans h')

/-! ## The conversion -/

/-- `int` has the value. -/
def IsInt (value : Int) : Prop := -2147483648 ≤ value ∧ value ≤ 2147483647

instance (value : Int) : Decidable (IsInt value) := inferInstanceAs (Decidable (_ ∧ _))

theorem stoi_none {str : List Char} (h : scan str = none) :
    stoi str = .error .invalidArgument := by
  simp only [scan] at h
  split at h
  · rename_i hNone
    simp only [stoi, if_pos hNone]
  · cases h

theorem stoi_some {str : List Char} {value : Int} (h : scan str = some value) :
    stoi str = if IsInt value then .ok value else .error .outOfRange := by
  simp only [scan] at h
  split at h
  · cases h
  · rename_i hSome
    obtain rfl := Option.some.inj h
    simp only [stoi, if_neg hSome]
    split
    · rename_i hOut
      rw [if_neg]
      unfold IsInt
      omega
    · rename_i hIn
      rw [if_pos]
      unfold IsInt
      omega

/-- The cast keeps the value modulo 2^16, and so the ports. -/
theorem toNat_ofInt (value : Int) : ((UInt16.ofInt value).toNat : Int) = value % 65536 := by
  have hNat : (UInt16.ofInt value).toNat = (value % 65536).toNat % 65536 := rfl
  have hLess := Int.emod_lt_of_pos value (b := 65536) (by decide)
  have hNonneg := Int.emod_nonneg value (b := 65536) (by decide)
  omega

theorem ofInt_eq_iff (port : UInt16) (value : Int) :
    UInt16.ofInt value = port ↔ (port.toNat : Int) = value % 65536 := by
  rw [← toNat_ofInt value]
  constructor
  · rintro rfl
    rfl
  · intro hSame
    exact UInt16.toNat_inj.mp (by omega)

theorem readPort_none {str : List Char} (h : scan str = none) :
    readPort str = .error .invalidArgument := by
  rw [readPort, stoi_none h]
  rfl

theorem readPort_some {str : List Char} {value : Int} (h : scan str = some value) :
    readPort str = if IsInt value then
      .ok { port := UInt16.ofInt value, warned := ¬ (0 ≤ value ∧ value < 65536) }
    else .error .outOfRange := by
  rw [readPort, stoi_some h]
  split
  · have hWarned : value ≠ (UInt16.ofInt value).toNat ↔ ¬ (0 ≤ value ∧ value < 65536) := by
      rw [toNat_ofInt]
      omega
    simp only [bind, Except.bind, pure, Except.pure, hWarned]
  · rfl

/-- What `main` makes of a line. -/
structure Conversion : Prop where
  /-- The port is the value modulo 2^16, and `main` warns if the value is no port. -/
  accepts : ∀ str port warned, readPort str = .ok ⟨port, warned⟩ ↔ ∃ value, Denotes str value ∧
    IsInt value ∧ (port.toNat : Int) = value % 65536 ∧
      (warned = true ↔ ¬ (0 ≤ value ∧ value < 65536))
  outOfRange : ∀ str, readPort str = .error .outOfRange ↔
    ∃ value, Denotes str value ∧ ¬ IsInt value
  invalidArgument : ∀ str, readPort str = .error .invalidArgument ↔ ∀ value, ¬ Denotes str value
  unique : ∀ str value value', Denotes str value → Denotes str value' → value = value'
  /-- A port is read from its decimal digits, whatever follows them. -/
  decimal : ∀ (port : UInt16) spaces rest, (∀ c ∈ spaces, isSpace c = true) →
    (∀ c ∈ rest.head?, c.isDigit = false) →
    readPort (spaces ++ (Nat.toDigits 10 port.toNat ++ rest)) = .ok ⟨port, false⟩

theorem conversion : Conversion where
  accepts str port warned := by
    cases hScan : scan str with
    | none =>
      rw [readPort_none hScan]
      constructor
      · intro hOk
        cases hOk
      · rintro ⟨value, hDenotes, -⟩
        rw [denotes_iff, hScan] at hDenotes
        cases hDenotes
    | some value =>
      rw [readPort_some hScan]
      simp only [denotes_iff, hScan, Option.some.injEq, exists_eq_left', ← ofInt_eq_iff]
      split
      · rename_i hInt
        simp only [Except.ok.injEq, Port.mk.injEq, hInt, true_and, and_congr_right_iff]
        intro _
        constructor
        · rintro rfl
          exact decide_eq_true_iff
        · intro hWarned
          rw [Bool.eq_iff_iff, decide_eq_true_iff]
          exact hWarned.symm
      · rename_i hInt
        simp only [hInt, false_and, iff_false]
        intro hOk
        cases hOk
  outOfRange str := by
    cases hScan : scan str with
    | none => simp [readPort_none hScan, denotes_iff, hScan]
    | some value =>
      rw [readPort_some hScan]
      simp only [denotes_iff, hScan, Option.some.injEq, exists_eq_left']
      split <;> simp [*]
  invalidArgument str := by
    cases hScan : scan str with
    | none => simp [readPort_none hScan, denotes_iff, hScan]
    | some value =>
      rw [readPort_some hScan]
      simp only [denotes_iff, hScan, Option.some.injEq, forall_eq', iff_false]
      split <;> simp
  unique _ _ _ h h' := h.unique h'
  decimal port spaces rest hSpaces hRest := by
    have hDigits : ∀ c ∈ Nat.toDigits 10 port.toNat, c.isDigit = true :=
      fun c => Nat.isDigit_of_mem_toDigits (by decide) (by decide)
    have hValue : (port.toNat : Int) = signed false (Nat.toDigits 10 port.toNat) := by
      simp [signed, Nat.ofDigitChars_ten_toDigits]
    have hDenotes : Denotes (spaces ++ (Nat.toDigits 10 port.toNat ++ rest)) port.toNat :=
      ⟨rfl, hSpaces, .none, Nat.toDigits_ne_nil, hDigits, hRest, hValue⟩
    have hLess := port.toNat_lt
    have hInt : IsInt port.toNat := ⟨by omega, by omega⟩
    have hSame : UInt16.ofInt port.toNat = port := by
      rw [ofInt_eq_iff]
      omega
    have hPort : (0 : Int) ≤ port.toNat ∧ (port.toNat : Int) < 65536 := ⟨by omega, by omega⟩
    rw [readPort_some ((denotes_iff _ _).mp hDenotes), if_pos hInt, hSame]
    simp [hPort]

end Client

end MinecraftNetwork
