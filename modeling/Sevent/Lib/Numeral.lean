/-
# Numerals

The text of a number in a base, over any characters: `digit` gives the character
of a digit, and `value` reads one back.  `write` is the text of a natural number,
most significant digit first, and `writeSigned` that of an integer, with a minus
sign in front of a negative one.

A text is `Canonical` for a number when it reads back as that number and begins
with a zero only where it is nothing but a zero; `SignedCanonical` also asks for
the sign of the negative numbers and of no others.
-/

import Mathlib.Data.Nat.Digits.Lemmas

namespace Numeral

variable {α : Type*} {base : ℕ} {digit : ℕ → α} {value : α → Option ℕ}

/-! ### Digits -/

/-- The digits, least significant first: one, for zero. -/
def digits (base n : ℕ) : List ℕ := if n = 0 then [0] else base.digits n

/-- The step of a loop that divides by the base. -/
theorem digits_eq (hbase : 1 < base) (n : ℕ) :
    digits base n = n % base :: if n / base = 0 then [] else digits base (n / base) := by
  unfold digits
  split
  case isTrue hn => simp [hn]
  case isFalse hn =>
    rw [Nat.digits_def' hbase (Nat.pos_of_ne_zero hn)]
    split
    case isTrue hdiv => rw [hdiv, Nat.digits_zero]
    case isFalse hdiv => rfl

theorem digits_lt (hbase : 1 < base) {n d : ℕ} (hd : d ∈ digits base n) : d < base := by
  unfold digits at hd
  split at hd
  case isTrue =>
    obtain rfl := List.mem_singleton.1 hd
    omega
  case isFalse => exact Nat.digits_lt_base hbase hd

theorem digits_ne_nil (base n : ℕ) : digits base n ≠ [] := by
  unfold digits
  split
  case isTrue => exact List.cons_ne_nil _ _
  case isFalse hn => exact Nat.digits_ne_nil_iff_ne_zero.2 hn

theorem ofDigits_digits (base n : ℕ) : Nat.ofDigits base (digits base n) = n := by
  unfold digits
  split
  case isTrue hn => simp [hn]
  case isFalse => exact Nat.ofDigits_digits base n

/-- The most significant digit is a zero only in the numeral of zero. -/
theorem digits_eq_of_getLast {n : ℕ} (h : (digits base n).getLast? = some 0) :
    digits base n = [0] := by
  unfold digits at h ⊢
  split at h
  case isTrue hn => exact if_pos hn
  case isFalse hn =>
    rw [List.getLast?_eq_some_getLast (Nat.digits_ne_nil_iff_ne_zero.2 hn)] at h
    exact absurd (Option.some.inj h) (Nat.getLast_digit_ne_zero base hn)

theorem length_digits_le (hbase : 1 < base) {n k : ℕ} (hk : 0 < k) (hn : n < base ^ k) :
    (digits base n).length ≤ k := by
  unfold digits
  split
  case isTrue => exact hk
  case isFalse => exact (Nat.digits_length_le_iff hbase n).2 hn

/-! ### Natural numbers -/

/-- The numeral of a natural number. -/
def write (base : ℕ) (digit : ℕ → α) (n : ℕ) : List α := ((digits base n).map digit).reverse

/-- One more digit of a numeral that is read. -/
def push (base : ℕ) (value : α → Option ℕ) (n : ℕ) (c : α) : Option ℕ :=
  (value c).map (base * n + ·)

/-- The number that a numeral denotes; `none` for a text that is empty or has a
character that is not a digit. -/
def read (base : ℕ) (value : α → Option ℕ) : List α → Option ℕ
  | [] => none
  | c :: cs => (c :: cs).foldlM (push base value) 0

/-- The numeral of a number without a leading zero. -/
structure Canonical (base : ℕ) (value : α → Option ℕ) (zero : α) (n : ℕ) (text : List α) :
    Prop where
  value : read base value text = some n
  zero : text.head? = some zero → text = [zero]

theorem length_write (base : ℕ) (digit : ℕ → α) (n : ℕ) :
    (write base digit n).length = (digits base n).length := by
  rw [write, List.length_reverse, List.length_map]

theorem write_ne_nil (base : ℕ) (digit : ℕ → α) (n : ℕ) : write base digit n ≠ [] := by
  rw [write, Ne, List.reverse_eq_nil_iff, List.map_eq_nil_iff]
  exact digits_ne_nil base n

/-- Reading from the most significant digit on. -/
theorem foldlM_push {ds : List ℕ} (hvalue : ∀ d ∈ ds, value (digit d) = some d) :
    (ds.map digit).reverse.foldlM (push base value) 0 = some (Nat.ofDigits base ds) := by
  induction ds with
  | nil => rfl
  | cons d ds ih =>
    have hd := hvalue d List.mem_cons_self
    have hds := ih fun e he => hvalue e (List.mem_cons_of_mem _ he)
    rw [List.map_cons, List.reverse_cons, List.foldlM_append, hds]
    simp only [Option.bind_eq_bind, Option.bind_some, List.foldlM_cons, List.foldlM_nil, push, hd,
      Option.map_some, Option.pure_def, Nat.ofDigits_cons]
    rw [add_comm]

theorem read_of_ne_nil {text : List α} (h : text ≠ []) :
    read base value text = text.foldlM (push base value) 0 := by
  cases text with
  | nil => exact absurd rfl h
  | cons c cs => rfl

/-- **A numeral reads back as its number.** -/
theorem read_write (hbase : 1 < base) (hvalue : ∀ d < base, value (digit d) = some d) (n : ℕ) :
    read base value (write base digit n) = some n := by
  rw [read_of_ne_nil (write_ne_nil _ _ _), write,
    foldlM_push fun d hd => hvalue d (digits_lt hbase hd), ofDigits_digits]

/-- What is read only grows with its digits. -/
theorem le_of_foldlM_push (hbase : 0 < base) {text : List α} {k n : ℕ}
    (h : text.foldlM (push base value) k = some n) : k ≤ n := by
  induction text generalizing k with
  | nil => exact (Option.some.inj h).le
  | cons c text ih =>
    rw [List.foldlM_cons] at h
    obtain ⟨m, hm, hrest⟩ := Option.bind_eq_some_iff.1 h
    obtain ⟨d, -, rfl⟩ := Option.map_eq_some_iff.1 hm
    have hmul : k ≤ base * k := Nat.le_mul_of_pos_left k hbase
    have hle := ih hrest
    omega

/-- A numeral of zeros. -/
theorem read_zeros {zero : α} (hzero : value zero = some 0) {text : List α} (hne : text ≠ [])
    (htext : ∀ c ∈ text, c = zero) : read base value text = some 0 := by
  rw [read_of_ne_nil hne]
  induction text with
  | nil => rfl
  | cons c text ih =>
    have hpush : push base value 0 c = some 0 := by
      rw [push, htext c List.mem_cons_self, hzero]
      rfl
    rw [List.foldlM_cons, hpush, Option.bind_eq_bind, Option.bind_some]
    by_cases hnil : text = []
    · rw [hnil]
      rfl
    · exact ih hnil fun c' hc' => htext c' (List.mem_cons_of_mem _ hc')

/-- The digits of `Nat.repr`. -/
theorem write_digitChar (hbase : 1 < base) (n : ℕ) :
    write base Nat.digitChar n = Nat.toDigits base n := by
  induction n using Nat.strong_induction_on with
  | _ n ih =>
    rw [write, Nat.toDigits_eq_if hbase, digits_eq hbase, List.map_cons, List.reverse_cons]
    by_cases hlt : n < base
    · rw [if_pos hlt, if_pos (Nat.div_eq_of_lt hlt), Nat.mod_eq_of_lt hlt]
      rfl
    · have hdiv : n / base ≠ 0 := Nat.div_ne_zero_iff.2 ⟨by omega, Nat.le_of_not_lt hlt⟩
      have hrest := ih (n / base) (Nat.div_lt_self (by omega) hbase)
      rw [if_neg hlt, if_neg hdiv]
      exact congrArg (· ++ [Nat.digitChar (n % base)]) hrest

/-- **A numeral has no leading zero.** -/
theorem canonical_write (hbase : 1 < base) (hvalue : ∀ d < base, value (digit d) = some d)
    (n : ℕ) : Canonical base value (digit 0) n (write base digit n) where
  value := read_write hbase hvalue n
  zero := fun h => by
    rw [write, List.head?_reverse, List.getLast?_map] at h
    obtain ⟨d, hd, hzero⟩ := Option.map_eq_some_iff.1 h
    have hlt : d < base := digits_lt hbase (List.mem_of_getLast? hd)
    have heq := (hvalue d hlt).symm.trans ((congrArg value hzero).trans (hvalue 0 (by omega)))
    obtain rfl : d = 0 := Option.some.inj heq
    rw [write, digits_eq_of_getLast hd]
    rfl

/-- A numeral does not begin with what is no digit. -/
theorem head?_write_ne {minus : α} (hbase : 1 < base)
    (hvalue : ∀ d < base, value (digit d) = some d)
    (hminus : value minus = none) (n : ℕ) : (write base digit n).head? ≠ some minus := by
  intro h
  rw [write, List.head?_reverse, List.getLast?_map] at h
  obtain ⟨d, hd, rfl⟩ := Option.map_eq_some_iff.1 h
  rw [hvalue d (digits_lt hbase (List.mem_of_getLast? hd))] at hminus
  cases hminus

/-! ### Integers -/

variable {minus : α}

/-- The numeral of an integer. -/
def writeSigned (base : ℕ) (digit : ℕ → α) (minus : α) (v : ℤ) : List α :=
  (if v < 0 then [minus] else []) ++ write base digit v.natAbs

theorem length_writeSigned_le (hbase : 1 < base) {v : ℤ} {k : ℕ} (hk : 0 < k)
    (hv : v.natAbs < base ^ k) : (writeSigned base digit minus v).length ≤ k + 1 := by
  have hlen := length_digits_le hbase hk hv
  rw [writeSigned, List.length_append, length_write]
  split <;> simp <;> omega

variable [DecidableEq α]

/-- A text without the minus sign it may begin with. -/
def magnitude (minus : α) (text : List α) : List α :=
  if text.head? = some minus then text.tail else text

/-- The integer that a text denotes. -/
def readSigned (base : ℕ) (value : α → Option ℕ) (minus : α) (text : List α) : Option ℤ :=
  (read base value (magnitude minus text)).map fun n : ℕ =>
    if text.head? = some minus then -(n : ℤ) else n

/-- The numeral of an integer: a minus sign exactly for a negative one, and no
leading zero behind it. -/
structure SignedCanonical (base : ℕ) (value : α → Option ℕ) (zero minus : α) (v : ℤ)
    (text : List α) : Prop where
  value : readSigned base value minus text = some v
  sign : text.head? = some minus ↔ v < 0
  zero : (magnitude minus text).head? = some zero → magnitude minus text = [zero]

/-- **The numeral of an integer** reads back, has the sign and no leading zero. -/
theorem signedCanonical_writeSigned (hbase : 1 < base)
    (hvalue : ∀ d < base, value (digit d) = some d) (hminus : value minus = none) (v : ℤ) :
    SignedCanonical base value (digit 0) minus v (writeSigned base digit minus v) := by
  have hcanon := canonical_write hbase hvalue v.natAbs
  have hhead := head?_write_ne hbase hvalue hminus v.natAbs
  unfold writeSigned
  split
  case isTrue hneg =>
    have hmag : magnitude minus ([minus] ++ write base digit v.natAbs) =
        write base digit v.natAbs := if_pos rfl
    refine ⟨?_, iff_of_true rfl hneg, by rw [hmag]; exact hcanon.zero⟩
    rw [readSigned, hmag, hcanon.value, Option.map_some]
    simp only [List.cons_append, List.head?_cons, if_true, Option.some.injEq]
    omega
  case isFalse hneg =>
    rw [List.nil_append]
    have hmag : magnitude minus (write base digit v.natAbs) = write base digit v.natAbs :=
      if_neg hhead
    refine ⟨?_, iff_of_false hhead hneg, by rw [hmag]; exact hcanon.zero⟩
    rw [readSigned, hmag, hcanon.value, Option.map_some, if_neg hhead]
    congr 1
    omega

end Numeral
