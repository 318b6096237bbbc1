import Mathlib.Algebra.Order.Ring.Nat
import Mathlib.Tactic.Ring
import WidgetStyle.Number.Reading
import WidgetStyle.Style.Exchange

/-!
# Numerals of decimals

The layout in which numbers are exchanged writes the digits of a decimal and adds zeros: in front of
them the zeros do not count, and behind them there are so few that a word still holds the number.
So the digits that are collected from the numeral are those of the decimal, or else the decimal was
a whole number, and it has been written with its last zero behind the point.
-/

namespace WidgetStyle.Number

/-! ### Rows of digits -/

namespace Digit

theorem foldl_value (digits : List Digit) (front : Nat) :
    digits.foldl (fun number d => 10 * number + d.val) front =
      front * 10 ^ digits.length + value digits := by
  induction digits generalizing front with
  | nil => simp [value]
  | cons d digits ih =>
    rw [value, List.foldl_cons, List.foldl_cons, ih, ih, List.length_cons, Nat.pow_succ]
    ring

theorem value_cons (d : Digit) (digits : List Digit) :
    value (d :: digits) = d.val * 10 ^ digits.length + value digits := by
  rw [value, List.foldl_cons, foldl_value, Nat.mul_zero, Nat.zero_add]

theorem value_append (front back : List Digit) :
    value (front ++ back) = value front * 10 ^ back.length + value back := by
  rw [value, List.foldl_append, foldl_value]
  rfl

theorem value_zeros (n : Nat) : value (List.replicate n zero) = 0 := by
  induction n with
  | zero => rfl
  | succ n ih =>
    rw [List.replicate_succ, value_cons, ih, Nat.add_zero]
    exact Nat.zero_mul _

/-- The digits of a number stand for it. -/
theorem value_ofNat (n : Nat) : value (ofNat n) = n := by
  fun_induction ofNat n with
  | case1 n hsmall =>
    rw [value_cons, List.length_nil, Nat.pow_zero, Nat.mul_one]
    exact Nat.mod_eq_of_lt hsmall
  | case2 n hlarge ih =>
    rw [value_append, ih, value_cons, List.length_nil, List.length_singleton, Nat.pow_zero,
      Nat.pow_one, Nat.mul_one]
    change n / 10 * 10 + (n % 10 + 0) = n
    omega

theorem ofNat_ne_nil (n : Nat) : ofNat n ≠ [] := by
  fun_cases ofNat n with
  | case1 hsmall => exact List.cons_ne_nil _ _
  | case2 hlarge => exact List.append_ne_nil_of_right_ne_nil _ (List.cons_ne_nil _ _)

theorem lt_pow_length_ofNat (n : Nat) : n < 10 ^ (ofNat n).length := by
  fun_induction ofNat n with
  | case1 n hsmall => exact hsmall
  | case2 n hlarge ih =>
    rw [List.length_append, List.length_singleton, Nat.pow_succ]
    omega

/-- There is no zero in front of the digits of a number. -/
theorem head?_ofNat {n : Nat} (hpos : 0 < n) : (ofNat n).head? ≠ some zero := by
  fun_induction ofNat n with
  | case1 n hsmall =>
    intro hhead
    have hzero : n % 10 = 0 := congrArg Fin.val (Option.some.inj hhead)
    omega
  | case2 n hlarge ih =>
    rw [List.head?_append, Option.or_of_isSome (by simp [ofNat_ne_nil])]
    exact ih (by omega)

end Digit

/-! ### Collected digits -/

/-- The next digit goes from the row into the word. -/
theorem Digit.collect_cons (word : Nat) (d : Digit) (digits : List Digit) :
    word * 10 ^ (d :: digits).length + value (d :: digits) =
      (10 * word + d.val) * 10 ^ digits.length + value digits := by
  rw [value_cons, List.length_cons, Nat.pow_succ]
  ring

theorem Digit.le_collect (word : Nat) (digits : List Digit) :
    word ≤ word * 10 ^ digits.length + value digits :=
  le_trans (Nat.le_mul_of_pos_right _ (Nat.pow_pos (by decide))) (Nat.le_add_right _ _)

namespace Collected

theorem whole_of_fits {word : Nat} {digits : List Digit}
    (hfits : word * 10 ^ digits.length + Digit.value digits < UInt64.size) :
    whole word digits = ⟨word * 10 ^ digits.length + Digit.value digits, 0⟩ := by
  induction digits generalizing word with
  | nil => simp [whole, Digit.value]
  | cons d digits ih =>
    rw [Digit.collect_cons] at hfits ⊢
    rw [whole, if_pos (lt_of_le_of_lt (Digit.le_collect _ _) hfits), ih hfits]

theorem fraction_of_fits {word : Nat} {power : Int} {digits : List Digit}
    (hfits : word * 10 ^ digits.length + Digit.value digits < UInt64.size) :
    fraction ⟨word, power⟩ digits =
      ⟨word * 10 ^ digits.length + Digit.value digits, power - digits.length⟩ := by
  induction digits generalizing word power with
  | nil => simp [fraction, Digit.value]
  | cons d digits ih =>
    rw [Digit.collect_cons] at hfits ⊢
    rw [fraction, if_pos (lt_of_le_of_lt (Digit.le_collect _ _) hfits), ih hfits, Int.sub_sub,
      List.length_cons, Int.natCast_succ, Int.add_comm 1]

/-- If the number of all digits fits a word, none is lost. -/
theorem ofNumeral_of_fits {numeral : Numeral}
    (hfits : Digit.value numeral.digits < UInt64.size) :
    ofNumeral numeral = ⟨Digit.value numeral.digits, numeral.power⟩ := by
  rw [Numeral.digits, Digit.value_append] at hfits
  have hword : whole 0 numeral.whole = ⟨Digit.value numeral.whole, 0⟩ := by
    have hwhole := lt_of_le_of_lt (Digit.le_collect _ _) hfits
    rw [whole_of_fits (by omega), Nat.zero_mul, Nat.zero_add]
  rw [ofNumeral, hword, fraction_of_fits hfits, Numeral.digits, Digit.value_append, Numeral.power]
  exact congrArg (Collected.mk _) (by rw [Int.zero_sub]; exact Int.add_comm _ _)

end Collected

/-! ### Laying out a decimal -/

/-- A numeral has a digit before the point, and no superfluous zero in front of others. -/
structure Numeral.Proper (numeral : Numeral) : Prop where
  whole_ne_nil : numeral.whole ≠ []
  leading : ∀ more, numeral.whole = Digit.zero :: more → more = []

/-- A numeral for the decimal `digits * 10 ^ power`. It is not written as a whole number: it has the
digits of the decimal and its power, or else zeros behind them up to the first place behind the
point. -/
structure Numeral.Writes (numeral : Numeral) (digits : Nat) (power : Int) : Prop where
  proper : numeral.Proper
  notWhole : numeral.isWhole = false
  same : Digit.value numeral.digits = digits ∧ numeral.power = power ∨
    0 ≤ power ∧ Digit.value numeral.digits = digits * 10 ^ (power.toNat + 1) ∧
      Digit.value numeral.digits < 10 ^ 14 ∧ numeral.power = -1

namespace Layout

@[simp]
theorem negative_numeral (layout : Layout) (negative : Bool) (digits : List Digit) (power : Int) :
    (layout.numeral negative digits power).negative = negative := by
  simp only [numeral]
  split
  · rfl
  · split <;> rfl

theorem fraction_of_ne_nil (layout : Layout) {digits : List Digit} (hsome : digits ≠ []) :
    layout.fraction digits = digits := by
  rw [fraction, if_neg]
  rw [Bool.and_eq_true, List.isEmpty_iff]
  exact fun hboth => hsome hboth.1

theorem isWhole_of_fraction {numeral : Numeral} (hsome : numeral.fraction ≠ []) :
    numeral.isWhole = false := by
  rw [Numeral.isWhole, Bool.and_eq_false_iff, List.isEmpty_eq_false_iff]
  exact .inl hsome

variable (negative : Bool) {digits : Nat} {power : Int}

/-- The point is behind the first digit, and an exponent says where it was. -/
theorem writes_exponent :
    Numeral.Writes ⟨negative, (Digit.ofNat digits).take 1, (Digit.ofNat digits).drop 1,
      some ((Digit.ofNat digits).length + power - 1)⟩ digits power := by
  obtain ⟨d, more, hrow⟩ := List.exists_cons_of_ne_nil (Digit.ofNat_ne_nil digits)
  have hvalue := Digit.value_ofNat digits
  rw [hrow] at hvalue ⊢
  refine ⟨⟨List.cons_ne_nil _ _, ?_⟩, ?_, .inl ⟨hvalue, ?_⟩⟩
  · intro rest hwhole
    exact (List.cons.inj hwhole).2.symm
  · exact Bool.and_false _
  · simp only [Numeral.power, Option.getD_some, List.length_cons, List.drop_succ_cons,
      List.drop_zero]
    omega

/-- The point is among the digits. -/
theorem writes_among (hpos : 0 < digits) (hneg : power < 0)
    (hpoint : 0 < (Digit.ofNat digits).length + power) :
    Numeral.Writes ⟨negative,
      (Digit.ofNat digits).take ((Digit.ofNat digits).length + power).toNat,
      (Digit.ofNat digits).drop ((Digit.ofNat digits).length + power).toNat, none⟩
      digits power := by
  have hvalue := Digit.value_ofNat digits
  have hhead := Digit.head?_ofNat hpos
  generalize Digit.ofNat digits = row at *
  refine ⟨⟨?_, ?_⟩, isWhole_of_fraction ?_, .inl ⟨?_, ?_⟩⟩
  · rw [Ne, List.take_eq_nil_iff]
    rintro (hzero | rfl)
    · omega
    · simp only [List.length_nil] at hpoint
      omega
  · intro more hwhole
    have hzero := congrArg List.head? hwhole
    rw [List.head?_take, if_neg (by omega)] at hzero
    exact absurd hzero hhead
  · rw [Ne, List.drop_eq_nil_iff]
    omega
  · rw [Numeral.digits, List.take_append_drop, hvalue]
  · simp only [Numeral.power, Option.getD_none, List.length_drop]
    omega

/-- The point is behind the digits, perhaps with zeros before it. -/
theorem writes_behind (hpos : 0 < digits) (hnonneg : 0 ≤ power)
    (hpoint : (Digit.ofNat digits).length + power ≤ 13) :
    Numeral.Writes ⟨negative, Digit.ofNat digits ++ List.replicate power.toNat Digit.zero,
      [Digit.zero], none⟩ digits power := by
  have hvalue : Digit.value (Digit.ofNat digits ++ List.replicate power.toNat Digit.zero ++
      [Digit.zero]) = digits * 10 ^ (power.toNat + 1) := by
    rw [Digit.value_append, Digit.value_append, Digit.value_ofNat, Digit.value_zeros,
      List.length_replicate, Nat.pow_succ, Nat.add_zero, Nat.mul_assoc]
    rfl
  refine ⟨⟨?_, ?_⟩, isWhole_of_fraction (List.cons_ne_nil _ _),
    .inr ⟨hnonneg, hvalue, hvalue ▸ ?_, rfl⟩⟩
  · exact List.append_ne_nil_of_left_ne_nil (Digit.ofNat_ne_nil _) _
  · intro more hwhole
    have hzero := congrArg List.head? hwhole
    rw [List.head?_append, Option.or_of_isSome (by simp [Digit.ofNat_ne_nil])] at hzero
    exact absurd hzero (Digit.head?_ofNat hpos)
  · calc digits * 10 ^ (power.toNat + 1)
        < 10 ^ (Digit.ofNat digits).length * 10 ^ (power.toNat + 1) :=
          Nat.mul_lt_mul_of_pos_right (Digit.lt_pow_length_ofNat digits) (Nat.pow_pos (by decide))
      _ = 10 ^ ((Digit.ofNat digits).length + (power.toNat + 1)) := (Nat.pow_add _ _ _).symm
      _ ≤ 10 ^ 14 := Nat.pow_le_pow_right (by decide) (by omega)

/-- The point is in front of the digits, perhaps with zeros behind it. -/
theorem writes_front (hpoint : (Digit.ofNat digits).length + power ≤ 0) :
    Numeral.Writes ⟨negative, [Digit.zero],
      List.replicate ((Digit.ofNat digits).length + power).natAbs Digit.zero ++ Digit.ofNat digits,
      none⟩ digits power := by
  refine ⟨⟨List.cons_ne_nil _ _, ?_⟩, isWhole_of_fraction ?_, .inl ⟨?_, ?_⟩⟩
  · intro more hwhole
    exact (List.cons.inj hwhole).2.symm
  · exact List.append_ne_nil_of_right_ne_nil _ (Digit.ofNat_ne_nil _)
  · rw [Numeral.digits, Digit.value_append, Digit.value_append, Digit.value_zeros,
      Digit.value_ofNat]
    change 0 * _ + (0 * _ + digits) = digits
    rw [Nat.zero_mul, Nat.zero_mul, Nat.zero_add, Nat.zero_add]
  · simp only [Numeral.power, Option.getD_none, List.length_append, List.length_replicate]
    omega

/-- **The numeral of a decimal** in an exchanged text. -/
theorem writes_numeral (hpos : 0 < digits) (power : Int) :
    (Layout.exchange.numeral negative (Digit.ofNat digits) power).Writes digits power := by
  have hsome := Digit.ofNat_ne_nil digits
  simp only [numeral]
  split
  · exact writes_exponent negative
  · next hpositional =>
    have hbounds : -5 ≤ (Digit.ofNat digits).length + power ∧
        (Digit.ofNat digits).length + power ≤ 13 := by
      simpa [isPositional, exchange] using hpositional
    split
    · next hpoint =>
      rcases lt_or_ge power 0 with hneg | hnonneg
      · have hzeros : power.toNat = 0 := by omega
        have hfraction : (Digit.ofNat digits).drop
            ((Digit.ofNat digits).length + power).toNat ≠ [] := by
          rw [Ne, List.drop_eq_nil_iff]
          omega
        rw [hzeros, List.replicate_zero, List.append_nil, fraction_of_ne_nil _ hfraction]
        exact writes_among negative hpos hneg hpoint
      · rw [List.take_of_length_le (by rw [List.length_append, List.length_replicate]; omega),
          List.drop_of_length_le (by omega)]
        exact writes_behind negative hpos hnonneg hbounds.2
    · next hpoint =>
      rw [fraction_of_ne_nil _ (List.append_ne_nil_of_right_ne_nil _ hsome)]
      exact writes_front negative (by omega)

theorem numeral_zero :
    Layout.exchange.numeral negative (Digit.ofNat 0) 0 = ⟨negative, [.zero], [.zero], none⟩ := by
  cases negative <;> decide +kernel

theorem writes_zero : (Layout.exchange.numeral negative (Digit.ofNat 0) 0).Writes 0 0 := by
  rw [numeral_zero]
  refine ⟨⟨List.cons_ne_nil _ _, ?_⟩, rfl, .inr ⟨le_rfl, rfl, Nat.pow_pos (by decide), rfl⟩⟩
  intro more hwhole
  exact (List.cons.inj hwhole).2.symm

end Layout

end WidgetStyle.Number
