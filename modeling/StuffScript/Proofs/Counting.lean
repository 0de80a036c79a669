import Mathlib.Tactic.Ring
import StuffScript.Host

/-!
# How far doubles count

The product of the first whole numbers is computed by a loop whose counter is a double. Adding one to a
double is exact as long as the sum is at most `2 ^ 53`, and there it comes to rest: `2 ^ 53` is the nearest
double, with an even mantissa, to its successor. So whether the loop ends depends on whether its bound lies
below that number. It does for all bounds that the counter can pass, for negative ones and fractions, and for
those that are no numbers; it does not for `2 ^ 53` and what is greater, infinity among them.

The main statement is `fact_ends_below`. It rests on what adding and comparing doubles do with mantissas and
exponents.
-/

namespace StuffScript.Number

open Float.Model
open Float.Model.UnpackedFloat (Sign ExtendedMantissa packComponents unpackSign)

/-- A mantissa of full length. -/
def Full (m : Nat) : Prop := 2 ^ 52 ≤ m ∧ m < 2 ^ 53

/-- A mantissa of full length is not zero. -/
theorem Full.pos {m : Nat} (h : Full m) : 0 < m := Nat.lt_of_lt_of_le (Nat.two_pow_pos 52) h.1

section Rounding

/-- Shifting loses nothing of what ends in zeros. -/
theorem shiftRight_exact (m n : Nat) :
    ExtendedMantissa.ofMantissaAndAccuracy (m * 2 ^ n) .exact >>> n =
      ExtendedMantissa.ofMantissaAndAccuracy m .exact := by
  change n.repeat ExtendedMantissa.shiftRightOne ⟨m * 2 ^ n, false, false⟩ = ⟨m, false, false⟩
  induction n generalizing m with
  | zero => simp [Nat.repeat]
  | succ n ih =>
    have hshift : m * 2 ^ (n + 1) = m * 2 * 2 ^ n := by ring
    rw [Nat.repeat, hshift, ih]
    simp [ExtendedMantissa.shiftRightOne]

variable {m : Nat} (h : Full m) (n : Nat) {e : Int} (he : -1074 ≤ e + n)

include h in
/-- Shifting a mantissa of full length moves its highest bit by as much. -/
theorem Full.log2_shifted : (m * 2 ^ n).log2 = 52 + n := by
  have hpos : 0 < m * 2 ^ n := Nat.mul_pos h.pos (Nat.two_pow_pos n)
  refine (Nat.log2_eq_iff hpos.ne').mpr ⟨?_, ?_⟩
  · rw [Nat.pow_add]
    exact Nat.mul_le_mul_right _ h.1
  · rw [Nat.add_right_comm, Nat.pow_add]
    exact Nat.mul_lt_mul_of_pos_right h.2 (Nat.two_pow_pos n)

include h he

/-- The exponent that rounding aims at is the one with the mantissa back at full length. -/
theorem targetExponent_full :
    Format.binary64.targetExponent (totalExponent (m * 2 ^ n) e) = e + n := by
  have hbits : Format.binary64.mantissaBits = 53 := rfl
  simp [Format.targetExponent, totalExponent, h.log2_shifted, hbits, Format.minExponent]
  omega

/-- Shifting to that exponent brings the mantissa back and is exact. -/
theorem shiftToTargetExponent_full :
    UnpackedFloat.shiftToTargetExponent .binary64 (m * 2 ^ n) e .exact =
      (.ofMantissaAndAccuracy m .exact, e + n) := by
  have hn : (e + n - e).toNat = n := by omega
  simp only [UnpackedFloat.shiftToTargetExponent, UnpackedFloat.shiftToExponent,
    targetExponent_full h n he]
  rw [hn, shiftRight_exact]

/-- A number with a mantissa of full length needs no rounding. -/
theorem round_full (s : Sign) :
    UnpackedFloat.round .binary64 s (m * 2 ^ n) e = .finite s m (e + n) h.pos := by
  have hkept : UnpackedFloat.decreaseExponent (m * 2 ^ n) e (e + n) = (m * 2 ^ n, e) := by
    simp [UnpackedFloat.decreaseExponent]
  -- The mantissa is rounded to itself, so that shifting it again does nothing.
  have hagain : UnpackedFloat.shiftToTargetExponent .binary64
      (ExtendedMantissa.ofMantissaAndAccuracy m .exact).roundedMantissa (e + n) .exact =
      (.ofMantissaAndAccuracy m .exact, e + n) := by
    have hzero := shiftToTargetExponent_full h 0 (e := e + n) (by omega)
    simp only [Nat.pow_zero, Nat.mul_one, Int.natCast_zero, Int.add_zero] at hzero
    exact hzero
  rw [UnpackedFloat.round, targetExponent_full h n he, hkept]
  dsimp only
  rw [UnpackedFloat.roundWithAccuracy, shiftToTargetExponent_full h n he]
  dsimp only
  rw [hagain]
  exact dif_neg h.pos.ne'

end Rounding

section Packing

/-- The sign is stored as it is. -/
theorem unpackSign_packComponents (s : Sign) (exponent : BitVec 11) (mantissa : BitVec 52) :
    Sign.ofBitVec (unpackSign (packComponents .binary64 s exponent mantissa)) = s := by
  have hsign : unpackSign (packComponents .binary64 s exponent mantissa) = s.toBitVec := by
    delta unpackSign
    simp only [packComponents, BitVec.extractLsb]
    rw [BitVec.extractLsb'_append_eq_of_le (by decide), BitVec.extractLsb'_append_eq_of_le (by decide)]
    simp
  rw [hsign]
  cases s <;> rfl

/-- The highest bit of a mantissa of full length need not be stored. -/
theorem Full.toNat_append {m : Nat} (h : Full m) : (1#1 ++ BitVec.ofNat 52 m).toNat = m := by
  obtain ⟨hlow, hhigh⟩ := h
  rw [BitVec.toNat_append, ← Nat.shiftLeft_add_eq_or_of_lt (BitVec.ofNat 52 m).isLt,
    BitVec.toNat_ofNat, Nat.shiftLeft_eq]
  simp
  omega

/-- Finite numbers are equal if their parts are. -/
theorem finite_eq {s s' : Sign} {m m' : Nat} {e e' : Int} {hm : 0 < m} {hm' : 0 < m'} (hs : s = s')
    (hmantissa : m = m') (he : e = e') : UnpackedFloat.finite s m e hm = .finite s' m' e' hm' := by
  subst hs hmantissa he
  rfl

/-- A number with a mantissa of full length is stored as it is, unless its exponent is extreme. -/
theorem unpack_pack_full {m : Nat} (h : Full m) {e : Int} (hlow : -1074 ≤ e) (hhigh : e ≤ 971)
    (s : Sign) :
    UnpackedFloat.unpack .binary64 (UnpackedFloat.pack .binary64 (.finite s m e h.pos)) =
      .finite s m e h.pos := by
  obtain ⟨stored, rfl⟩ : ∃ stored : Nat, e = stored - 1075 := ⟨(e + 1075).toNat, by omega⟩
  have hbias : (Format.binary64.exponentBias : Int) = 1023 := rfl
  have hbits : Format.binary64.mantissaBits = 53 := rfl
  have hlog : m.log2 = 52 := (Nat.log2_eq_iff h.pos.ne').mpr h
  have hstored : ((stored : Int) - 1075 + Format.binary64.exponentBias + (52 : Nat)).toNat = stored := by
    rw [hbias]
    omega
  have hexponent : (BitVec.ofNat 11 stored).toNat = stored := by
    rw [BitVec.toNat_ofNat]
    omega
  -- The extreme exponents are those of infinities and of numbers without a full mantissa.
  have hne {k : Nat} (hk : k < 2048) (hstored : stored ≠ k) : BitVec.ofNat 11 stored ≠ BitVec.ofNat 11 k := by
    intro heq
    have hnat := congrArg BitVec.toNat heq
    rw [hexponent, BitVec.toNat_ofNat] at hnat
    omega
  have hfinite : BitVec.ofNat 11 stored ≠ -1#11 := hne (k := 2047) (by decide) (by omega)
  have hnormal : BitVec.ofNat 11 stored ≠ 0#11 := hne (k := 0) (by decide) (by omega)
  delta UnpackedFloat.pack
  dsimp only
  rw [hlog, hstored, hbits, if_neg (by omega), if_pos rfl]
  have hunpacked : UnpackedFloat.unpackExponent
      (packComponents .binary64 s (BitVec.ofNat 11 stored) (BitVec.ofNat 52 m)) = BitVec.ofNat 11 stored :=
    UnpackedFloat.unpackExponent_packComponents
  delta UnpackedFloat.unpack
  refine (if_neg (hunpacked.symm ▸ hfinite)).trans ((if_neg (hunpacked.symm ▸ hnormal)).trans ?_)
  refine finite_eq (unpackSign_packComponents ..) ?_ ?_
  · rw [UnpackedFloat.unpackMantissa_packComponents, h.toNat_append]
  · rw [hunpacked, hexponent, hbias]
    rfl

end Packing

section Wholes

/-- A float is a whole number: a mantissa of full length, moved to its place. -/
def IsWhole (u : UnpackedFloat) (k : Nat) : Prop :=
  ∃ (m n : Nat) (h : Full m), u = .finite .positive m (n - 52) h.pos ∧ m * 2 ^ n = k * 2 ^ 52

/-- Up to `2 ^ 53` whole numbers have mantissas of full length. -/
theorem exists_full {k : Nat} (hpos : 0 < k) (hk : k ≤ 2 ^ 53) :
    ∃ m n, Full m ∧ m * 2 ^ n = k * 2 ^ 52 := by
  rcases hk.eq_or_lt with rfl | hlt
  · exact ⟨2 ^ 52, 53, ⟨le_rfl, by decide⟩, by decide⟩
  · obtain ⟨hlow, hhigh⟩ := (Nat.log2_eq_iff hpos.ne').mp rfl
    have hlog : k.log2 ≤ 52 := Nat.le_of_lt_succ ((Nat.log2_lt hpos.ne').mpr hlt)
    obtain ⟨d, hd⟩ := Nat.exists_eq_add_of_le hlog
    refine ⟨k * 2 ^ d, k.log2, ⟨?_, ?_⟩, ?_⟩
    · calc 2 ^ 52 = 2 ^ k.log2 * 2 ^ d := by rw [← Nat.pow_add, ← hd]
        _ ≤ k * 2 ^ d := Nat.mul_le_mul_right _ hlow
    · calc k * 2 ^ d < 2 ^ (k.log2 + 1) * 2 ^ d := Nat.mul_lt_mul_of_pos_right hhigh (Nat.two_pow_pos d)
        _ = 2 ^ 53 := by rw [← Nat.pow_add, Nat.add_right_comm, ← hd]
    · rw [Nat.mul_assoc, ← Nat.pow_add, Nat.add_comm, ← hd]

/-- Where the mantissa of a whole number up to `2 ^ 53` is moved to. -/
theorem Full.place {m n k : Nat} (h : Full m) (hvalue : m * 2 ^ n = k * 2 ^ 52) (hk : k ≤ 2 ^ 53) :
    n < 53 ∨ n = 53 ∧ m = 2 ^ 52 := by
  obtain ⟨hlow, hhigh⟩ := h
  have hpow : 2 ^ n ≤ 2 ^ 53 := by
    refine Nat.le_of_mul_le_mul_left ?_ (Nat.two_pow_pos 52)
    calc 2 ^ 52 * 2 ^ n ≤ m * 2 ^ n := Nat.mul_le_mul_right _ hlow
      _ = k * 2 ^ 52 := hvalue
      _ ≤ 2 ^ 53 * 2 ^ 52 := Nat.mul_le_mul_right _ hk
      _ = 2 ^ 52 * 2 ^ 53 := Nat.mul_comm _ _
  rcases ((Nat.pow_le_pow_iff_right (by decide)).mp hpow).lt_or_eq with hlt | rfl
  · exact .inl hlt
  · refine .inr ⟨rfl, ?_⟩
    omega

/-- The float one. -/
def unit : UnpackedFloat := .finite .positive (2 ^ 52) (-52) (by decide)

/-- The float `2 ^ 53`. -/
def summit : UnpackedFloat := .finite .positive (2 ^ 52) 1 (by decide)

/-- One is a whole number. -/
theorem isWhole_unit : IsWhole unit 1 :=
  ⟨2 ^ 52, 0, ⟨le_rfl, by decide⟩, rfl, by decide⟩

/-- There is one float for `2 ^ 53`. -/
theorem IsWhole.eq_summit {u : UnpackedFloat} (h : IsWhole u (2 ^ 53)) : u = summit := by
  obtain ⟨m, n, hm, rfl, hvalue⟩ := h
  rcases hm.place hvalue le_rfl with hlt | ⟨rfl, rfl⟩
  · have hpow : 2 ^ n ≤ 2 ^ 52 := Nat.pow_le_pow_right (by decide) (Nat.le_of_lt_succ hlt)
    have hless : m * 2 ^ n < 2 ^ 53 * 2 ^ 52 :=
      Nat.mul_lt_mul_of_lt_of_le hm.2 hpow (Nat.two_pow_pos 52)
    exact absurd hvalue hless.ne
  · rfl

/-- A sum above zero is rounded as a positive number. -/
theorem normalize_natCast {m : Nat} (hm : 0 < m) (e : Int) (zeroSign : Sign) :
    UnpackedFloat.normalize .binary64 (m : Int) e zeroSign =
      UnpackedFloat.round .binary64 .positive m e := by
  have hcompare : compare (m : Int) 0 = .gt := compare_gt_iff_gt.mpr (Int.natCast_pos.mpr hm)
  simp [UnpackedFloat.normalize, hcompare]

/-- Adding one to a whole number below `2 ^ 53` is exact. -/
theorem IsWhole.add_unit {u : UnpackedFloat} {k : Nat} (h : IsWhole u k) (hk : k < 2 ^ 53) :
    IsWhole (UnpackedFloat.add .binary64 u unit) (k + 1) := by
  obtain ⟨m, n, hm, rfl, hvalue⟩ := h
  obtain ⟨m', n', hm', hvalue'⟩ := exists_full (Nat.succ_pos k) (Nat.succ_le_of_lt hk)
  refine ⟨m', n', hm', ?_, hvalue'⟩
  have hmin : min ((n : Int) - 52) (-52) = -52 := by omega
  have hshift : ((n : Int) - 52 - -52).toNat = n := by omega
  have hsum : ((m * 2 ^ n : Nat) : Int) + ((2 ^ 52 : Nat) : Int) = ((m' * 2 ^ n' : Nat) : Int) := by
    rw [hvalue, hvalue']
    push_cast
    ring
  calc UnpackedFloat.add .binary64 (.finite .positive m (n - 52) hm.pos) unit
      = UnpackedFloat.normalize .binary64 (((m * 2 ^ n : Nat) : Int) + ((2 ^ 52 : Nat) : Int)) (-52)
          .positive := by
        delta UnpackedFloat.add unit
        dsimp only
        rw [hmin]
        simp only [UnpackedFloat.decreaseExponent, hshift, Nat.shiftLeft_eq, Sign.apply]
        rfl
    _ = UnpackedFloat.round .binary64 .positive (m' * 2 ^ n') (-52) := by
        rw [hsum]
        exact normalize_natCast (Nat.mul_pos hm'.pos (Nat.two_pow_pos n')) _ _
    _ = .finite .positive m' (-52 + n') hm'.pos := round_full hm' n' (by omega) .positive
    _ = .finite .positive m' (n' - 52) hm'.pos := by
        rw [Int.add_comm]
        rfl

/-- Positive floats compare by their exponents, and then by their mantissas. -/
theorem le_finite_iff {m m' : Nat} {e e' : Int} {hm : 0 < m} {hm' : 0 < m'} :
    (UnpackedFloat.finite .positive m e hm).le (.finite .positive m' e' hm') = true ↔
      e < e' ∨ e = e' ∧ m ≤ m' := by
  change ((compare e e').then (compare m m')).isLE = true ↔ _
  rw [Ordering.isLE_then_iff_or, compare_lt_iff_lt, compare_eq_iff_eq, Nat.isLE_compare]

/-- Whole numbers up to `2 ^ 53` are within every bound that `2 ^ 53` is within. -/
theorem IsWhole.le_of_summit_le {u v : UnpackedFloat} {k : Nat} (h : IsWhole u k) (hk : k ≤ 2 ^ 53)
    (hv : summit.le v = true) : u.le v = true := by
  obtain ⟨m, n, hm, rfl, hvalue⟩ := h
  cases v with
  | notANumber => cases hv
  | infinity s =>
    cases s with
    | negative => cases hv
    | positive => rfl
  | zero s => cases hv
  | finite s m' e' hm' =>
    cases s with
    | negative => cases hv
    | positive =>
      rw [summit, le_finite_iff] at hv
      rw [le_finite_iff]
      rcases hm.place hvalue hk with hlt | ⟨rfl, rfl⟩
      · omega
      · omega

end Wholes

section Loop

/-- `2 ^ 53`, which does not change when one is added. -/
def greatestCount : Float := 9007199254740992.0

/-- The double one is the float one. -/
theorem unpack_one : one.toModel.unpack = unit := rfl

/-- The double `2 ^ 53` is the float `2 ^ 53`. -/
theorem unpack_greatestCount : greatestCount.toModel.unpack = summit := rfl

/-- Doubles are added as floats, and the sum is stored. -/
theorem unpack_add (x y : Float) : (x + y).toModel.unpack = UnpackedFloat.unpack .binary64
    (UnpackedFloat.pack .binary64 (UnpackedFloat.add .binary64 x.toModel.unpack y.toModel.unpack)) := rfl

/-- Doubles are compared as floats. -/
theorem le_iff_unpack (x y : Float) : x ≤ y ↔ x.toModel.unpack.le y.toModel.unpack = true :=
  decide_eq_true_iff

/-- Counting on from a whole number below `2 ^ 53` leads to the next one. -/
theorem isWhole_add_one {x : Float} {k : Nat} (h : IsWhole x.toModel.unpack k) (hk : k < 2 ^ 53) :
    IsWhole (x + one).toModel.unpack (k + 1) := by
  obtain ⟨m, n, hm, hsum, hvalue⟩ := h.add_unit hk
  refine ⟨m, n, hm, ?_, hvalue⟩
  have hn : n ≤ 53 := by
    rcases hm.place hvalue (Nat.succ_le_of_lt hk) with hlt | ⟨hn, -⟩
    · exact hlt.le
    · exact hn.le
  rw [unpack_add, unpack_one, hsum]
  exact unpack_pack_full hm (by omega) (by omega) .positive

/-- Counting does not get past `2 ^ 53`. -/
theorem unpack_add_one {x : Float} (h : x.toModel.unpack = summit) : (x + one).toModel.unpack = summit := by
  have hrest : greatestCount + one = greatestCount := by decide +kernel
  rw [← unpack_greatestCount, ← hrest, unpack_add, unpack_add, h, unpack_greatestCount]

/-- The product under way after so many rounds. -/
def reached (rounds : Nat) : Product := Product.next^[rounds] {}

/-- One more round takes the product one step further. -/
theorem reached_succ (rounds : Nat) : reached (rounds + 1) = (reached rounds).next :=
  Function.iterate_succ_apply' ..

/-- After fewer than `2 ^ 53` rounds the counter is one more than the number of rounds. -/
theorem reached_isWhole {rounds : Nat} (h : rounds < 2 ^ 53) :
    IsWhole (reached rounds).counter.toModel.unpack (rounds + 1) := by
  induction rounds with
  | zero => exact isWhole_unit
  | succ rounds ih =>
    rw [reached_succ]
    exact isWhole_add_one (ih (Nat.lt_of_succ_lt h)) h

/-- From then on the counter rests. -/
theorem reached_summit {rounds : Nat} (h : 2 ^ 53 ≤ rounds + 1) :
    (reached rounds).counter.toModel.unpack = summit := by
  obtain ⟨last, hlast⟩ : ∃ last, last + 1 = 2 ^ 53 := ⟨2 ^ 53 - 1, by omega⟩
  have hle : last ≤ rounds := by omega
  clear h
  induction rounds, hle using Nat.le_induction with
  | base =>
    have hwhole := reached_isWhole (show last < 2 ^ 53 by omega)
    rw [hlast] at hwhole
    exact hwhole.eq_summit
  | succ rounds _ ih =>
    rw [reached_succ]
    exact unpack_add_one ih

/-- Bounds from `2 ^ 53` on are never passed. -/
theorem reached_le {bound : Float} (h : greatestCount ≤ bound) (rounds : Nat) :
    (reached rounds).counter ≤ bound := by
  rw [le_iff_unpack] at h ⊢
  rcases Nat.lt_or_ge rounds (2 ^ 53) with hlt | hge
  · exact (reached_isWhole hlt).le_of_summit_le hlt h
  · rw [reached_summit (hge.trans (Nat.le_succ _))]
    exact h

/-- Going on with a product ends after so many rounds: the counter is within the bound before each of them,
and has passed it then. -/
def Product.EndsAfter (bound : Float) (p : Product) (rounds : Nat) : Prop :=
  (∀ j < rounds, (Product.next^[j] p).counter ≤ bound) ∧ ¬ (Product.next^[rounds] p).counter ≤ bound

/-- A product ends after another round if it is due now and then ends. -/
theorem Product.endsAfter_succ {bound : Float} {p : Product} {rounds : Nat} :
    p.EndsAfter bound (rounds + 1) ↔ p.counter ≤ bound ∧ p.next.EndsAfter bound rounds := by
  unfold EndsAfter
  rw [Nat.forall_lt_succ_left']
  simp only [Function.iterate_zero, id, Function.iterate_succ_apply]
  tauto

/-- When the loop ends, its result is the product reached. -/
theorem Product.EndsAfter.upTo_eq {bound : Float} {p : Product} {rounds : Nat}
    (h : p.EndsAfter bound rounds) : p.upTo bound = (Product.next^[rounds] p).value := by
  induction rounds generalizing p with
  | zero =>
    have hpassed : ¬ p.counter ≤ bound := h.2
    rw [Product.upTo_eq, if_neg hpassed]
    rfl
  | succ rounds ih =>
    obtain ⟨hdue, hrest⟩ := endsAfter_succ.mp h
    rw [Product.upTo_eq, if_pos hdue]
    exact ih hrest

/-- A bound that `2 ^ 53` is not within is passed in the end. -/
theorem exists_endsAfter {bound : Float} (h : ¬ greatestCount ≤ bound) :
    ∃ rounds < 2 ^ 53, Product.EndsAfter bound {} rounds := by
  obtain ⟨last, hlast⟩ : ∃ last, last + 1 = 2 ^ 53 := ⟨2 ^ 53 - 1, by omega⟩
  have hpassed : ¬ (reached last).counter ≤ bound := by
    rw [le_iff_unpack, reached_summit hlast.ge, ← unpack_greatestCount, ← le_iff_unpack]
    exact h
  have hsome : ∃ rounds, ¬ (reached rounds).counter ≤ bound := ⟨last, hpassed⟩
  have hfirst : Nat.find hsome ≤ last := Nat.find_min' hsome hpassed
  refine ⟨Nat.find hsome, by omega, fun j hj => ?_, Nat.find_spec hsome⟩
  exact not_not.mp (Nat.find_min hsome hj)

end Loop

/-- **Which factorials are returned.** For a first argument that `2 ^ 53` is not within, be it a fraction,
negative or no number at all, the loop ends after fewer than `2 ^ 53` rounds, and the product that it has
reached is returned. For `2 ^ 53` and every greater number, infinity among them, it never ends: the counter
is within the bound after any number of rounds. -/
theorem fact_ends_below (n : Float) (rest : List Value) :
    (¬ greatestCount ≤ n → ∃ rounds < 2 ^ 53, Product.EndsAfter n {} rounds ∧
      factProgram (.number n :: rest) = .done (.ok (.number (reached rounds).value))) ∧
    (greatestCount ≤ n → ∀ rounds, (reached rounds).counter ≤ n ∧ ¬ Product.EndsAfter n {} rounds) := by
  constructor
  · intro hbelow
    obtain ⟨rounds, hfew, hends⟩ := exists_endsAfter hbelow
    refine ⟨rounds, hfew, hends, ?_⟩
    have hresult : factorial n = (reached rounds).value := hends.upTo_eq
    rw [← hresult]
    rfl
  · intro habove rounds
    have hwithin := reached_le habove rounds
    exact ⟨hwithin, fun hends => hends.2 hwithin⟩

/-- Up to a fraction: the product of the whole numbers below it. -/
theorem fact_ends_below_fraction :
    ¬ greatestCount ≤ 4.5 ∧ factProgram [.number 4.5] = .done (.ok (.number 24.0)) := by
  have hbelow : ¬ greatestCount ≤ 4.5 := by decide +kernel
  obtain ⟨rounds, -, ⟨hdue, hpassed⟩, hresult⟩ := (fact_ends_below 4.5 []).1 hbelow
  have hwithin : ∀ j < 4, (reached j).counter ≤ 4.5 := by decide +kernel
  have hbeyond : ¬ (reached 4).counter ≤ 4.5 := by decide +kernel
  obtain rfl : rounds = 4 := by
    rcases Nat.lt_trichotomy rounds 4 with hlt | rfl | hgt
    · exact absurd (hwithin rounds hlt) hpassed
    · rfl
    · exact absurd (hdue 4 hgt) hbeyond
  have hproduct : (reached 4).value = 24.0 := by decide +kernel
  rw [hproduct] at hresult
  exact ⟨hbelow, hresult⟩

/-- The smallest whole number whose factorial is never returned. -/
theorem fact_endless_at_greatestCount :
    greatestCount = 9007199254740992.0 ∧ ∀ rounds, ¬ Product.EndsAfter greatestCount {} rounds := by
  have hrefl : greatestCount ≤ greatestCount := by decide +kernel
  exact ⟨rfl, fun rounds hends => hends.2 (reached_le hrefl rounds)⟩

end StuffScript.Number
